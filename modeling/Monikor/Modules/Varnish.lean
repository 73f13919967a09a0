/-
modules/varnish/varnish.c: the module that runs varnishstat, with the
processes it forks.

The process handlers are the sequence the list holds (IoHandler/List.lean
has the pointers), each with its address; an address is handed out once.
A walk over them calls what is due, in order; after a reaper it goes on
with the link the reaper had.

`children` are the processes forked and not waited for. `waitpid` succeeds
for these and no others, and `fork` answers with none of them, since the
kernel keeps their pids. `kills` logs each `kill`, and whether it went to
one of them. The strings of the module (its paths and arguments) decide
nothing here and are left out.
-/
import Monikor.IoHandler.Process
import Monikor.Lib.Simulation
import Monikor.Utils.Command

namespace Monikor

/-- A `kill`: where it goes, and whether that is a child not waited for. -/
structure Kill where
  pid : Int
  child : Bool
deriving DecidableEq

/-- The `cmd_handler` of a module: where it is, and its command. -/
structure CmdHandler where
  addr : Addr
  cmd : CommandExec
deriving DecidableEq

/-- `varnish_module_t`. -/
structure VarnishModule where
  cmdHandler : Option CmdHandler
deriving DecidableEq

/-- The module, if it is loaded, and what it shares with the agent and the
kernel. -/
structure Varnish where
  mod : Option VarnishModule
  handlers : List (Addr × ProcessHandler)
  children : List Int
  kills : List Kill
  brk : Addr
deriving DecidableEq

namespace Varnish

/-- No module, and no process. -/
def start : Varnish := ⟨none, [], [], [], 0⟩

-- ==================================================== process handlers

/-- `monikor_register_process` of a new handler. -/
def registerProcess (s : Varnish) (v : ProcessHandler) : Varnish :=
  { s with handlers := s.handlers ++ [(s.brk, v)], brk := s.brk + 1 }

/-- `monikor_unregister_process`. -/
def unregisterProcess (s : Varnish) (handler : Addr) : Varnish :=
  { s with handlers := s.handlers.filter (·.1 ≠ handler) }

/-- `monikor_reap_process`; `memory` is what `malloc` answers. -/
def reapProcess (s : Varnish) (pid : Int) (memory : Bool) : Varnish :=
  if memory then
    let s := s.registerProcess ⟨pid, some .reapProcessCallback, 0⟩
    { s with kills := s.kills ++ [⟨pid, decide (pid ∈ s.children)⟩] }
  else s

/-- The callback of a handler: a command takes note of the exit, a reaper
goes. -/
def answerCall (s : Varnish) (call : ExitCall) : Varnish :=
  match call.callback with
  | .handleProcessExit =>
      { s with mod := s.mod.map fun mod =>
          { mod with cmdHandler := mod.cmdHandler.map fun h =>
              if h.addr = call.handler then
                { h with cmd := (handleProcessExit call.status h.cmd).2 }
              else h } }
  | .reapProcessCallback => s.unregisterProcess call.handler

/-- `waitpid`: the status it stores, and the children left. -/
def waitPid (s : Varnish) (pid status : Int) : Int × Varnish :=
  if pid ∈ s.children then
    (status, { s with children := s.children.filter (· ≠ pid) })
  else (0, s)

/-- `monikor_process_exited`, where the process exits with `status`. -/
def processExited (s : Varnish) (pid status : Int) : Varnish :=
  if s.handlers.any (·.2.pid == pid) then
    let (status, s) := s.waitPid pid status
    (s.handlers.filterMap (dueCall pid status)).foldl answerCall s
  else s

-- ============================================================ varnish.c

/-- `varnish_init`. -/
def init (s : Varnish) (memory : Bool) : Varnish :=
  if memory then { s with mod := some ⟨none⟩ } else s

/-- `monikor_command_unregister_io_handlers` and `monikor_command_free`. -/
def commandRelease (s : Varnish) (h : CmdHandler) : Varnish :=
  s.unregisterProcess h.addr

/-- `varnish_cleanup`. -/
def cleanup (s : Varnish) (mod : VarnishModule) (memory : Bool) : Varnish :=
  let s := match mod.cmdHandler with
    | none => s
    | some h => (s.reapProcess h.cmd.pid memory).commandRelease h
  { s with mod := none }

/-- The child a start of a command leaves, if it comes as far as `fork` and
that succeeds. -/
def forked (s : Varnish) (o : CommandStart) : Option Int :=
  match startCommand o with
  | none => none
  | some cmd => if cmd.pid ∈ s.children then none else some cmd.pid

/-- `monikor_command_exec` and `monikor_command_register_io_handlers`; the
callback and its data are the module's. -/
def commandStart (s : Varnish) (o : CommandStart) : Varnish :=
  match s.forked o with
  | none => { s with mod := some ⟨none⟩ }
  | some pid =>
      let s := { s with children := pid :: s.children }
      match commandExec o (some 0) none with
      | none => { s with mod := some ⟨none⟩ }
      | some cmd =>
          { s.registerProcess ⟨pid, some .handleProcessExit, s.brk⟩ with
            mod := some ⟨some ⟨s.brk, cmd⟩⟩ }

/-- `varnish_poll`. -/
def poll (s : Varnish) (mod : VarnishModule) (memory : Bool)
    (o : CommandStart) :
    Varnish :=
  let s := match mod.cmdHandler with
    | none => s
    | some h =>
        let s := if !commandFinished h.cmd.state then
            s.reapProcess h.cmd.pid memory
          else s
        s.commandRelease h
  s.commandStart o

/-- The output pipe of the command is readable. The descriptor is polled
until it is closed. -/
def output (junk : Nat → UInt8) (s : Varnish) (mod : VarnishModule)
    (reads : List ReadResult) : Varnish :=
  match mod.cmdHandler with
  | none => s
  | some h =>
      if h.cmd.fd = -1 then s
      else
        match handleCommandOutput junk reads h.cmd with
        | none => s
        | some (_, cmd) => { s with mod := some ⟨some { h with cmd }⟩ }

-- ================================================================ events

end Varnish

/-- What happens to the module and its processes. -/
inductive VarnishOp where
  | init (memory : Bool)
  | poll (memory : Bool) (o : CommandStart)
  | cleanup (memory : Bool)
  | output (reads : List ReadResult)
  | processExited (pid status : Int)

/-- One event. Only a module that is loaded is polled and cleaned up, and
it is loaded once. -/
def Varnish.step (junk : Nat → UInt8) (op : VarnishOp) (s : Varnish) :
    Unit × Varnish :=
  match op, s.mod with
  | .init memory, none => ((), s.init memory)
  | .poll memory o, some mod => ((), s.poll mod memory o)
  | .cleanup memory, some mod => ((), s.cleanup mod memory)
  | .output reads, some mod => ((), s.output junk mod reads)
  | .processExited pid status, _ => ((), s.processExited pid status)
  | _, _ => ((), s)

end Monikor
