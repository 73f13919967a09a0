/-
utils/command.c: a command the agent runs, from the pipe its output comes
through to the callback.

# The output

`read(2)` on the pipe answers with bytes, none at the end of the output,
or an error; the block the bytes go to grows before each read. What a
call of `handle_command_output` meets is the list of what its turns met,
so `none` is a loop that is not through with them, or a write outside the
block. `junk` is what memory holds where nothing has been written.

# The callback

A function that may call the callback answers with the command as it was
at each call.
-/
import Monikor.Lib.Bytes
import Monikor.Lists.Heap

namespace Monikor

open Bytes

-- ================================================================= utils.h

/-- `MNK_COMMAND_EXEC_STATE_PROCESS_DONE`. -/
def commandStateProcessDone : UInt8 := 1

/-- `MNK_COMMAND_EXEC_STATE_READ_DONE`. -/
def commandStateReadDone : UInt8 := 2

/-- `MNK_COMMAND_EXEC_STATE_FAILED`. -/
def commandStateFailed : UInt8 := 4

/-- `MNK_COMMAND_EXEC_STATE_FINISHED`. -/
def commandStateFinished : UInt8 :=
  commandStateProcessDone + commandStateReadDone

/-- `monikor_command_finished`. -/
def commandFinished (state : UInt8) : Bool :=
  state &&& commandStateFinished == commandStateFinished

/-- `monikor_command_failed`. -/
def commandFailed (state : UInt8) : Bool := state &&& commandStateFailed != 0

/-- `command_exec_t`, with the descriptor of its output handler. -/
structure CommandExec where
  state : UInt8
  pid : Int
  status : Int
  fd : Int
  outputSize : Nat
  output : Option (List UInt8)
  data : Option Addr
  callback : Option Addr
deriving DecidableEq

-- =============================================================== wait(2)

/-- `WIFEXITED`. -/
def wIfExited (status : Int) : Bool := status % 128 == 0

/-- `WEXITSTATUS`. -/
def wExitStatus (status : Int) : Int := status / 256 % 256

-- =============================================================== command.c

/-- `MNK_CMD_READ_SIZE`. -/
def cmdReadSize : Nat := 4096

/-- `maybe_finish_command_exec`. -/
def maybeFinishCommandExec (cmd : CommandExec) : List CommandExec :=
  if commandFinished cmd.state ∧ cmd.callback ≠ none then [cmd] else []

/-- What one turn of the loop of `handle_command_output` meets. -/
inductive ReadResult where
  | noMemory
  | error
  | bytes (bs : List UInt8)
deriving DecidableEq

section Output

variable (junk : Nat → UInt8)

/-- `realloc` of a block, or of NULL, to `n` bytes. -/
def realloc (old : Option (List UInt8)) (n : Nat) : List UInt8 :=
  let old := (old.getD []).take n
  old ++ (List.range (n - old.length)).map fun i => junk (old.length + i)

/-- The loop of `handle_command_output`: what the last read returned, or
`none` for a jump to `err`. -/
def commandOutputLoop : List ReadResult → CommandExec →
    Option (Option Nat × CommandExec)
  | [], _ => none
  | .noMemory :: _, cmd => some (none, { cmd with output := none })
  | .error :: _, cmd =>
      let output := realloc junk cmd.output (cmd.outputSize + cmdReadSize + 1)
      some (none, { cmd with output := some output })
  | .bytes bs :: reads, cmd => do
      let output := realloc junk cmd.output (cmd.outputSize + cmdReadSize + 1)
      let output ← (store output cmd.outputSize bs).toOption
      let outputSize := cmd.outputSize + bs.length
      let output ← (store output outputSize [0]).toOption
      let cmd := { cmd with output := some output, outputSize }
      if bs.length = cmdReadSize then commandOutputLoop reads cmd
      else some (some bs.length, cmd)

/-- `handle_command_output` once its loop has ended. -/
def commandOutputDone (readBytes : Option Nat) (cmd : CommandExec) :
    List CommandExec × CommandExec :=
  match readBytes with
  | some readBytes =>
      let cmd := if readBytes = 0 then
          { cmd with state := cmd.state ||| commandStateReadDone, fd := -1 }
        else cmd
      (maybeFinishCommandExec cmd, cmd)
  | none =>
      ([], { cmd with
        state := cmd.state ||| commandStateReadDone ||| commandStateFailed
        outputSize := 0
        output := none
        fd := -1 })

/-- `handle_command_output`. -/
def handleCommandOutput (reads : List ReadResult) (cmd : CommandExec) :
    Option (List CommandExec × CommandExec) := do
  let (readBytes, cmd) ← commandOutputLoop junk reads cmd
  return commandOutputDone readBytes cmd

end Output

/-- `handle_process_exit`. -/
def handleProcessExit (status : Int) (cmd : CommandExec) :
    List CommandExec × CommandExec :=
  let cmd := { cmd with status, state := cmd.state ||| commandStateProcessDone }
  let cmd := if !wIfExited status || wExitStatus status != 0 then
      { cmd with state := cmd.state ||| commandStateFailed }
    else cmd
  (maybeFinishCommandExec cmd, cmd)

/-- What the system answers while a command is started: the read end of
the pipe, whether there is memory for the command, its output handler and
its process handler, and the child. -/
structure CommandStart where
  pipe : Option Int
  cmd : Bool
  outputHandler : Bool
  fork : Option Int
  processHandler : Bool

/-- `start_command`, in the parent. -/
def startCommand (o : CommandStart) : Option CommandExec := do
  let fd ← o.pipe
  guard o.cmd
  guard o.outputHandler
  let pid ← o.fork
  return { state := 0, pid, status := 0, fd, outputSize := 0, output := none,
           data := none, callback := none }

/-- `monikor_command_exec`: the command its process handler carries. -/
def commandExec (o : CommandStart) (callback : Option Addr)
    (data : Option Addr) :
    Option CommandExec := do
  let cmd ← startCommand o
  guard o.processHandler
  return { cmd with callback, data }

-- ================================================================== events

/-- What happens to a command: its output pipe is readable, or the process
has exited. -/
inductive CommandEvent where
  | output (reads : List ReadResult)
  | exited (status : Int)
deriving DecidableEq

/-- The callbacks an event brings, and the command it leaves. -/
def CommandExec.step (junk : Nat → UInt8) :
    CommandEvent → CommandExec → Option (List CommandExec × CommandExec)
  | .output reads, cmd => handleCommandOutput junk reads cmd
  | .exited status, cmd => some (handleProcessExit status cmd)

end Monikor
