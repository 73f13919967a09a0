/-
modules/redis/redis.c: the command the instances of the module send.

`info_command` is one pointer, static in the library and so shared by all
the instances. An instance with a password builds its command into it; a
poll hands it to `monikor_net_exchange`, which writes it once there is a
connection (`handle_io_connect` in net.c); a cleanup frees it.

`buffers` are the commands built and not freed yet. An address is handed
out once. `none` is a use of a command that has been freed: one that is
written, or freed again.

The operations are calls for instances that `redis_init` has returned,
numbered in the order they were made; others do nothing. Hosts, ports and
the metrics made of a response decide nothing here and are left out.
-/
import Mathlib.Logic.Function.Basic
import Monikor.Lists.Heap

namespace Monikor

-- =============================================================== commands

/-- `INFO_COMMAND`. -/
def infoCommandText : List UInt8 := [73, 78, 70, 79, 13, 10]

/-- `%zu`. -/
def decimal (n : Nat) : List UInt8 :=
  (Nat.toDigits 10 n).map fun c => UInt8.ofNat c.toNat

/-- `"*2\r\n$4\r\nAUTH\r\n$%zu\r\n%s\r\n%s"`, of the length of a password,
the password and `INFO_COMMAND`. -/
def authCommand (auth : CString) : List UInt8 :=
  [42, 50, 13, 10, 36, 52, 13, 10, 65, 85, 84, 72, 13, 10, 36]
    ++ decimal auth.strlen ++ [13, 10] ++ auth.bytes ++ [13, 10]
    ++ infoCommandText

/-- What a connection in the making is to send. -/
inductive SendPtr where
  | literal
  | buffer (p : Addr)
deriving DecidableEq

/-- `redis_module_t`: the password, and what its connection in the making
is to send, if there is one. -/
structure RedisModule where
  auth : Option CString
  sending : Option SendPtr
deriving DecidableEq

/-- The command of an instance: AUTH with its own password and INFO, or
INFO. -/
def RedisModule.command (m : RedisModule) : List UInt8 :=
  match m.auth with
  | some auth => authCommand auth
  | none => infoCommandText

-- ================================================================ redis.c

/-- The library's static pointer, the commands, and the instances. -/
structure Redis where
  infoCommand : Option Addr
  buffers : Addr → Option (List UInt8)
  brk : Addr
  mods : Nat → Option RedisModule
  count : Nat

/-- How `asprintf` ends: with the command, or failing with NULL in the
pointer, or with what was in it. -/
inductive Asprintf where
  | built
  | null
  | kept
deriving DecidableEq

namespace Redis

/-- The library as it is loaded. -/
def start : Redis := ⟨none, fun _ => none, 0, fun _ => none, 0⟩

/-- `(void)asprintf(&info_command, ...)`. -/
def buildCommand (result : Asprintf) (auth : CString) (s : Redis) : Redis :=
  match result with
  | .built =>
      { s with
        infoCommand := some s.brk
        buffers := Function.update s.buffers s.brk (some (authCommand auth))
        brk := s.brk + 1 }
  | .null => { s with infoCommand := none }
  | .kept => s

/-- `redis_init`; `memory` is whether there is memory for the module. -/
def init (auth : Option CString) (memory : Bool) (result : Asprintf)
    (s : Redis) : Redis :=
  if memory then
    let s := { s with
      mods := Function.update s.mods s.count (some ⟨auth, none⟩)
      count := s.count + 1 }
    match auth with
    | some auth => s.buildCommand result auth
    | none => s
  else { s with count := s.count + 1 }

/-- `info_command ? info_command : INFO_COMMAND`. -/
def command (s : Redis) : SendPtr :=
  match s.infoCommand with
  | some p => .buffer p
  | none => .literal

/-- The characters of a command, unless it has been freed. -/
def chars (s : Redis) : SendPtr → Option (List UInt8)
  | .literal => some infoCommandText
  | .buffer p => s.buffers p

/-- `redis_poll`; `exchange` is whether `monikor_net_exchange` could start
a connection. -/
def poll (i : Nat) (exchange : Bool) (s : Redis) : Redis :=
  match s.mods i with
  | none => s
  | some m =>
      { s with
        mods := Function.update s.mods i
          (some { m with
            sending := if exchange then some s.command else none }) }

/-- `handle_io_connect`, when it gives up or when it writes: the bytes
written. -/
def connected (i : Nat) (writes : Bool) (s : Redis) :
    Option (Option (List UInt8) × Redis) :=
  match s.mods i with
  | none => some (none, s)
  | some m =>
      match m.sending with
      | none => some (none, s)
      | some ptr =>
          let s' := { s with
            mods := Function.update s.mods i (some { m with sending := none }) }
          if writes then do
            let bytes ← s.chars ptr
            return (some bytes, s')
          else some (none, s')

/-- `redis_cleanup`. -/
def cleanup (i : Nat) (s : Redis) : Option Redis :=
  match s.mods i with
  | none => some s
  | some _ =>
      let s := { s with mods := Function.update s.mods i none }
      match s.infoCommand with
      | none => some s
      | some p =>
          if s.buffers p = none then none
          else some { s with buffers := Function.update s.buffers p none }

/-- The last `dlclose`, when no instance is left, unloads the library. -/
def unload (s : Redis) : Redis :=
  if ∀ i < s.count, s.mods i = none then { s with infoCommand := none } else s

end Redis

-- =================================================================== runs

inductive RedisOp where
  | init (auth : Option CString) (memory : Bool) (result : Asprintf)
  | poll (i : Nat) (exchange : Bool)
  | connected (i : Nat) (writes : Bool)
  | cleanup (i : Nat)
  | unload

/-- One call: the bytes it writes, and the state left. -/
def Redis.step : RedisOp → Redis → Option (Option (List UInt8) × Redis)
  | .init auth memory result, s => some (none, s.init auth memory result)
  | .poll i exchange, s => some (none, s.poll i exchange)
  | .connected i writes, s => s.connected i writes
  | .cleanup i, s => (s.cleanup i).map fun s => (none, s)
  | .unload, s => some (none, s.unload)

end Monikor
