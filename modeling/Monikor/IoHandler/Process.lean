/-
io_handler/monikor.c: what the agent does when a process has exited.

The callbacks run inside the walk over the handlers. A command's leaves
the list alone (what it does to the command is in Utils/Command.lean); a
reaper's unregisters the reaper and frees it. `none` is a read of a
handler that is not live, or a walk that does not end within its fuel.
-/
import Monikor.IoHandler.List

namespace Monikor

open Linked

variable {μ : Type}

/-- A call of a handler's callback. -/
structure ExitCall where
  handler : Addr
  callback : ProcessCallback
  status : Int
deriving DecidableEq

/-- `monikor_process_watched`, from a handler on. -/
def processWatchedFrom (l : HandlerList μ) (pid : Int) :
    Nat → Option Addr → Option Bool
  | 0, _ => none
  | _ + 1, none => some false
  | fuel + 1, some handler => do
      let n ← l.processes.node handler
      if n.val.pid = pid then return true
      processWatchedFrom l pid fuel n.next

/-- `monikor_process_watched`. -/
def processWatched (fuel : Nat) (l : HandlerList μ)
    (pid : Int) : Option Bool :=
  processWatchedFrom l pid fuel l.processes.first

/-- `reap_process_callback`. -/
def reapProcessCallback (l : HandlerList μ) (handler : Addr) :
    Option (HandlerList μ) := do
  let l ← ioHandlerListRemoveProcess l handler
  let processes ← l.processes.free handler
  return { l with processes }

/-- `handler->callback(handler, status)`, on the list. -/
def ProcessCallback.run (l : HandlerList μ) (handler : Addr) :
    ProcessCallback → Option (HandlerList μ)
  | handleProcessExit => some l
  | reapProcessCallback => Monikor.reapProcessCallback l handler

/-- The call a handler is due, if it is registered for the process. -/
def dueCall (pid status : Int) (x : Addr × ProcessHandler) : Option ExitCall :=
  if x.2.pid = pid then x.2.callback.map (⟨x.1, ·, status⟩) else none

/-- The body of the loop of `monikor_process_exited`. -/
def exitedHandler (pid status : Int) (l : HandlerList μ) (handler : Addr) :
    Option (List ExitCall × HandlerList μ) := do
  let n ← l.processes.node handler
  if n.val.pid ≠ pid then return ([], l)
  match n.val.callback with
  | none => return ([], l)
  | some callback => do
      let l ← callback.run l handler
      return ([⟨handler, callback, status⟩], l)

/-- The loop of `monikor_process_exited`. The link to the next handler is
read once the callback has returned. -/
def processExitedLoop (pid status : Int) :
    Nat → HandlerList μ → Option Addr → Option (List ExitCall × HandlerList μ)
  | 0, _, _ => none
  | _ + 1, l, none => some ([], l)
  | fuel + 1, l, some handler => do
      let (calls, l) ← exitedHandler pid status l handler
      let n ← l.processes.node handler
      let (rest, l) ← processExitedLoop pid status fuel l n.next
      return (calls ++ rest, l)

/-- `monikor_process_exited`; `waited` is the status `waitpid` stores, if
it succeeds. -/
def processExited (fuel : Nat) (l : HandlerList μ) (pid : Int)
    (waited : Option Int) : Option (List ExitCall × HandlerList μ) := do
  if !(← processWatched fuel l pid) then return ([], l)
  processExitedLoop pid (waited.getD 0) fuel l l.processes.first

/-- `monikor_reap_process`, on the list: the address of the reaper, if
`malloc` finds one. `none` when there is none, and nothing is killed. -/
def reapProcess (l : HandlerList μ) (pid : Int) (mon : Addr)
    (reaper : Option Addr) : Option (Option (HandlerList μ)) :=
  match reaper with
  | none => some none
  | some a => do
      let l := processHandlerNew l a pid (some .reapProcessCallback) mon
      let l ← ioHandlerListPushProcess l a
      return some l

end Monikor
