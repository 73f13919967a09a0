/-
poll.c: the modules of the agent and when they are polled.

Seconds are `Int` for `time_t`: a clock that is set is never more than an
interval away from a reading of the system's. A callback works on the rest
of the agent, `ω`, and leaves the module array alone.
-/
import Monikor.Config.Dict

namespace Monikor

/-- `monikor_mod_t`, as the core uses it: `poll` is the callback, on the data
of the module, and `lastClock` the seconds of `last_clock`. -/
structure Mod (ω : Type) where
  name : CString
  config : ConfigDict
  pollInterval : Int32
  lastClock : Int
  poll : ω → Int × ω

variable {ω : Type}

/-- `poll_module`. -/
def pollModule (mod : Mod ω) (mon : ω) : Int × ω :=
  let (nMetrics, mon) := mod.poll mon
  if nMetrics = -1 then (1, mon) else (0, mon)

/-- `monikor_poll_modules`: the errors, the modules with their clocks, and
the rest of the agent. -/
def pollModules (clock : Int) : List (Mod ω) → ω → Int × List (Mod ω) × ω
  | [], mon => (0, [], mon)
  | mod :: modules, mon =>
      let nextUpdate := mod.lastClock + mod.pollInterval.toInt
      if nextUpdate ≤ clock then
        let (err, mon) := pollModule mod mon
        let (errs, modules, mon) := pollModules clock modules mon
        (err + errs, { mod with lastClock := nextUpdate } :: modules, mon)
      else
        let (errs, modules, mon) := pollModules clock modules mon
        (errs, mod :: modules, mon)

/-- A turn of the loop of `monikor_run`: what it did to the rest of the agent
since the last poll, and the reading it polls at. -/
structure PollTurn (ω : Type) where
  before : ω → ω
  clock : Int

/-- The polls of a run. -/
def pollRun (calls : List (PollTurn ω)) (modules : List (Mod ω)) (mon : ω) :
    List (Mod ω) × ω :=
  calls.foldl (fun (modules, mon) call =>
    (pollModules call.clock modules (call.before mon)).2) (modules, mon)

end Monikor
