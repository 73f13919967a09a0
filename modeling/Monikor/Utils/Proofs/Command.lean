/-
When a command's callback is called.

`Completion` is what has been handled so far: whether the process has
exited, whether its output has ended and how, and the bytes that came. The
callback is due at the event that completes it. `Tracks` ties a command to
it, and one step lemma an event says what was called (`Tracks.step`): the
callback is called whenever it is due, but for an output that fails after
the exit.
-/
import Monikor.Lib.Simulation
import Monikor.Utils.Command

namespace Monikor

open Bytes

-- ================================================================= history

/-- No more output follows. -/
def ReadResult.isLast : ReadResult → Bool
  | .noMemory => true
  | .error => true
  | .bytes bs => bs.isEmpty

/-- The output is lost. -/
def ReadResult.isFailure : ReadResult → Bool
  | .noMemory => true
  | .error => true
  | .bytes _ => false

/-- The bytes a turn brings. -/
def ReadResult.content : ReadResult → List UInt8
  | .bytes bs => bs
  | _ => []

/-- The turns of one call: every read but the last fills its request. -/
def Turns : List ReadResult → Prop
  | [] => False
  | .bytes bs :: reads =>
      bs.length < cmdReadSize ∧ reads = []
        ∨ bs.length = cmdReadSize ∧ Turns reads
  | _ :: reads => reads = []

instance Turns.decidable : (reads : List ReadResult) → Decidable (Turns reads)
  | [] => .isFalse id
  | .bytes bs :: reads =>
      have := Turns.decidable reads
      inferInstanceAs (Decidable (bs.length < cmdReadSize ∧ reads = []
        ∨ bs.length = cmdReadSize ∧ Turns reads))
  | .noMemory :: reads => inferInstanceAs (Decidable (reads = []))
  | .error :: reads => inferInstanceAs (Decidable (reads = []))

/-- What has been handled for a command. -/
structure Completion where
  exited : Bool
  ended : Bool
  broken : Bool
  written : List UInt8
deriving DecidableEq

namespace Completion

def start : Completion := ⟨false, false, false, []⟩

def next (H : Completion) : CommandEvent → Completion
  | .output reads =>
      { H with
        ended := H.ended || reads.any (·.isLast)
        broken := H.broken || reads.any (·.isFailure)
        written := H.written ++ reads.flatMap (·.content) }
  | .exited _ => { H with exited := true }

/-- The history of a run of events, as a machine. -/
def tick (ev : CommandEvent) (H : Completion) : Unit × Completion :=
  ((), H.next ev)

/-- Both the output and the process have ended. -/
def both (H : Completion) : Bool := H.exited && H.ended

/-- The event after which both have ended. -/
def due (ev : CommandEvent) (H : Completion) : Bool :=
  (H.next ev).both && !H.both

/-- The output is readable until it has ended, and the process exits
once. -/
def Allows (ev : CommandEvent) (H : Completion) : Prop :=
  match ev with
  | .output reads => Turns reads ∧ H.ended = false
  | .exited _ => H.exited = false

/-- The output does not fail after the process has exited. -/
def InTime (ev : CommandEvent) (H : Completion) : Prop :=
  match ev with
  | .output reads => reads.any (·.isFailure) → H.exited = false
  | .exited _ => True

instance (ev : CommandEvent) (H : Completion) : Decidable (H.Allows ev) :=
  match ev with
  | .output reads => inferInstanceAs (Decidable (Turns reads ∧ H.ended = false))
  | .exited _ => inferInstanceAs (Decidable (H.exited = false))

instance (ev : CommandEvent) (H : Completion) : Decidable (H.InTime ev) :=
  match ev with
  | .output reads =>
      inferInstanceAs (Decidable (reads.any (·.isFailure) → H.exited = false))
  | .exited _ => .isTrue trivial

end Completion

variable {H : Completion} {cmd cmd' : CommandExec} {ev : CommandEvent}
  {junk : Nat → UInt8} {reads : List ReadResult} {bytes bs : List UInt8}
  {p r f : Bool}

/-- The output block starts with the given bytes and a terminator. -/
structure HoldsOutput (cmd : CommandExec) (bytes : List UInt8) : Prop where
  size : cmd.outputSize = bytes.length
  block : ∃ block, cmd.output = some block ∧ (bytes ++ [0]) <+: block

/-- The callbacks of one event: one if it completes the command, with the
whole output unless the command has failed, and else none. -/
def CalledBackAt (H : Completion) (ev : CommandEvent)
    (calls : List CommandExec) : Prop :=
  if H.due ev then
    ∃ cmd, calls = [cmd]
      ∧ (commandFailed cmd.state = false → HoldsOutput cmd (H.next ev).written)
  else calls = []

/-- The callbacks of every event of a run. -/
def CalledBack :
    Completion → List CommandEvent → List (List CommandExec) → Prop
  | _, [], [] => True
  | H, ev :: evs, calls :: outs =>
      CalledBackAt H ev calls ∧ CalledBack (H.next ev) evs outs
  | _, _, _ => False

-- ========================================================== the state byte

/-- The state byte with the given bits. -/
def stateOf (processDone readDone failed : Bool) : UInt8 :=
  (if processDone then commandStateProcessDone else 0)
    ||| (if readDone then commandStateReadDone else 0)
    ||| (if failed then commandStateFailed else 0)

@[simp] theorem stateOf_processDone :
    stateOf p r f ||| commandStateProcessDone = stateOf true r f := by
  cases p <;> cases r <;> cases f <;> rfl

@[simp] theorem stateOf_readDone :
    stateOf p r f ||| commandStateReadDone = stateOf p true f := by
  cases p <;> cases r <;> cases f <;> rfl

@[simp] theorem stateOf_failed :
    stateOf p r f ||| commandStateFailed = stateOf p r true := by
  cases p <;> cases r <;> cases f <;> rfl

@[simp] theorem commandFinished_stateOf :
    commandFinished (stateOf p r f) = (p && r) := by
  cases p <;> cases r <;> cases f <;> rfl

@[simp] theorem commandFailed_stateOf : commandFailed (stateOf p r f) = f := by
  cases p <;> cases r <;> cases f <;> rfl

-- ============================================================== the output

theorem realloc_length (junk : Nat → UInt8) (old : Option (List UInt8))
    (n : Nat) :
    (realloc junk old n).length = n := by
  unfold realloc
  simp only [List.length_append, List.length_map, List.length_range,
    List.length_take]
  omega

/-- What was in the block stays in it. -/
theorem realloc_prefix (junk : Nat → UInt8) {old : Option (List UInt8)}
    {n : Nat}
    (h : bytes <+: old.getD []) (hn : bytes.length ≤ n) :
    bytes <+: realloc junk old n := by
  have htake : bytes <+: (old.getD []).take n :=
    List.prefix_take_iff.mpr ⟨h, hn⟩
  exact htake.trans (List.prefix_append ..)

/-- One read into the grown block, and the terminator behind it. -/
theorem output_grows (junk : Nat → UInt8)
    (hsize : cmd.outputSize = bytes.length)
    (hout : bytes <+: cmd.output.getD []) (hbs : bs.length ≤ cmdReadSize) :
    ∃ m₁ m₂, store (realloc junk cmd.output (cmd.outputSize + cmdReadSize + 1))
          cmd.outputSize bs = .ok m₁
      ∧ store m₁ (cmd.outputSize + bs.length) [0] = .ok m₂
      ∧ (bytes ++ bs ++ [0]) <+: m₂ := by
  have hlen := realloc_length junk cmd.output
    (cmd.outputSize + cmdReadSize + 1)
  have hpre := realloc_prefix junk hout
    (show bytes.length ≤ cmd.outputSize + cmdReadSize + 1 by omega)
  obtain ⟨m₁, hm₁, hpre₁, hlen₁⟩ := store_frontier cmd.outputSize bs hpre hsize
    (by rw [hlen, List.length_append]; omega)
  obtain ⟨m₂, hm₂, hpre₂, -⟩ := store_frontier (cmd.outputSize + bs.length) [0]
    hpre₁ (by rw [hsize, List.length_append])
    (by rw [hlen₁, hlen, List.length_append, List.length_append,
      List.length_singleton]; omega)
  exact ⟨m₁, m₂, hm₁, hm₂, hpre₂⟩

/-- The loop changes the output only. -/
theorem commandOutputLoop_keeps (reads : List ReadResult) :
    ∀ (cmd : CommandExec) {last : Option Nat} {cmd' : CommandExec},
      commandOutputLoop junk reads cmd = some (last, cmd') →
      cmd' = { cmd with
        output := cmd'.output, outputSize := cmd'.outputSize } := by
  induction reads with
  | nil => exact fun cmd last cmd' h => by simp [commandOutputLoop] at h
  | cons res reads ih =>
      intro cmd last cmd' h
      cases res with
      | noMemory =>
          obtain ⟨-, rfl⟩ := Prod.mk.inj (Option.some.inj h)
          rfl
      | error =>
          obtain ⟨-, rfl⟩ := Prod.mk.inj (Option.some.inj h)
          rfl
      | bytes bs =>
          obtain ⟨m₁, -, h⟩ := Option.bind_eq_some_iff.mp h
          obtain ⟨m₂, -, h⟩ := Option.bind_eq_some_iff.mp h
          split at h
          · rw [ih _ h]
          · obtain ⟨-, rfl⟩ := Prod.mk.inj (Option.some.inj h)
            rfl

/-- What the loop leaves of the output: lost after a failure, and else
grown by what came. -/
structure LoopLeaves (reads : List ReadResult) (bytes : List UInt8)
    (last : Option Nat) (cmd' : CommandExec) : Prop where
  failed : last = none ↔ reads.any (·.isFailure) = true
  ended : last = none ∨ last = some 0 ↔ reads.any (·.isLast) = true
  output : last ≠ none →
    HoldsOutput cmd' (bytes ++ reads.flatMap (·.content))

theorem commandOutputLoop_spec (junk : Nat → UInt8)
    (reads : List ReadResult) :
    ∀ (cmd : CommandExec) (bytes : List UInt8), Turns reads →
      cmd.outputSize = bytes.length → bytes <+: cmd.output.getD [] →
      ∃ last cmd', commandOutputLoop junk reads cmd = some (last, cmd')
        ∧ LoopLeaves reads bytes last cmd' := by
  induction reads with
  | nil => exact fun cmd bytes hturns => hturns.elim
  | cons res reads ih =>
      intro cmd bytes hturns hsize hout
      cases res with
      | noMemory =>
          exact ⟨none, _, rfl, by simp [ReadResult.isFailure],
            by simp [ReadResult.isLast], fun h => absurd rfl h⟩
      | error =>
          exact ⟨none, _, rfl, by simp [ReadResult.isFailure],
            by simp [ReadResult.isLast], fun h => absurd rfl h⟩
      | bytes bs =>
          have hbs : bs.length ≤ cmdReadSize := by
            rcases hturns with h | h
            · exact h.1.le
            · exact h.1.le
          obtain ⟨m₁, m₂, hm₁, hm₂, hpre⟩ :=
            output_grows junk hsize hout hbs
          let next := { cmd with
            output := some m₂
            outputSize := cmd.outputSize + bs.length }
          have hnext : next.outputSize = (bytes ++ bs).length := by
            rw [List.length_append, ← hsize]
          rcases hturns with ⟨hlt, rfl⟩ | ⟨hfull, hturns⟩
          · -- the last read of the call
            refine ⟨some bs.length, next, ?_, ?_, ?_, ?_⟩
            · rw [commandOutputLoop, hm₁]
              simp only [Except.toOption, Option.bind_eq_bind, Option.bind_some,
                hm₂]
              exact if_neg hlt.ne
            · simp [ReadResult.isFailure]
            · simp [ReadResult.isLast]
            · intro _
              refine ⟨by simpa [ReadResult.content] using hnext, m₂, rfl, ?_⟩
              simpa [ReadResult.content] using hpre
          · -- a full read, and the loop goes on
            obtain ⟨last, cmd', hrun, hl⟩ := ih next (bytes ++ bs) hturns hnext
              ((List.prefix_append ..).trans hpre)
            have hne : bs ≠ [] := by
              intro e
              subst e
              exact absurd hfull (by decide)
            refine ⟨last, cmd', ?_, ?_, ?_, ?_⟩
            · rw [commandOutputLoop, hm₁]
              simp only [Except.toOption, Option.bind_eq_bind, Option.bind_some,
                hm₂]
              exact (if_pos hfull).trans hrun
            · rw [hl.failed]
              simp [ReadResult.isFailure]
            · rw [hl.ended]
              simp [ReadResult.isLast, hne]
            · intro h
              have hh := hl.output h
              rw [List.append_assoc] at hh
              simpa [ReadResult.content] using hh

-- =================================================================== a step

/-- A command agrees with what has been handled for it. -/
structure Tracks (cmd : CommandExec) (H : Completion) : Prop where
  state : ∃ failed, cmd.state = stateOf H.exited H.ended failed
    ∧ (H.broken = true → failed = true)
  callback : cmd.callback ≠ none
  unended : H.ended = false → H.broken = false
  sofar : H.broken = false →
    cmd.outputSize = H.written.length ∧ H.written <+: cmd.output.getD []
  whole : H.ended = true → H.broken = false → HoldsOutput cmd H.written

/-- A command is started in the child `fork` answers, with nothing done. -/
theorem commandExec_eq_some {o : CommandStart} {callback data : Option Addr}
    (h : commandExec o callback data = some cmd) :
    ∃ pid fd, (startCommand o).map (·.pid) = some pid
      ∧ cmd = { state := 0, pid, status := 0, fd, outputSize := 0,
                output := none, data, callback } := by
  obtain ⟨cmd₀, hstart, h⟩ := Option.bind_eq_some_iff.mp h
  obtain ⟨-, -, h⟩ := Option.bind_eq_some_iff.mp h
  obtain rfl := Option.some.inj h
  have hstart' := hstart
  unfold startCommand at hstart'
  simp only [guard, Option.bind_eq_bind, Option.pure_def,
    Option.bind_eq_some_iff] at hstart'
  obtain ⟨fd, -, -, -, -, -, pid, -, hcmd⟩ := hstart'
  obtain rfl := Option.some.inj hcmd
  exact ⟨pid, fd, by rw [hstart]; rfl, rfl⟩

/-- A command that has just been started. -/
theorem commandExec_tracks {o : CommandStart} {callback : Addr}
    {data : Option Addr} (h : commandExec o (some callback) data = some cmd) :
    Tracks cmd .start := by
  obtain ⟨pid, fd, -, rfl⟩ := commandExec_eq_some h
  exact ⟨⟨false, rfl, fun h => absurd h (by decide)⟩, by simp, fun _ => rfl,
    fun _ => ⟨rfl, List.nil_prefix⟩, fun h => absurd h (by decide)⟩

theorem maybeFinishCommandExec_eq (hstate : cmd.state = stateOf p r f)
    (hcb : cmd.callback ≠ none) :
    maybeFinishCommandExec cmd = if p && r then [cmd] else [] := by
  simp [maybeFinishCommandExec, hstate, hcb]

/-- The exit is noted in the state, with a failure unless it was a clean
one. -/
theorem handleProcessExit_state (status : Int)
    (hstate : cmd.state = stateOf p r f) :
    ∃ bad, (handleProcessExit status cmd).2.state
      = stateOf true r (f || bad) := by
  by_cases hbad : (!wIfExited status || wExitStatus status != 0) = true
  · exact ⟨true, by simp [handleProcessExit, hbad, hstate]⟩
  · exact ⟨false, by simp [handleProcessExit, hbad, hstate]⟩

/-- Nothing else that is asked of a command changes. -/
theorem handleProcessExit_keeps (status : Int) (cmd : CommandExec) :
    (handleProcessExit status cmd).2.pid = cmd.pid
      ∧ (handleProcessExit status cmd).2.callback = cmd.callback
      ∧ (handleProcessExit status cmd).2.outputSize = cmd.outputSize
      ∧ (handleProcessExit status cmd).2.output = cmd.output := by
  by_cases hbad : (!wIfExited status || wExitStatus status != 0) = true
  · simp [handleProcessExit, hbad]
  · simp [handleProcessExit, hbad]

/-- After a loop that has not failed: the end of the output is noted in the
state, and nothing else that is asked of a command changes. -/
theorem commandOutputDone_some (k : Nat) (hstate : cmd.state = stateOf p r f) :
    (commandOutputDone (some k) cmd).2.state = stateOf p (r || decide (k = 0)) f
      ∧ (commandOutputDone (some k) cmd).2.pid = cmd.pid
      ∧ (commandOutputDone (some k) cmd).2.callback = cmd.callback
      ∧ (commandOutputDone (some k) cmd).2.outputSize = cmd.outputSize
      ∧ (commandOutputDone (some k) cmd).2.output = cmd.output := by
  by_cases hk : k = 0
  · simp [commandOutputDone, hk, hstate]
  · simp [commandOutputDone, hk, hstate]

/-- Output says nothing about the process. -/
theorem handleCommandOutput_state {calls : List CommandExec}
    (hstate : cmd.state = stateOf p r f)
    (hrun : handleCommandOutput junk reads cmd = some (calls, cmd')) :
    cmd'.pid = cmd.pid ∧ ∃ r' f', cmd'.state = stateOf p r' f' := by
  obtain ⟨⟨last, cmd₁⟩, hloop, hdone⟩ := Option.bind_eq_some_iff.mp hrun
  have hkeep := commandOutputLoop_keeps reads cmd hloop
  have hpid : cmd₁.pid = cmd.pid := by rw [hkeep]
  have hstate₁ : cmd₁.state = stateOf p r f := by
    rw [hkeep]
    exact hstate
  obtain rfl : (commandOutputDone last cmd₁).2 = cmd' := by
    rw [Option.some.inj hdone]
  cases last with
  | none => exact ⟨hpid, true, true, by simp [commandOutputDone, hstate₁]⟩
  | some k =>
      obtain ⟨hstate₂, hpid₂, -⟩ := commandOutputDone_some k hstate₁
      exact ⟨hpid₂.trans hpid, _, _, hstate₂⟩

/-- The pipe is readable. -/
theorem Tracks.output (h : Tracks cmd H) (hop : H.Allows (.output reads)) :
    ∃ calls cmd', handleCommandOutput junk reads cmd = some (calls, cmd')
      ∧ Tracks cmd' (H.next (.output reads))
      ∧ calls = if H.due (.output reads) = true ∧ H.InTime (.output reads)
          then [cmd'] else [] := by
  obtain ⟨hturns, hended⟩ := hop
  obtain ⟨failed, hstate, hfailed⟩ := h.state
  have hbroken := h.unended hended
  obtain ⟨hsize, hout⟩ := h.sofar hbroken
  obtain ⟨last, cmd₁, hrun, hl⟩ :=
    commandOutputLoop_spec junk reads cmd H.written hturns hsize hout
  have hstate₁ : cmd₁.state = stateOf H.exited H.ended failed := by
    rw [commandOutputLoop_keeps reads cmd hrun]
    exact hstate
  have hcb : cmd₁.callback ≠ none := by
    rw [commandOutputLoop_keeps reads cmd hrun]
    exact h.callback
  cases last with
  | none =>
      have hfail := hl.failed.mp rfl
      have hlast := hl.ended.mp (.inl rfl)
      refine ⟨_, _, by rw [handleCommandOutput, hrun]; rfl, ?_, ?_⟩
      · refine ⟨⟨true, ?_, fun _ => rfl⟩, hcb, ?_, ?_, ?_⟩
        · simp [hstate₁, Completion.next, hlast]
        · simp [Completion.next, hlast]
        · simp [Completion.next, hfail]
        · simp [Completion.next, hfail]
      · -- lost: it is due if the process has exited, and then not in time
        have hlate : ¬ (H.due (.output reads) = true
            ∧ H.InTime (.output reads)) := by
          intro hboth
          have hdue := hboth.1
          simp [Completion.due, Completion.both, Completion.next,
            hboth.2 hfail] at hdue
        rw [if_neg hlate]
  | some k =>
      have hfail : reads.any (·.isFailure) = false := by
        rw [← Bool.not_eq_true, ← hl.failed]
        simp
      have hk : k = 0 ↔ reads.any (·.isLast) = true := by
        rw [← hl.ended]
        simp
      have hholds := hl.output (by simp)
      have htime : H.InTime (.output reads) := fun h =>
        absurd h (by simp [hfail])
      let cmd' := (commandOutputDone (some k) cmd₁).2
      obtain ⟨hdone, -, hcb₂, hsz₂, hout₂⟩ := commandOutputDone_some k hstate₁
      have hstate' : cmd'.state
          = stateOf H.exited (reads.any (·.isLast)) failed := by
        rw [show cmd'.state = _ from hdone, hended, Bool.false_or]
        congr 1
        rw [Bool.eq_iff_iff, decide_eq_true_iff, hk]
      have hholds' : HoldsOutput cmd' (H.next (.output reads)).written := by
        obtain ⟨hsz, block, hblock, hpre⟩ := hholds
        exact ⟨hsz₂.trans hsz, block, hout₂.trans hblock, hpre⟩
      have hcb' : cmd'.callback ≠ none := by
        rw [show cmd'.callback = _ from hcb₂]
        exact hcb
      refine ⟨maybeFinishCommandExec cmd', cmd', ?_, ?_, ?_⟩
      · unfold handleCommandOutput
        rw [hrun]
        rfl
      · refine ⟨⟨failed, ?_, ?_⟩, hcb', ?_, ?_, fun _ _ => hholds'⟩
        · simpa [Completion.next, hended] using hstate'
        · simp [Completion.next, hbroken, hfail]
        · simp [Completion.next, hbroken, hfail]
        · intro _
          obtain ⟨hsz, block, hblock, hpre⟩ := hholds'
          refine ⟨hsz, ?_⟩
          rw [hblock]
          exact (List.prefix_append ..).trans hpre
      · rw [maybeFinishCommandExec_eq hstate' hcb']
        simp [Completion.due, Completion.both, Completion.next, hended, htime]

/-- The process has exited. -/
theorem Tracks.exited {status : Int} (h : Tracks cmd H)
    (hop : H.Allows (.exited status)) :
    Tracks (handleProcessExit status cmd).2 (H.next (.exited status))
      ∧ (handleProcessExit status cmd).1
        = if H.due (.exited status) = true
          then [(handleProcessExit status cmd).2] else [] := by
  have hexited : H.exited = false := hop
  obtain ⟨failed, hstate, hfailed⟩ := h.state
  let cmd' := (handleProcessExit status cmd).2
  obtain ⟨bad, hstate'⟩ := handleProcessExit_state status hstate
  obtain ⟨-, hcb, hsz', hout'⟩ := handleProcessExit_keeps status cmd
  have hcb' : cmd'.callback ≠ none := by
    rw [hcb]
    exact h.callback
  refine ⟨⟨⟨failed || bad, hstate', ?_⟩, hcb', h.unended, ?_, ?_⟩, ?_⟩
  · intro hb
    simp [hfailed hb]
  · intro hb
    obtain ⟨hsz, hout⟩ := h.sofar hb
    exact ⟨hsz'.trans hsz, by rw [hout']; exact hout⟩
  · intro he hb
    obtain ⟨hsz, block, hblock, hpre⟩ := h.whole he hb
    exact ⟨hsz'.trans hsz, block, hout'.trans hblock, hpre⟩
  · show maybeFinishCommandExec cmd' = _
    rw [maybeFinishCommandExec_eq hstate' hcb']
    simp [Completion.due, Completion.both, Completion.next, hexited]

/-- Any event that is allowed: the callback is called if it is due, but for
an output that fails too late. -/
theorem Tracks.step (junk : Nat → UInt8) (h : Tracks cmd H)
    (hop : H.Allows ev) :
    ∃ calls cmd', CommandExec.step junk ev cmd = some (calls, cmd')
      ∧ Tracks cmd' (H.next ev)
      ∧ calls = if H.due ev = true ∧ H.InTime ev then [cmd'] else [] := by
  cases ev with
  | output reads => exact h.output hop
  | exited status =>
      obtain ⟨hnext, hcalls⟩ := h.exited hop
      have htime : H.InTime (.exited status) := trivial
      refine ⟨(handleProcessExit status cmd).1, (handleProcessExit status cmd).2,
        rfl, hnext, ?_⟩
      rw [hcalls]
      simp only [htime, and_true]

/-- The callbacks of an event are as they should be exactly when it is in
time. -/
theorem Tracks.calledBackAt_iff (h : Tracks cmd' (H.next ev))
    (hop : H.Allows ev) :
    CalledBackAt H ev (if H.due ev = true ∧ H.InTime ev then [cmd'] else [])
      ↔ H.InTime ev := by
  by_cases htime : H.InTime ev
  · refine iff_of_true ?_ htime
    by_cases hdue : H.due ev = true
    · unfold CalledBackAt
      rw [if_pos hdue, if_pos ⟨hdue, htime⟩]
      refine ⟨cmd', rfl, fun hok => ?_⟩
      obtain ⟨failed, hstate, hfailed⟩ := h.state
      have hboth : (H.next ev).both = true ∧ H.both = false := by
        simpa [Completion.due] using hdue
      have hended : (H.next ev).ended = true := by
        have hb := hboth.1
        unfold Completion.both at hb
        simp only [Bool.and_eq_true] at hb
        exact hb.2
      apply h.whole hended
      rw [hstate, commandFailed_stateOf] at hok
      rw [← Bool.not_eq_true]
      intro hb
      rw [hfailed hb] at hok
      exact absurd hok (by simp)
    · unfold CalledBackAt
      rw [if_neg hdue, if_neg fun h => hdue h.1]
  · refine iff_of_false ?_ htime
    -- the output has failed after the exit: a call is due
    cases ev with
    | exited status => exact absurd trivial htime
    | output reads =>
        obtain ⟨hfail, hexited⟩ := Classical.not_imp.mp htime
        have hlast : reads.any (·.isLast) = true := by
          obtain ⟨res, hres, hf⟩ := List.any_eq_true.mp hfail
          refine List.any_eq_true.mpr ⟨res, hres, ?_⟩
          cases res with
          | noMemory => rfl
          | error => rfl
          | bytes bs => exact absurd hf (by simp [ReadResult.isFailure])
        have hdue : H.due (.output reads) = true := by
          simp [Completion.due, Completion.both, Completion.next, hlast, hop.2]
          simpa using hexited
        unfold CalledBackAt
        rw [if_pos hdue, if_neg fun h => htime h.2]
        intro hcall
        obtain ⟨c, hc, -⟩ := hcall
        exact absurd hc (by simp)

-- ==================================================================== runs

/-- From a command that agrees with what was handled, a run of events that
are allowed brings the callbacks that are due exactly when no output fails
after the exit. -/
theorem Tracks.run_iff (evs : List CommandEvent) :
    ∀ (cmd : CommandExec) (H : Completion), Tracks cmd H →
      Machine.Meets Completion.tick Completion.Allows evs H →
      ((∃ outs cmd', Machine.run (CommandExec.step junk) evs cmd
          = some (outs, cmd') ∧ CalledBack H evs outs)
        ↔ Machine.Meets Completion.tick Completion.InTime evs H) := by
  induction evs with
  | nil =>
      exact fun cmd H h _ =>
        ⟨fun _ => trivial, fun _ => ⟨[], cmd, rfl, trivial⟩⟩
  | cons ev evs ih =>
      intro cmd H h hallowed
      obtain ⟨hop, hrest⟩ := hallowed
      obtain ⟨calls, cmd₁, hstep, hnext, rfl⟩ := h.step junk hop
      have hih := ih cmd₁ (H.next ev) hnext hrest
      have hat := hnext.calledBackAt_iff hop
      constructor
      · intro hrun
        obtain ⟨outs, cmd', hrun, hcalled⟩ := hrun
        unfold Machine.run at hrun
        simp only [hstep, Option.bind_eq_bind, Option.bind_some,
          Option.pure_def, Option.bind_eq_some_iff] at hrun
        obtain ⟨r, hr, hout⟩ := hrun
        obtain ⟨rfl, rfl⟩ := Prod.mk.inj (Option.some.inj hout)
        exact ⟨hat.mp hcalled.1, hih.mp ⟨r.1, r.2, hr, hcalled.2⟩⟩
      · intro hmeets
        obtain ⟨outs, cmd', hr, hcalled⟩ := hih.mpr hmeets.2
        refine ⟨_ :: outs, cmd', ?_, hat.mpr hmeets.1, hcalled⟩
        simp [Machine.run, hstep, hr]

/-- A command with a callback: over every sequence of its events, the
callback is called once, when the second of its output and its process has
ended, and with the whole output if nothing failed, exactly when the output
does not fail after the process has exited. -/
theorem command_calledBack_iff (junk : Nat → UInt8) (o : CommandStart)
    (callback : Addr) (data : Option Addr) (cmd : CommandExec)
    (evs : List CommandEvent)
    (hstart : commandExec o (some callback) data = some cmd)
    (hallowed : Machine.Meets Completion.tick Completion.Allows evs .start) :
    (∃ outs cmd', Machine.run (CommandExec.step junk) evs cmd = some (outs, cmd')
        ∧ CalledBack .start evs outs)
      ↔ Machine.Meets Completion.tick Completion.InTime evs .start :=
  Tracks.run_iff evs cmd .start (commandExec_tracks hstart) hallowed

/-- Two turns of output, the exit and the end of the output: the callback
comes with the last. -/
theorem command_calledBack_two :
    let o : CommandStart := ⟨some 5, true, true, some 42, true⟩
    let evs : List CommandEvent :=
      [.output [.bytes [104, 105]], .exited 0, .output [.bytes []]]
    ∃ cmd, commandExec o (some 1) none = some cmd
      ∧ ∃ outs cmd', Machine.run (CommandExec.step fun _ => 0) evs cmd
          = some (outs, cmd') ∧ CalledBack .start evs outs :=
  ⟨_, rfl, (command_calledBack_iff _ ⟨some 5, true, true, some 42, true⟩ 1 none
    _ _ rfl (by decide)).mpr (by decide)⟩

/-- The process exits, and then the output cannot be read: the callback is
never called. -/
theorem command_not_calledBack :
    let o : CommandStart := ⟨some 5, true, true, some 42, true⟩
    let evs : List CommandEvent := [.exited 0, .output [.error]]
    Machine.Meets Completion.tick Completion.Allows evs .start
      ∧ ∃ cmd cmd', commandExec o (some 1) none = some cmd
        ∧ Machine.run (CommandExec.step fun _ => 0) evs cmd
          = some ([[], []], cmd')
        ∧ ¬ CalledBack .start evs [[], []] := by
  refine ⟨by decide, _, _, rfl, rfl, ?_⟩
  intro hcalled
  obtain ⟨c, hc, -⟩ := hcalled.2.1
  exact absurd hc (by simp)

end Monikor
