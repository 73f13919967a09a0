/-
How often a module is polled.

A call advances the clock of a due module by its interval, not to the
reading, so the polls of a module follow the number of its slots that have
begun (`slotsBy`), one a call (`Chase.chase`).
-/
import Monikor.Lib.Chase
import Monikor.Core.Poll
import Mathlib.Tactic.Ring

namespace Monikor

open Chase

variable {ω : Type} {clock s c : Int} {mod : Mod ω}

-- =========================================================== counted polls

/-- A module beside a count, which it leaves alone. -/
def Mod.beside (mod : Mod ω) : Mod (ω × Nat) where
  name := mod.name
  config := mod.config
  pollInterval := mod.pollInterval
  lastClock := mod.lastClock
  poll := fun (mon, k) => let (n, mon) := mod.poll mon; (n, mon, k)

/-- A module whose polls are counted. -/
def Mod.counted (mod : Mod ω) : Mod (ω × Nat) where
  name := mod.name
  config := mod.config
  pollInterval := mod.pollInterval
  lastClock := mod.lastClock
  poll := fun (mon, k) => let (n, mon) := mod.poll mon; (n, mon, k + 1)

/-- A turn of the loop beside a count. -/
def PollTurn.beside (call : PollTurn ω) : PollTurn (ω × Nat) where
  before := fun (mon, k) => (call.before mon, k)
  clock := call.clock

/-- How often a run polls the module `mod` between `pre` and `post`. -/
def pollsOf (calls : List (PollTurn ω)) (pre : List (Mod ω)) (mod : Mod ω)
    (post : List (Mod ω)) (mon : ω) : Nat :=
  (pollRun (calls.map .beside)
    (pre.map .beside ++ mod.counted :: post.map .beside) (mon, 0)).2.2

-- ================================================================ one call

/-- The next second a module is polled at. -/
def Mod.nextUpdate (mod : Mod ω) : Int :=
  mod.lastClock + mod.pollInterval.toInt

/-- A module after a call at the reading `clock`. -/
def Mod.after (clock : Int) (mod : Mod ω) : Mod ω :=
  if mod.nextUpdate ≤ clock then { mod with lastClock := mod.nextUpdate }
  else mod

theorem pollModules_append (clock : Int) (a b : List (Mod ω)) (mon : ω) :
    pollModules clock (a ++ b) mon
      = let (errsA, a, mon) := pollModules clock a mon
        let (errsB, b, mon) := pollModules clock b mon
        (errsA + errsB, a ++ b, mon) := by
  induction a generalizing mon with
  | nil => simp [pollModules]
  | cons mod a ih =>
      simp only [List.cons_append, pollModules, ih]
      split <;> simp [Int.add_assoc]

theorem pollModules_beside (clock : Int) (a : List (Mod ω)) (mon : ω)
    (k : Nat) :
    pollModules clock (a.map .beside) (mon, k)
      = let (errs, a, mon) := pollModules clock a mon
        (errs, a.map .beside, mon, k) := by
  induction a generalizing mon with
  | nil => rfl
  | cons mod a ih =>
      have hpoll : pollModule mod.beside (mon, k)
          = ((pollModule mod mon).1, (pollModule mod mon).2, k) := by
        unfold pollModule Mod.beside
        dsimp only
        split <;> rfl
      have hsame : mod.beside.lastClock = mod.lastClock
          ∧ mod.beside.pollInterval = mod.pollInterval := ⟨rfl, rfl⟩
      simp only [List.map_cons, pollModules, hpoll, hsame.1, hsame.2, ih]
      split <;> rfl

theorem pollModules_length (clock : Int) (a : List (Mod ω)) (mon : ω) :
    (pollModules clock a mon).2.1.length = a.length := by
  induction a generalizing mon with
  | nil => rfl
  | cons mod a ih =>
      unfold pollModules
      dsimp only
      split <;> simp [ih]

/-- A call polls a module if it is due, and moves its clock to the slot it
was polled for. -/
theorem pollModules_counted (clock : Int) (pre post : List (Mod ω))
    (mod : Mod ω) (mon : ω) (k : Nat) :
    ∃ errs pre' post' mon', pre'.length = pre.length
      ∧ pollModules clock (pre ++ mod :: post) mon
        = (errs, pre' ++ mod.after clock :: post', mon')
      ∧ pollModules clock
          (pre.map .beside ++ mod.counted :: post.map .beside) (mon, k)
        = (errs, pre'.map .beside
            ++ (mod.after clock).counted :: post'.map .beside, mon',
          if mod.nextUpdate ≤ clock then k + 1 else k) := by
  obtain ⟨errsPre, pre', monPre, hpre⟩ : ∃ errs pre' mon',
      pollModules clock pre mon = (errs, pre', mon') := ⟨_, _, _, rfl⟩
  have hlen : pre'.length = pre.length := by
    rw [← pollModules_length clock pre mon, hpre]
  have hdue : mod.lastClock + mod.pollInterval.toInt = mod.nextUpdate := rfl
  have hsame : mod.counted.lastClock = mod.lastClock
      ∧ mod.counted.pollInterval = mod.pollInterval := ⟨rfl, rfl⟩
  have hpoll : pollModule mod.counted (monPre, k)
      = ((pollModule mod monPre).1, (pollModule mod monPre).2, k + 1) := by
    unfold pollModule Mod.counted
    dsimp only
    split <;> rfl
  by_cases h : mod.nextUpdate ≤ clock
  case pos =>
      obtain ⟨errs, post', mon', hpost⟩ : ∃ errs post' mon',
          pollModules clock post (pollModule mod monPre).2
            = (errs, post', mon') := ⟨_, _, _, rfl⟩
      have hafter : mod.after clock
          = { mod with lastClock := mod.nextUpdate } := if_pos h
      refine ⟨errsPre + ((pollModule mod monPre).1 + errs), pre', post', mon',
        hlen, ?_, ?_⟩
      · simp only [pollModules_append, hpre, pollModules, hdue, if_pos h, hpost,
          hafter]
      · simp only [pollModules_append, pollModules_beside, hpre, pollModules,
          hsame, hdue, if_pos h, hpoll, hpost, hafter]
        rfl
  case neg =>
      obtain ⟨errs, post', mon', hpost⟩ : ∃ errs post' mon',
          pollModules clock post monPre = (errs, post', mon') := ⟨_, _, _, rfl⟩
      have hafter : mod.after clock = mod := if_neg h
      refine ⟨errsPre + errs, pre', post', mon', hlen, ?_, ?_⟩
      · simp only [pollModules_append, hpre, pollModules, hdue, if_neg h, hpost,
          hafter]
      · simp only [pollModules_append, pollModules_beside, hpre, pollModules,
          hsame, hdue, if_neg h, hpost, hafter]

-- ================================================================ the slots

/-- How many slots of a module loaded at second `s` have begun at `c`. -/
def slotsBy (s interval c : Int) : Nat := 1 + ((c - s) / interval).toNat

/-- The module is in slot `k`: it was polled `k` times since second `s`. -/
def InSlot (s : Int) (mod : Mod ω) (k : Nat) : Prop :=
  mod.lastClock = s + (k - 1) * mod.pollInterval.toInt

/-- A module in slot `k` is due when more than `k` slots have begun. -/
theorem InSlot.due {k : Nat} (h : InSlot s mod k)
    (hinterval : 1 ≤ mod.pollInterval.toInt) (hc : s ≤ c) :
    mod.nextUpdate ≤ c ↔ k < slotsBy s mod.pollInterval.toInt c := by
  have hpos : 0 < mod.pollInterval.toInt := by omega
  have hnext : mod.nextUpdate = s + k * mod.pollInterval.toInt := by
    unfold Mod.nextUpdate
    rw [h]
    ring
  have hdiv : 0 ≤ (c - s) / mod.pollInterval.toInt :=
    Int.ediv_nonneg (by omega) (by omega)
  calc mod.nextUpdate ≤ c
      ↔ k * mod.pollInterval.toInt ≤ c - s := by rw [hnext]; omega
    _ ↔ (k : Int) ≤ (c - s) / mod.pollInterval.toInt :=
        (Int.le_ediv_iff_mul_le hpos).symm
    _ ↔ k < slotsBy s mod.pollInterval.toInt c := by
        unfold slotsBy
        omega

/-- A module that is in a slot that has begun is not ahead. -/
theorem InSlot.le {k : Nat} (h : InSlot s mod k)
    (hinterval : 1 ≤ mod.pollInterval.toInt) (hc : s ≤ c)
    (hk : k ≤ slotsBy s mod.pollInterval.toInt c) : mod.lastClock ≤ c := by
  have hpos : 0 < mod.pollInterval.toInt := by omega
  have hdiv : 0 ≤ (c - s) / mod.pollInterval.toInt :=
    Int.ediv_nonneg (by omega) (by omega)
  have hbegun : (k : Int) - 1 ≤ (c - s) / mod.pollInterval.toInt := by
    unfold slotsBy at hk
    omega
  have hmul := (Int.le_ediv_iff_mul_le hpos).mp hbegun
  rw [h]
  omega

theorem slotsBy_mono {interval c' : Int} (hinterval : 1 ≤ interval)
    (h : c ≤ c') : slotsBy s interval c ≤ slotsBy s interval c' := by
  have hdiv : (c - s) / interval ≤ (c' - s) / interval :=
    Int.ediv_le_ediv (by omega) (by omega)
  unfold slotsBy
  omega

/-- A call moves a module on by a slot exactly when it polls it. -/
theorem InSlot.after {k : Nat} (h : InSlot s mod k) :
    InSlot s (mod.after c) (if mod.nextUpdate ≤ c then k + 1 else k) := by
  unfold Mod.after
  split
  case isTrue =>
      unfold InSlot Mod.nextUpdate at *
      dsimp only
      rw [h]
      push_cast
      ring
  case isFalse => exact h

theorem Mod.after_eq (clock : Int) (mod : Mod ω) :
    mod.after clock = { mod with lastClock := (mod.after clock).lastClock } := by
  unfold Mod.after
  split <;> rfl

-- ================================================================= the runs

/-- A run keeps the module where it is, in the slot the count says. -/
theorem pollRun_counted (calls : List (PollTurn ω)) :
    ∀ (pre post : List (Mod ω)) (mon : ω) {mod : Mod ω} {k : Nat},
    1 ≤ mod.pollInterval.toInt → InSlot s mod k →
    (∀ call ∈ calls, s ≤ call.clock) →
    ∃ pre' mod' post' mon' k', pre'.length = pre.length
      ∧ pollRun calls (pre ++ mod :: post) mon = (pre' ++ mod' :: post', mon')
      ∧ pollRun (calls.map .beside)
          (pre.map .beside ++ mod.counted :: post.map .beside) (mon, k)
        = (pre'.map .beside ++ mod'.counted :: post'.map .beside, mon', k')
      ∧ mod' = { mod with lastClock := mod'.lastClock } ∧ InSlot s mod' k'
      ∧ k' = (calls.map fun call =>
          slotsBy s mod.pollInterval.toInt call.clock).foldl follow k := by
  induction calls with
  | nil =>
      intro pre post mon mod k _ hslot _
      exact ⟨pre, mod, post, mon, k, rfl, rfl, rfl, rfl, hslot, rfl⟩
  | cons call calls ih =>
      intro pre post mon mod k hinterval hslot hfirst
      obtain ⟨errs, pre₁, post₁, mon₁, hlen₁, hrun₁, hcount₁⟩ :=
        pollModules_counted call.clock pre post mod (call.before mon) k
      have hdue := hslot.due hinterval (hfirst call (by simp))
      have hsame : (mod.after call.clock).pollInterval = mod.pollInterval := by
        rw [Mod.after_eq]
      obtain ⟨pre', mod', post', mon', k', hlen, hrun, hcount, hmod, hslot',
          hk'⟩ := ih pre₁ post₁ mon₁ (by rwa [hsame])
        (hslot.after (c := call.clock)) fun call' h => hfirst call' (by simp [h])
      refine ⟨pre', mod', post', mon', k', hlen.trans hlen₁, ?_, ?_, ?_, hslot',
        ?_⟩
      · rw [← hrun]
        simp only [pollRun, List.foldl_cons, hrun₁]
      · have hcall : pollModules call.beside.clock
            (pre.map .beside ++ mod.counted :: post.map .beside)
            (call.beside.before (mon, k)) = _ := hcount₁
        rw [← hcount]
        simp only [pollRun, List.map_cons, List.foldl_cons, hcall]
      · rw [hmod, Mod.after_eq]
      · rw [hk', hsame]
        simp only [List.map_cons, List.foldl_cons, follow, hdue]

/-- The modules a run leaves, where `mod` was, and how often it polled it. -/
def Polled (s : Int) (calls : List (PollTurn ω)) (pre : List (Mod ω))
    (mod : Mod ω) (post : List (Mod ω)) (mon : ω) (polls : Nat) : Prop :=
  pollsOf calls pre mod post mon = polls
    ∧ ∃ pre' mod' post' mon', pre'.length = pre.length
      ∧ pollRun calls (pre ++ mod :: post) mon = (pre' ++ mod' :: post', mon')
      ∧ mod' = { mod with lastClock := mod'.lastClock }
      ∧ mod'.lastClock = s + (polls - 1) * mod.pollInterval.toInt
      ∧ ∀ call ∈ calls.getLast?, mod'.lastClock ≤ call.clock

/-- A module loaded at second `s` is polled once a call at most, as often as
its slots have begun, and no slot is lost to a delay or polled twice. -/
theorem pollModules_schedule (pre post : List (Mod ω)) (mon : ω)
    {calls : List (PollTurn ω)} (hinterval : 1 ≤ mod.pollInterval.toInt)
    (hload : mod.lastClock = s - mod.pollInterval.toInt)
    (hrising : (calls.map PollTurn.clock).Pairwise (· ≤ ·))
    (hfirst : ∀ call ∈ calls.head?, s ≤ call.clock) :
    ∃ polls, Polled s calls pre mod post mon polls
      ∧ IsLeast (insert calls.length
          {k | ∃ j call, calls[j]? = some call
            ∧ k = slotsBy s mod.pollInterval.toInt call.clock
              + (calls.length - (j + 1))}) polls := by
  have hall : ∀ call ∈ calls, s ≤ call.clock := by
    intro call hcall
    cases calls with
    | nil => cases hcall
    | cons first rest =>
        have hs : s ≤ first.clock := hfirst first rfl
        rcases List.mem_cons.mp hcall with rfl | hrest
        · exact hs
        · exact hs.trans (List.rel_of_pairwise_cons hrising
            (List.mem_map_of_mem hrest))
  have hstart : InSlot s mod 0 := by
    unfold InSlot
    rw [hload]
    push_cast
    ring
  obtain ⟨pre', mod', post', mon', k, hlen, hrun, hcount, hmod, hslot, hk⟩ :=
    pollRun_counted calls pre post mon hinterval hstart hall
  have hsame : mod'.pollInterval = mod.pollInterval := by rw [hmod]
  have hsorted : (calls.map fun call =>
      slotsBy s mod.pollInterval.toInt call.clock).Pairwise (· ≤ ·) := by
    rw [List.pairwise_map] at hrising ⊢
    exact hrising.imp fun h => slotsBy_mono hinterval h
  have hleast := chase_isLeast hsorted
  rw [← show k = chase _ from hk] at hleast
  refine ⟨k, ⟨?_, pre', mod', post', mon', hlen, hrun, hmod, ?_, ?_⟩, ?_⟩
  · simp only [pollsOf, hcount]
  · unfold InSlot at hslot
    rw [hslot, hsame]
  · intro last hlast
    obtain ⟨before, rfl⟩ := List.getLast?_eq_some_iff.mp hlast
    have hk' : k ≤ slotsBy s mod.pollInterval.toInt last.clock := by
      apply hleast.2
      refine .inr ⟨before.length, slotsBy s mod.pollInterval.toInt last.clock,
        by simp, ?_⟩
      simp
    exact hslot.le (by rw [hsame]; exact hinterval) (hall last (by simp))
      (by rw [hsame]; exact hk')
  · simpa [Allowed, List.getElem?_map] using hleast

/-- A module of interval 10 between two others, loaded at second 100, over a
stall from second 101 to 155: the calls after it make up for the five slots
that began meanwhile, one each. -/
theorem pollModules_schedule_late :
    let mod (interval : Int32) : Mod Unit :=
      ⟨CString.a, .null, interval, 100 - interval.toInt, fun mon => (-1, mon)⟩
    let calls := [100, 101, 155, 156, 157, 158, 159].map (PollTurn.mk id)
    ∃ polls, Polled 100 calls [mod 7] (mod 10) [mod 3] () polls
      ∧ IsLeast (insert calls.length
          {k | ∃ j call, calls[j]? = some call
            ∧ k = slotsBy 100 10 call.clock + (calls.length - (j + 1))})
        polls := by
  intro mod calls
  exact pollModules_schedule [mod 7] [mod 3] () (by decide) rfl
    (by decide) (by decide)

end Monikor
