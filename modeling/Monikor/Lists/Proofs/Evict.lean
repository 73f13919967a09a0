/-
What the two evictions remove, exactly.

The cache gives up metrics from the front until its size fits, so it loses
the fewest that make it fit (`evictCacheLoop_isLeast`). The delta list
loses what `_timecmp` puts before the cut-off. `_timecmp` returns the
difference of the seconds as an `int`, so what it returns is that
difference modulo 2^32 (`timecmp_toInt`), and it puts two clocks in their
order exactly when this keeps the sign.
-/
import Mathlib.Order.Bounds.Defs
import Monikor.Lists.Proofs.Owned

namespace Monikor

open Machine

variable {h : Heap} {A : Lists} {st : StoreRef} {cs : List Cell}
  {a b clock : Timeval}

-- ============================================================== the cache

section Sizes

variable {α : Type*} (w : α → Nat) (maxSize : Nat)

/-- What eviction keeps is a suffix. -/
theorem evictCacheLoop_drop (l : List α) :
    (Seq.evictCacheLoop w maxSize l).2
      = l.drop (Seq.evictCacheLoop w maxSize l).1.length := by
  calc (Seq.evictCacheLoop w maxSize l).2
      = ((Seq.evictCacheLoop w maxSize l).1
          ++ (Seq.evictCacheLoop w maxSize l).2).drop
            (Seq.evictCacheLoop w maxSize l).1.length := by rw [List.drop_left]
    _ = _ := by rw [Seq.evictCacheLoop_append]

/-- It removes as few as it takes. -/
theorem evictCacheLoop_isLeast (l : List α) :
    IsLeast {n | Seq.dataSize w (l.drop n) ≤ maxSize}
      (Seq.evictCacheLoop w maxSize l).1.length := by
  induction l with
  | nil => exact ⟨Nat.zero_le _, fun n _ => Nat.zero_le n⟩
  | cons a l ih =>
      unfold Seq.evictCacheLoop
      split
      case isTrue hover =>
          refine ⟨ih.1, fun n hn => ?_⟩
          cases n with
          | zero => exact absurd hover (Nat.not_lt.mpr hn)
          | succ n => exact Nat.succ_le_succ (ih.2 hn)
      case isFalse hfit => exact ⟨Nat.not_lt.mp hfit, fun n _ => Nat.zero_le n⟩

end Sizes

/-- Cache eviction, exactly: it ends without a fault, returns the least
number of metrics without which the cache fits, and leaves the rest of the
cache in its order and the two other lists as they were. -/
theorem evictCache_least (st : StoreRef) (maxSize : Nat) (hr : Rep h A)
    (hl : A st.cache = some cs) (hcur : st.current ≠ st.cache)
    (hdel : st.delta ≠ st.cache) :
    ∃ n h' A', h.metricStoreEvictCache st maxSize = some (n, h')
      ∧ IsLeast {k | cellsSize (cs.drop k) ≤ maxSize} n
      ∧ Rep h' A' ∧ A' st.cache = some (cs.drop n)
      ∧ A' st.current = A st.current ∧ A' st.delta = A st.delta := by
  obtain ⟨h', hrun, hr', -⟩ := metricStoreEvictCache_spec hr hl maxSize
  refine ⟨_, h', _, hrun, evictCacheLoop_isLeast Cell.size maxSize cs, hr',
    ?_, Function.update_of_ne hcur .., Function.update_of_ne hdel ..⟩
  rw [Function.update_self, evictCacheLoop_drop]

/-- Two metrics of 73 bytes each in the cache, and room for one. -/
theorem evictCache_least_one :
    let m (t : Int64) : Metric := ⟨CString.a, 0, ⟨t, 0⟩, .int 1, 0⟩
    ∃ h A st cs, Rep h A ∧ A st.cache = some cs
      ∧ cs.map Cell.metric = [m 10, m 11]
      ∧ ∃ n h' A', h.metricStoreEvictCache st 100 = some (n, h')
        ∧ IsLeast {k | cellsSize (cs.drop k) ≤ 100} n
        ∧ Rep h' A' ∧ A' st.cache = some (cs.drop n)
        ∧ A' st.current = A st.current ∧ A' st.delta = A st.delta := by
  intro m
  obtain ⟨u, A₀, c₀, -, hs₀, hc₀⟩ := start_settled
  obtain ⟨u', -, A, c, hs, hc⟩ := (storeUse_simulates hostFloat).run
    [.storePush (m 10), .storePush (m 11), .cache] u _ ⟨A₀, c₀, hs₀.holds, hc₀⟩
  exact ⟨_, A, u'.store, c.cache, hs.rep, hs.cache,
    (congrArg Store.cache hc).trans (by decide),
    evictCache_least u'.store 100 hs.rep hs.cache hs.ne.2.1 hs.ne.2.2⟩

-- ================================================================= clocks

/-- The order of clocks: seconds first, then microseconds. -/
def Timeval.Before (a b : Timeval) : Prop :=
  a.sec < b.sec ∨ a.sec = b.sec ∧ a.usec < b.usec

instance (a b : Timeval) : Decidable (a.Before b) :=
  inferInstanceAs (Decidable (_ ∨ _))

/-- Microseconds make less than a second. -/
def Timeval.Normal (t : Timeval) : Prop :=
  0 ≤ t.usec.toInt ∧ t.usec.toInt < 1000000

instance (t : Timeval) : Decidable t.Normal :=
  inferInstanceAs (Decidable (_ ∧ _))

/-- How far the seconds of two clocks are apart. -/
def secondsApart (a b : Timeval) : Int := a.sec.toInt - b.sec.toInt

/-- `_timecmp` orders the two clocks as they are. -/
structure Agrees (a b : Timeval) : Prop where
  before : timecmp a b < 0 ↔ a.Before b
  same : timecmp a b = 0 ↔ a = b
  after : 0 < timecmp a b ↔ b.Before a

/-- Modulo 2^32 the seconds between two clocks keep their sign. -/
def SignKept (a b : Timeval) : Prop :=
  ((secondsApart a b).bmod (2 ^ 32)).sign = (secondsApart a b).sign

instance (a b : Timeval) : Decidable (SignKept a b) :=
  inferInstanceAs (Decidable (_ = _))

/-- Modulo 2^32 the seconds between two clocks are negative where they
are. -/
def BeforeKept (a b : Timeval) : Prop :=
  (secondsApart a b).bmod (2 ^ 32) < 0 ↔ secondsApart a b < 0

instance (a b : Timeval) : Decidable (BeforeKept a b) :=
  inferInstanceAs (Decidable (_ ↔ _))

theorem toInt32_sub (x y : Int64) :
    (x - y).toInt32.toInt = (x.toInt - y.toInt).bmod (2 ^ 32) := by
  rw [Int64.toInt_toInt32, Int64.toInt_sub]
  exact Int.bmod_bmod_of_dvd (by decide)

/-- What `_timecmp` returns. -/
theorem timecmp_toInt (a b : Timeval) :
    (timecmp a b).toInt
      = if a.sec ≠ b.sec then (secondsApart a b).bmod (2 ^ 32)
        else (a.usec.toInt - b.usec.toInt).bmod (2 ^ 32) := by
  unfold timecmp
  split <;> exact toInt32_sub ..

/-- Microseconds are compared as they are. -/
theorem timecmp_normal {a b : Timeval} (ha : a.Normal) (hb : b.Normal) :
    (timecmp a b).toInt
      = if secondsApart a b = 0 then a.usec.toInt - b.usec.toInt
        else (secondsApart a b).bmod (2 ^ 32) := by
  have hsec : secondsApart a b = 0 ↔ a.sec = b.sec := by
    rw [secondsApart, Int.sub_eq_zero, Int64.toInt_inj]
  have husec : (a.usec.toInt - b.usec.toInt).bmod (2 ^ 32)
      = a.usec.toInt - b.usec.toInt := by
    unfold Timeval.Normal at ha hb
    exact Int.bmod_eq_of_le (by omega) (by omega)
  rw [timecmp_toInt, husec]
  by_cases heq : a.sec = b.sec
  · rw [if_neg (not_not.mpr heq), if_pos (hsec.mpr heq)]
  · rw [if_pos heq, if_neg (mt hsec.mp heq)]

/-- The order of clocks, by the seconds and microseconds apart. -/
theorem before_iff : a.Before b ↔ secondsApart a b < 0
    ∨ secondsApart a b = 0 ∧ a.usec.toInt - b.usec.toInt < 0 := by
  unfold Timeval.Before secondsApart
  rw [Int64.lt_iff_toInt_lt, Int64.lt_iff_toInt_lt, ← Int64.toInt_inj]
  omega

theorem same_iff : a = b ↔ secondsApart a b = 0
    ∧ a.usec.toInt - b.usec.toInt = 0 := by
  cases a
  cases b
  simp only [Timeval.mk.injEq, secondsApart, ← Int64.toInt_inj]
  omega

/-- `_timecmp` is negative for the clocks in order exactly when the seconds
keep being negative. -/
theorem timecmp_before_iff (ha : a.Normal) (hb : b.Normal) :
    (timecmp a b < 0 ↔ a.Before b) ↔ BeforeKept a b := by
  have hcmp := timecmp_normal ha hb
  rw [Int32.lt_iff_toInt_lt, hcmp, before_iff]
  unfold BeforeKept
  by_cases hd : secondsApart a b = 0
  · simp [hd]
  · simp [hd]

theorem sign_eq_iff {r d : Int} (hd : d ≠ 0) :
    (r < 0 ↔ d < 0) ∧ (r = 0 ↔ False) ∧ (0 < r ↔ -d < 0)
      ↔ r.sign = d.sign := by
  rcases Int.lt_or_gt_of_ne hd with hneg | hpos
  · rw [Int.sign_eq_neg_one_of_neg hneg, Int.sign_eq_neg_one_iff_neg, iff_false]
    omega
  · rw [Int.sign_eq_one_of_pos hpos, Int.sign_eq_one_iff_pos, iff_false]
    omega

/-- `_timecmp` orders two clocks as they are exactly when the seconds keep
their sign. -/
theorem agrees_iff (ha : a.Normal) (hb : b.Normal) :
    Agrees a b ↔ SignKept a b := by
  have hcmp := timecmp_normal ha hb
  have hneg : secondsApart b a = - secondsApart a b := by
    unfold secondsApart
    omega
  have hagrees : Agrees a b ↔ (timecmp a b < 0 ↔ a.Before b)
      ∧ (timecmp a b = 0 ↔ a = b) ∧ (0 < timecmp a b ↔ b.Before a) :=
    ⟨fun h => ⟨h.before, h.same, h.after⟩, fun h => ⟨h.1, h.2.1, h.2.2⟩⟩
  rw [hagrees, Int32.lt_iff_toInt_lt, Int32.lt_iff_toInt_lt,
    ← Int32.toInt_inj, hcmp, before_iff, before_iff, same_iff, hneg]
  unfold SignKept
  by_cases hd : secondsApart a b = 0
  · simp [hd]
  · simp only [hd, if_false, false_and, or_false, Int.neg_eq_zero]
    exact sign_eq_iff hd

/-- Delta eviction removes exactly the entries whose clock is before the
cut-off, keeps the others in their order, and returns how many it
removed. -/
def EvictsBefore (h : Heap) (A : Lists) (st : StoreRef) (cs : List Cell)
    (clock : Timeval) : Prop :=
  ∃ h', h.metricStoreEvictDelta st clock
      = some (cs.countP fun c => c.metric.clock.Before clock, h')
    ∧ Rep h' (Function.update A st.delta
        (some (cs.filter fun c => ¬ c.metric.clock.Before clock)))

/-- What delta eviction does: it goes by `_timecmp`. -/
theorem evictDelta_spec (st : StoreRef) (clock : Timeval) (hr : Rep h A)
    (hl : A st.delta = some cs) :
    ∃ h', h.metricStoreEvictDelta st clock
        = some (cs.countP fun c => timecmp c.metric.clock clock < 0, h')
      ∧ Rep h' (Function.update A st.delta
          (some (cs.filter fun c => ¬ timecmp c.metric.clock clock < 0))) := by
  obtain ⟨h', ps, hrun, hr', -, -⟩ := metricListRemoveIf_spec
    (fun clock m => (evictDeltaPredicate m clock, clock)) clock hr hl
  rw [Seq.metricListRemoveIf_pure
    fun clock (c : Cell) => evictDeltaPredicate c.metric clock] at hrun hr'
  refine ⟨h', hrun, ?_⟩
  simp only [decide_not]
  exact hr'

/-- Delta eviction, exactly, for clocks whose microseconds make less than a
second: `_timecmp` orders the clock of an entry and the cut-off as they are
if and only if the seconds between them keep their sign modulo 2^32, and
what is removed are the entries before the cut-off if and only if these
seconds are negative modulo 2^32 where they are negative. -/
theorem evictDelta_exact_iff (st : StoreRef) (clock : Timeval)
    (hr : Rep h A) (hl : A st.delta = some cs) (hclock : clock.Normal)
    (hcs : ∀ c ∈ cs, c.metric.clock.Normal) :
    ((∀ c ∈ cs, Agrees c.metric.clock clock)
        ↔ ∀ c ∈ cs, SignKept c.metric.clock clock)
      ∧ (EvictsBefore h A st cs clock
        ↔ ∀ c ∈ cs, BeforeKept c.metric.clock clock) := by
  constructor
  · exact forall₂_congr fun c hc => agrees_iff (hcs c hc) hclock
  obtain ⟨h', hrun, hr'⟩ := evictDelta_spec st clock hr hl
  have hiff : (∀ c ∈ cs, BeforeKept c.metric.clock clock)
      ↔ ∀ c ∈ cs, decide (timecmp c.metric.clock clock < 0)
        = decide (c.metric.clock.Before clock) := by
    apply forall₂_congr
    intro c hc
    rw [← timecmp_before_iff (hcs c hc) hclock, decide_eq_decide]
  rw [hiff]
  constructor
  · intro hev
    obtain ⟨h'', hrun', hr''⟩ := hev
    rw [hrun] at hrun'
    obtain ⟨-, rfl⟩ := Prod.mk.inj (Option.some.inj hrun')
    have hkept := congrFun (hr'.unique hr'') st.delta
    rw [Function.update_self, Function.update_self] at hkept
    intro c hc
    -- an entry is kept on one side as on the other
    have hmem : c ∈ cs.filter (fun c => ¬ timecmp c.metric.clock clock < 0)
        ↔ c ∈ cs.filter fun c => ¬ c.metric.clock.Before clock := by
      rw [Option.some.inj hkept]
    simp only [List.mem_filter, hc, true_and, decide_eq_true_eq] at hmem
    exact decide_eq_decide.mpr (not_iff_not.mp hmem)
  · intro hsame
    have hkept : cs.filter (fun c => ¬ timecmp c.metric.clock clock < 0)
        = cs.filter fun c => ¬ c.metric.clock.Before clock := by
      apply List.filter_congr
      intro c hc
      rw [decide_not, decide_not, hsame c hc]
    refine ⟨h', ?_, hkept ▸ hr'⟩
    rw [hrun, List.countP_congr fun c hc => by rw [hsame c hc]]

/-- Two clocks: the cut-off is between them. -/
theorem evictDelta_exact_two :
    let m (t : Int64) : Metric := ⟨CString.a, 0, ⟨t, 0⟩, .int 1, metricDelta⟩
    let cutoff : Timeval := ⟨20, 0⟩
    ∃ h A st cs, Rep h A ∧ A st.delta = some cs
      ∧ cs.map Cell.metric = [{ m 10 with id := 1 }, m 30]
      ∧ ((∀ c ∈ cs, Agrees c.metric.clock cutoff)
        ↔ ∀ c ∈ cs, SignKept c.metric.clock cutoff)
      ∧ (EvictsBefore h A st cs cutoff
        ↔ ∀ c ∈ cs, BeforeKept c.metric.clock cutoff) := by
  intro m cutoff
  obtain ⟨u, A₀, c₀, -, hs₀, hc₀⟩ := start_settled
  obtain ⟨u', -, A, c, hs, hc⟩ := (storeUse_simulates hostFloat).run
    [.storePush { m 10 with id := 1 }, .storePush (m 30)] u _
    ⟨A₀, c₀, hs₀.holds, hc₀⟩
  have hmetrics : c.delta.map Cell.metric = [{ m 10 with id := 1 }, m 30] :=
    (congrArg Store.delta hc).trans (by decide)
  have hnormal : ∀ c' ∈ c.delta, c'.metric.clock.Normal := by
    intro c' hc'
    have hall : ∀ m' ∈ [{ m 10 with id := 1 }, m 30], m'.clock.Normal := by
      decide
    exact hall _ (hmetrics ▸ List.mem_map_of_mem hc')
  exact ⟨_, A, u'.store, c.delta, hs.rep, hs.delta, hmetrics,
    evictDelta_exact_iff u'.store cutoff hs.rep hs.delta (by decide) hnormal⟩

/-- An entry from the year 2038, 2^31 seconds past the cut-off, is put
before it and removed. -/
theorem evictDelta_not_exact :
    let m : Metric :=
      ⟨CString.a, 0, ⟨2147483648, 0⟩, .int 1, metricDelta⟩
    let cutoff : Timeval := ⟨0, 0⟩
    m.clock.Normal ∧ cutoff.Normal ∧ ¬ Agrees m.clock cutoff
      ∧ ∃ h A st cs, Rep h A ∧ A st.delta = some cs
        ∧ cs.map Cell.metric = [m] ∧ ¬ EvictsBefore h A st cs cutoff := by
  intro m cutoff
  refine ⟨by decide, by decide, fun hagrees => ?_, ?_⟩
  · exact absurd (hagrees.before.mp (by decide)) (by decide)
  obtain ⟨u, A₀, c₀, -, hs₀, hc₀⟩ := start_settled
  obtain ⟨u', -, A, c, hs, hc⟩ := (storeUse_simulates hostFloat).run
    [.storePush m] u _ ⟨A₀, c₀, hs₀.holds, hc₀⟩
  have hmetrics : c.delta.map Cell.metric = [m] :=
    (congrArg Store.delta hc).trans (by decide)
  refine ⟨_, A, u'.store, c.delta, hs.rep, hs.delta, hmetrics, fun hev => ?_⟩
  obtain ⟨h₁, hrun₁, -⟩ := evictDelta_spec u'.store cutoff hs.rep hs.delta
  obtain ⟨h₂, hrun₂, -⟩ := hev
  obtain ⟨hcount, -⟩ :=
    Prod.mk.inj (Option.some.inj (hrun₁.symm.trans hrun₂))
  have hmap : ∀ p : Metric → Bool,
      c.delta.countP (fun x => p x.metric) = [m].countP p := by
    intro p
    rw [← hmetrics, List.countP_map]
    rfl
  rw [hmap fun m => timecmp m.clock cutoff < 0,
    hmap fun m => m.clock.Before cutoff] at hcount
  revert hcount
  decide

end Monikor
