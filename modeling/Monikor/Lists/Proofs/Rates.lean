/-
The rates that are emitted: when they are numbers, and not negative.

A DELTA push matches the first entry of its key whose clock `_timecmp`
tells from its own, whichever of the two is the later; a rate divides by
the difference, new minus stored. `Forward` is what two readings of one
counter have to be to each other: of two that a rate is computed between,
the later push has the later clock, and the interval and the rate are in
the range of their types. What a delta list holds was pushed before
(`push_delta_mem`), so a run whose readings are pairwise forward emits only
rates that are right, and two readings of which the later push has not the
later clock make a run of two pushes that does not.
-/
import Monikor.Lists.Proofs.RateValue
import Monikor.Lists.Proofs.Unique

namespace Monikor

open Machine

variable {F : FloatOps} {s : Store Metric} {a b m : Metric}

-- ============================================================ vocabulary

/-- A DELTA metric `b` pushed against `a` stored gives a rate. -/
def Rated (F : FloatOps) (a b : Metric) : Prop :=
  a.isTimedelta = true ∧ b.isDelta = true ∧ NotBelow F a.value b.value = true

/-- What is pushed on top of a stored metric it matches gives a right rate,
if it gives one. -/
def RateSound (F : FloatOps) (m : Metric) (s : Store Metric) : Prop :=
  ∀ a, s.delta.find? (isCachedMetric m) = some a → Rated F a m →
    RateRight F a m

/-- So it is for each metric of a list, when its turn comes. -/
def RatesSound (F : FloatOps) : List Metric → Store Metric → Prop
  | [], _ => True
  | m :: ms, s =>
      RateSound F m s ∧ RatesSound F ms (Seq.metricStorePush F s m).2

/-- What a call hands over, in the order it is pushed. -/
def StoreOp.handed : StoreOp → List Metric
  | .storePush m => [m]
  | .metricPush m => [m]
  | .lpush ms => ms
  | _ => []

/-- Two readings of one counter, the second pushed after the first: if
they give a rate, and `_timecmp` tells their clocks apart, the second
clock is the later one. -/
def Later (F : FloatOps) (a b : Metric) : Prop :=
  a.key = b.key → Rated F a b → timecmp b.clock a.clock ≠ 0 →
    0 < exactInterval a b

/-- And then the interval does not overflow, and floats have a rate that a
`float` can be. -/
def Forward (F : FloatOps) (a b : Metric) : Prop :=
  a.key = b.key → Rated F a b → timecmp b.clock a.clock ≠ 0 →
    0 < exactInterval a b ∧ IntervalFits a b
      ∧ ValuesFit a.value b.value (exactInterval a b)

instance : Decidable (Rated F a b) := instDecidableAnd

instance : Decidable (Later F a b) :=
  inferInstanceAs (Decidable (a.key = b.key → _))

instance : Decidable (Forward F a b) :=
  inferInstanceAs (Decidable (a.key = b.key → _))

-- ================================================================= pushes

/-- An entry of the delta list was there before the push, or is what was
pushed. -/
theorem push_delta_mem (h : a ∈ (Seq.metricStorePush F s m).2.delta) :
    a ∈ s.delta ∨ a = m := by
  rcases metricStorePush_cases (F := F) s m with
    ⟨-, hrun⟩ | ⟨-, -, hrun⟩
      | ⟨pre, stored, post, -, hl, -, -, ⟨-, hrun⟩ | ⟨new, -, hrun⟩⟩
  · obtain ⟨current, hcomputed, -, -⟩ :=
      metricStorePushComputed_cases (F := F) s m
    rw [hrun, hcomputed] at h
    exact .inl h
  · rw [hrun] at h
    simpa [Seq.metricListPush] using h
  · rw [hrun] at h
    exact .inl h
  · obtain ⟨current, hcomputed, -, -⟩ := metricStorePushComputed_cases
      (F := F) { s with delta := pre ++ m :: post } new
    rw [hrun, hcomputed] at h
    rw [hl]
    simp only [List.mem_append, List.mem_cons] at h ⊢
    tauto

/-- A push that is forward of all that was pushed before is sound. -/
theorem rateSound_of_forward (hF : F.Ieee) {past : List Metric}
    (hpast : ∀ c ∈ s.delta, c ∈ past) (h : ∀ c ∈ past, Forward F c m) :
    RateSound F m s := by
  intro a hfind hrated
  obtain ⟨hkey, hclock⟩ := isCachedMetric_iff.mp (List.find?_some hfind)
  obtain ⟨hpos, hfits, hvalues⟩ :=
    h a (hpast a (List.mem_of_find?_eq_some hfind)) hkey hrated hclock
  exact computeDelta_right hF hrated.1 hrated.2.2 hfits hvalues hpos

/-- The same for a list of metrics, each forward of the ones before. -/
theorem ratesSound_of_forward (hF : F.Ieee) (ms : List Metric) :
    ∀ (past : List Metric) (s : Store Metric),
      (∀ c ∈ s.delta, c ∈ past) → (past ++ ms).Pairwise (Forward F) →
      RatesSound F ms s
        ∧ ∀ c ∈ (Seq.metricStoreLpush F s ms).2.delta, c ∈ past ++ ms := by
  induction ms with
  | nil =>
      intro past s hpast _
      exact ⟨trivial, fun c hc => by simpa using hpast c hc⟩
  | cons m ms ih =>
      intro past s hpast h
      have hm : ∀ c ∈ past, Forward F c m := fun c hc =>
        (List.pairwise_append.mp h).2.2 c hc m (List.mem_cons_self ..)
      have hkept : ∀ c ∈ (Seq.metricStorePush F s m).2.delta,
          c ∈ past ++ [m] := by
        intro c hc
        rcases push_delta_mem hc with hold | rfl
        · exact List.mem_append_left _ (hpast c hold)
        · simp
      rw [List.append_cons] at h ⊢
      obtain ⟨hrest, hend⟩ := ih (past ++ [m]) _ hkept h
      exact ⟨⟨rateSound_of_forward hF hpast hm, hrest⟩, hend⟩

-- ============================================================== whole runs

/-- Each push of one call is sound. -/
def CallSound (F : FloatOps) (op : StoreOp) (s : Store Metric) : Prop :=
  RatesSound F op.handed s

/-- A call pushes what it hands over, or pushes nothing and adds no entry
to the delta list. -/
theorem storeStep_delta_mem (op : StoreOp) (s : Store Metric)
    (h : a ∈ (Seq.storeStep F op s).2.delta) :
    a ∈ (Seq.metricStoreLpush F s op.handed).2.delta := by
  cases op with
  | storePush m => exact h
  | metricPush m => exact h
  | lpush ms => exact h
  | evictCache maxSize => exact h
  | evictDelta clock =>
      have hr : (Seq.storeStep F (.evictDelta clock) s).2.delta
          = s.delta.filter fun m => !evictDeltaPredicate m clock :=
        congrArg Prod.fst (Seq.metricListRemoveIf_pure
          (fun clock m => evictDeltaPredicate m clock) clock s.delta)
      rw [hr] at h
      exact List.mem_of_mem_filter h
  | cache => exact h
  | uncache => exact h
  | flush => exact h
  | flushAll => cases h

/-- A run that goes on forward from what was pushed so far. -/
theorem meets_callSound (hF : F.Ieee) (ops : List StoreOp) :
    ∀ (past : List Metric) (s : Store Metric),
      (∀ c ∈ s.delta, c ∈ past) →
      (past ++ ops.flatMap StoreOp.handed).Pairwise (Forward F) →
      Meets (Seq.storeStep F) (CallSound F) ops s := by
  induction ops with
  | nil => exact fun _ _ _ _ => trivial
  | cons op ops ih =>
      intro past s hpast h
      rw [List.flatMap_cons, ← List.append_assoc] at h
      obtain ⟨hcall, hend⟩ := ratesSound_of_forward hF op.handed past s hpast
        (List.pairwise_append.mp h).1
      exact ⟨hcall, ih _ _ (fun c hc => hend c (storeStep_delta_mem op s hc)) h⟩

theorem isDelta_of_isTimedelta (h : m.isTimedelta = true) :
    m.isDelta = true := by
  unfold Metric.isTimedelta at h
  have hbits : m.flags &&& metricDelta = metricDelta := by
    calc m.flags &&& metricDelta
        = m.flags &&& (metricTimedelta &&& metricDelta) := rfl
      _ = m.flags &&& metricTimedelta &&& metricDelta :=
          (UInt8.and_assoc ..).symm
      _ = metricTimedelta &&& metricDelta := by rw [beq_iff_eq.mp h]
      _ = metricDelta := rfl
  unfold Metric.isDelta
  rw [hbits]
  rfl

/-- Two pushes to an empty store: the second meets the first. -/
theorem later_of_meets (h : Meets (Seq.storeStep F) (CallSound F)
    [.storePush a, .storePush b] Seq.metricStoreNew) : Later F a b := by
  intro hkey hrated hclock
  have hdelta : (Seq.metricStorePush F Seq.metricStoreNew a).2.delta = [a] := by
    unfold Seq.metricStorePush
    rw [if_pos (isDelta_of_isTimedelta hrated.1)]
    rfl
  have hcached : isCachedMetric b a = true :=
    isCachedMetric_iff.mpr ⟨hkey, hclock⟩
  have hsound : RateSound F b (Seq.metricStorePush F Seq.metricStoreNew a).2 :=
    h.2.1.1
  refine (hsound a ?_ hrated).interval
  rw [hdelta, List.find?_cons, hcached]

/-- Rates and clocks: in every run in which, of any two metrics pushed
one after the other for one counter that give a rate, the later push has
the later clock (or one that compares as equal) and interval and rate are in
range, every rate is divided by a positive interval and is a number that is
not negative. Any two metrics of which the later push has not the later
clock make a run of two pushes in which this is not so. -/
theorem rates_positive (F : FloatOps) (hF : F.Ieee) :
    (∀ ops : List StoreOp,
        (ops.flatMap StoreOp.handed).Pairwise (Forward F) →
        Meets (Seq.storeStep F) (CallSound F) ops Seq.metricStoreNew)
      ∧ ∀ a b, Meets (Seq.storeStep F) (CallSound F)
          [.storePush a, .storePush b] Seq.metricStoreNew → Later F a b :=
  ⟨fun ops h => meets_callSound hF ops [] Seq.metricStoreNew
      (by simp [Seq.metricStoreNew]) (by simpa using h),
    fun _ _ => later_of_meets⟩

/-- A counter's reading at a time, to be turned into a rate. -/
def rateReading (sec usec : Int64) (v : MetricValue) : Metric :=
  ⟨CString.a, 0, ⟨sec, usec⟩, v, metricTimedelta⟩

/-- A clock that goes on, in one call and across calls: a counter of
integers, and one of floats that goes from 1 to 2. -/
theorem rates_positive_forward :
    Meets (Seq.storeStep nearestFloat) (CallSound nearestFloat)
      [.storePush (rateReading 10 0 (.int 1)), .flush,
        .lpush [rateReading 11 0 (.int 2), rateReading 11 500000 (.int 2)],
        .flushAll, .storePush (rateReading 12 0 (.float 0x3F800000)),
        .storePush (rateReading 14 0 (.float 0x40000000))]
      Seq.metricStoreNew :=
  (rates_positive nearestFloat nearestFloat_ieee).1
    [.storePush (rateReading 10 0 (.int 1)), .flush,
      .lpush [rateReading 11 0 (.int 2), rateReading 11 500000 (.int 2)],
      .flushAll, .storePush (rateReading 12 0 (.float 0x3F800000)),
      .storePush (rateReading 14 0 (.float 0x40000000))] (by decide +kernel)

/-- A clock set back between two readings: five seconds, negative. And a
client's microseconds that are a second: two clocks that compare as
different, and no time between them. -/
theorem rates_not_positive :
    (¬ Meets (Seq.storeStep hostFloat) (CallSound hostFloat)
        [.storePush (rateReading 10 0 (.int 1)),
          .storePush (rateReading 5 0 (.int 2))] Seq.metricStoreNew
      ∧ exactInterval (rateReading 10 0 (.int 1)) (rateReading 5 0 (.int 2))
        = -5000000)
    ∧ ¬ Meets (Seq.storeStep hostFloat) (CallSound hostFloat)
        [.storePush (rateReading 0 1000000 (.int 1)),
          .storePush (rateReading 1 0 (.int 2))] Seq.metricStoreNew
      ∧ exactInterval (rateReading 0 1000000 (.int 1))
        (rateReading 1 0 (.int 2)) = 0 := by
  refine ⟨⟨fun h => ?_, by decide⟩, fun h => ?_, by decide⟩
  · have hlater := later_of_meets h
    revert hlater
    decide
  · have hlater := later_of_meets h
    revert hlater
    decide

end Monikor
