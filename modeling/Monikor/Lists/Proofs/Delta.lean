/-
Delta conservation: what a store makes of the pushes of one counter.

The pushes of one key (id and name) see only the entries of that key:
`metricStorePush_other` says a push of another key leaves them alone,
`push_first` and `push_next` what a counter's own push does to them. The
run lemma (`pushes_keyed`) carries the invariant that the delta list has
at most one entry of the key, the latest sample pushed.
-/
import Mathlib.Data.List.Chain
import Monikor.Lists.Proofs.Keys

namespace Monikor

variable {F : FloatOps} {s : Store Metric} {m : Metric}

-- ============================================================ vocabulary

/-- The entries of one key, in order. -/
def entries (K : Key) (l : List Metric) : List Metric :=
  l.filter fun m => m.key = K

/-- A run of pushes; the codes returned are ignored, as by a caller that
goes on. -/
def pushes (F : FloatOps) (s : Store Metric) (ms : List Metric) :
    Store Metric :=
  ms.foldl (fun s m => (Seq.metricStorePush F s m).2) s

/-- A sample of an integer counter. -/
structure Sample where
  value : UInt64
  clock : Timeval
deriving DecidableEq

/-- The DELTA metric a counter pushes. -/
def Key.counter (K : Key) (x : Sample) : Metric where
  name := K.name
  id := K.id
  clock := x.clock
  value := .int x.value
  flags := metricDelta

/-- What two consecutive samples leave in the current list. -/
def Key.difference (K : Key) (x y : Sample) : Metric where
  name := K.name
  id := K.id
  clock := x.clock
  value := .int (UInt64.ofNat (y.value.toNat - x.value.toNat))
  flags := 0

/-- The differences of consecutive samples. -/
def differences (K : Key) : List Sample → List Metric
  | x :: y :: xs => K.difference x y :: differences K (y :: xs)
  | _ => []

/-- Clocks `_timecmp` tells apart: they differ, are normalised, and less
than 2³¹ seconds apart. -/
structure ClocksDiffer (t u : Timeval) : Prop where
  ne : t ≠ u
  usec_left : 0 ≤ t.usec.toInt ∧ t.usec.toInt < 1000000
  usec_right : 0 ≤ u.usec.toInt ∧ u.usec.toInt < 1000000
  sec : (t.sec.toInt - u.sec.toInt).natAbs < 2 ^ 31

-- ================================================================= clocks

theorem ClocksDiffer.symm {t u : Timeval} (h : ClocksDiffer t u) :
    ClocksDiffer u t where
  ne := h.ne.symm
  usec_left := h.usec_right
  usec_right := h.usec_left
  sec := by
    have := h.sec
    omega

theorem timecmp_ne_zero {t u : Timeval} (h : ClocksDiffer t u) :
    timecmp t u ≠ 0 := by
  have hsub : ∀ a b : Int64, (a.toInt - b.toInt).natAbs < 2 ^ 31 → a ≠ b →
      (a - b).toInt32 ≠ 0 := by
    intro a b hlt hne h0
    have hz := congrArg Int32.toInt h0
    rw [Int64.toInt_toInt32, Int64.toInt_sub] at hz
    have hne' : a.toInt ≠ b.toInt := fun e => hne (Int64.toInt_inj.mp e)
    rw [Int.bmod_eq_of_le (n := a.toInt - b.toInt) (m := 2 ^ 64) (by omega)
      (by omega), Int.bmod_eq_of_le (by omega) (by omega)] at hz
    exact hne' (by simpa [Int.sub_eq_zero] using hz)
  unfold timecmp
  split
  case isTrue hsec => exact hsub _ _ h.sec hsec
  case isFalse hsec =>
      have husec : t.usec ≠ u.usec := by
        intro e
        apply h.ne
        cases t
        cases u
        simp_all
      have hl := h.usec_left
      have hr := h.usec_right
      exact hsub _ _ (by omega) husec

-- =========================================================== other pushes

variable {K : Key}

/-- What touches entries of another key leaves the key's alone. -/
theorem Touched.entries {k : Key} {l l' : List Metric} (h : Touched k l l')
    (hk : k ≠ K) : entries K l' = entries K l := by
  cases h with
  | same => rfl
  | edit hl hx hy => simp [Monikor.entries, hl, hx, hy, hk]
  | append hx => simp [Monikor.entries, hx, hk]

/-- A push of another key leaves the key's entries alone. -/
theorem metricStorePush_other (hk : m.key ≠ K) :
    entries K (Seq.metricStorePush F s m).2.current = entries K s.current
      ∧ entries K (Seq.metricStorePush F s m).2.delta = entries K s.delta :=
  ⟨metricStorePush_touched.1.entries hk, metricStorePush_touched.2.entries hk⟩

-- =================================================== the counter's pushes

theorem counter_isDelta (K : Key) (x : Sample) :
    (K.counter x).isDelta = true := by
  simp [Metric.isDelta, Key.counter, metricDelta]

/-- The difference of two samples of a counter. -/
theorem metricComputeDelta_counter (K : Key) (x y : Sample) :
    metricComputeDelta F (K.counter x) (K.counter y)
      = some (K.difference x y) := by
  have hflags : metricDelta &&& ~~~(metricDelta ||| metricTimedelta) = 0 := by
    decide
  have htime : (K.counter x).isTimedelta = false := by
    unfold Metric.isTimedelta
    simp only [Key.counter]
    decide
  have hvalue : computeIntDelta F (K.counter x) (K.counter y) x.value y.value
      = .int (UInt64.ofNat (y.value.toNat - x.value.toNat)) := by
    unfold computeIntDelta
    rw [htime, if_neg Bool.false_ne_true]
    split
    case isTrue hlt =>
        have := UInt64.lt_iff_toNat_lt.mp hlt
        rw [Nat.sub_eq_zero_of_le (by omega)]
        rfl
    case isFalse hge =>
        have hle : x.value ≤ y.value := UInt64.not_lt.mp hge
        rw [UInt64.ofNat_sub (UInt64.le_iff_toNat_le.mp hle),
          UInt64.ofNat_toNat, UInt64.ofNat_toNat]
  have hc : metricComputeDelta F (K.counter x) (K.counter y)
      = some { K.counter x with
          flags := metricDelta &&& ~~~(metricDelta ||| metricTimedelta)
          value := computeIntDelta F (K.counter x) (K.counter y) x.value
            y.value } := rfl
  rw [hc, hvalue, hflags]
  rfl

/-- The first sample becomes the baseline. -/
theorem push_first {x : Sample} (hd : entries K s.delta = []) :
    entries K (Seq.metricStorePush F s (K.counter x)).2.current
        = entries K s.current
      ∧ entries K (Seq.metricStorePush F s (K.counter x)).2.delta
        = [K.counter x] := by
  have hkey : (K.counter x).key = K := rfl
  have hout : ∀ c ∈ s.delta, isCachedMetric (K.counter x) c ≠ true := by
    intro c hc hcached
    have hk : c.key = K := isCachedMetric_key hcached
    have hin : c ∈ entries K s.delta := List.mem_filter.mpr ⟨hc, by simp [hk]⟩
    rw [hd] at hin
    cases hin
  rcases metricStorePush_cases (F := F) s (K.counter x) with
    ⟨hno, -⟩ | ⟨-, -, hrun⟩ | ⟨pre, stored, post, -, hl, -, hcached, -⟩
  · rw [counter_isDelta] at hno
    cases hno
  · unfold entries at hd ⊢
    rw [hrun]
    exact ⟨rfl, by simp [Seq.metricListPush, hd, hkey]⟩
  · exact absurd hcached (hout stored (by simp [hl]))

/-- A later sample replaces the baseline, and its difference to it is
appended to the current list. -/
theorem push_next {x y : Sample} (hd : entries K s.delta = [K.counter x])
    (hclock : timecmp y.clock x.clock ≠ 0) :
    entries K (Seq.metricStorePush F s (K.counter y)).2.current
        = entries K s.current ++ [K.difference x y]
      ∧ entries K (Seq.metricStorePush F s (K.counter y)).2.delta
        = [K.counter y] := by
  have hcached : isCachedMetric (K.counter y) (K.counter x) = true := by
    simpa [isCachedMetric, Key.counter] using hclock
  have hagg : (K.difference x y).isAggregate = false := by
    simp [Metric.isAggregate, Key.difference]
  have hkey : (K.difference x y).key = K := rfl
  have hkey' : (K.counter y).key = K := rfl
  have hin : K.counter x ∈ s.delta :=
    List.mem_of_mem_filter (hd ▸ List.mem_singleton_self _)
  rcases metricStorePush_cases (F := F) s (K.counter y) with
    ⟨hno, -⟩ | ⟨-, hnone, -⟩ | ⟨pre, stored, post, -, hl, -, hmatch, hpaths⟩
  · rw [counter_isDelta] at hno
    cases hno
  · rw [hnone _ hin] at hcached
    cases hcached
  · -- the baseline found is the one entry of the key
    have hstored : stored.key = K := isCachedMetric_key hmatch
    have hsplit : entries K pre ++ stored :: entries K post
        = [K.counter x] := by
      rw [← hd, hl]
      simp [entries, hstored]
    rcases List.append_eq_singleton_iff.mp hsplit with
      ⟨hpre, hrest⟩ | ⟨-, hnil⟩
    · obtain ⟨rfl, hpost⟩ := List.cons.inj hrest
      rw [metricComputeDelta_counter] at hpaths
      rcases hpaths with ⟨hnone, -⟩ | ⟨new, hnew, hrun⟩
      · cases hnone
      · obtain rfl := Option.some.inj hnew
        unfold entries at hpre hpost ⊢
        rw [hrun]
        simp [Seq.metricStorePushComputed, hagg, Seq.metricListPush, hkey,
          hkey', hpre, hpost]
    · cases hnil

-- ============================================================== whole runs

theorem differences_snoc (K : Key) (xs : List Sample) (x y : Sample) :
    differences K (xs ++ [x, y])
      = differences K (xs ++ [x]) ++ [K.difference x y] := by
  induction xs with
  | nil => rfl
  | cons z xs ih =>
      cases xs with
      | nil => rfl
      | cons w xs => simpa [differences] using ih

theorem differences_length (K : Key) (xs : List Sample) :
    (differences K xs).length = xs.length - 1 := by
  induction xs with
  | nil => rfl
  | cons x xs ih =>
      cases xs with
      | nil => rfl
      | cons y xs => simp [differences, ih]

/-- One sample of the key after the samples `xs`. -/
theorem push_sample (C : List Metric) (xs : List Sample) (y : Sample)
    (hcur : entries K s.current = C ++ differences K xs)
    (hdel : entries K s.delta = xs.getLast?.toList.map K.counter)
    (hclock : ∀ x ∈ xs.getLast?, ClocksDiffer x.clock y.clock) :
    entries K (Seq.metricStorePush F s (K.counter y)).2.current
        = C ++ differences K (xs ++ [y])
      ∧ entries K (Seq.metricStorePush F s (K.counter y)).2.delta
        = [K.counter y] := by
  rcases List.eq_nil_or_concat' xs with rfl | ⟨zs, x, rfl⟩
  · obtain ⟨hc, hd⟩ := push_first (F := F) (x := y) hdel
    exact ⟨hc.trans hcur, hd⟩
  · have hxy := hclock x (by simp)
    obtain ⟨hc, hd⟩ := push_next (F := F) (x := x) (y := y)
      (by simpa using hdel) (timecmp_ne_zero hxy.symm)
    refine ⟨?_, hd⟩
    rw [hc, hcur, List.append_assoc zs, List.singleton_append,
      differences_snoc, List.append_assoc]

/-- The invariant of a run of pushes: after the samples `xs` of the key,
the delta list has the last of them, and the current list has gained
their differences. -/
theorem pushes_keyed (C : List Metric) (ms : List Metric) :
    ∀ (s : Store Metric) (xs ys : List Sample),
      entries K ms = ys.map K.counter →
      (xs ++ ys).IsChain (fun x y => ClocksDiffer x.clock y.clock) →
      entries K s.current = C ++ differences K xs →
      entries K s.delta = xs.getLast?.toList.map K.counter →
      entries K (pushes F s ms).current = C ++ differences K (xs ++ ys)
        ∧ entries K (pushes F s ms).delta
          = (xs ++ ys).getLast?.toList.map K.counter := by
  induction ms with
  | nil =>
      intro s xs ys hys _ hcur hdel
      obtain rfl : ys = [] := by simpa [entries] using hys.symm
      simpa [pushes] using ⟨hcur, hdel⟩
  | cons m ms ih =>
      intro s xs ys hys hchain hcur hdel
      by_cases hk : m.key = K
      · -- a sample of the key: the first of `ys`
        cases ys with
        | nil => simp [entries, hk] at hys
        | cons y ys =>
            unfold entries at hys
            simp only [List.filter_cons, hk, decide_true, if_true,
              List.map_cons, List.cons.injEq] at hys
            obtain ⟨rfl, hrest⟩ := hys
            obtain ⟨hcur', hdel'⟩ := push_sample (F := F) C xs y hcur hdel (by
              intro x hx
              obtain ⟨zs, rfl⟩ := List.getLast?_eq_some_iff.mp hx
              rw [List.append_assoc, List.singleton_append] at hchain
              exact (List.isChain_append_cons_cons.mp hchain).2.1)
            have := ih _ (xs ++ [y]) ys hrest (by simpa using hchain) hcur'
              (by simpa using hdel')
            rwa [List.append_assoc, List.singleton_append] at this
      · have hrest : entries K ms = ys.map K.counter := by
          rw [← hys]
          simp [entries, hk]
        obtain ⟨hc, hd⟩ := metricStorePush_other (F := F) (s := s) hk
        exact ih _ xs ys hrest hchain (hc.trans hcur) (hd.trans hdel)

/-- The value of an integer metric. -/
def Metric.intValue (m : Metric) : Nat :=
  match m.value with
  | .int v => v.toNat
  | _ => 0

theorem difference_intValue (K : Key) (x y : Sample) :
    (K.difference x y).intValue = y.value.toNat - x.value.toNat :=
  UInt64.toNat_ofNat_of_lt'
    (Nat.lt_of_le_of_lt (Nat.sub_le ..) y.value.toNat_lt_size)

/-- The differences of a counter that never goes down telescope. -/
theorem differences_sum (K : Key) (xs : List Sample) (x : Sample)
    (hmono : (x :: xs).IsChain fun x y => x.value ≤ y.value) :
    ((differences K (x :: xs)).map Metric.intValue).sum + x.value.toNat
      = ((x :: xs).getLast (by simp)).value.toNat := by
  induction xs generalizing x with
  | nil => simp [differences]
  | cons y ys ih =>
      rw [List.isChain_cons_cons] at hmono
      have hle := UInt64.le_iff_toNat_le.mp hmono.1
      have hrest := ih y hmono.2
      unfold differences
      simp only [List.map_cons, List.sum_cons, difference_intValue,
        List.getLast_cons_cons]
      omega

/-- Delta conservation: from a store with nothing of the key, in any run
of pushes whose pushes of the key are the samples `xs` of a counter, the
current list gets the differences of consecutive samples, in order, and
the delta list is left with the last sample; the differences of a counter
that never goes down add up to what it gained. -/
theorem delta_conservation (F : FloatOps) (K : Key) (s : Store Metric)
    (ms : List Metric) (xs : List Sample) (hxs : xs ≠ [])
    (hcur : entries K s.current = []) (hdel : entries K s.delta = [])
    (hms : entries K ms = xs.map K.counter)
    (hclock : xs.IsChain fun x y => ClocksDiffer x.clock y.clock) :
    entries K (pushes F s ms).current = differences K xs
      ∧ (entries K (pushes F s ms).current).length = xs.length - 1
      ∧ entries K (pushes F s ms).delta = [K.counter (xs.getLast hxs)]
      ∧ ((xs.IsChain fun x y => x.value ≤ y.value) →
          ((entries K (pushes F s ms).current).map Metric.intValue).sum
            = (xs.getLast hxs).value.toNat - (xs.head hxs).value.toNat) := by
  obtain ⟨hc, hd⟩ := pushes_keyed (F := F) [] ms s [] xs hms hclock
    (by simpa [differences] using hcur) (by simpa using hdel)
  rw [List.nil_append, List.nil_append] at hc
  rw [List.nil_append, List.getLast?_eq_getLast_of_ne_nil hxs] at hd
  refine ⟨hc, by rw [hc, differences_length], hd, fun hmono => ?_⟩
  rw [hc]
  cases xs with
  | nil => exact absurd rfl hxs
  | cons x xs =>
      have := differences_sum K xs x hmono
      rw [List.head_cons]
      omega

/-- Two samples of the counter named `c`, with an aggregate metric of
another name pushed in between, on an empty store. -/
theorem delta_conservation_two :
    let K : Key := ⟨7, ⟨[99], by decide⟩⟩
    let other : Metric :=
      ⟨⟨[100], by decide⟩, 7, ⟨0, 0⟩, .int 1, metricAggregate⟩
    let x : Sample := ⟨5, ⟨10, 0⟩⟩
    let y : Sample := ⟨9, ⟨10, 1⟩⟩
    entries K (pushes hostFloat Seq.metricStoreNew
      [K.counter x, other, K.counter y]).current = [K.difference x y] :=
  (delta_conservation hostFloat _ Seq.metricStoreNew _
    [⟨5, ⟨10, 0⟩⟩, ⟨9, ⟨10, 1⟩⟩] (by simp) rfl rfl (by decide)
    (by
      rw [List.isChain_pair]
      exact ⟨by decide, by decide, by decide, by decide⟩)).1

end Monikor
