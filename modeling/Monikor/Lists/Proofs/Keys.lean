/-
The keys of a store's entries: what a push can do to them.

`metricStorePush_cases` says once what `monikor_metric_store_push` does on
each of its paths. So a push that finds its key edits that entry in place,
and otherwise it appends one entry of its own key (`Touched`).
-/
import Monikor.Lists.Seq

namespace Monikor

variable {F : FloatOps} {s : Store Metric} {m : Metric}

-- =================================================================== keys

/-- What `is_cached_metric` and the aggregation look a metric up by. -/
structure Key where
  id : UInt16
  name : CString
deriving DecidableEq

def Metric.key (m : Metric) : Key := ⟨m.id, m.name⟩

theorem aggregatedSum_key {n r : Metric} (h : aggregatedSum F m n = some r) :
    n.key = m.key ∧ r.key = m.key := by
  unfold aggregatedSum at h
  split at h
  case isTrue hk =>
      simp only [Bool.and_eq_true, beq_iff_eq] at hk
      have hn : n.key = m.key := by simp [Metric.key, hk.1, hk.2]
      refine ⟨hn, ?_⟩
      unfold metricAdd at h
      split at h
      case h_1 => cases h; exact hn
      case h_2 => cases h; exact hn
      case h_3 => cases h
  case isFalse => cases h

theorem isCachedMetric_key {c : Metric} (h : isCachedMetric m c = true) :
    c.key = m.key := by
  unfold isCachedMetric at h
  simp only [Bool.and_eq_true, beq_iff_eq] at h
  simp [Metric.key, h.1.1, h.1.2]

theorem metricComputeDelta_key {a b r : Metric}
    (h : metricComputeDelta F a b = some r) : r.key = a.key := by
  unfold metricComputeDelta at h
  split at h
  case h_1 => cases h; rfl
  case h_2 => cases h; rfl
  case h_3 => cases h


/-- The search of `monikor_metric_store_push_delta`: nothing matches, or the
first entry that does gives way to the metric. -/
theorem baseline_cases (m : Metric) (l : List Metric) :
    ((∀ c ∈ l, isCachedMetric m c = false)
      ∧ replaceFirst (fun c => if isCachedMetric m c then some m else none) l
        = none)
    ∨ ∃ pre stored post, l = pre ++ stored :: post
      ∧ (∀ c ∈ pre, isCachedMetric m c = false)
      ∧ isCachedMetric m stored = true
      ∧ replaceFirst (fun c => if isCachedMetric m c then some m else none) l
        = some (stored, pre ++ m :: post) := by
  cases hr : replaceFirst
      (fun c => if isCachedMetric m c = true then some m else none) l with
  | none =>
      refine .inl ⟨fun c hc => ?_, rfl⟩
      simpa using replaceFirst_eq_none.mp hr c hc
  | some r =>
      obtain ⟨stored, l'⟩ := r
      obtain ⟨pre, post, y, rfl, rfl, hpre, hy⟩ := replaceFirst_eq_some hr
      obtain ⟨hcached, rfl⟩ : isCachedMetric m stored = true ∧ m = y := by
        simpa using hy
      exact .inr ⟨pre, stored, post, rfl,
        fun c hc => by simpa using hpre c hc, hcached, rfl⟩

-- ================================================================= pushes

/-- What a push of a metric of key `k` can do to a list. -/
inductive Touched (k : Key) (l : List Metric) : List Metric → Prop
  | same : Touched k l l
  | edit {pre post : List Metric} {x y : Metric} (hl : l = pre ++ x :: post)
      (hx : x.key = k) (hy : y.key = k) : Touched k l (pre ++ y :: post)
  | append {x : Metric} (hx : x.key = k) : Touched k l (l ++ [x])

/-- The keys `ks` become `ks'`: as they were, or with one more. -/
def KeyAdded (k : Key) (ks ks' : List Key) : Prop :=
  ks' = ks ∨ ks' = ks ++ [k]

theorem Touched.keys {k : Key} {l l' : List Metric} (h : Touched k l l') :
    KeyAdded k (l.map Metric.key) (l'.map Metric.key) := by
  cases h with
  | same => exact .inl rfl
  | edit hl hx hy => exact .inl (by simp [hl, hx, hy])
  | append hx => exact .inr (by simp [hx])

/-- The branches past the DELTA test put the metric in the current list:
as an entry of its own, or into the first that takes it. -/
theorem metricStorePushComputed_cases (s : Store Metric) (m : Metric) :
    ∃ current, Seq.metricStorePushComputed F s m = (0, { s with current })
      ∧ Touched m.key s.current current
      ∧ m.key ∈ current.map Metric.key := by
  have happend : m.key ∈ (Seq.metricListPush s.current m).map Metric.key := by
    simp [Seq.metricListPush]
  unfold Seq.metricStorePushComputed
  split
  · unfold Seq.metricStorePushAggregate
    split
    case h_1 hr =>
        obtain ⟨pre, post, y, hl, rfl, -, hy⟩ := replaceFirst_eq_some hr
        obtain ⟨hx, hy⟩ := aggregatedSum_key hy
        exact ⟨_, rfl, .edit hl hx hy, by simp [hy]⟩
    case h_2 => exact ⟨_, rfl, .append rfl, happend⟩
  · exact ⟨_, rfl, .append rfl, happend⟩

/-- What `monikor_metric_store_push` does: past the DELTA test, a first
baseline, or the first baseline that matches and a difference to it, if
there is one. -/
theorem metricStorePush_cases (s : Store Metric) (m : Metric) :
    (m.isDelta = false
      ∧ Seq.metricStorePush F s m = Seq.metricStorePushComputed F s m)
    ∨ (m.isDelta = true ∧ (∀ c ∈ s.delta, isCachedMetric m c = false)
      ∧ Seq.metricStorePush F s m
        = (0, { s with delta := Seq.metricListPush s.delta m }))
    ∨ ∃ pre stored post, m.isDelta = true ∧ s.delta = pre ++ stored :: post
      ∧ (∀ c ∈ pre, isCachedMetric m c = false)
      ∧ isCachedMetric m stored = true
      ∧ ((metricComputeDelta F stored m = none
          ∧ Seq.metricStorePush F s m = (-1, s))
        ∨ ∃ new, metricComputeDelta F stored m = some new
          ∧ Seq.metricStorePush F s m = Seq.metricStorePushComputed F
            { s with delta := pre ++ m :: post } new) := by
  unfold Seq.metricStorePush
  cases hdelta : m.isDelta with
  | false => exact .inl ⟨rfl, rfl⟩
  | true =>
      unfold Seq.metricStorePushDelta
      rcases baseline_cases m s.delta with
        ⟨hnone, hr⟩ | ⟨pre, stored, post, hl, hpre, hcached, hr⟩
      · refine .inr (.inl ⟨rfl, hnone, ?_⟩)
        rw [hr]
        rfl
      · refine .inr (.inr ⟨pre, stored, post, rfl, hl, hpre, hcached, ?_⟩)
        rw [hr]
        cases hnew : metricComputeDelta F stored m with
        | none => exact .inl ⟨rfl, by simp only [hnew, if_true]⟩
        | some new => exact .inr ⟨new, rfl, by simp only [hnew, if_true]⟩

/-- A push touches entries of its own key only. -/
theorem metricStorePush_touched :
    Touched m.key s.current (Seq.metricStorePush F s m).2.current
      ∧ Touched m.key s.delta (Seq.metricStorePush F s m).2.delta := by
  rcases metricStorePush_cases (F := F) s m with
    ⟨-, hrun⟩ | ⟨-, -, hrun⟩
      | ⟨pre, stored, post, -, hl, -, hcached, ⟨-, hrun⟩ | ⟨new, hd, hrun⟩⟩
  · obtain ⟨current, hcomputed, ht, -⟩ :=
      metricStorePushComputed_cases (F := F) s m
    rw [hrun, hcomputed]
    exact ⟨ht, .same⟩
  · rw [hrun]
    exact ⟨.same, .append rfl⟩
  · rw [hrun]
    exact ⟨.same, .same⟩
  · have hstored := isCachedMetric_key hcached
    have hnew : new.key = m.key := (metricComputeDelta_key hd).trans hstored
    obtain ⟨current, hcomputed, ht, -⟩ := metricStorePushComputed_cases
      (F := F) { s with delta := pre ++ m :: post } new
    rw [hrun, hcomputed, ← hnew]
    exact ⟨ht, .edit hl (hstored.trans hnew.symm) hnew.symm⟩

/-- A key the delta list does not have is in a list after its push. -/
theorem metricStorePush_adds (hnot : m.key ∉ s.delta.map Metric.key) :
    m.key ∈ (Seq.metricStorePush F s m).2.current.map Metric.key
      ∨ m.key ∈ (Seq.metricStorePush F s m).2.delta.map Metric.key := by
  rcases metricStorePush_cases (F := F) s m with
    ⟨-, hrun⟩ | ⟨-, -, hrun⟩ | ⟨pre, stored, post, -, hl, -, hcached, -⟩
  · obtain ⟨current, hcomputed, -, hin⟩ :=
      metricStorePushComputed_cases (F := F) s m
    rw [hrun, hcomputed]
    exact .inl hin
  · rw [hrun]
    exact .inr (by simp [Seq.metricListPush])
  · refine absurd ?_ hnot
    rw [hl, ← isCachedMetric_key hcached]
    simp

-- ================================================================== lists

/-- The keys a store has entries of, in its current and delta lists. -/
def Store.keys (s : Store Metric) : List Key :=
  s.current.map Metric.key ++ s.delta.map Metric.key

theorem KeyAdded.mem {k a : Key} {ks ks' : List Key} (h : KeyAdded k ks ks') :
    (a ∈ ks → a ∈ ks') ∧ (a ∈ ks' → a ∈ ks ∨ a = k) := by
  rcases h with rfl | rfl
  · exact ⟨id, .inl⟩
  · exact ⟨fun ha => List.mem_append_left _ ha, fun ha => by simpa using ha⟩

/-- A push adds its key, and no other. -/
theorem mem_keys_metricStorePush {k : Key} :
    k ∈ (Seq.metricStorePush F s m).2.keys ↔ k ∈ s.keys ∨ k = m.key := by
  obtain ⟨hcur, hdel⟩ := metricStorePush_touched (F := F) (s := s) (m := m)
  unfold Store.keys
  simp only [List.mem_append]
  constructor
  · rintro (hk | hk)
    · exact (hcur.keys.mem.2 hk).imp_left .inl
    · exact (hdel.keys.mem.2 hk).imp_left .inr
  · rintro ((hk | hk) | rfl)
    · exact .inl (hcur.keys.mem.1 hk)
    · exact .inr (hdel.keys.mem.1 hk)
    · by_cases hin : m.key ∈ s.delta.map Metric.key
      · exact .inr (hdel.keys.mem.1 hin)
      · exact metricStorePush_adds hin

/-- A list of pushes adds the keys of its metrics, and no others. -/
theorem mem_keys_metricStoreLpush {k : Key} (l : List Metric) :
    ∀ s, k ∈ (Seq.metricStoreLpush F s l).2.keys
      ↔ k ∈ s.keys ∨ k ∈ l.map Metric.key := by
  induction l with
  | nil => simp [Seq.metricStoreLpush]
  | cons m l ih =>
      intro s
      unfold Seq.metricStoreLpush
      simp only
      rw [ih, mem_keys_metricStorePush, List.map_cons, List.mem_cons,
        or_assoc]

end Monikor
