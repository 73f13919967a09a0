/-
One baseline a counter: when the delta list has at most one entry for
each key.

A DELTA push replaces an entry of its key whose clock `_timecmp` tells
apart from its own, and appends otherwise. So with at most one entry a
key before the push, the list stays so exactly when the push does not
meet an entry of its key at its own clock (`push_unique_iff`). Nothing
else adds to the list, and a duplicate stays until it is evicted or
flushed, which gives the condition for whole runs.
-/
import Mathlib.Data.List.Nodup
import Monikor.Lib.Simulation
import Monikor.Lists.Proofs.Delta
import Monikor.Lists.Store

namespace Monikor

open Machine

variable {F : FloatOps} {s : Store Metric} {m : Metric}

-- ============================================================ vocabulary

/-- At most one entry of the delta list for each id and name. -/
def UniqueBaselines (s : Store Metric) : Prop :=
  ∀ K, (entries K s.delta).length ≤ 1

/-- `_timecmp` tells the metric's clock from that of each entry the delta
list has of its key, if it goes to the delta list at all. -/
def ClockMoved (s : Store Metric) (m : Metric) : Prop :=
  m.isDelta = true → ∀ c ∈ s.delta, c.key = m.key →
    timecmp m.clock c.clock ≠ 0

/-- So it is for each metric of a list, when its turn comes. -/
def ClocksMoved (F : FloatOps) : List Metric → Store Metric → Prop
  | [], _ => True
  | m :: ms, s =>
      ClockMoved s m ∧ ClocksMoved F ms (Seq.metricStorePush F s m).2

/-- So it is for what one call hands over. -/
def CallMoved (F : FloatOps) : StoreOp → Store Metric → Prop
  | .storePush m, s => ClockMoved s m
  | .metricPush m, s => ClockMoved s m
  | .lpush ms, s => ClocksMoved F ms s
  | _, _ => True

-- ================================================================== keys

theorem entries_length (K : Key) (l : List Metric) :
    (entries K l).length = (l.map Metric.key).count K := by
  induction l with
  | nil => rfl
  | cons m l ih =>
      by_cases hk : m.key = K
      · simpa [entries, hk] using ih
      · simpa [entries, hk] using ih

theorem uniqueBaselines_iff :
    UniqueBaselines s ↔ (s.delta.map Metric.key).Nodup := by
  unfold UniqueBaselines
  rw [List.nodup_iff_count_le_one]
  exact forall_congr' fun K => by rw [entries_length]

theorem isCachedMetric_iff {c : Metric} :
    isCachedMetric m c = true
      ↔ c.key = m.key ∧ timecmp m.clock c.clock ≠ 0 := by
  constructor
  · intro h
    refine ⟨isCachedMetric_key h, ?_⟩
    unfold isCachedMetric at h
    simp only [Bool.and_eq_true, bne_iff_ne] at h
    exact h.2
  · intro h
    obtain ⟨hkey, hclock⟩ := h
    have hid : m.id = c.id := congrArg Key.id hkey.symm
    have hname : c.name = m.name := congrArg Key.name hkey
    simp [isCachedMetric, hid, hname, hclock]

/-- A push leaves the keys of the delta list as they are, unless it is a
DELTA push that matches no entry: that one appends its key. -/
theorem metricStorePush_delta_keys :
    (Seq.metricStorePush F s m).2.delta.map Metric.key
      = if m.isDelta = true ∧ ∀ c ∈ s.delta, isCachedMetric m c = false then
          s.delta.map Metric.key ++ [m.key]
        else s.delta.map Metric.key := by
  rcases metricStorePush_cases (F := F) s m with
    ⟨hdelta, hrun⟩ | ⟨hdelta, hnone, hrun⟩
      | ⟨pre, stored, post, -, hl, -, hcached, hpaths⟩
  · obtain ⟨current, hcomputed, -, -⟩ :=
      metricStorePushComputed_cases (F := F) s m
    rw [hrun, hcomputed, if_neg (by simp [hdelta])]
  · rw [hrun, if_pos ⟨hdelta, hnone⟩]
    simp [Seq.metricListPush]
  · have hmatch : ¬ ∀ c ∈ s.delta, isCachedMetric m c = false := by
      intro hnone
      have hno := hnone stored (by simp [hl])
      rw [hcached] at hno
      cases hno
    rw [if_neg fun h => hmatch h.2]
    rcases hpaths with ⟨-, hrun⟩ | ⟨new, -, hrun⟩
    · rw [hrun]
    · obtain ⟨current, hcomputed, -, -⟩ := metricStorePushComputed_cases
        (F := F) { s with delta := pre ++ m :: post } new
      rw [hrun, hcomputed, hl]
      simp [isCachedMetric_key hcached]

-- ================================================================= pushes

/-- From at most one entry a key, a push leaves at most one exactly when
it does not meet an entry of its key at its own clock. -/
theorem push_unique_iff (hs : UniqueBaselines s) :
    UniqueBaselines (Seq.metricStorePush F s m).2 ↔ ClockMoved s m := by
  rw [uniqueBaselines_iff] at hs ⊢
  rw [metricStorePush_delta_keys]
  split
  case isTrue h =>
      -- nothing matches: the key is appended
      obtain ⟨hdelta, hnone⟩ := h
      rw [List.nodup_append_comm, List.singleton_append, List.nodup_cons]
      constructor
      · intro hnew _ c hc hkey
        exact absurd (List.mem_map.mpr ⟨c, hc, hkey⟩) hnew.1
      · intro hmoved
        refine ⟨fun hin => ?_, hs⟩
        obtain ⟨c, hc, hkey⟩ := List.mem_map.mp hin
        have hcached := isCachedMetric_iff.mpr ⟨hkey, hmoved hdelta c hc hkey⟩
        rw [hnone c hc] at hcached
        cases hcached
  case isFalse h =>
      -- the entry that matches is the only one of its key
      refine ⟨fun _ hdelta c hc hkey => ?_, fun _ => hs⟩
      have hsome : ∃ d ∈ s.delta, isCachedMetric m d = true := by
        by_contra hno
        refine h ⟨hdelta, fun d hd => ?_⟩
        by_contra hd'
        exact hno ⟨d, hd, by simpa using hd'⟩
      obtain ⟨d, hd, hcached⟩ := hsome
      obtain ⟨hdkey, hdclock⟩ := isCachedMetric_iff.mp hcached
      have hcd : c = d :=
        List.inj_on_of_nodup_map hs hc hd (hkey.trans hdkey.symm)
      rwa [hcd]

/-- Pushing a list only appends to the keys of the delta list. -/
theorem lpush_delta_keys (ms : List Metric) :
    ∀ s, s.delta.map Metric.key
      <+: (Seq.metricStoreLpush F s ms).2.delta.map Metric.key := by
  induction ms with
  | nil => exact fun s => List.prefix_rfl
  | cons m ms ih =>
      intro s
      refine List.IsPrefix.trans ?_ (ih (Seq.metricStorePush F s m).2)
      rcases (metricStorePush_touched (F := F) (s := s) (m := m)).2.keys
        with h | h
      · exact ⟨[], by rw [h, List.append_nil]⟩
      · rw [h]
        exact List.prefix_append ..

/-- The same for a list of metrics: a duplicate made on the way stays. -/
theorem lpush_unique_iff (ms : List Metric) :
    ∀ s, UniqueBaselines s →
      (UniqueBaselines (Seq.metricStoreLpush F s ms).2
        ↔ ClocksMoved F ms s) := by
  induction ms with
  | nil => exact fun s hs => ⟨fun _ => trivial, fun _ => hs⟩
  | cons m ms ih =>
      intro s hs
      show UniqueBaselines
        (Seq.metricStoreLpush F (Seq.metricStorePush F s m).2 ms).2 ↔ _
      unfold ClocksMoved
      rw [← push_unique_iff (F := F) hs]
      constructor
      · intro hend
        have hnext : UniqueBaselines (Seq.metricStorePush F s m).2 := by
          rw [uniqueBaselines_iff] at hend ⊢
          exact hend.sublist (lpush_delta_keys ms _).sublist
        exact ⟨hnext, (ih _ hnext).mp hend⟩
      · intro h
        exact (ih _ h.1).mpr h.2

-- ============================================================== whole runs

/-- What one call needs to keep the delta list at one entry a key. -/
theorem storeStep_unique_iff (op : StoreOp) (s : Store Metric)
    (hs : UniqueBaselines s) :
    UniqueBaselines (Seq.storeStep F op s).2 ↔ CallMoved F op s := by
  cases op with
  | storePush m => exact push_unique_iff hs
  | metricPush m => exact push_unique_iff hs
  | lpush ms => exact lpush_unique_iff ms s hs
  | evictCache maxSize => exact ⟨fun _ => trivial, fun _ => hs⟩
  | evictDelta clock =>
      refine ⟨fun _ => trivial, fun _ => ?_⟩
      rw [uniqueBaselines_iff] at hs ⊢
      show ((Seq.metricListRemoveIf
        (fun data m => (evictDeltaPredicate m data, data)) clock
        s.delta).1.map Metric.key).Nodup
      rw [Seq.metricListRemoveIf_pure fun clock m =>
        evictDeltaPredicate m clock]
      apply List.Nodup.sublist _ hs
      exact List.filter_sublist.map _
  | cache => exact ⟨fun _ => trivial, fun _ => hs⟩
  | uncache => exact ⟨fun _ => trivial, fun _ => hs⟩
  | flush => exact ⟨fun _ => trivial, fun _ => hs⟩
  | flushAll => exact ⟨fun _ => trivial, fun _ K => Nat.zero_le _⟩

/-- A store's delta list has at most one entry for each id and name in
every state of a run exactly when no DELTA push of the run meets an entry
of its key at its own clock. -/
theorem baselines_unique_iff (F : FloatOps) (ops : List StoreOp) :
    (∀ s ∈ visited (Seq.storeStep F) ops Seq.metricStoreNew,
        ∀ K, (entries K s.delta).length ≤ 1)
      ↔ Meets (Seq.storeStep F) (CallMoved F) ops Seq.metricStoreNew :=
  visited_iff_meets (P := UniqueBaselines) storeStep_unique_iff ops _
    fun _ => Nat.zero_le _

/-- One counter pushed twice at one instant has two entries. -/
theorem baselines_not_unique :
    let K : Key := ⟨0, CString.a⟩
    ¬ ∀ s ∈ visited (Seq.storeStep hostFloat)
        [.storePush (K.counter ⟨1, ⟨10, 0⟩⟩),
          .storePush (K.counter ⟨2, ⟨10, 0⟩⟩)] Seq.metricStoreNew,
      ∀ K, (entries K s.delta).length ≤ 1 := by
  intro K h
  have htwo := h _ (exec_mem_visited _ _) K
  revert htwo
  decide

end Monikor
