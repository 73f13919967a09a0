/-
Raw counters never leave the agent.

DELTA metrics stay in the delta list: what a push takes to the current
list is never one, the sum of an aggregation has the flags of the metric
it is added to, and nothing moves between the delta list and the rest.
-/
import Monikor.Core.Proofs.LifeRuns
import Monikor.Lists.Proofs.Keys

namespace Monikor

open Machine

variable {F : FloatOps} {s : Store Metric} {a : Seq.Agent Metric} {m : Metric}

/-- The metrics that are to be sent as they are. -/
def Plain (l : List Metric) : Prop := ∀ m ∈ l, m.isDelta = false

/-- A store whose delta list has the DELTA metrics, and the others none. -/
structure Store.Apart (s : Store Metric) : Prop where
  delta : ∀ m ∈ s.delta, m.isDelta = true
  current : Plain s.current
  cache : Plain s.cache

/-- The same of an agent, whose batches in flight have none. -/
structure Seq.Agent.Apart (a : Seq.Agent Metric) : Prop where
  store : a.store.Apart
  inFlight : ∀ batch ∈ a.inFlight, Plain batch

-- ================================================================== pushes

theorem Plain.append {l r : List Metric} (hl : Plain l) (hr : Plain r) :
    Plain (l ++ r) := by
  intro m hm
  exact (List.mem_append.mp hm).elim (hl m) (hr m)

theorem Plain.of_subset {l r : List Metric} (hr : Plain r) (h : l ⊆ r) :
    Plain l := fun m hm => hr m (h hm)

theorem plain_nil : Plain [] := fun _ hm => absurd hm List.not_mem_nil

/-- A sum has the flags of the metric in the list. -/
theorem aggregatedSum_flags {n r : Metric} (h : aggregatedSum F m n = some r) :
    r.flags = n.flags := by
  unfold aggregatedSum at h
  split at h
  case isTrue =>
      unfold metricAdd at h
      split at h
      case h_1 => cases h; rfl
      case h_2 => cases h; rfl
      case h_3 => cases h
  case isFalse => cases h

theorem metricStorePushComputed_apart (hs : s.Apart) (hm : m.isDelta = false) :
    (Seq.metricStorePushComputed F s m).2.Apart := by
  have hend : Plain (Seq.metricListPush s.current m) :=
    hs.current.append fun n hn => by rwa [List.mem_singleton.mp hn]
  unfold Seq.metricStorePushComputed
  split
  · unfold Seq.metricStorePushAggregate
    split
    case h_1 x current hr =>
        obtain ⟨pre, post, y, hl, rfl, -, hy⟩ := replaceFirst_eq_some hr
        have hx : x.isDelta = false := hs.current x (by simp [hl])
        refine ⟨hs.delta, fun n hn => ?_, hs.cache⟩
        rcases List.mem_append.mp hn with hn | hn
        · exact hs.current n (by simp [hl, hn])
        · rcases List.mem_cons.mp hn with rfl | hn
          · unfold Metric.isDelta
            rw [aggregatedSum_flags hy]
            exact hx
          · exact hs.current n (by simp [hl, hn])
    case h_2 => exact ⟨hs.delta, hend, hs.cache⟩
  · exact ⟨hs.delta, hend, hs.cache⟩

theorem metricStorePush_apart (hs : s.Apart) (m : Metric) :
    (Seq.metricStorePush F s m).2.Apart := by
  rcases metricStorePush_cases (F := F) s m with
    ⟨hm, hrun⟩ | ⟨hm, -, hrun⟩
      | ⟨pre, stored, post, hm, hl, -, -, ⟨-, hrun⟩ | ⟨new, hd, hrun⟩⟩
  · rw [hrun]
    exact metricStorePushComputed_apart hs hm
  · rw [hrun]
    refine ⟨fun n hn => ?_, hs.current, hs.cache⟩
    rcases List.mem_append.mp hn with hn | hn
    · exact hs.delta n hn
    · rw [List.mem_singleton.mp hn]
      exact hm
  · rw [hrun]
    exact hs
  · rw [hrun]
    apply metricStorePushComputed_apart _ (metricComputeDelta_isDelta hd)
    refine ⟨fun n hn => ?_, hs.current, hs.cache⟩
    -- the new sample takes the place of the one it was compared to
    rcases List.mem_append.mp hn with hn | hn
    · exact hs.delta n (by simp [hl, hn])
    · rcases List.mem_cons.mp hn with rfl | hn
      · exact hm
      · exact hs.delta n (by simp [hl, hn])

theorem metricStoreLpush_apart (ms : List Metric) :
    ∀ s : Store Metric, s.Apart → (Seq.metricStoreLpush F s ms).2.Apart := by
  induction ms with
  | nil => exact fun s hs => hs
  | cons m ms ih => exact fun s hs => ih _ (metricStorePush_apart hs m)

-- =================================================================== calls

theorem apart_new : (Seq.metricStoreNew : Store Metric).Apart :=
  ⟨fun _ hm => absurd hm List.not_mem_nil, plain_nil, plain_nil⟩

theorem evictMetrics_apart (hs : s.Apart) (pollInterval maxSize : Int32)
    (now : Timeval) : (Seq.evictMetrics s pollInterval maxSize now).2.Apart := by
  refine ⟨fun n hn => ?_, hs.current, ?_⟩
  · have hsub : n ∈ (Seq.metricStoreEvictDelta s { now with
        sec := now.sec - (3 * pollInterval).toInt64 }).2.delta := hn
    simp only [Seq.metricStoreEvictDelta, Seq.metricListRemoveIf_pure] at hsub
    exact hs.delta n (List.mem_filter.mp hsub).1
  · refine hs.cache.of_subset fun n hn => ?_
    have hall := Seq.evictCacheLoop_append (w := metricNodeSize)
      (sizeOfInt maxSize).toNat s.cache
    have hkept : n ∈ (Seq.evictCacheLoop metricNodeSize
        (sizeOfInt maxSize).toNat s.cache).2 := hn
    rw [← hall]
    exact List.mem_append_right _ hkept

theorem sendAllMetrics_apart (ha : a.Apart) (maxSendSize : Nat)
    (listOk sendOk : Bool) :
    (Seq.sendAllMetrics metricNodeSize a maxSendSize listOk sendOk).Apart := by
  have hall := ha.store.cache.append ha.store.current
  rcases Seq.sendAllMetrics_cases (w := metricNodeSize) a maxSendSize listOk
    sendOk with hrun | hrun | ⟨batch, rest, hsplit, hrun⟩
  · rw [hrun]
    exact ha
  · rw [hrun]
    exact ⟨⟨ha.store.delta, plain_nil, hall⟩, ha.inFlight⟩
  · rw [← hsplit] at hall
    rw [hrun]
    refine ⟨⟨ha.store.delta, plain_nil,
      hall.of_subset (List.subset_append_right ..)⟩, fun b hb => ?_⟩
    rcases List.mem_append.mp hb with hb | hb
    · exact ha.inFlight b hb
    · rw [List.mem_singleton.mp hb]
      exact hall.of_subset (List.subset_append_left ..)

theorem handleServerResponse_apart (ha : a.Apart) {batch : List Metric}
    (hb : Plain batch) (updateInterval : Int) (result : Nat) (httpCode : Int) :
    (Seq.handleServerResponse updateInterval a batch result
      httpCode).2.Apart := by
  rcases Seq.handleServerResponse_cases updateInterval a batch result
      httpCode with ⟨-, hrun⟩ | ⟨-, update, ⟨-, hrun⟩ | ⟨-, -, hrun⟩⟩
  · rw [hrun]
    exact ⟨⟨ha.store.delta, ha.store.current, ha.store.cache.append hb⟩,
      ha.inFlight⟩
  · rw [hrun]
    exact ⟨ha.store, ha.inFlight⟩
  · rw [hrun]
    exact ⟨apart_new, ha.inFlight⟩

/-- Every call keeps them apart. -/
theorem call_apart (ha : a.Apart) (c : Call) : (Seq.call F c a).2.Apart := by
  cases c with
  | push m => exact ⟨metricStorePush_apart ha.store m, ha.inFlight⟩
  | receive ms => exact ⟨metricStoreLpush_apart ms _ ha.store, ha.inFlight⟩
  | evict pollInterval maxSize now =>
      exact ⟨evictMetrics_apart ha.store pollInterval maxSize now, ha.inFlight⟩
  | send maxSendSize listOk sendOk =>
      exact sendAllMetrics_apart ha maxSendSize listOk sendOk
  | respond updateInterval i result httpCode =>
      cases hi : a.inFlight[i]? with
      | none =>
          simp only [Seq.call, hi]
          exact ha
      | some batch =>
          simp only [Seq.call, hi]
          apply handleServerResponse_apart
          · exact ⟨ha.store, fun b hb =>
              ha.inFlight b (List.mem_of_mem_eraseIdx hb)⟩
          · exact ha.inFlight batch (List.mem_of_getElem? hi)
  | flush => exact ⟨apart_new, ha.inFlight⟩
  | reload => exact ⟨apart_new, ha.inFlight⟩

/-- Raw counters never leave the agent: after any sequence of calls, the
delta list holds DELTA metrics only, and none is in the current list, in
the cache or in a batch in flight. -/
theorem counters_kept (F : FloatOps) (update : Update) (calls : List Call) :
    ∃ outs s a, Machine.run (Life.step F) calls (Life.start update)
        = some (outs, s)
      ∧ s.contents = some a ∧ a.Apart := by
  have hrun : ∀ (calls : List Call) (a : Seq.Agent Metric), a.Apart →
      (exec (Seq.call F) calls a).2.Apart := by
    intro calls
    induction calls with
    | nil => exact fun a ha => ha
    | cons c calls ih => exact fun a ha => ih _ (call_apart ha c)
  obtain ⟨A, q, hl, -, hq⟩ := start_lives update
  obtain ⟨s, hs, hshow⟩ := (life_simulates F).run calls (Life.start update)
    (Seq.Agent.start update) ⟨A, [], q, hl, hq⟩
  refine ⟨_, s, _, hs, hshow.contents_eq, hrun calls _ ⟨apart_new, ?_⟩⟩
  exact fun batch hb => absurd hb List.not_mem_nil

end Monikor
