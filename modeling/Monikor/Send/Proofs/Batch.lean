/-
The batch that `monikor_send_all_metrics` makes of a store, exactly.

On sequences the batch is the shortest front part of cache ++ current
whose size reaches the limit (`fillBatch_isLeast`); on pointers it is the
list that `monikor_send_metrics` is handed (`Agent.batch`), and either
outcome of that call leaves the rest in the cache, behind the batch again
if it was not queued. A metric takes so much more room in memory than on
the wire that the body is below the limit but for its last metric.
-/
import Mathlib.Order.Bounds.Defs
import Monikor.Lists.Proofs.Owned
import Monikor.Send.Proofs.Count

namespace Monikor

open Bytes

-- ============================================================ on sequences

namespace Seq

variable {α : Type*} {w : α → Nat} {maxSendSize : Nat}

/-- The batch is as short as it can be. -/
theorem fillBatch_isLeast (all : List α) :
    IsLeast {k | all.length ≤ k ∨ maxSendSize ≤ dataSize w (all.take k)}
      (fillBatch w maxSendSize [] all).1.length :=
  ⟨(fillBatch_length_le_iff all [] (Nat.zero_le _)).mp (Nat.le_refl _),
    fun _ hk => (fillBatch_length_le_iff all [] (Nat.zero_le _)).mpr hk⟩

/-- The batch and what is left, as the parts of the whole. -/
theorem fillBatch_split (all : List α) :
    fillBatch w maxSendSize [] all
      = (all.take (fillBatch w maxSendSize [] all).1.length,
        all.drop (fillBatch w maxSendSize [] all).1.length) := by
  have happ : (fillBatch w maxSendSize [] all).1
      ++ (fillBatch w maxSendSize [] all).2 = all := fillBatch_append all []
  apply Prod.ext
  · calc (fillBatch w maxSendSize [] all).1
        = ((fillBatch w maxSendSize [] all).1
            ++ (fillBatch w maxSendSize [] all).2).take
              (fillBatch w maxSendSize [] all).1.length := by
          rw [List.take_left]
      _ = _ := by rw [happ]
  · calc (fillBatch w maxSendSize [] all).2
        = ((fillBatch w maxSendSize [] all).1
            ++ (fillBatch w maxSendSize [] all).2).drop
              (fillBatch w maxSendSize [] all).1.length := by
          rw [List.drop_left]
      _ = _ := by rw [happ]

/-- Without its last element a batch is below the limit. -/
theorem dropLast_lt {all : List α} {n : Nat}
    (hn : IsLeast {k | all.length ≤ k
      ∨ maxSendSize ≤ dataSize w (all.take k)} n)
    (htwo : 2 ≤ (all.take n).length) :
    dataSize w (all.take n).dropLast < maxSendSize := by
  have hle : n ≤ all.length := hn.2 (.inl (Nat.le_refl _))
  have hdrop : (all.take n).dropLast = all.take (n - 1) := by
    rw [List.dropLast_eq_take, List.take_take, List.length_take]
    congr 1
    omega
  rw [List.length_take] at htwo
  rw [hdrop]
  by_contra hge
  have hless : n ≤ n - 1 := hn.2 (.inr (Nat.not_lt.mp hge))
  omega

end Seq

-- ================================================================ the body

/-- A list of metrics takes less room on the wire than in memory. -/
theorem listBytes_length_le {metrics : List Metric} (hne : metrics ≠ []) :
    (listBytes metrics).length ≤ Seq.dataSize metricNodeSize metrics := by
  have hrecords : (recordsBytes metrics).length + 11 * metrics.length
      ≤ Seq.dataSize metricNodeSize metrics := by
    clear hne
    induction metrics with
    | nil => exact Nat.le_refl _
    | cons m metrics ih =>
        have hm := metricBytes_length_lt m
        unfold recordsBytes Seq.dataSize at ih ⊢
        simp only [List.flatMap_cons, List.length_append, List.map_cons,
          List.sum_cons, List.length_cons] at ih ⊢
        omega
  have hpos := List.length_pos_of_ne_nil hne
  unfold listBytes
  rw [List.length_append, listHeaderBytes_length, serializedMetricListHdrSize]
  omega

-- ============================================================ on pointers

/-- `monikor_send_all_metrics` as far as the call of
`monikor_send_metrics`: the list it is handed, and the heap. -/
def Agent.batch (a : Agent) (maxSendSize : Nat) : Option (Addr × Heap) :=
  match a.heap.metricListNew with
  | (none, _) => none
  | (some metrics, heap) => do
      let heap ← heap.metricStoreUncache a.metrics
      let heap ← fillBatchLoop (heap.brk + 1) heap a.metrics metrics maxSendSize
      return (metrics, heap)

variable {A : Lists} {a : Agent} {c : Store Cell}

/-- An agent with a store, seen without the batches in flight. -/
theorem StoreRep.viewed (hs : StoreRep A a.heap a.metrics c) :
    Viewed A { a with inFlight := [] }
      ⟨⟨c.current.map Cell.item, c.delta.map Cell.item,
        c.cache.map Cell.item⟩, [], a.update⟩ where
  rep := hs.rep
  headers := hs.distinct
  current := by simp [itemsOf, hs.current]
  delta := by simp [itemsOf, hs.delta]
  cache := by simp [itemsOf, hs.cache]
  inFlight := rfl
  update := rfl

/-- The lists of the store hold these items. -/
def Agent.Stores (a : Agent) (current delta cache : List Item) : Prop :=
  a.heap.itemsAt a.metrics.current = some current
    ∧ a.heap.itemsAt a.metrics.delta = some delta
    ∧ a.heap.itemsAt a.metrics.cache = some cache

theorem Viewed.stores {q : Seq.Agent Item} (hv : Viewed A a q) :
    a.Stores q.store.current q.store.delta q.store.cache :=
  ⟨itemsAt_eq hv.rep hv.current, itemsAt_eq hv.rep hv.delta,
    itemsAt_eq hv.rep hv.cache⟩

/-- The heap that `monikor_send_metrics` is called on: a front part of
cache ++ current is in a list of its own, and the rest in the current
list. -/
theorem StoreRep.batch (hs : StoreRep A a.heap a.metrics c)
    (ha : AllocsOk a.heap) (limit : Nat) {n : Nat} {all : List Item}
    (hall : (c.cache ++ c.current).map Cell.item = all)
    (hn : (Seq.fillBatch Item.size limit [] all).1.length = n) :
    ∃ heap A' bs, a.batch limit = some (a.heap.brk, heap)
      ∧ Viewed A' ⟨heap, a.metrics, [], a.update⟩
        ⟨⟨all.drop n, c.delta.map Cell.item, []⟩, [], a.update⟩
      ∧ A' a.heap.brk = some bs ∧ bs.map Cell.item = all.take n
      ∧ a.heap.brk ∉ [a.metrics.current, a.metrics.delta, a.metrics.cache] := by
  obtain ⟨h₁, h₂, h₃, A', bs, hnew, huncache, hfill, hv, hl, hbs, hout, -⟩ :=
    takeBatch_viewed hs.viewed ha limit
  dsimp only at hnew huncache hfill
  have htake : Seq.takeBatch Item.size limit ⟨c.current.map Cell.item,
        c.delta.map Cell.item, c.cache.map Cell.item⟩
      = (all.take n, ⟨all.drop n, c.delta.map Cell.item, []⟩) := by
    unfold Seq.takeBatch
    simp only [Seq.metricStoreUncache, Seq.metricStoreCache,
      Seq.metricListConcat, List.nil_append, ← List.map_append, hall]
    rw [Seq.fillBatch_split all, hn]
  rw [htake] at hv hbs
  exact ⟨h₃, A', bs, by simp [Agent.batch, hnew, huncache, hfill], hv, hl, hbs,
    hout⟩

/-- What follows the call, on a store that has something to send. -/
theorem StoreRep.sendAllMetrics (hs : StoreRep A a.heap a.metrics c)
    (hsome : c.cache ++ c.current ≠ []) {limit : Nat} {metrics : Addr}
    {heap : Heap} (hbatch : a.batch limit = some (metrics, heap))
    (sendOk : Bool) :
    a.sendAllMetrics limit sendOk
      = if sendOk then do
          let heap ← heap.metricStoreCache a.metrics
          return { a with heap, inFlight := a.inFlight ++ [metrics] }
        else do
          let heap ← heap.metricListConcat a.metrics.cache metrics
          let heap ← heap.metricStoreCache a.metrics
          return { a with heap } := by
  obtain ⟨hc, hhc, hcs⟩ := hs.rep.isList _ _ hs.current
  obtain ⟨hk, hhk, hks⟩ := hs.rep.isList _ _ hs.cache
  have hfull : ¬ (hc.size = 0 ∧ hk.size = 0) := by
    rw [hcs.size, hks.size, List.length_eq_zero_iff, List.length_eq_zero_iff]
    rintro ⟨hcur, hcac⟩
    exact hsome (by rw [hcur, hcac, List.append_nil])
  rcases hnew : a.heap.metricListNew with ⟨_ | p, h₁⟩
  case none =>
      simp only [Agent.batch, hnew] at hbatch
      cases hbatch
  case some =>
      simp only [Agent.batch, hnew] at hbatch
      obtain ⟨h₂, huncache, hbatch⟩ := Option.bind_eq_some_iff.mp hbatch
      obtain ⟨h₃, hfill, hbatch⟩ := Option.bind_eq_some_iff.mp hbatch
      cases hbatch
      simp only [Agent.sendAllMetrics, hhc, hhk, hnew, Option.bind_eq_bind,
        Option.bind_some, if_neg hfull, huncache, hfill]

/-- What `monikor_send_all_metrics` makes of a store that holds the items
`all` in cache ++ current: the list it hands to `monikor_send_metrics` has
the first `n` of them. -/
structure Batched (a : Agent) (limit : Nat) (delta all : List Item)
    (metrics : Addr) (heap : Heap) (n : Nat) : Prop where
  handed : a.batch limit = some (metrics, heap)
  contents : heap.itemsAt metrics = some (all.take n)
  nonempty : all.take n ≠ []
  shortest : IsLeast
    {k | all.length ≤ k ∨ limit ≤ Seq.dataSize Item.size (all.take k)} n
  queued : ∃ a', a.sendAllMetrics limit true = some a'
    ∧ a'.metrics = a.metrics ∧ a'.Stores [] delta (all.drop n)
    ∧ a'.inFlight = a.inFlight ++ [metrics]
    ∧ a'.heap.itemsAt metrics = some (all.take n)
  refused : ∃ a', a.sendAllMetrics limit false = some a'
    ∧ a'.metrics = a.metrics ∧ a'.Stores [] delta all
    ∧ a'.inFlight = a.inFlight
  body : 2 ≤ (all.take n).length → ∀ e junk, ∃ body,
    metricListSerialize e (some junk) ((all.take n).dropLast.map Prod.snd)
      = .ok (0, body)
    ∧ body.length < limit

/-- Batching, exactly: `monikor_send_metrics` is handed the shortest front
part of cache ++ current that reaches the limit, and at least one metric;
afterwards the current list is empty, and the cache is the rest if the
request was queued and all of it, in its order, if not. A body of two
metrics or more is below the limit without the last. -/
theorem sendAllMetrics_batches (cfg : ServerConfig)
    (hmax : 1 ≤ cfg.maxSendSize) (hs : StoreRep A a.heap a.metrics c)
    (ha : AllocsOk a.heap) (hsome : c.cache ++ c.current ≠ []) :
    ∃ metrics heap n, Batched a cfg.maxSendSize.toNat
      (c.delta.map Cell.item) ((c.cache ++ c.current).map Cell.item)
      metrics heap n := by
  let limit := cfg.maxSendSize.toNat
  let all := (c.cache ++ c.current).map Cell.item
  let n := (Seq.fillBatch Item.size limit [] all).1.length
  have hleast : IsLeast {k | all.length ≤ k
      ∨ limit ≤ Seq.dataSize Item.size (all.take k)} n :=
    Seq.fillBatch_isLeast all
  have hne : all.take n ≠ [] := by
    have hpos : 1 ≤ limit := UInt64.le_iff_toNat_le.mp hmax
    have hall : all ≠ [] := by simpa [all] using hsome
    intro hnil
    -- an empty batch is all there is, or reaches the limit
    rcases hleast.1 with hlen | hreach
    · exact hall (by rw [← List.take_of_length_le hlen, hnil])
    · rw [hnil] at hreach
      exact Nat.not_lt.mpr hreach hpos
  obtain ⟨heap, A', bs, hbatch, hv, hl, hbs, hout⟩ :=
    hs.batch ha limit (show _ = all from rfl) (show _ = n from rfl)
  have hsend := hs.sendAllMetrics hsome hbatch
  refine ⟨a.heap.brk, heap, n, hbatch, ?_, hne, hleast, ?_, ?_, ?_⟩
  case refine_1 => exact itemsAt_eq hv.rep (by rw [itemsOf, hl, ← hbs]; rfl)
  case refine_2 =>
      obtain ⟨h', A'', hrun, hv', hkept, -⟩ := metricStoreCache_viewed hv
      have hl' : A'' a.heap.brk = some bs := by
        rw [hkept _ fun hm => hout ?_, hl]
        simp only [List.mem_cons, List.not_mem_nil, or_false] at hm ⊢
        tauto
      refine ⟨{ a with heap := h', inFlight := a.inFlight ++ [a.heap.brk] }, ?_,
        rfl, hv'.stores, rfl,
        itemsAt_eq hv'.rep (by rw [itemsOf, hl', ← hbs]; rfl)⟩
      rw [hsend true, if_pos rfl, hrun]
      rfl
  case refine_3 =>
      obtain ⟨h', A'', hrun, hv', -, -⟩ := cacheBatch_viewed hv hl hout hv.update
      obtain ⟨h'', A₃, hrun', hv'', -, -⟩ := metricStoreCache_viewed hv'
      refine ⟨{ a with heap := h'' }, ?_, rfl, ?_, rfl⟩
      · rw [hsend false, if_neg (by decide), hrun]
        exact congrArg (Option.bind · _) hrun'
      · have hstores := hv''.stores
        simp only [hbs, Seq.metricStoreCache, Seq.metricListConcat,
          List.nil_append, List.take_append_drop] at hstores
        exact hstores
  case refine_4 =>
      intro htwo e junk
      let ms := (all.take n).dropLast.map Prod.snd
      have hlt : Seq.dataSize metricNodeSize ms < limit := by
        rw [Seq.dataSize_map]
        exact Seq.dropLast_lt hleast htwo
      have hmem : InMemory ms := Nat.lt_trans hlt (UInt64.toNat_lt _)
      have hms : ms ≠ [] := by
        rw [← List.length_pos_iff, List.length_map, List.length_dropLast]
        exact Nat.sub_pos_of_lt htwo
      exact ⟨listBytes ms, metricListSerialize_spec e junk hmem,
        Nat.lt_of_le_of_lt (listBytes_length_le hms) hlt⟩

/-- Three metrics of 73 bytes, one of them cached: the batch of at most 100
bytes and one metric more has two. -/
theorem sendAllMetrics_batches_three :
    let m (t : Int64) : Metric := ⟨CString.a, 0, ⟨t, 0⟩, .int 1, 0⟩
    ∃ A a c, StoreRep A a.heap a.metrics c
      ∧ c.cache.map Cell.metric = [m 10]
      ∧ c.current.map Cell.metric = [m 11, m 12]
      ∧ ∃ metrics heap n, Batched a 100 (c.delta.map Cell.item)
        ((c.cache ++ c.current).map Cell.item) metrics heap n := by
  intro m
  obtain ⟨u, A₀, c₀, -, hs₀, hc₀⟩ := start_settled
  obtain ⟨u', -, A, c, hs, hc⟩ := (storeUse_simulates hostFloat).run
    [.storePush (m 10), .cache, .storePush (m 11), .storePush (m 12)] u _
    ⟨A₀, c₀, hs₀.holds, hc₀⟩
  have hcache : c.cache.map Cell.metric = [m 10] :=
    (congrArg Store.cache hc).trans (by decide)
  refine ⟨A, ⟨u'.heap, u'.store, [], ⟨0, 0⟩⟩, c, hs.storeRep, hcache,
    (congrArg Store.current hc).trans (by decide),
    sendAllMetrics_batches (a := ⟨u'.heap, u'.store, [], ⟨0, 0⟩⟩)
      ⟨none, 5, 100, none⟩ (by decide) hs.storeRep hs.allocs ?_⟩
  intro hnil
  rw [(List.append_eq_nil_iff.mp hnil).1] at hcache
  cases hcache

end Monikor
