/-
A metric store in use: any sequence of the calls the agent makes on it,
once on pointers (`StoreUse.step`) and once on sequences
(`Seq.storeStep`), from `monikor_metric_store_new`.

The metrics handed over are fresh: each call builds the ones it hands
over. A call that has none to hand over, because an allocation failed,
is skipped. `handed` remembers the addresses handed to the store, for
the account of what became of them.
-/
import Monikor.Lists.Client

namespace Monikor

/-- What is called on a store. -/
inductive StoreOp where
  | storePush (m : Metric)
  | metricPush (m : Metric)
  | lpush (ms : List Metric)
  | evictCache (maxSize : Nat)
  | evictDelta (clock : Timeval)
  | cache
  | uncache
  | flush
  | flushAll

-- ============================================================ on pointers

namespace Heap

variable (F : FloatOps)

/-- `monikor_metric_push` (core/metrics.c): what the store answers is
dropped. -/
def metricPush (h : Heap) (st : StoreRef) (metric : Option Addr) :
    Option (Int × Heap) :=
  match metric with
  | none => some (0, h)
  | some p => do
      let (_, h) ← h.metricStorePush F st p
      return (1, h)

/-- Build metrics and push each on the list at `l`, as the decoder of a
message does: their addresses. -/
def buildList (h : Heap) (l : Addr) : List Metric → Option (List Addr × Heap)
  | [] => some ([], h)
  | m :: ms =>
      match h.metricBuild m with
      | (none, h) => h.buildList l ms
      | (some p, h) => do
          let (_, h) ← h.metricListPush l p
          let (ps, h) ← h.buildList l ms
          return (p :: ps, h)

/-- The server's hand-over: the list of a message is pushed to the store
with `monikor_metric_store_lpush`, then freed. -/
def lpushFresh (h : Heap) (st : StoreRef) (ms : List Metric) :
    Option (List Addr × Int × Heap) :=
  match h.metricListNew with
  | (none, h) => some ([], 0, h)
  | (some metrics, h) => do
      let (ps, h) ← h.buildList metrics ms
      let (rc, h) ← h.metricStoreLpush F st metrics
      let h ← h.metricListFree metrics
      return (ps, rc, h)

end Heap

/-- A store, the heap it is on, and the metrics handed to it so far. -/
structure StoreUse where
  heap : Heap
  store : StoreRef
  handed : List Addr

namespace StoreUse

variable (F : FloatOps)

/-- One call: its result (`size_t` counts and codes alike) and the state
left. -/
def step : StoreOp → StoreUse → Option (Int × StoreUse)
  | .storePush m, u =>
      match u.heap.metricBuild m with
      | (none, heap) => some (0, { u with heap })
      | (some p, heap) => do
          let (rc, heap) ← heap.metricStorePush F u.store p
          return (rc, { u with heap, handed := u.handed ++ [p] })
  | .metricPush m, u =>
      match u.heap.metricBuild m with
      | (none, heap) => some (0, { u with heap })
      | (some p, heap) => do
          let (n, heap) ← heap.metricPush F u.store (some p)
          return (n, { u with heap, handed := u.handed ++ [p] })
  | .lpush ms, u => do
      let (ps, rc, heap) ← u.heap.lpushFresh F u.store ms
      return (rc, { u with heap, handed := u.handed ++ ps })
  | .evictCache maxSize, u => do
      let (n, heap) ← u.heap.metricStoreEvictCache u.store maxSize
      return (n, { u with heap })
  | .evictDelta clock, u => do
      let (n, heap) ← u.heap.metricStoreEvictDelta u.store clock
      return (n, { u with heap })
  | .cache, u => do
      let heap ← u.heap.metricStoreCache u.store
      return (0, { u with heap })
  | .uncache, u => do
      let heap ← u.heap.metricStoreUncache u.store
      return (0, { u with heap })
  | .flush, u => do
      let heap ← u.heap.metricStoreFlush u.store
      return (0, { u with heap })
  | .flushAll, u => do
      let heap ← u.heap.metricStoreFlushAll u.store
      return (0, { u with heap })

/-- A store as `monikor_metric_store_new` makes it, on an empty heap. -/
def start : Option StoreUse := do
  let (st, heap) ← Heap.empty.metricStoreNew
  let store ← st
  return { heap, store, handed := [] }

end StoreUse

-- ================================================= who holds the metrics

/-- The metrics the nodes of the list at `l` point at, in order. -/
def Heap.listRefs (h : Heap) (l : Addr) : Option (List Addr) := do
  let hdr ← h.list l
  let nodes ← h.walk hdr.size hdr.first
  nodes.mapM fun a => (h.node a).map Node.metric

/-- The metrics the nodes of the store point at. -/
def Heap.storeRefs (h : Heap) (st : StoreRef) : Option (List Addr) := do
  let current ← h.listRefs st.current
  let delta ← h.listRefs st.delta
  let cache ← h.listRefs st.cache
  return current ++ delta ++ cache

/-- Every metric handed to the store, and every metric there is or was, is
pointed at by one node of the store and has not been freed, or is pointed
at by none and has been freed once; what a node points at is live. -/
def StoreUse.Accounted (u : StoreUse) : Prop :=
  ∃ refs, u.heap.storeRefs u.store = some refs
    ∧ (∀ p, p ∈ u.handed ∨ u.heap.metric p ≠ none ∨ p ∈ u.heap.freed →
        (refs.count p = 1 ∧ u.heap.freed.count p = 0)
          ∨ (refs.count p = 0 ∧ u.heap.freed.count p = 1))
    ∧ ∀ p ∈ refs, u.heap.metric p ≠ none

-- =========================================================== on sequences

namespace Seq

/-- One call, on the contents of the store. -/
def storeStep (F : FloatOps) : StoreOp → Store Metric → Int × Store Metric
  | .storePush m, s => metricStorePush F s m
  | .metricPush m, s => (1, (metricStorePush F s m).2)
  | .lpush ms, s => metricStoreLpush F s ms
  | .evictCache maxSize, s =>
      let r := metricStoreEvictCache metricNodeSize s maxSize
      (r.1.length, r.2)
  | .evictDelta clock, s =>
      ((metricStoreEvictDelta s clock).1, (metricStoreEvictDelta s clock).2)
  | .cache, s => (0, metricStoreCache s)
  | .uncache, s => (0, metricStoreUncache s)
  | .flush, s => (0, metricStoreFlush s)
  | .flushAll, s => (0, metricStoreFlushAll s)

end Seq

end Monikor
