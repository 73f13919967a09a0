/-
metric_list.c and metric_store.c on pointers.

# The heap

Three partial maps hold the live blocks: list nodes, metrics and list
headers. An address is handed out once (`brk` only grows), so a freed
block stays absent and reading it again is visible. `freed` logs the
metrics given to `monikor_metric_free`, in order; `allocs` is what the
coming allocations answer, consumed one outcome each.

# Faults and loops

Every function returns `Option`: `none` is a dereference of NULL or of a
block that is not live, a double free, or a loop that does not end. The
loops walk `next` links with fuel `brk + 1`: a chain of distinct nodes
has at most `brk` cells, so only a cyclic chain exhausts it. What C
returns (a code, a pointer that may be NULL) is in the result.

`size_t` counters are `Nat`: the nodes of a list lie in memory together,
so the sums they track do not wrap.
-/
import Mathlib.Logic.Function.Basic
import Mathlib.Tactic.Simps.Basic
import Monikor.Metric

namespace Monikor

abbrev Addr := Nat

/-- `monikor_metric_list_node_t`. -/
structure Node where
  next : Option Addr
  metric : Addr

/-- `monikor_metric_list_t`. -/
structure MetricList where
  size : Nat
  dataSize : Nat
  first : Option Addr
  last : Option Addr
deriving DecidableEq

/-- `monikor_metric_store_t`: where the three list headers are. -/
structure StoreRef where
  current : Addr
  delta : Addr
  cache : Addr
deriving DecidableEq

structure Heap where
  node : Addr → Option Node
  metric : Addr → Option Metric
  list : Addr → Option MetricList
  brk : Addr
  freed : List Addr
  allocs : Nat → Bool

namespace Heap

/-- No block live, and an allocator that never fails. -/
def empty : Heap where
  node := fun _ => none
  metric := fun _ => none
  list := fun _ => none
  brk := 0
  freed := []
  allocs := fun _ => true

-- ============================================================ primitives

/-- `malloc` or `strdup`: does the next allocation succeed? -/
def malloc (h : Heap) : Bool × Heap :=
  (h.allocs 0, { h with allocs := fun n => h.allocs (n + 1) })

@[simps] def setNode (h : Heap) (a : Addr) (n : Node) : Heap :=
  { h with node := Function.update h.node a (some n) }

@[simps] def setMetric (h : Heap) (a : Addr) (m : Metric) : Heap :=
  { h with metric := Function.update h.metric a (some m) }

@[simps] def setList (h : Heap) (a : Addr) (l : MetricList) : Heap :=
  { h with list := Function.update h.list a (some l) }

/-- Step past the block just handed out. -/
@[simps] def bump (h : Heap) : Heap := { h with brk := h.brk + 1 }

@[simps] def eraseNode (h : Heap) (a : Addr) : Heap :=
  { h with node := Function.update h.node a none }

/-- Release a metric, and log it. -/
@[simps] def eraseMetric (h : Heap) (a : Addr) : Heap :=
  { h with
    metric := Function.update h.metric a none
    freed := h.freed ++ [a] }

/-- `free` of a list node. -/
def freeNode (h : Heap) (a : Addr) : Option Heap := do
  let _ ← h.node a
  return h.eraseNode a

-- ============================================================== metric.c

/-- `monikor_metric_new` (the object, its name) and the copy of a string
value, as the constructors and `monikor_metric_clone` make them: a new
metric with the contents `m`, or NULL with everything released. -/
def metricBuild (h : Heap) (m : Metric) : Option Addr × Heap :=
  match h.malloc with
  | (false, h) => (none, h)
  | (true, h) =>
      match h.malloc with
      | (false, h) => (none, h)
      | (true, h) =>
          match m.value with
          | .string _ =>
              match h.malloc with
              | (false, h) => (none, h)
              | (true, h) => (some h.brk, (h.setMetric h.brk m).bump)
          | _ => (some h.brk, (h.setMetric h.brk m).bump)

/-- `monikor_metric_clone`. -/
def metricClone (h : Heap) (src : Addr) : Option (Option Addr × Heap) := do
  let m ← h.metric src
  return h.metricBuild m

/-- `monikor_metric_free`. -/
def metricFree (h : Heap) (a : Addr) : Option Heap := do
  let _ ← h.metric a
  return h.eraseMetric a

-- ====================================================== metric_compute.c

/-- `monikor_metric_compute_delta`. Two metrics of one type whose values
have no difference are strings: the clone is released again. -/
def metricComputeDelta (F : FloatOps) (h : Heap) (a b : Addr) :
    Option (Option Addr × Heap) := do
  let ma ← h.metric a
  let mb ← h.metric b
  if ma.type ≠ mb.type then return (none, h)
  match ← h.metricClone a with
  | (none, h) => return (none, h)
  | (some r, h) =>
      match Monikor.metricComputeDelta F ma mb with
      | some res => return (some r, h.setMetric r res)
      | none => return (none, ← h.metricFree r)

-- ========================================================= metric_list.c

/-- `monikor_metric_list_init`. -/
def metricListInit (h : Heap) (l : Addr) : Heap :=
  h.setList l { size := 0, dataSize := 0, first := none, last := none }

/-- `monikor_metric_list_new`. -/
def metricListNew (h : Heap) : Option Addr × Heap :=
  match h.malloc with
  | (false, h) => (none, h)
  | (true, h) => (some h.brk, (h.metricListInit h.brk).bump)

/-- `monikor_metric_list_node_new`. -/
def metricListNodeNew (h : Heap) (metric : Addr) : Option Addr × Heap :=
  match h.malloc with
  | (false, h) => (none, h)
  | (true, h) => (some h.brk, (h.setNode h.brk { next := none, metric }).bump)

/-- `monikor_metric_list_node_free`. -/
def metricListNodeFree (h : Heap) (node : Addr) : Option Heap := do
  let n ← h.node node
  let h ← h.metricFree n.metric
  h.freeNode node

/-- The `while` loop of `monikor_metric_list_empty`. -/
def metricListEmptyLoop : Nat → Heap → Option Addr → Option Heap
  | 0, _, _ => none
  | _ + 1, h, none => some h
  | fuel + 1, h, some cur => do
      let n ← h.node cur
      let h ← h.metricListNodeFree cur
      metricListEmptyLoop fuel h n.next

/-- `monikor_metric_list_empty`. -/
def metricListEmpty (h : Heap) (l : Addr) : Option Heap := do
  let hdr ← h.list l
  let h ← metricListEmptyLoop (h.brk + 1) h hdr.first
  return h.metricListInit l

/-- `monikor_metric_list_free`. -/
def metricListFree (h : Heap) (l : Addr) : Option Heap := do
  let h ← h.metricListEmpty l
  return { h with list := Function.update h.list l none }

/-- `monikor_metric_node_size`. -/
def nodeSize (h : Heap) (node : Addr) : Option Nat := do
  let n ← h.node node
  let m ← h.metric n.metric
  return metricNodeSize m

/-- `monikor_metric_list_push_node`. -/
def metricListPushNode (h : Heap) (l node : Addr) : Option (Int × Heap) := do
  let hdr ← h.list l
  let h ← if hdr.size = 0 then
      some (h.setList l { hdr with first := some node, last := some node })
    else do
      let last ← hdr.last
      let n ← h.node last
      let h := h.setNode last { n with next := some node }
      some (h.setList l { hdr with last := some node })
  let hdr ← h.list l
  let size ← h.nodeSize node
  return (0, h.setList l
    { hdr with size := hdr.size + 1, dataSize := hdr.dataSize + size })

/-- `monikor_metric_list_push`. -/
def metricListPush (h : Heap) (l metric : Addr) : Option (Int × Heap) :=
  match h.metricListNodeNew metric with
  | (none, h) => some (-1, h)
  | (some node, h) => h.metricListPushNode l node

/-- `monikor_metric_list_pop`. -/
def metricListPop (h : Heap) (l : Addr) : Option (Option Addr × Heap) := do
  let hdr ← h.list l
  match hdr.first with
  | none => return (none, h)
  | some node =>
      let n ← h.node node
      let size ← h.nodeSize node
      let h := h.setList l
        { first := n.next
          last := if hdr.last = some node then none else hdr.last
          size := hdr.size - 1
          dataSize := hdr.dataSize - size }
      let h ← h.freeNode node
      return (some n.metric, h)

section RemoveIf

variable {σ : Type} (f : σ → Metric → Bool × σ)

/-- The body of `monikor_metric_list_remove_if` for a node the predicate
accepts. -/
def removeNode (h : Heap) (l : Addr) (prev : Option Addr) (node : Addr) :
    Option Heap := do
  let n ← h.node node
  let h ← match prev with
    | none => some h
    | some p => do
        let pn ← h.node p
        some (h.setNode p { pn with next := n.next })
  let hdr ← h.list l
  let size ← h.nodeSize node
  let h := h.setList l
    { first := if hdr.first = some node then n.next else hdr.first
      last := if hdr.last = some node then prev else hdr.last
      size := hdr.size - 1
      dataSize := hdr.dataSize - size }
  let h ← h.metricFree n.metric
  h.freeNode node

/-- The `for` loop of `monikor_metric_list_remove_if`. The predicate may
keep state in `data`. -/
def metricListRemoveIfLoop : Nat → Heap → Addr → Option Addr → Option Addr →
    σ → Nat → Option (Nat × Heap)
  | 0, _, _, _, _, _, _ => none
  | _ + 1, h, _, _, none, _, n => some (n, h)
  | fuel + 1, h, l, prev, some node, data, n => do
      let nd ← h.node node
      let m ← h.metric nd.metric
      match f data m with
      | (true, data) =>
          let h ← h.removeNode l prev node
          metricListRemoveIfLoop fuel h l prev nd.next data (n + 1)
      | (false, data) =>
          metricListRemoveIfLoop fuel h l (some node) nd.next data n

/-- `monikor_metric_list_remove_if`. -/
def metricListRemoveIf (h : Heap) (l : Addr) (data : σ) :
    Option (Nat × Heap) := do
  let hdr ← h.list l
  metricListRemoveIfLoop f (h.brk + 1) h l none hdr.first data 0

end RemoveIf

/-- `monikor_metric_list_concat`. -/
def metricListConcat (h : Heap) (head tail : Addr) : Option Heap := do
  let hd ← h.list head
  let tl ← h.list tail
  let h ← if hd.size ≠ 0 ∧ tl.size ≠ 0 then do
      let last ← hd.last
      let n ← h.node last
      let h := h.setNode last { n with next := tl.first }
      some (h.setList head { hd with last := tl.last })
    else if tl.size ≠ 0 then
      some (h.setList head { hd with first := tl.first, last := tl.last })
    else some h
  let hd ← h.list head
  let h := h.setList head
    { hd with size := hd.size + tl.size, dataSize := hd.dataSize + tl.dataSize }
  return h.metricListInit tail

-- ======================================================== metric_store.c

/-- `monikor_metric_store_new`; the lists there are when one cannot be
had are freed again. -/
def metricStoreNew (h : Heap) : Option (Option StoreRef × Heap) :=
  match h.malloc with
  | (false, h) => some (none, h)
  | (true, h) =>
      match h.metricListNew with
      | (none, h) => some (none, h)
      | (some current, h) =>
          match h.metricListNew with
          | (none, h) => do
              let h ← h.metricListFree current
              return (none, h)
          | (some delta, h) =>
              match h.metricListNew with
              | (none, h) => do
                  let h ← h.metricListFree current
                  let h ← h.metricListFree delta
                  return (none, h)
              | (some cache, h) => some (some { current, delta, cache }, h)

/-- The `for` loop of `monikor_metric_store_push_aggregate`. -/
def pushAggregateLoop (F : FloatOps) :
    Nat → Heap → StoreRef → Addr → Option Addr → Option (Int × Heap)
  | 0, _, _, _, _ => none
  | _ + 1, h, st, metric, none => h.metricListPush st.current metric
  | fuel + 1, h, st, metric, some node => do
      let n ← h.node node
      let dst ← h.metric n.metric
      let m ← h.metric metric
      match aggregatedSum F m dst with
      | some sum => do
          let h ← (h.setMetric n.metric sum).metricFree metric
          return (0, h)
      | none => pushAggregateLoop F fuel h st metric n.next

/-- `monikor_metric_store_push_aggregate`. -/
def metricStorePushAggregate (F : FloatOps) (h : Heap) (st : StoreRef)
    (metric : Addr) : Option (Int × Heap) := do
  let hdr ← h.list st.current
  pushAggregateLoop F (h.brk + 1) h st metric hdr.first

/-- The branches of `monikor_metric_store_push` past its DELTA test. A
computed delta has its DELTA bit cleared, so these are all that the call
at the end of `monikor_metric_store_push_delta` can reach. -/
def metricStorePushComputed (F : FloatOps) (h : Heap) (st : StoreRef)
    (metric : Addr) : Option (Int × Heap) := do
  let m ← h.metric metric
  if m.isAggregate then h.metricStorePushAggregate F st metric
  else h.metricListPush st.current metric

/-- The `for` loop of `monikor_metric_store_push_delta`. -/
def pushDeltaLoop (F : FloatOps) :
    Nat → Heap → StoreRef → Addr → Option Addr → Option (Int × Heap)
  | 0, _, _, _, _ => none
  | _ + 1, h, st, metric, none => h.metricListPush st.delta metric
  | fuel + 1, h, st, metric, some node => do
      let n ← h.node node
      let cached ← h.metric n.metric
      let m ← h.metric metric
      if isCachedMetric m cached then
        match ← h.metricComputeDelta F n.metric metric with
        | (none, h) => return (-1, h)
        | (some new, h) => do
            let h ← h.metricFree n.metric
            let h := h.setNode node { n with metric }
            h.metricStorePushComputed F st new
      else pushDeltaLoop F fuel h st metric n.next

/-- `monikor_metric_store_push_delta`. -/
def metricStorePushDelta (F : FloatOps) (h : Heap) (st : StoreRef)
    (metric : Addr) : Option (Int × Heap) := do
  let hdr ← h.list st.delta
  pushDeltaLoop F (h.brk + 1) h st metric hdr.first

/-- `monikor_metric_store_push`. -/
def metricStorePush (F : FloatOps) (h : Heap) (st : StoreRef)
    (metric : Addr) : Option (Int × Heap) := do
  let m ← h.metric metric
  if m.isDelta then h.metricStorePushDelta F st metric
  else h.metricStorePushComputed F st metric

/-- The loop of `monikor_metric_store_lpush`. -/
def lpushLoop (F : FloatOps) :
    Nat → Heap → StoreRef → Addr → Int → Option (Int × Heap)
  | 0, _, _, _, _ => none
  | fuel + 1, h, st, metrics, err => do
      match ← h.metricListPop metrics with
      | (none, h) => return (err, h)
      | (some metric, h) =>
          let (rc, h) ← h.metricStorePush F st metric
          lpushLoop F fuel h st metrics (if rc ≠ 0 then -1 else err)

/-- `monikor_metric_store_lpush`. -/
def metricStoreLpush (F : FloatOps) (h : Heap) (st : StoreRef)
    (metrics : Addr) : Option (Int × Heap) :=
  lpushLoop F (h.brk + 1) h st metrics 0

/-- The loop of `monikor_metric_store_evict_cache`; `monikor_metric_free`
of the NULL of an empty list is a fault. -/
def evictCacheLoop : Nat → Heap → StoreRef → Nat → Nat → Option (Nat × Heap)
  | 0, _, _, _, _ => none
  | fuel + 1, h, st, maxSize, n => do
      let hdr ← h.list st.cache
      if maxSize < hdr.dataSize then
        let (p, h) ← h.metricListPop st.cache
        let h ← h.metricFree (← p)
        evictCacheLoop fuel h st maxSize (n + 1)
      else return (n, h)

/-- `monikor_metric_store_evict_cache`. -/
def metricStoreEvictCache (h : Heap) (st : StoreRef) (maxSize : Nat) :
    Option (Nat × Heap) :=
  evictCacheLoop (h.brk + 1) h st maxSize 0

/-- `monikor_metric_store_evict_delta`. -/
def metricStoreEvictDelta (h : Heap) (st : StoreRef) (clock : Timeval) :
    Option (Nat × Heap) :=
  h.metricListRemoveIf (fun data m => (evictDeltaPredicate m data, data))
    st.delta clock

/-- `monikor_metric_store_flush`. -/
def metricStoreFlush (h : Heap) (st : StoreRef) : Option Heap :=
  h.metricListEmpty st.current

/-- `monikor_metric_store_cache`. -/
def metricStoreCache (h : Heap) (st : StoreRef) : Option Heap :=
  h.metricListConcat st.cache st.current

/-- `monikor_metric_store_uncache`. -/
def metricStoreUncache (h : Heap) (st : StoreRef) : Option Heap := do
  let h ← h.metricListConcat st.cache st.current
  h.metricListConcat st.current st.cache

/-- `monikor_metric_store_flush_all`. -/
def metricStoreFlushAll (h : Heap) (st : StoreRef) : Option Heap := do
  let h ← h.metricListEmpty st.current
  let h ← h.metricListEmpty st.delta
  h.metricListEmpty st.cache

end Heap

end Monikor
