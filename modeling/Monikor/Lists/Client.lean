/-
A client of the metric lists: any sequence of list operations and store
pushes, once on pointers (`Client.step`) and once on sequences
(`Contents.step`).

The client owns list headers, named by the order they were created in,
and holds pointers to metrics that are in no list: what it has built and
not pushed yet, and what it has popped. A push gives a held metric away;
one that fails leaves it with the client. An operation that names a list
or a metric the client does not have is not a call and is skipped on
both sides.
-/
import Monikor.Lists.Heap
import Monikor.Lists.Seq

namespace Monikor

/-- What a client may do. `removeIf` takes any predicate on metrics,
which may keep state from one call to the next. -/
inductive ListOp : Type 1 where
  | listNew
  | listInit (i : Nat)
  | metricNew (m : Metric)
  | push (i j : Nat)
  | pop (i : Nat)
  | removeIf {σ : Type} (f : σ → Metric → Bool × σ) (data : σ) (i : Nat)
  | concat (i j : Nat)
  | empty (i : Nat)
  | storePush (current delta cache j : Nat)

/-- What a call returns. -/
inductive ListOut where
  | skip
  | done
  | code (rc : Int)
  | popped (m : Option Metric)
  | removed (n : Nat)
deriving DecidableEq

-- ============================================================ on pointers

structure Client where
  heap : Heap
  handles : List Addr
  hand : List Addr

/-- No list, no metric, and an allocator that never fails. -/
def Client.start : Client where
  heap := Heap.empty
  handles := []
  hand := []

namespace Client

variable (F : FloatOps)

/-- The held metrics after a push of the `j`-th returned `rc`. -/
def handAfter {α : Type} (hand : List α) (j : Nat) (rc : Int) : List α :=
  if rc = 0 then hand.eraseIdx j else hand

def step : ListOp → Client → Option (ListOut × Client)
  | .listNew, c =>
      match c.heap.metricListNew with
      | (none, heap) => some (.skip, { c with heap })
      | (some l, heap) =>
          some (.done, { c with heap, handles := c.handles ++ [l] })
  | .listInit i, c =>
      match c.handles[i]? with
      | none => some (.skip, c)
      | some l => some (.done, { c with heap := c.heap.metricListInit l })
  | .metricNew m, c =>
      match c.heap.metricBuild m with
      | (none, heap) => some (.skip, { c with heap })
      | (some p, heap) => some (.done, { c with heap, hand := c.hand ++ [p] })
  | .push i j, c =>
      match c.handles[i]?, c.hand[j]? with
      | some l, some p => do
          let (rc, heap) ← c.heap.metricListPush l p
          return (.code rc, { c with heap, hand := handAfter c.hand j rc })
      | _, _ => some (.skip, c)
  | .pop i, c =>
      match c.handles[i]? with
      | none => some (.skip, c)
      | some l => do
          match ← c.heap.metricListPop l with
          | (none, heap) => return (.popped none, { c with heap })
          | (some p, heap) =>
              let m ← heap.metric p
              return (.popped (some m), { c with heap, hand := c.hand ++ [p] })
  | .removeIf f data i, c =>
      match c.handles[i]? with
      | none => some (.skip, c)
      | some l => do
          let (n, heap) ← c.heap.metricListRemoveIf f l data
          return (.removed n, { c with heap })
  | .concat i j, c =>
      match c.handles[i]?, c.handles[j]? with
      | some head, some tail =>
          if i = j then some (.skip, c)
          else do
            let heap ← c.heap.metricListConcat head tail
            return (.done, { c with heap })
      | _, _ => some (.skip, c)
  | .empty i, c =>
      match c.handles[i]? with
      | none => some (.skip, c)
      | some l => do
          let heap ← c.heap.metricListEmpty l
          return (.done, { c with heap })
  | .storePush cur del cac j, c =>
      match c.handles[cur]?, c.handles[del]?, c.handles[cac]?, c.hand[j]? with
      | some current, some delta, some cache, some p =>
          if cur = del then some (.skip, c)
          else do
            let (rc, heap) ←
              c.heap.metricStorePush F { current, delta, cache } p
            return (.code rc, { c with heap, hand := handAfter c.hand j rc })
      | _, _, _, _ => some (.skip, c)

end Client

-- =========================================================== on sequences

/-- What the client's lists hold, and what it holds itself. -/
structure Contents where
  lists : List (List Metric)
  hand : List Metric
deriving DecidableEq

def Contents.start : Contents := ⟨[], []⟩

open Client in
def Contents.step (F : FloatOps) : ListOp → Contents → ListOut × Contents
  | .listNew, s => (.done, { s with lists := s.lists ++ [[]] })
  | .listInit i, s =>
      match s.lists[i]? with
      | none => (.skip, s)
      | some _ => (.done, { s with lists := s.lists.set i [] })
  | .metricNew m, s => (.done, { s with hand := s.hand ++ [m] })
  | .push i j, s =>
      match s.lists[i]?, s.hand[j]? with
      | some l, some m =>
          (.code 0,
            { lists := s.lists.set i (Seq.metricListPush l m)
              hand := handAfter s.hand j 0 })
      | _, _ => (.skip, s)
  | .pop i, s =>
      match s.lists[i]? with
      | none => (.skip, s)
      | some l =>
          let (m, l) := Seq.metricListPop l
          (.popped m,
            { lists := s.lists.set i l, hand := s.hand ++ m.toList })
  | .removeIf f data i, s =>
      match s.lists[i]? with
      | none => (.skip, s)
      | some l =>
          let (kept, n) := Seq.metricListRemoveIf f data l
          (.removed n, { s with lists := s.lists.set i kept })
  | .concat i j, s =>
      match s.lists[i]?, s.lists[j]? with
      | some head, some tail =>
          if i = j then (.skip, s)
          else
            let (head, tail) := Seq.metricListConcat head tail
            (.done, { s with lists := (s.lists.set i head).set j tail })
      | _, _ => (.skip, s)
  | .empty i, s =>
      match s.lists[i]? with
      | none => (.skip, s)
      | some _ => (.done, { s with lists := s.lists.set i [] })
  | .storePush cur del cac j, s =>
      match s.lists[cur]?, s.lists[del]?, s.lists[cac]?, s.hand[j]? with
      | some current, some delta, some cache, some m =>
          if cur = del then (.skip, s)
          else
            let (rc, st) := Seq.metricStorePush F { current, delta, cache } m
            (.code rc,
              { lists := (s.lists.set del st.delta).set cur st.current
                hand := handAfter s.hand j rc })
      | _, _, _, _ => (.skip, s)

-- =================================================== reading a list back

namespace Heap

/-- The nodes met by following `next`, if the walk ends within the given
number of nodes. -/
def walk (h : Heap) : Nat → Option Addr → Option (List Addr)
  | _, none => some []
  | 0, some _ => none
  | fuel + 1, some a => do
      let n ← h.node a
      let rest ← h.walk fuel n.next
      return a :: rest

/-- The metric a node holds. -/
def nodeMetric (h : Heap) (a : Addr) : Option Metric := do
  let n ← h.node a
  h.metric n.metric

/-- The list at `l` is well formed, with the given nodes, and represents
the sequence `ms`. -/
structure WellFormed (h : Heap) (l : Addr) (nodes : List Addr)
    (ms : List Metric) (hdr : MetricList) : Prop where
  header : h.list l = some hdr
  visits : h.walk hdr.size hdr.first = some nodes
  size : hdr.size = nodes.length
  distinct : nodes.Nodup
  last : hdr.last = nodes.getLast?
  last_next : ∀ a, hdr.last = some a → ∃ n, h.node a = some n ∧ n.next = none
  first_null : hdr.first = none ↔ hdr.size = 0
  last_null : hdr.last = none ↔ hdr.size = 0
  dataSize : nodes.mapM h.nodeSize = some (ms.map metricNodeSize)
    ∧ hdr.dataSize = (ms.map metricNodeSize).sum
  contents : nodes.mapM h.nodeMetric = some ms

end Heap

end Monikor
