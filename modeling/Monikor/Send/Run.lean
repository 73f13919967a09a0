/-
The agent's send path as a machine: pushes, update ticks, responses and
evictions in any order, once on pointers (`Agent.step`) and once on
sequences (`Seq.Agent.step`).

A response names the request it answers by its place among those in
flight; one that names none is not a response and is skipped. Beside the
agent the machine keeps a ledger of what was pushed, what the server
acknowledged and what was dropped, written from the outside: on pointers,
from the metrics each step handed to `monikor_metric_free`.
-/
import Monikor.Lib.Simulation
import Monikor.Lists.Client
import Monikor.Send.Seq

namespace Monikor

-- ================================================================= events

/-- A metric that goes to the current list as it is. -/
structure PlainMetric where
  metric : Metric
  not_delta : metric.isDelta = false
  not_aggregate : metric.isAggregate = false

/-- What happens to the agent; `β` is what is pushed. For `sendAll`, how
the batch-list allocation and `monikor_send_metrics` end. -/
inductive AgentOp (β : Type*) where
  | push (m : β)
  | sendAll (maxSendSize : Nat) (listOk sendOk : Bool)
  | respond (i result : Nat) (httpCode : Int)
  | evictCache (maxSize : Nat)
  | flushAll

/-- The same event, the metric pushed being at `p`. -/
def AgentOp.placed (p : Addr) : AgentOp PlainMetric → AgentOp (Addr × Metric)
  | .push m => .push (p, m.metric)
  | .sendAll maxSendSize listOk sendOk => .sendAll maxSendSize listOk sendOk
  | .respond i result httpCode => .respond i result httpCode
  | .evictCache maxSize => .evictCache maxSize
  | .flushAll => .flushAll

/-- What the coming allocations answer: only the first one of `sendAll`,
which is the batch list, may fail. -/
def AgentOp.allocs {β : Type*} : AgentOp β → Nat → Bool
  | .sendAll _ listOk _, 0 => listOk
  | _, _ => true

/-- The response that acknowledges a batch. -/
def AgentOp.acks {β : Type*} : AgentOp β → Bool
  | .respond _ result httpCode => result = curleOk ∧ httpCode = 200
  | _ => false

/-- The events that drop metrics: evictions, flushes, and the responses
that refuse a batch. -/
def AgentOp.drops {β : Type*} : AgentOp β → Bool
  | .respond _ result httpCode =>
      result = curleOk ∧ httpCode < 500 ∧ httpCode ≠ 200
  | .evictCache _ => true
  | .flushAll => true
  | _ => false

/-- The metrics pushed by a sequence of events. -/
def AgentOp.pushes (ops : List (AgentOp PlainMetric)) : List Metric :=
  ops.filterMap fun
    | .push m => some m.metric
    | _ => none

/-- The responses that send a batch back. -/
def Failed (result : Nat) (httpCode : Int) : Prop :=
  result ≠ curleOk ∨ httpCode ≥ 500

instance (result : Nat) (httpCode : Int) :
    Decidable (Failed result httpCode) := instDecidableOr

-- ================================================================= ledger

structure Ledger (α : Type*) where
  pushed : List α
  acked : List α
  dropped : List α
deriving DecidableEq

def Ledger.empty {α : Type*} : Ledger α := ⟨[], [], []⟩

/-- Enter what one step pushed and what it released. What is released by
an event that neither acknowledges nor drops is not entered: it is
lost. -/
def Ledger.record {α β : Type*} (led : Ledger α) (op : AgentOp β)
    (new released : List α) : Ledger α where
  pushed := led.pushed ++ new
  acked := if op.acks then led.acked ++ released else led.acked
  dropped := if op.drops then led.dropped ++ released else led.dropped

/-- An agent with its ledger. -/
structure Tracked (σ α : Type*) where
  agent : σ
  ledger : Ledger α

-- =========================================================== on sequences

namespace Seq

variable {α : Type*} (w : α → Nat) (updateInterval : Int)

/-- What a step adds, what it releases, and the agent afterwards. -/
def Agent.step : AgentOp α → Agent α → (List α × List α) × Agent α
  | .push m, a =>
      (([m], []), { a with
        store := { a.store with current := metricListPush a.store.current m } })
  | .sendAll maxSendSize listOk sendOk, a =>
      (([], []), sendAllMetrics w a maxSendSize listOk sendOk)
  | .respond i result httpCode, a =>
      match a.inFlight[i]? with
      | none => (([], []), a)
      | some batch =>
          let r := handleServerResponse updateInterval
            { a with inFlight := a.inFlight.eraseIdx i } batch result httpCode
          (([], r.1), r.2)
  | .evictCache maxSize, a =>
      let r := metricStoreEvictCache w a.store maxSize
      (([], r.1), { a with store := r.2 })
  | .flushAll, a =>
      (([], metricStoreElems a.store),
        { a with store := metricStoreFlushAll a.store })

def trackedStep (op : AgentOp α) (t : Tracked (Agent α) α) :
    Tracked (Agent α) α :=
  let r := t.agent.step w updateInterval op
  { agent := r.2, ledger := t.ledger.record op r.1.1 r.1.2 }

end Seq

-- ============================================================ on pointers

/-- A metric with its address: two metrics of the same contents are two
items. -/
abbrev Item := Addr × Metric

def Item.size (x : Item) : Nat := metricNodeSize x.2

namespace Heap

/-- The metric a node points at. -/
def nodeItem (h : Heap) (a : Addr) : Option Item := do
  let n ← h.node a
  let m ← h.metric n.metric
  return (n.metric, m)

/-- The metrics of the list at `l`, by following `next`. -/
def itemsAt (h : Heap) (l : Addr) : Option (List Item) := do
  let hdr ← h.list l
  let nodes ← h.walk hdr.size hdr.first
  nodes.mapM h.nodeItem

/-- The metrics freed on the way from one heap to another, with the
contents they had. -/
def released (before after : Heap) : List Item :=
  (after.freed.drop before.freed.length).filterMap fun p =>
    (before.metric p).map fun m => (p, m)

end Heap

namespace Agent

/-- `monikor_metric_store_new` in a fresh process; `update` is what the
memory of the `monikor_t` held. -/
def start (update : Update) : Agent where
  heap := (((Heap.empty.metricListInit 0).bump.metricListInit 1).bump.metricListInit
    2).bump
  metrics := { current := 0, delta := 1, cache := 2 }
  inFlight := []
  update := update

example : Heap.empty.metricStoreNew
    = some (some (start ⟨0, 0⟩).metrics, (start ⟨0, 0⟩).heap) := rfl

variable (F : FloatOps) (updateInterval : Int)

/-- What a step adds, and the agent afterwards. -/
def step : AgentOp PlainMetric → Agent → Option (List Item × Agent)
  | .push m, a =>
      match a.heap.metricBuild m.metric with
      | (none, heap) => some ([], { a with heap })
      | (some p, heap) => do
          let (rc, heap) ← heap.metricStorePush F a.metrics p
          return (if rc = 0 then [(p, m.metric)] else [], { a with heap })
  | .sendAll maxSendSize _ sendOk, a => do
      let a ← a.sendAllMetrics maxSendSize sendOk
      return ([], a)
  | .respond i result httpCode, a =>
      match a.inFlight[i]? with
      | none => some ([], a)
      | some metrics => do
          let a ← handleServerResponse updateInterval
            { a with inFlight := a.inFlight.eraseIdx i } metrics result httpCode
          return ([], a)
  | .evictCache maxSize, a => do
      let (_, heap) ← a.heap.metricStoreEvictCache a.metrics maxSize
      return ([], { a with heap })
  | .flushAll, a => do
      let heap ← a.heap.metricStoreFlushAll a.metrics
      return ([], { a with heap })

def trackedStep (op : AgentOp PlainMetric) (t : Tracked Agent Item) :
    Option (Unit × Tracked Agent Item) := do
  let before := { t.agent with
    heap := { t.agent.heap with allocs := op.allocs } }
  let (new, agent) ← before.step F updateInterval op
  return ((), {
    agent
    ledger := t.ledger.record op new (before.heap.released agent.heap) })

/-- What the agent's lists hold. -/
def view (a : Agent) : Option (Seq.Agent Item) := do
  let current ← a.heap.itemsAt a.metrics.current
  let delta ← a.heap.itemsAt a.metrics.delta
  let cache ← a.heap.itemsAt a.metrics.cache
  let inFlight ← a.inFlight.mapM a.heap.itemsAt
  return { store := { current, delta, cache }, inFlight, update := a.update }

end Agent

/-- The start of a run. -/
def Tracked.start (update : Update) : Tracked Agent Item :=
  ⟨Agent.start update, Ledger.empty⟩

end Monikor
