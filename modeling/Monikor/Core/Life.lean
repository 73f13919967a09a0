/-
The store of the agent over its whole life: everything that is called on
it, by whomever, in any order.

Modules push their metrics, the server hands over the lists of its
clients, an update evicts and sends, responses come back to the requests
in flight, SIGUSR1 sends, SIGUSR2 flushes, and a reload makes a new store
and forgets the old one. `Life.step` does it on pointers and
`Seq.call` on sequences.

The allocations of a call succeed, but for the batch list of a send.
`handed` and `left` are for the account: the metrics handed over so far,
and the stores that reloads have left.
-/
import Monikor.Core.Evict
import Monikor.Core.Mon
import Monikor.Lists.Store

namespace Monikor

-- ================================================================== calls

/-- What the agent is called to do, with what the call reads. -/
inductive Call where
  | push (m : Metric)
  | receive (ms : List Metric)
  | evict (pollInterval maxSize : Int32) (now : Timeval)
  | send (maxSendSize : Nat) (listOk sendOk : Bool)
  | respond (updateInterval : Int) (i result : Nat) (httpCode : Int)
  | flush
  | reload
deriving DecidableEq

/-- What the allocations of a call answer. -/
def Call.allocs : Call → Nat → Bool
  | .send _ listOk _, 0 => listOk
  | _, _ => true

-- ============================================================ on pointers

/-- The agent, the metrics handed to it, and the stores it forgot. -/
structure Life where
  agent : Agent
  handed : List Addr
  left : List StoreRef

namespace Life

/-- A fresh agent; `update` is what the memory of its `monikor_t` held. -/
def start (update : Update) : Life := ⟨Agent.start update, [], []⟩

variable (F : FloatOps)

/-- One call on an agent whose allocations are answered: what it returns,
and the agent afterwards. -/
def call (s : Life) : Call → Option (Int × Life)
  | .push m => do
      let (metric, heap) := s.agent.heap.metricBuild m
      let (n, heap) ← heap.metricPush F s.agent.metrics metric
      return (n, { s with
        agent := { s.agent with heap }
        handed := s.handed ++ metric.toList })
  | .receive ms => do
      let (ps, rc, heap) ← s.agent.heap.lpushFresh F s.agent.metrics ms
      return (rc, { s with
        agent := { s.agent with heap }
        handed := s.handed ++ ps })
  | .evict pollInterval maxSize now => do
      let (n, heap) ←
        s.agent.heap.evictMetrics s.agent.metrics pollInterval maxSize now
      return (n, { s with agent := { s.agent with heap } })
  | .send maxSendSize _ sendOk => do
      let agent ← s.agent.sendAllMetrics maxSendSize sendOk
      return (0, { s with agent })
  | .respond updateInterval i result httpCode =>
      match s.agent.inFlight[i]? with
      | none => some (0, s)
      | some metrics => do
          let agent ← Agent.handleServerResponse updateInterval
            { s.agent with inFlight := s.agent.inFlight.eraseIdx i }
            metrics result httpCode
          return (0, { s with agent })
  | .flush => do
      let heap ← s.agent.heap.metricStoreFlushAll s.agent.metrics
      return (0, { s with agent := { s.agent with heap } })
  | .reload => do
      -- `monikor_init_modules`: the array of the modules, then the store
      let (metrics, heap) ← s.agent.heap.malloc.2.metricStoreNew
      return (0, { s with
        agent := { s.agent with heap, metrics := ← metrics }
        left := s.left ++ [s.agent.metrics] })

/-- One call. -/
def step (c : Call) (s : Life) : Option (Int × Life) :=
  { s with agent := { s.agent with
    heap := { s.agent.heap with allocs := c.allocs } } }.call F c

end Life

-- =========================================================== on sequences

namespace Seq

/-- An agent whose elements are read through a function. -/
def Agent.map {α β : Type*} (f : α → β) (a : Agent α) : Agent β where
  store := ⟨a.store.current.map f, a.store.delta.map f, a.store.cache.map f⟩
  inFlight := a.inFlight.map (List.map f)
  update := a.update

/-- `monikor_evict_metrics`. -/
def evictMetrics (s : Store Metric) (pollInterval maxSize : Int32)
    (now : Timeval) : Nat × Store Metric :=
  let maxDeltaClock := { now with sec := now.sec - (3 * pollInterval).toInt64 }
  let deltas := metricStoreEvictDelta s maxDeltaClock
  let cached := metricStoreEvictCache metricNodeSize deltas.2
    (sizeOfInt maxSize).toNat
  (deltas.1 + cached.1.length, cached.2)

variable (F : FloatOps)

/-- One call, on the contents of the lists. -/
def call : Call → Agent Metric → Int × Agent Metric
  | .push m, a => (1, { a with store := (metricStorePush F a.store m).2 })
  | .receive ms, a =>
      let r := metricStoreLpush F a.store ms
      (r.1, { a with store := r.2 })
  | .evict pollInterval maxSize now, a =>
      let r := evictMetrics a.store pollInterval maxSize now
      (r.1, { a with store := r.2 })
  | .send maxSendSize listOk sendOk, a =>
      (0, sendAllMetrics metricNodeSize a maxSendSize listOk sendOk)
  | .respond updateInterval i result httpCode, a =>
      match a.inFlight[i]? with
      | none => (0, a)
      | some batch =>
          (0, (handleServerResponse updateInterval
            { a with inFlight := a.inFlight.eraseIdx i } batch result
            httpCode).2)
  | .flush, a => (0, { a with store := metricStoreFlushAll a.store })
  | .reload, a => (0, { a with store := metricStoreNew })

/-- A fresh agent. -/
def Agent.start (update : Update) : Agent Metric := ⟨metricStoreNew, [], update⟩

end Seq

-- ======================================================== what is compared

/-- What the lists of the agent hold, by following their links. -/
def Life.contents (s : Life) : Option (Seq.Agent Metric) :=
  s.agent.view.map (Seq.Agent.map Prod.snd)

/-- The metrics the nodes of the agent's lists point at: those of its store,
of the batches in flight, and of the stores it forgot. -/
def Life.refs (s : Life) : Option (List Addr) := do
  let store ← s.agent.heap.storeRefs s.agent.metrics
  let batches ← s.agent.inFlight.mapM s.agent.heap.listRefs
  let left ← s.left.mapM s.agent.heap.storeRefs
  return store ++ batches.flatten ++ left.flatten

/-- Every metric handed to the agent, and every one there is or was, is
pointed at by one node and has not been freed, or is pointed at by none and
has been freed once; what a node points at is live. -/
def Life.Accounted (s : Life) : Prop :=
  ∃ refs, s.refs = some refs
    ∧ (∀ p, p ∈ s.handed ∨ s.agent.heap.metric p ≠ none
          ∨ p ∈ s.agent.heap.freed →
        (refs.count p = 1 ∧ s.agent.heap.freed.count p = 0)
          ∨ (refs.count p = 0 ∧ s.agent.heap.freed.count p = 1))
    ∧ ∀ p ∈ refs, s.agent.heap.metric p ≠ none

end Monikor
