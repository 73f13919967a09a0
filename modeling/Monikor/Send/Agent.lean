/-
send.c and update.c on pointers: how a batch of metrics leaves the store
and what comes of it.

The agent is its store, the batches of the requests that are waiting for
a response (the `metrics` of each `send_data_t`), and what update.c keeps
between updates. `monikor_send_metrics` reads the batch and either hands
it to a request or fails with the batch untouched, so here it is its
outcome, `sendOk`; what it serializes is in Wire/Serialize.lean. The
outcome of the batch-list allocation is with the heap's other
allocations.
-/
import Monikor.Lists.Heap

namespace Monikor

/-- The `update` member of `monikor_s`. -/
structure Update where
  backoffCount : Nat
  nextUpdate : Int
deriving DecidableEq

structure Agent where
  heap : Heap
  metrics : StoreRef
  inFlight : List Addr
  update : Update

-- =============================================================== update.c

/-- `MONIKOR_UPDATE_BACKOFF_COUNT_MAX`. -/
def updateBackoffCountMax : Nat := 15

/-- `MONIKOR_UPDATE_BACKOFF_EXP`. -/
def updateBackoffExp : Nat := 2

/-- `monikor_update_success`. -/
def Update.success (u : Update) : Update := { u with backoffCount := 0 }

/-- What `monikor_update_backoff` does to the counters; `powf` of these
arguments is exact. -/
def Update.backoff (updateInterval : Int) (u : Update) : Update :=
  { nextUpdate :=
      if u.backoffCount > 0 then
        u.nextUpdate
          + updateInterval * ((updateBackoffExp ^ u.backoffCount : Nat) : Int)
      else u.nextUpdate
    backoffCount :=
      if u.backoffCount < updateBackoffCountMax then u.backoffCount + 1
      else u.backoffCount }

/-- `CURLE_OK`. -/
def curleOk : Nat := 0

namespace Agent

/-- `monikor_update_backoff`: everything is flushed, but not on the first
failure. -/
def updateBackoff (updateInterval : Int) (a : Agent) : Option Agent := do
  let heap ← if a.update.backoffCount > 0 then
      a.heap.metricStoreFlushAll a.metrics
    else some a.heap
  return { a with heap, update := a.update.backoff updateInterval }

-- ================================================================= send.c

/-- `handle_server_response`, for the batch of its request. -/
def handleServerResponse (updateInterval : Int) (a : Agent) (metrics : Addr)
    (result : Nat) (httpCode : Int) : Option Agent := do
  let a := if result = curleOk ∧ httpCode = 200 then
      { a with update := a.update.success }
    else a
  let a ← if result ≠ curleOk ∨ httpCode ≥ 500 then do
      let heap ← a.heap.metricListConcat a.metrics.cache metrics
      some { a with heap, update := a.update.success }
    else if httpCode ≥ 400 then a.updateBackoff updateInterval
    else some a
  let heap ← a.heap.metricListFree metrics
  return { a with heap }

/-- The `while` loop of `monikor_send_all_metrics`. -/
def fillBatchLoop : Nat → Heap → StoreRef → Addr → Nat → Option Heap
  | 0, _, _, _, _ => none
  | fuel + 1, h, st, metrics, maxSendSize => do
      let current ← h.list st.current
      let batch ← h.list metrics
      if current.size ≠ 0 ∧ batch.dataSize < maxSendSize then do
        let (p, h) ← h.metricListPop st.current
        let (_, h) ← h.metricListPush metrics (← p)
        fillBatchLoop fuel h st metrics maxSendSize
      else some h

/-- `monikor_send_all_metrics`. -/
def sendAllMetrics (a : Agent) (maxSendSize : Nat) (sendOk : Bool) :
    Option Agent := do
  let current ← a.heap.list a.metrics.current
  let cache ← a.heap.list a.metrics.cache
  if current.size = 0 ∧ cache.size = 0 then return a
  match a.heap.metricListNew with
  | (none, heap) =>
      let heap ← heap.metricStoreCache a.metrics
      return { a with heap }
  | (some metrics, heap) =>
      let heap ← heap.metricStoreUncache a.metrics
      let heap ← fillBatchLoop (heap.brk + 1) heap a.metrics metrics maxSendSize
      if sendOk then
        let heap ← heap.metricStoreCache a.metrics
        return { a with heap, inFlight := a.inFlight ++ [metrics] }
      else
        let heap ← heap.metricListConcat a.metrics.cache metrics
        let heap ← heap.metricStoreCache a.metrics
        return { a with heap }

end Agent

end Monikor
