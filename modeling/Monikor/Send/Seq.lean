/-
send.c and update.c on sequences: what Send/Agent.lean does to the
contents of the lists, for elements of any type with the size `w` they
add to `data_size`. Each function that frees elements returns them too.
-/
import Monikor.Lists.Seq
import Monikor.Send.Agent

namespace Monikor.Seq

variable {α : Type*}

/-- The agent, with sequences for its lists. -/
structure Agent (α : Type*) where
  store : Store α
  inFlight : List (List α)
  update : Update
deriving DecidableEq

/-- All the elements of a store. -/
def metricStoreElems (s : Store α) : List α := s.current ++ s.delta ++ s.cache

/-- `monikor_update_backoff`. -/
def updateBackoff (updateInterval : Int) (a : Agent α) : List α × Agent α :=
  let update := a.update.backoff updateInterval
  if a.update.backoffCount > 0 then
    (metricStoreElems a.store,
      { a with store := metricStoreFlushAll a.store, update })
  else ([], { a with update })

/-- `handle_server_response`, for the batch of its request. -/
def handleServerResponse (updateInterval : Int) (a : Agent α) (batch : List α)
    (result : Nat) (httpCode : Int) : List α × Agent α :=
  let a := if result = curleOk ∧ httpCode = 200 then
      { a with update := a.update.success }
    else a
  if result ≠ curleOk ∨ httpCode ≥ 500 then
    let cache := (metricListConcat a.store.cache batch).1
    ([], { a with store := { a.store with cache }, update := a.update.success })
  else if httpCode ≥ 400 then
    let r := updateBackoff updateInterval a
    (r.1 ++ batch, r.2)
  else (batch, a)

/-- The `while` loop of `monikor_send_all_metrics`: the batch so far and
what is left of the current list. -/
def fillBatch (w : α → Nat) (maxSendSize : Nat) :
    List α → List α → List α × List α
  | batch, [] => (batch, [])
  | batch, a :: current =>
      if dataSize w batch < maxSendSize then
        fillBatch w maxSendSize (metricListPush batch a) current
      else (batch, a :: current)

/-- The batch that `monikor_send_all_metrics` makes of a store, and the
rest. -/
def takeBatch (w : α → Nat) (maxSendSize : Nat) (s : Store α) :
    List α × Store α :=
  let s := metricStoreUncache s
  let r := fillBatch w maxSendSize [] s.current
  (r.1, { s with current := r.2 })

/-- `monikor_send_all_metrics`. -/
def sendAllMetrics (w : α → Nat) (a : Agent α) (maxSendSize : Nat)
    (listOk sendOk : Bool) : Agent α :=
  if a.store.current = [] ∧ a.store.cache = [] then a
  else if listOk = false then { a with store := metricStoreCache a.store }
  else
    let r := takeBatch w maxSendSize a.store
    if sendOk then
      { a with store := metricStoreCache r.2, inFlight := a.inFlight ++ [r.1] }
    else
      let cache := (metricListConcat r.2.cache r.1).1
      { a with store := metricStoreCache { r.2 with cache } }

end Monikor.Seq
