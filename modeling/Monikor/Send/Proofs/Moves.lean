/-
What each function of the send path can do, on sequences.

The batch of `monikor_send_all_metrics` is cut off the front of
cache ++ current with the rest left behind (`takeBatch_append`), and so
is what eviction frees; both are the same whether the elements are
cells, items or metrics. `sendAllMetrics_cases` and
`handleServerResponse_cases` say once what a send and a response come
to, and the laws of whole runs are derived from these.
-/
import Monikor.Send.Run

namespace Monikor.Seq

variable {α β : Type*} {w : α → Nat} {maxSendSize : Nat}

/-- The loop moves elements from the front of one list to the back of the
other. -/
theorem fillBatch_append (current : List α) :
    ∀ batch, (fillBatch w maxSendSize batch current).1
      ++ (fillBatch w maxSendSize batch current).2 = batch ++ current := by
  induction current with
  | nil => exact fun batch => rfl
  | cons a current ih =>
      intro batch
      unfold fillBatch
      split
      · rw [ih, metricListPush, List.append_assoc, List.singleton_append]
      · rfl

/-- A batch and its rest are the cache followed by the current list. -/
theorem takeBatch_append (maxSendSize : Nat) (s : Store α) :
    (takeBatch w maxSendSize s).1 ++ (takeBatch w maxSendSize s).2.current
      = s.cache ++ s.current :=
  fillBatch_append ..

/-- The loop only looks at sizes. -/
theorem fillBatch_map (maxSendSize : Nat) (f : β → α) (current : List β) :
    ∀ batch, fillBatch w maxSendSize (batch.map f) (current.map f)
      = (((fillBatch (fun b => w (f b)) maxSendSize batch current).1).map f,
        ((fillBatch (fun b => w (f b)) maxSendSize batch current).2).map f) := by
  induction current with
  | nil => exact fun batch => rfl
  | cons a current ih =>
      intro batch
      rw [List.map_cons, fillBatch, fillBatch, dataSize_map]
      split
      · rw [← ih, metricListPush, metricListPush, List.map_append,
          List.map_singleton]
      · rfl

@[simp] theorem record_pushed_nil (led : Ledger α) (op : AgentOp β)
    (released : List α) : (led.record op [] released).pushed = led.pushed :=
  List.append_nil _

/-- A send leaves everything where it was, or puts all of it in the
cache, or puts a front part in flight and the rest in the cache. -/
theorem sendAllMetrics_cases (a : Agent α) (maxSendSize : Nat)
    (listOk sendOk : Bool) :
    sendAllMetrics w a maxSendSize listOk sendOk = a
      ∨ sendAllMetrics w a maxSendSize listOk sendOk
        = { a with store := { a.store with
            current := [], cache := a.store.cache ++ a.store.current } }
      ∨ ∃ batch rest, batch ++ rest = a.store.cache ++ a.store.current
        ∧ sendAllMetrics w a maxSendSize listOk sendOk
          = { a with
              store := { a.store with current := [], cache := rest }
              inFlight := a.inFlight ++ [batch] } := by
  have htake := takeBatch_append (w := w) maxSendSize a.store
  unfold sendAllMetrics
  split
  · exact .inl rfl
  split
  · exact .inr (.inl rfl)
  cases sendOk with
  | true => exact .inr (.inr ⟨_, _, htake, rfl⟩)
  | false =>
      refine .inr (.inl ?_)
      rw [← htake]
      rfl

/-- A failed batch goes to the back of the cache; any other is released,
at a backoff that is not the first one behind all that the store held. -/
theorem handleServerResponse_cases (updateInterval : Int) (a : Agent α)
    (batch : List α) (result : Nat) (httpCode : Int) :
    (Failed result httpCode
        ∧ handleServerResponse updateInterval a batch result httpCode
          = ([], { a with
              store := { a.store with cache := a.store.cache ++ batch }
              update := a.update.success }))
      ∨ (¬ Failed result httpCode ∧ ∃ update,
          ((400 ≤ httpCode → a.update.backoffCount = 0)
            ∧ handleServerResponse updateInterval a batch result httpCode
              = (batch, { a with update }))
          ∨ (400 ≤ httpCode ∧ 0 < a.update.backoffCount
            ∧ handleServerResponse updateInterval a batch result httpCode
              = (metricStoreElems a.store ++ batch,
                { a with store := metricStoreNew, update }))) := by
  unfold handleServerResponse
  by_cases hfail : Failed result httpCode
  · have hack : ¬ (result = curleOk ∧ httpCode = 200) := by
      intro hok
      obtain ⟨hr, hc⟩ := hok
      exact hfail.elim (fun h => h hr) fun h => by omega
    simp only [if_neg hack, if_pos (show _ ∨ _ from hfail)]
    exact .inl ⟨hfail, rfl⟩
  · refine .inr ⟨hfail, ?_⟩
    simp only [if_neg (show ¬ (_ ∨ _) from hfail)]
    by_cases hcode : httpCode ≥ 400
    case neg =>
        simp only [if_neg hcode]
        split
        · exact ⟨_, .inl ⟨fun h => absurd h hcode, rfl⟩⟩
        · exact ⟨_, .inl ⟨fun h => absurd h hcode, rfl⟩⟩
    have hack : ¬ (result = curleOk ∧ httpCode = 200) := by
      intro hok
      obtain ⟨-, hc⟩ := hok
      omega
    simp only [if_pos hcode, if_neg hack, updateBackoff]
    split
    case isTrue hback => exact ⟨_, .inr ⟨hcode, hback, rfl⟩⟩
    case isFalse hback =>
        exact ⟨_, .inl ⟨fun _ => Nat.eq_zero_of_not_pos hback, rfl⟩⟩

end Monikor.Seq
