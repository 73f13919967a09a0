/-
The order of cache ++ current.

A send keeps the order, and so do evictions and pushes. A failed batch
goes to the back of the cache, which is out of order as soon as the cache
holds a metric pushed after one of the batch's: `KeepsOrder` is the
condition on a response that this is not so, and under it every run stays
in order. `Ordered` is the invariant; that each batch in flight is older
than the current list is what makes it inductive.
-/
import Monikor.Lib.Arrival
import Monikor.Send.Proofs.Conserve

namespace Monikor

open Machine Arrival

-- ============================================================ on sequences

namespace Seq

variable {α : Type*} {w : α → Nat} (updateInterval : Int)
  {t : Tracked (Agent α) α}

/-- The cache and the current list are in push order, and so is each
batch in flight with the current list. -/
structure Ordered (t : Tracked (Agent α) α) : Prop where
  store : InOrder t.ledger.pushed (t.agent.store.cache ++ t.agent.store.current)
  inFlight : ∀ batch ∈ t.agent.inFlight,
    InOrder t.ledger.pushed (batch ++ t.agent.store.current)

/-- No metric of the cache was pushed after one of the batch a response
fails. -/
def KeepsOrder {β : Type*} (op : AgentOp β) (t : Tracked (Agent α) α) :
    Prop :=
  match op with
  | .respond i result httpCode =>
      Failed result httpCode → ∀ batch, t.agent.inFlight[i]? = some batch →
        ∀ x ∈ t.agent.store.cache, ∀ y ∈ batch, Before t.ledger.pushed x y
  | _ => True

theorem Accounted.mem_pushed (ht : Accounted t) {x : α}
    (hx : x ∈ t.agent.store.current ∨ x ∈ t.agent.store.cache
      ∨ ∃ batch ∈ t.agent.inFlight, x ∈ batch) : x ∈ t.ledger.pushed := by
  apply ht.perm.mem_iff.mpr
  simp only [List.mem_append, List.mem_flatten]
  rcases hx with hx | hx | ⟨batch, hb, hx⟩
  · exact .inl (.inl (.inl (.inl hx)))
  · exact .inl (.inl (.inl (.inr hx)))
  · exact .inl (.inl (.inr ⟨batch, hb, hx⟩))

theorem push_ordered (ht : Ordered t) (hacc : Accounted t) (m : α) :
    Ordered (trackedStep w updateInterval (.push m) t) where
  store := by
    have hgrow := ht.store.arrive (fun x hx => hacc.mem_pushed
      ((List.mem_append.mp hx).elim (fun h => .inr (.inl h)) .inl)) m
    rwa [List.append_assoc] at hgrow
  inFlight := by
    intro batch hb
    have hgrow := (ht.inFlight batch hb).arrive (fun x hx => hacc.mem_pushed
      ((List.mem_append.mp hx).elim (fun h => .inr (.inr ⟨batch, hb, h⟩))
        .inl)) m
    rwa [List.append_assoc] at hgrow

theorem sendAll_ordered (ht : Ordered t) (maxSendSize : Nat)
    (listOk sendOk : Bool) :
    Ordered (trackedStep w updateInterval
      (.sendAll maxSendSize listOk sendOk) t) := by
  obtain ⟨hstore, hbatches⟩ := ht
  unfold trackedStep
  simp only [Agent.step]
  rcases sendAllMetrics_cases (w := w) t.agent maxSendSize listOk sendOk
    with hres | hres | ⟨batch, rest, hsplit, hres⟩
  · rw [hres]
    exact ⟨by simpa using hstore, by simpa using hbatches⟩
  · rw [hres]
    exact ⟨by simpa using hstore,
      fun b hb => by simpa using (hbatches b hb).left⟩
  · rw [← hsplit] at hstore
    rw [hres]
    refine ⟨by simpa using hstore.right, fun b hb => ?_⟩
    rcases List.mem_append.mp hb with hb | hb
    · simpa using (hbatches b hb).left
    · rw [List.mem_singleton.mp hb]
      simpa using hstore.left

theorem respond_ordered (ht : Ordered t) (i result : Nat) (httpCode : Int)
    (hop : KeepsOrder (AgentOp.respond (β := α) i result httpCode) t) :
    Ordered (trackedStep w updateInterval (.respond i result httpCode) t) := by
  obtain ⟨hstore, hbatches⟩ := ht
  unfold trackedStep
  simp only [Agent.step]
  cases hi : t.agent.inFlight[i]? with
  | none => exact ⟨by simpa using hstore, by simpa using hbatches⟩
  | some batch =>
      have hothers : ∀ b ∈ t.agent.inFlight.eraseIdx i,
          InOrder t.ledger.pushed (b ++ t.agent.store.current) :=
        fun b hb => hbatches b (List.mem_of_mem_eraseIdx hb)
      simp only
      obtain ⟨hfail, hres⟩ | ⟨-, u, ⟨-, hres⟩ | ⟨-, -, hres⟩⟩ :=
        handleServerResponse_cases updateInterval
          { t.agent with inFlight := t.agent.inFlight.eraseIdx i } batch result
          httpCode
      · -- the cache, then the batch, then the current list
        obtain ⟨hcache, hcur, hcc⟩ := inOrder_append.mp hstore
        obtain ⟨hbatch, -, hbc⟩ := inOrder_append.mp
          (hbatches batch (List.mem_of_getElem? hi))
        have hall : InOrder t.ledger.pushed
            (t.agent.store.cache ++ batch ++ t.agent.store.current) := by
          refine inOrder_append.mpr ⟨inOrder_append.mpr
            ⟨hcache, hbatch, hop hfail batch hi⟩, hcur, fun x hx y hy => ?_⟩
          rcases List.mem_append.mp hx with hx | hx
          · exact hcc x hx y hy
          · exact hbc x hx y hy
        rw [hres]
        exact ⟨by simpa using hall, by simpa using hothers⟩
      · rw [hres]
        exact ⟨by simpa using hstore, by simpa using hothers⟩
      · rw [hres]
        exact ⟨inOrder_nil, fun b hb => by
          simpa [metricStoreNew] using (hothers b hb).left⟩

theorem evictCache_ordered (ht : Ordered t) (maxSize : Nat) :
    Ordered (trackedStep w updateInterval (.evictCache maxSize) t) := by
  have hstore := ht.store
  rw [← evictCacheLoop_append (w := w) maxSize t.agent.store.cache,
    List.append_assoc] at hstore
  exact ⟨by
      simpa [trackedStep, Agent.step, metricStoreEvictCache]
        using hstore.right,
    by simpa [trackedStep, Agent.step, metricStoreEvictCache]
        using ht.inFlight⟩

/-- Every step that meets the condition keeps the order. -/
theorem trackedStep_ordered (ht : Ordered t) (hacc : Accounted t)
    (op : AgentOp α) (hop : KeepsOrder op t) :
    Ordered (trackedStep w updateInterval op t) := by
  cases op with
  | push m => exact push_ordered updateInterval ht hacc m
  | sendAll maxSendSize listOk sendOk =>
      exact sendAll_ordered updateInterval ht maxSendSize listOk sendOk
  | respond i result httpCode =>
      exact respond_ordered updateInterval ht i result httpCode hop
  | evictCache maxSize => exact evictCache_ordered updateInterval ht maxSize
  | flushAll =>
      exact ⟨inOrder_nil, fun b hb => by
        simpa [trackedStep, Agent.step, metricStoreFlushAll]
          using (ht.inFlight b hb).left⟩

/-- What an eviction drops was pushed before what it keeps. -/
theorem evictCache_oldest (ht : Ordered t) (maxSize : Nat) :
    ∀ x ∈ (evictCacheLoop w maxSize t.agent.store.cache).1,
      ∀ y ∈ (evictCacheLoop w maxSize t.agent.store.cache).2,
        Before t.ledger.pushed x y := by
  have hcache := ht.store.left
  rw [← evictCacheLoop_append (w := w) maxSize t.agent.store.cache] at hcache
  exact (inOrder_append.mp hcache).2.2

end Seq

-- ================================================================ pointers

/-- The condition on one step of the agent on pointers: no failed batch
comes back to a cache with a metric pushed after one of its own. -/
def KeepsOrder (op : AgentOp PlainMetric) (t : Tracked Agent Item) : Prop :=
  ∀ q, t.agent.view = some q → Seq.KeepsOrder op ⟨q, t.ledger⟩

theorem trackedStep_keepsOrder {F : FloatOps} (updateInterval : Int)
    {t : Tracked Agent Item} (op : AgentOp PlainMetric)
    (ht : ∃ s, Follows t s ∧ Seq.Accounted s ∧ Seq.Ordered s)
    (hop : KeepsOrder op t) :
    ∃ o t', Agent.trackedStep F updateInterval op t = some (o, t')
      ∧ ∃ s, Follows t' s ∧ Seq.Accounted s ∧ Seq.Ordered s := by
  obtain ⟨s, hf, hacc, hord⟩ := ht
  obtain ⟨t', hrun, hf'⟩ := trackedStep_follows (F := F) updateInterval hf op
  have hop' : Seq.KeepsOrder (op.placed t.agent.heap.brk) s := by
    have hs := hop s.agent hf.view_eq
    rw [hf.ledger] at hs
    cases op <;> exact hs
  exact ⟨(), t', hrun, _, hf',
    Seq.trackedStep_accounted updateInterval hacc _,
    Seq.trackedStep_ordered updateInterval hord hacc _ hop'⟩

/-- Oldest first: in a run whose failed responses all find a cache older
than their batch, cache ++ current is in push order in every state the
run comes through, and whatever an eviction drops there was pushed before
all that it leaves in the cache. -/
theorem pipeline_keeps_order (F : FloatOps) (updateInterval : Int)
    (update : Update) (ops : List (AgentOp PlainMetric))
    (hops : Guarded (Agent.trackedStep F updateInterval) KeepsOrder ops
      (Tracked.start update)) (n : Nat) :
    ∃ os t q, run (Agent.trackedStep F updateInterval) (ops.take n)
        (Tracked.start update) = some (os, t)
      ∧ t.agent.view = some q
      ∧ (t.ledger.pushed.map Prod.fst).Nodup
      ∧ InOrder t.ledger.pushed (q.store.cache ++ q.store.current)
      ∧ ∀ maxSize, ∃ t' q' evicted,
          Agent.trackedStep F updateInterval (.evictCache maxSize) t
            = some ((), t')
          ∧ t'.agent.view = some q'
          ∧ t'.ledger.dropped = t.ledger.dropped ++ evicted
          ∧ evicted ++ q'.store.cache = q.store.cache
          ∧ ∀ x ∈ evicted, ∀ y ∈ q'.store.cache,
              Before t.ledger.pushed x y := by
  have hstart : ∃ s, Follows (Tracked.start update) s ∧ Seq.Accounted s
      ∧ Seq.Ordered s :=
    ⟨_, start_follows update,
      ⟨by simp [Ledger.empty, Seq.metricStoreNew], rfl⟩,
      ⟨inOrder_nil, fun b hb => absurd hb List.not_mem_nil⟩⟩
  obtain ⟨os, t, hrun, s, hf, hacc, hord⟩ := Guarded.run
    (I := fun _ t => ∃ s, Follows t s ∧ Seq.Accounted s ∧ Seq.Ordered s)
    (fun _ op t ht hop => trackedStep_keepsOrder (F := F) updateInterval op ht
      hop) (ops.take n) [] _ hstart (hops.take ops n _)
  refine ⟨os, t, s.agent, hrun, hf.view_eq, hf.distinct,
    by rw [hf.ledger]; exact hord.store, fun maxSize => ?_⟩
  obtain ⟨t', hrun', hf'⟩ := trackedStep_follows (F := F) updateInterval hf
    (.evictCache maxSize)
  refine ⟨t', _, (Seq.evictCacheLoop Item.size maxSize s.agent.store.cache).1,
    hrun', hf'.view_eq, ?_, ?_, ?_⟩
  · rw [hf'.ledger, hf.ledger]
    rfl
  · exact Seq.evictCacheLoop_append maxSize s.agent.store.cache
  · rw [hf.ledger]
    exact Seq.evictCache_oldest hord maxSize

/-- A plain integer metric `a`. -/
def plainInteger : PlainMetric where
  metric := ⟨CString.a, 0, ⟨1, 2⟩, .int 5, 0⟩
  not_delta := by decide
  not_aggregate := by decide

/-- Two batches of one metric each fail, the older one first: the second
comes back to a cache that holds the first. -/
theorem pipeline_keeps_order_failed :
    ∃ os t q, run (Agent.trackedStep hostFloat 30)
        ([.push plainInteger, .sendAll 4096 true true, .push plainInteger,
          .sendAll 4096 true true, .respond 0 7 0, .respond 0 7 0].take 6)
        (Tracked.start ⟨0, 0⟩) = some (os, t)
      ∧ t.agent.view = some q
      ∧ q.store.cache = t.ledger.pushed
      ∧ InOrder t.ledger.pushed (q.store.cache ++ q.store.current) := by
  have hops : Guarded (Agent.trackedStep hostFloat 30) KeepsOrder
      [.push plainInteger, .sendAll 4096 true true, .push plainInteger,
        .sendAll 4096 true true, .respond 0 7 0, .respond 0 7 0]
      (Tracked.start ⟨0, 0⟩) := by
    refine ⟨fun _ _ => trivial, fun o s₁ h₁ => ⟨fun _ _ => trivial,
      fun o s₂ h₂ => ⟨fun _ _ => trivial, fun o s₃ h₃ =>
        ⟨fun _ _ => trivial, fun o s₄ h₄ => ⟨fun q hq => ?_,
          fun o s₅ h₅ => ⟨fun q hq => ?_, fun o s₆ h₆ => trivial⟩⟩⟩⟩⟩⟩
    · cases h₁
      cases h₂
      cases h₃
      cases h₄
      cases hq
      intro _ batch _ x hx
      exact absurd hx List.not_mem_nil
    · cases h₁
      cases h₂
      cases h₃
      cases h₄
      cases h₅
      cases hq
      intro _ batch hb x hx y hy
      cases hb
      rw [List.mem_singleton.mp hx, List.mem_singleton.mp hy]
      decide
  obtain ⟨os, t, q, hrun, hq, -, hord, -⟩ :=
    pipeline_keeps_order hostFloat 30 ⟨0, 0⟩ _ hops 6
  refine ⟨os, t, q, hrun, hq, ?_, hord⟩
  cases hrun
  cases hq
  rfl

/-- A batch of the first of two metrics fails after the second was put in
the cache: it comes back behind it, and the next eviction drops the
second while the cache still holds the first. -/
theorem pipeline_breaks_order :
    ∃ os t q, run (Agent.trackedStep hostFloat 30)
        [.push plainInteger, .push plainInteger, .sendAll 1 true true,
          .respond 0 7 0] (Tracked.start ⟨0, 0⟩) = some (os, t)
      ∧ t.agent.view = some q
      ∧ t.ledger.pushed = [(3, plainInteger.metric), (5, plainInteger.metric)]
      ∧ q.store.cache = [(5, plainInteger.metric), (3, plainInteger.metric)]
      ∧ ¬ InOrder t.ledger.pushed (q.store.cache ++ q.store.current)
      ∧ ∃ t' q', Agent.trackedStep hostFloat 30 (.evictCache 100) t
          = some ((), t')
        ∧ t'.agent.view = some q'
        ∧ t'.ledger.dropped = [(5, plainInteger.metric)]
        ∧ q'.store.cache = [(3, plainInteger.metric)] :=
  ⟨_, _, _, rfl, rfl, rfl, rfl, by decide, _, _, rfl, rfl, rfl, rfl⟩

end Monikor
