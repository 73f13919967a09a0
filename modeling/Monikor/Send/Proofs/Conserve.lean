/-
Conservation of metrics through the send path.

On sequences of any elements, every step keeps the ledger adding up to
what was pushed (`trackedStep_accounted`, one case an event, from what a
send and a response come to). `pipeline_conserves` carries this to every
run of the agent on pointers, where a metric is its address.
Permutations are compared by counting one element on both sides.

The ledger is entered from what a step frees, so conservation alone does
not say that a metric is entered under the right event. `Settles` says
for each event which metrics it may acknowledge or drop and what becomes
of the store, in terms of the state before it; every step settles its
event so (`trackedStep_settles`).
-/
import Monikor.Send.Proofs.Simulate

namespace Monikor

open Machine

-- ============================================================ on sequences

namespace Seq

variable {α : Type*} {w : α → Nat} (updateInterval : Int)

/-- Taking one batch out of those in flight. -/
theorem flatten_eraseIdx {batches : List (List α)} {i : Nat} {batch : List α}
    (hi : batches[i]? = some batch) :
    batches.flatten.Perm (batch ++ (batches.eraseIdx i).flatten) := by
  obtain ⟨hlt, rfl⟩ := List.getElem?_eq_some_iff.mp hi
  exact (List.getElem_cons_eraseIdx_perm hlt).symm.flatten

/-- A response that fails a batch. -/
theorem respond_failed {t : Tracked (Agent α) α} {i result : Nat}
    {httpCode : Int} {batch : List α} (hi : t.agent.inFlight[i]? = some batch)
    (hfail : Failed result httpCode) :
    trackedStep w updateInterval (.respond i result httpCode) t
      = { t with agent := {
            store := { t.agent.store with
              cache := t.agent.store.cache ++ batch }
            inFlight := t.agent.inFlight.eraseIdx i
            update := t.agent.update.success } } := by
  obtain ⟨-, hres⟩ | ⟨hok, -⟩ := handleServerResponse_cases updateInterval
    { t.agent with inFlight := t.agent.inFlight.eraseIdx i } batch result
    httpCode
  · simp [trackedStep, Agent.step, hi, hres, Ledger.record]
  · exact absurd hfail hok

/-- How a response that is not a failure is entered. -/
theorem record_response (led : Ledger α) {i result : Nat} {httpCode : Int}
    (h : ¬ Failed result httpCode) (released : List α) :
    led.record (AgentOp.respond (β := α) i result httpCode) [] released
      = if httpCode = 200 then { led with acked := led.acked ++ released }
        else { led with dropped := led.dropped ++ released } := by
  obtain ⟨hok, hlt⟩ := not_or.mp h
  have hok' : result = curleOk := not_not.mp hok
  have hlt' : httpCode < 500 := Int.not_le.mp hlt
  by_cases hack : httpCode = 200 <;>
    simp [Ledger.record, AgentOp.acks, AgentOp.drops, hok', hack, hlt']

/-- What was pushed is in the store, in flight, acknowledged or dropped,
and in one of these only; no metric is kept as a baseline. -/
structure Accounted (t : Tracked (Agent α) α) : Prop where
  perm : t.ledger.pushed.Perm (t.agent.store.current ++ t.agent.store.cache
    ++ t.agent.inFlight.flatten ++ t.ledger.acked ++ t.ledger.dropped)
  delta : t.agent.store.delta = []

variable {t : Tracked (Agent α) α}

theorem sendAll_accounted (ht : Accounted t) (maxSendSize : Nat)
    (listOk sendOk : Bool) :
    Accounted (trackedStep w updateInterval
      (.sendAll maxSendSize listOk sendOk) t) := by
  classical
  obtain ⟨hperm, hdelta⟩ := ht
  have hcount := List.perm_iff_count.mp hperm
  simp only [List.count_append] at hcount
  have hledger : t.ledger.record
      (AgentOp.sendAll (β := α) maxSendSize listOk sendOk) [] [] = t.ledger := by
    simp [Ledger.record, AgentOp.acks, AgentOp.drops]
  unfold trackedStep
  simp only [Agent.step, hledger]
  rcases sendAllMetrics_cases (w := w) t.agent maxSendSize listOk sendOk
    with hres | hres | ⟨batch, rest, hsplit, hres⟩
  · rw [hres]
    exact ⟨hperm, hdelta⟩
  · rw [hres]
    refine ⟨List.perm_iff_count.mpr fun x => ?_, hdelta⟩
    simp only [hcount x, List.count_append, List.count_nil]
    omega
  · rw [hres]
    refine ⟨List.perm_iff_count.mpr fun x => ?_, hdelta⟩
    have hx := congrArg (List.count x) hsplit
    simp only [List.count_append] at hx
    simp only [hcount x, List.flatten_append, List.flatten_singleton,
      List.count_append, List.count_nil]
    omega

theorem respond_accounted (ht : Accounted t) (i result : Nat)
    (httpCode : Int) :
    Accounted (trackedStep w updateInterval (.respond i result httpCode) t) := by
  classical
  obtain ⟨hperm, hdelta⟩ := ht
  have hcount := List.perm_iff_count.mp hperm
  simp only [List.count_append] at hcount
  unfold trackedStep
  simp only [Agent.step]
  cases hi : t.agent.inFlight[i]? with
  | none =>
      have hledger : t.ledger.record
          (AgentOp.respond (β := α) i result httpCode) [] [] = t.ledger := by
        simp [Ledger.record]
      simp only [hledger]
      exact ⟨hperm, hdelta⟩
  | some batch =>
      have hflat := List.perm_iff_count.mp (flatten_eraseIdx hi)
      simp only [List.count_append] at hflat
      simp only
      obtain ⟨-, hres⟩ | ⟨hfail, u, ⟨-, hres⟩ | ⟨hcode, -, hres⟩⟩ :=
        handleServerResponse_cases updateInterval
          { t.agent with inFlight := t.agent.inFlight.eraseIdx i } batch result
          httpCode
      · -- back in the cache, nothing released
        rw [hres]
        refine ⟨List.perm_iff_count.mpr fun x => ?_, hdelta⟩
        unfold Ledger.record
        simp only [List.append_nil, ite_self, hcount x, hflat x,
          List.count_append]
        omega
      · -- the batch is acknowledged or dropped
        rw [hres]
        refine ⟨List.perm_iff_count.mpr fun x => ?_, hdelta⟩
        simp only [record_response t.ledger hfail]
        split
        · simp only [hcount x, hflat x, List.count_append]
          omega
        · simp only [hcount x, hflat x, List.count_append]
          omega
      · -- the batch is dropped, and all that the store held
        rw [hres]
        refine ⟨List.perm_iff_count.mpr fun x => ?_, rfl⟩
        have hack : httpCode ≠ 200 := by omega
        simp only [record_response t.ledger hfail, if_neg hack,
          metricStoreElems, metricStoreNew, hdelta, hcount x, hflat x,
          List.count_append, List.count_nil]
        omega

/-- Every step keeps the accounts. -/
theorem trackedStep_accounted (ht : Accounted t) (op : AgentOp α) :
    Accounted (trackedStep w updateInterval op t) := by
  classical
  have hcount := List.perm_iff_count.mp ht.perm
  simp only [List.count_append] at hcount
  cases op with
  | push m =>
      refine ⟨List.perm_iff_count.mpr fun x => ?_, ht.delta⟩
      unfold trackedStep
      simp only [Agent.step, Ledger.record, AgentOp.acks, AgentOp.drops,
        metricListPush, List.count_append, hcount x, Bool.false_eq_true,
        if_false]
      omega
  | sendAll maxSendSize listOk sendOk =>
      exact sendAll_accounted updateInterval ht maxSendSize listOk sendOk
  | respond i result httpCode =>
      exact respond_accounted updateInterval ht i result httpCode
  | evictCache maxSize =>
      refine ⟨List.perm_iff_count.mpr fun x => ?_, ht.delta⟩
      have hx := congrArg (List.count x)
        (evictCacheLoop_append (w := w) maxSize t.agent.store.cache)
      rw [List.count_append] at hx
      unfold trackedStep
      simp only [Agent.step, metricStoreEvictCache, Ledger.record,
        AgentOp.acks, AgentOp.drops, List.append_nil, List.count_append,
        hcount x, Bool.false_eq_true, if_false, if_true]
      omega
  | flushAll =>
      refine ⟨List.perm_iff_count.mpr fun x => ?_, rfl⟩
      unfold trackedStep
      simp only [Agent.step, metricStoreFlushAll, metricStoreElems, ht.delta,
        Ledger.record, AgentOp.acks, AgentOp.drops, List.append_nil,
        List.nil_append, List.count_append, hcount x, Bool.false_eq_true,
        if_false, if_true]
      omega

-- --------------------------------------------------- what each event does

/-- What becomes of the store, of the batches in flight and of the
accounts at each event. A batch answered with 200 is acknowledged, all of
it and nothing else; a refused batch is dropped, with all that is stored
when it is not the first refusal in a row; a failed batch is stored. -/
def Settles (op : AgentOp α) (q : Agent α) (led : Ledger α) (q' : Agent α)
    (led' : Ledger α) : Prop :=
  match op with
  | .push m =>
      q' = { q with store := { q.store with
          current := q.store.current ++ [m] } }
        ∧ led' = { led with pushed := led.pushed ++ [m] }
  | .sendAll _ _ _ =>
      ∃ sent, q'.inFlight = q.inFlight ++ sent
        ∧ sent.length ≤ 1
        ∧ sent.flatten ++ q'.store.cache ++ q'.store.current
          = q.store.cache ++ q.store.current
        ∧ q'.store.delta = q.store.delta
        ∧ led' = led
  | .respond i result httpCode =>
      match q.inFlight[i]? with
      | none => q' = q ∧ led' = led
      | some batch =>
          q'.inFlight = q.inFlight.eraseIdx i
            ∧ if Failed result httpCode then
                q'.store = { q.store with cache := q.store.cache ++ batch }
                  ∧ led' = led
              else if httpCode = 200 then
                q'.store = q.store
                  ∧ led' = { led with acked := led.acked ++ batch }
              else if 400 ≤ httpCode ∧ 0 < q.update.backoffCount then
                q'.store = ⟨[], [], []⟩
                  ∧ led' = { led with dropped := led.dropped
                      ++ (q.store.current ++ q.store.delta ++ q.store.cache)
                      ++ batch }
              else
                q'.store = q.store
                  ∧ led' = { led with dropped := led.dropped ++ batch }
  | .evictCache _ =>
      ∃ evicted, q.store.cache = evicted ++ q'.store.cache
        ∧ q' = { q with store := { q.store with cache := q'.store.cache } }
        ∧ led' = { led with dropped := led.dropped ++ evicted }
  | .flushAll =>
      q' = { q with store := ⟨[], [], []⟩ }
        ∧ led' = { led with dropped := led.dropped
            ++ (q.store.current ++ q.store.delta ++ q.store.cache) }

theorem sendAll_settles (t : Tracked (Agent α) α) (maxSendSize : Nat)
    (listOk sendOk : Bool) :
    Settles (.sendAll maxSendSize listOk sendOk) t.agent t.ledger
      (trackedStep w updateInterval (.sendAll maxSendSize listOk sendOk)
        t).agent
      (trackedStep w updateInterval (.sendAll maxSendSize listOk sendOk)
        t).ledger := by
  have hledger : t.ledger.record
      (AgentOp.sendAll (β := α) maxSendSize listOk sendOk) [] [] = t.ledger := by
    simp [Ledger.record, AgentOp.acks, AgentOp.drops]
  unfold trackedStep
  simp only [Agent.step, hledger]
  rcases sendAllMetrics_cases (w := w) t.agent maxSendSize listOk sendOk
    with hres | hres | ⟨batch, rest, hsplit, hres⟩
  · rw [hres]
    exact ⟨[], by simp, by simp, rfl, rfl, rfl⟩
  · rw [hres]
    exact ⟨[], by simp, by simp, by simp, rfl, rfl⟩
  · rw [hres]
    exact ⟨[batch], rfl, Nat.le_refl 1, by simpa using hsplit, rfl, rfl⟩

/-- A response that acknowledges or refuses a batch. -/
theorem respond_answered {t : Tracked (Agent α) α} {i result : Nat}
    {httpCode : Int} {batch : List α} (hi : t.agent.inFlight[i]? = some batch)
    (hfail : ¬ Failed result httpCode) :
    ∃ update, trackedStep w updateInterval (.respond i result httpCode) t
      = if 400 ≤ httpCode ∧ 0 < t.agent.update.backoffCount then
          ⟨⟨metricStoreNew, t.agent.inFlight.eraseIdx i, update⟩,
            { t.ledger with dropped := t.ledger.dropped
                ++ (metricStoreElems t.agent.store ++ batch) }⟩
        else
          ⟨⟨t.agent.store, t.agent.inFlight.eraseIdx i, update⟩,
            if httpCode = 200 then
              { t.ledger with acked := t.ledger.acked ++ batch }
            else { t.ledger with dropped := t.ledger.dropped ++ batch }⟩ := by
  obtain ⟨hfail', -⟩ | ⟨-, u, ⟨hfirst, hres⟩ | ⟨hcode, hback, hres⟩⟩ :=
    handleServerResponse_cases updateInterval
      { t.agent with inFlight := t.agent.inFlight.eraseIdx i } batch result
      httpCode
  · exact absurd hfail' hfail
  · have hno : ¬ (400 ≤ httpCode ∧ 0 < t.agent.update.backoffCount) := by
      intro hboth
      exact absurd (hfirst hboth.1) (Nat.ne_of_gt hboth.2)
    refine ⟨u, ?_⟩
    rw [if_neg hno]
    unfold trackedStep
    simp only [Agent.step, hi, hres, record_response t.ledger hfail]
  · have hack : httpCode ≠ 200 := by omega
    refine ⟨u, ?_⟩
    rw [if_pos ⟨hcode, hback⟩]
    unfold trackedStep
    simp only [Agent.step, hi, hres, record_response t.ledger hfail,
      if_neg hack]

theorem respond_settles (t : Tracked (Agent α) α) (i result : Nat)
    (httpCode : Int) :
    Settles (.respond i result httpCode) t.agent t.ledger
      (trackedStep w updateInterval (.respond i result httpCode) t).agent
      (trackedStep w updateInterval (.respond i result httpCode)
        t).ledger := by
  cases hi : t.agent.inFlight[i]? with
  | none =>
      simp [Settles, trackedStep, Agent.step, hi, Ledger.record]
  | some batch =>
      by_cases hfail : Failed result httpCode
      · rw [respond_failed updateInterval hi hfail]
        simp [Settles, hi, hfail]
      obtain ⟨u, hres⟩ := respond_answered (w := w) updateInterval hi hfail
      rw [hres]
      by_cases hflush : 400 ≤ httpCode ∧ 0 < t.agent.update.backoffCount
      · -- the store goes with the batch
        have hack : httpCode ≠ 200 := by omega
        simp [Settles, hi, hfail, hflush, hack, metricStoreNew,
          metricStoreElems]
      · by_cases hack : httpCode = 200
        · subst hack
          simp [Settles, hi, hfail]
        · simp [Settles, hi, hfail, hack, hflush]

/-- Every step settles its event. -/
theorem trackedStep_settles (op : AgentOp α) (t : Tracked (Agent α) α) :
    Settles op t.agent t.ledger (trackedStep w updateInterval op t).agent
      (trackedStep w updateInterval op t).ledger := by
  cases op with
  | push m =>
      refine ⟨rfl, ?_⟩
      simp [trackedStep, Agent.step, Ledger.record, AgentOp.acks,
        AgentOp.drops]
  | sendAll maxSendSize listOk sendOk =>
      exact sendAll_settles updateInterval t maxSendSize listOk sendOk
  | respond i result httpCode =>
      exact respond_settles updateInterval t i result httpCode
  | evictCache maxSize =>
      refine ⟨_, (evictCacheLoop_append (w := w) maxSize
        t.agent.store.cache).symm, rfl, ?_⟩
      simp [trackedStep, Agent.step, metricStoreEvictCache, Ledger.record,
        AgentOp.acks, AgentOp.drops]
  | flushAll =>
      refine ⟨rfl, ?_⟩
      simp [trackedStep, Agent.step, metricStoreElems, Ledger.record,
        AgentOp.acks, AgentOp.drops]

end Seq

-- ================================================================= pointers

/-- What holds in every state of a run: the accounts of the run on
sequences it follows, and that what was pushed is what the events say. -/
def Conserved (ops : List (AgentOp PlainMetric)) (t : Tracked Agent Item) :
    Prop :=
  (∃ s, Follows t s ∧ Seq.Accounted s)
    ∧ t.ledger.pushed.map Prod.snd = AgentOp.pushes ops

theorem trackedStep_conserved {F : FloatOps} (updateInterval : Int)
    {ops : List (AgentOp PlainMetric)} {t : Tracked Agent Item}
    (ht : Conserved ops t) (op : AgentOp PlainMetric) :
    ∃ o t', Agent.trackedStep F updateInterval op t = some (o, t')
      ∧ Conserved (ops ++ [op]) t' := by
  obtain ⟨⟨s, hf, hacc⟩, hpushed⟩ := ht
  obtain ⟨t', hrun, hf'⟩ := trackedStep_follows (F := F) updateInterval hf op
  refine ⟨(), t', hrun, ⟨_, hf', Seq.trackedStep_accounted updateInterval hacc
    _⟩, ?_⟩
  rw [hf'.ledger, AgentOp.pushes, List.filterMap_append, ← AgentOp.pushes,
    ← hpushed, hf.ledger]
  unfold Seq.trackedStep
  simp only [Ledger.record, List.map_append]
  congr 1
  cases op with
  | push m => rfl
  | sendAll maxSendSize listOk sendOk => rfl
  | respond i result httpCode =>
      unfold AgentOp.placed
      simp only [Seq.Agent.step]
      split <;> rfl
  | evictCache maxSize => rfl
  | flushAll => rfl

theorem start_conserved (update : Update) :
    Conserved [] (Tracked.start update) :=
  ⟨⟨_, start_follows update, ⟨by simp [Ledger.empty, Seq.metricStoreNew], rfl⟩⟩,
    rfl⟩

/-- Conservation: in every run from an empty store the metrics pushed so
far are those in the current list, in the cache, in flight, acknowledged
and dropped, each in one of these places only; whatever event comes next
is settled, so that acknowledged are the batches answered with 200 and
dropped what was evicted, flushed or refused; and a response that fails
its batch puts the whole batch back into the cache. -/
theorem pipeline_conserves (F : FloatOps) (updateInterval : Int)
    (update : Update) (ops : List (AgentOp PlainMetric)) :
    ∃ os t q, run (Agent.trackedStep F updateInterval) ops
        (Tracked.start update) = some (os, t)
      ∧ t.agent.view = some q
      ∧ t.ledger.pushed.map Prod.snd = AgentOp.pushes ops
      ∧ t.ledger.pushed.Perm (q.store.current ++ q.store.cache
          ++ q.inFlight.flatten ++ t.ledger.acked ++ t.ledger.dropped)
      ∧ ((q.store.current ++ q.store.cache ++ q.inFlight.flatten
          ++ t.ledger.acked ++ t.ledger.dropped).map Prod.fst).Nodup
      ∧ q.store.delta = []
      ∧ (∀ op, ∃ p t' q', Agent.trackedStep F updateInterval op t
            = some ((), t')
          ∧ t'.agent.view = some q'
          ∧ Seq.Settles (op.placed p) q t.ledger q' t'.ledger)
      ∧ ∀ i batch result httpCode, q.inFlight[i]? = some batch →
          Failed result httpCode →
          ∃ t', Agent.trackedStep F updateInterval (.respond i result httpCode)
              t = some ((), t')
            ∧ t'.ledger = t.ledger
            ∧ t'.agent.view = some
              { store := { q.store with cache := q.store.cache ++ batch }
                inFlight := q.inFlight.eraseIdx i
                update := q.update.success } := by
  obtain ⟨os, t, hrun, ⟨s, hf, hacc⟩, hpushed⟩ := Guarded.run
    (G := fun _ _ => True) (I := Conserved)
    (fun past op t ht _ => trackedStep_conserved (F := F) updateInterval ht op)
    ops [] _ (start_conserved update) (guarded_true ops _)
  have hperm := hacc.perm
  rw [← hf.ledger] at hperm
  refine ⟨os, t, s.agent, hrun, hf.view_eq, hpushed, hperm,
    (hperm.map Prod.fst).nodup_iff.mp hf.distinct, hacc.delta, ?_, ?_⟩
  · intro op
    obtain ⟨t', hrun', hf'⟩ := trackedStep_follows (F := F) updateInterval hf
      op
    refine ⟨t.agent.heap.brk, t', _, hrun', hf'.view_eq, ?_⟩
    rw [hf'.ledger, hf.ledger]
    exact Seq.trackedStep_settles updateInterval _ s
  intro i batch result httpCode hi hfail
  obtain ⟨t', hrun', hf'⟩ := trackedStep_follows (F := F) updateInterval hf
    (.respond i result httpCode)
  unfold AgentOp.placed at hf'
  rw [Seq.respond_failed updateInterval hi hfail] at hf'
  exact ⟨t', hrun', hf'.ledger.trans hf.ledger.symm, hf'.view_eq⟩

end Monikor
