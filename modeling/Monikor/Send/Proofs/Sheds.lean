/-
What the send path and the evictions do to the metrics of the heap: they
allocate none.

A send takes metrics from one list to another, and a response, an
eviction or a flush frees some; between the heaps before and after, every
metric is accounted for, and what is live was live (`Sheds`). Only a push
makes metrics. This holds of every run that does not fault, whatever the
lists look like, and each lemma follows one function.
-/
import Monikor.Core.Evict
import Monikor.Lists.Proofs.Account
import Monikor.Send.Agent

namespace Monikor

variable {h h' h'' : Heap} {l p : Addr} {st : StoreRef} {a a' : Agent}

/-- The account is kept, and no metric is new. -/
structure Sheds (h h' : Heap) : Prop where
  accounts : Accounts h h'
  old : ∀ p, h'.metric p ≠ none → h.metric p ≠ none

namespace Sheds

theorem refl (h : Heap) : Sheds h h := ⟨.refl h, fun _ => id⟩

theorem trans (h₁ : Sheds h h') (h₂ : Sheds h' h'') : Sheds h h'' :=
  ⟨h₁.accounts.trans h₂.accounts, fun p => h₁.old p ∘ h₂.old p⟩

/-- A step that leaves metrics and log alone. -/
theorem still (hm : h'.metric = h.metric) (hf : h'.freed = h.freed)
    (hb : h.brk ≤ h'.brk) : Sheds h h' :=
  ⟨.still hm hf hb, fun _ hp => hm ▸ hp⟩

theorem setNode (a : Addr) (n : Node) : Sheds h (h.setNode a n) :=
  .still rfl rfl (Nat.le_refl _)

theorem setList (l : Addr) (hdr : MetricList) : Sheds h (h.setList l hdr) :=
  .still rfl rfl (Nat.le_refl _)

theorem allocs (h : Heap) (allocs : Nat → Bool) : Sheds h { h with allocs } :=
  .still rfl rfl (Nat.le_refl _)

end Sheds

-- ========================================================= metric_list.c

theorem metricFree_sheds (hrun : h.metricFree p = some h') : Sheds h h' := by
  refine ⟨metricFree_accounts hrun, fun x hx => ?_⟩
  unfold Heap.metricFree at hrun
  simp only [Option.bind_eq_bind, Option.bind_eq_some_iff, Option.pure_def,
    Option.some.injEq] at hrun
  obtain ⟨m, hm, rfl⟩ := hrun
  by_cases hxp : x = p
  · simp [hxp, hm]
  · simpa [hxp] using hx

theorem freeNode_sheds {n : Addr} (hrun : h.freeNode n = some h') :
    Sheds h h' := by
  unfold Heap.freeNode at hrun
  simp only [Option.bind_eq_bind, Option.bind_eq_some_iff, Option.pure_def,
    Option.some.injEq] at hrun
  obtain ⟨nd, -, rfl⟩ := hrun
  exact .still rfl rfl (Nat.le_refl _)

theorem metricListPush_sheds {rc : Int}
    (hrun : h.metricListPush l p = some (rc, h')) : Sheds h h' := by
  refine ⟨metricListPush_accounts hrun, fun x hx => ?_⟩
  unfold Heap.metricListPush Heap.metricListNodeNew Heap.malloc at hrun
  cases h₀ : h.allocs 0 with
  | false =>
      simp only [h₀] at hrun
      cases hrun
      exact hx
  | true =>
      simp only [h₀, Heap.metricListPushNode, Option.bind_eq_bind,
        Option.bind_eq_some_iff, Option.pure_def] at hrun
      obtain ⟨hdr, -, hrun⟩ := hrun
      split at hrun
      · simp only [Option.bind_some, Option.bind_eq_some_iff,
          Option.some.injEq] at hrun
        obtain ⟨hdr₁, -, size, -, heq⟩ := hrun
        cases heq
        exact hx
      · simp only [Option.bind_some, Option.bind_eq_some_iff,
          Option.some.injEq] at hrun
        obtain ⟨last, -, n, -, hdr₁, -, size, -, heq⟩ := hrun
        cases heq
        exact hx

theorem metricListPop_sheds {o : Option Addr}
    (hrun : h.metricListPop l = some (o, h')) : Sheds h h' := by
  unfold Heap.metricListPop at hrun
  simp only [Option.bind_eq_bind, Option.bind_eq_some_iff,
    Option.pure_def] at hrun
  obtain ⟨hdr, -, hrun⟩ := hrun
  split at hrun
  case h_1 => cases hrun; exact .refl h
  case h_2 =>
      simp only [Option.bind_eq_some_iff, Option.some.injEq,
        Prod.mk.injEq] at hrun
      obtain ⟨n, -, size, -, h₁, hfree, -, rfl⟩ := hrun
      exact (Sheds.setList _ _).trans (freeNode_sheds hfree)

theorem metricListEmptyLoop_sheds (fuel : Nat) :
    ∀ (h : Heap) (cur : Option Addr),
      Heap.metricListEmptyLoop fuel h cur = some h' → Sheds h h' := by
  induction fuel with
  | zero => exact fun h cur hrun => by cases hrun
  | succ fuel ih =>
      intro h cur hrun
      cases cur with
      | none => cases hrun; exact .refl _
      | some cur =>
          unfold Heap.metricListEmptyLoop at hrun
          simp only [Heap.metricListNodeFree, Option.bind_eq_bind,
            Option.bind_eq_some_iff] at hrun
          obtain ⟨n, -, h₁, ⟨n₁, -, h₂, hfree, hnode⟩, hrest⟩ := hrun
          exact ((metricFree_sheds hfree).trans
            (freeNode_sheds hnode)).trans (ih _ _ hrest)

theorem metricListEmpty_sheds (hrun : h.metricListEmpty l = some h') :
    Sheds h h' := by
  unfold Heap.metricListEmpty at hrun
  simp only [Option.bind_eq_bind, Option.bind_eq_some_iff, Option.pure_def,
    Option.some.injEq] at hrun
  obtain ⟨hdr, -, h₁, hloop, rfl⟩ := hrun
  exact (metricListEmptyLoop_sheds _ _ _ hloop).trans (.setList _ _)

theorem metricListFree_sheds (hrun : h.metricListFree l = some h') :
    Sheds h h' := by
  unfold Heap.metricListFree at hrun
  simp only [Option.bind_eq_bind, Option.bind_eq_some_iff, Option.pure_def,
    Option.some.injEq] at hrun
  obtain ⟨h₁, hempty, rfl⟩ := hrun
  exact (metricListEmpty_sheds hempty).trans (.still rfl rfl (Nat.le_refl _))

theorem metricListConcat_sheds {tail : Addr}
    (hrun : h.metricListConcat l tail = some h') : Sheds h h' := by
  unfold Heap.metricListConcat at hrun
  simp only [Option.bind_eq_bind, Option.bind_eq_some_iff,
    Option.pure_def] at hrun
  obtain ⟨hd, -, tl, -, hrun⟩ := hrun
  have hend : ∀ {h₁ : Heap} (hdr : MetricList), Sheds h h₁ →
      Sheds h ((h₁.setList l hdr).metricListInit tail) :=
    fun hdr hs => hs.trans ((Sheds.setList _ _).trans (.setList _ _))
  split at hrun
  · simp only [Option.bind_some, Option.bind_eq_some_iff,
      Option.some.injEq] at hrun
    obtain ⟨last, -, n, -, hdr, -, rfl⟩ := hrun
    exact hend _ ((Sheds.setNode _ _).trans (.setList _ _))
  · split at hrun
    · simp only [Option.bind_some, Option.bind_eq_some_iff,
        Option.some.injEq] at hrun
      obtain ⟨hdr, -, rfl⟩ := hrun
      exact hend _ (.setList _ _)
    · simp only [Option.bind_some, Option.bind_eq_some_iff,
        Option.some.injEq] at hrun
      obtain ⟨hdr, -, rfl⟩ := hrun
      exact hend _ (.refl h)

-- ======================================================== metric_store.c

theorem metricStoreFlushAll_sheds (hrun : h.metricStoreFlushAll st = some h') :
    Sheds h h' := by
  unfold Heap.metricStoreFlushAll at hrun
  simp only [Option.bind_eq_bind, Option.bind_eq_some_iff] at hrun
  obtain ⟨h₁, hrun₁, h₂, hrun₂, hrun₃⟩ := hrun
  exact ((metricListEmpty_sheds hrun₁).trans
    (metricListEmpty_sheds hrun₂)).trans (metricListEmpty_sheds hrun₃)

theorem metricStoreUncache_sheds (hrun : h.metricStoreUncache st = some h') :
    Sheds h h' := by
  unfold Heap.metricStoreUncache at hrun
  simp only [Option.bind_eq_bind, Option.bind_eq_some_iff] at hrun
  obtain ⟨h₁, hrun₁, hrun₂⟩ := hrun
  exact (metricListConcat_sheds hrun₁).trans (metricListConcat_sheds hrun₂)

theorem removeNode_sheds {prev : Option Addr} {node : Addr}
    (hrun : h.removeNode l prev node = some h') : Sheds h h' := by
  unfold Heap.removeNode at hrun
  simp only [Option.bind_eq_bind, Option.bind_eq_some_iff] at hrun
  obtain ⟨n, -, hrun⟩ := hrun
  cases prev with
  | none =>
      simp only [Option.bind_some, Option.bind_eq_some_iff] at hrun
      obtain ⟨hdr, -, size, -, h₁, hfree, hnode⟩ := hrun
      exact (Sheds.setList _ _).trans
        ((metricFree_sheds hfree).trans (freeNode_sheds hnode))
  | some q =>
      simp only [Option.bind_some, Option.bind_eq_some_iff] at hrun
      obtain ⟨pn, -, hdr, -, size, -, h₁, hfree, hnode⟩ := hrun
      exact ((Sheds.setNode _ _).trans (.setList _ _)).trans
        ((metricFree_sheds hfree).trans (freeNode_sheds hnode))

theorem metricListRemoveIfLoop_sheds {σ : Type}
    (f : σ → Metric → Bool × σ) {n' : Nat} (fuel : Nat) :
    ∀ (h : Heap) (prev cur : Option Addr) (data : σ) (n : Nat),
      Heap.metricListRemoveIfLoop f fuel h l prev cur data n = some (n', h') →
      Sheds h h' := by
  induction fuel with
  | zero => exact fun h prev cur data n hrun => by cases hrun
  | succ fuel ih =>
      intro h prev cur data n hrun
      cases cur with
      | none => cases hrun; exact .refl _
      | some cur =>
          unfold Heap.metricListRemoveIfLoop at hrun
          simp only [Option.bind_eq_bind, Option.bind_eq_some_iff] at hrun
          obtain ⟨nd, -, m, -, hrun⟩ := hrun
          split at hrun
          · simp only [Option.bind_eq_some_iff] at hrun
            obtain ⟨h₁, hremove, hrest⟩ := hrun
            exact (removeNode_sheds hremove).trans (ih _ _ _ _ _ hrest)
          · exact ih _ _ _ _ _ hrun

theorem evictCacheLoop_sheds {maxSize n' : Nat} (fuel : Nat) :
    ∀ (h : Heap) (n : Nat),
      Heap.evictCacheLoop fuel h st maxSize n = some (n', h') →
      Sheds h h' := by
  induction fuel with
  | zero => exact fun h n hrun => by cases hrun
  | succ fuel ih =>
      intro h n hrun
      unfold Heap.evictCacheLoop at hrun
      simp only [Option.bind_eq_bind, Option.bind_eq_some_iff] at hrun
      obtain ⟨hdr, -, hrun⟩ := hrun
      split at hrun
      · simp only [Option.bind_eq_some_iff] at hrun
        obtain ⟨⟨o, h₁⟩, hpop, q, -, h₂, hfree, hrest⟩ := hrun
        exact ((metricListPop_sheds hpop).trans
          (metricFree_sheds hfree)).trans (ih _ _ hrest)
      · cases hrun
        exact .refl _

theorem evictMetrics_sheds {pollInterval maxSize : Int32} {now : Timeval}
    {n : Nat} (hrun : h.evictMetrics st pollInterval maxSize now
      = some (n, h')) : Sheds h h' := by
  unfold Heap.evictMetrics Heap.metricStoreEvictDelta
    Heap.metricListRemoveIf at hrun
  simp only [Option.bind_eq_bind, Option.bind_eq_some_iff, Option.pure_def,
    Option.some.injEq, Prod.mk.injEq] at hrun
  obtain ⟨⟨d, h₁⟩, ⟨hdr, -, hrun₁⟩, ⟨c, h₂⟩, hrun₂, -, rfl⟩ := hrun
  exact (metricListRemoveIfLoop_sheds _ _ _ _ _ _ _ hrun₁).trans
    (evictCacheLoop_sheds _ _ _ hrun₂)

-- ================================================================= send.c

theorem fillBatchLoop_sheds {maxSendSize : Nat} (fuel : Nat) :
    ∀ h, Agent.fillBatchLoop fuel h st l maxSendSize = some h' →
      Sheds h h' := by
  induction fuel with
  | zero => exact fun h hrun => by cases hrun
  | succ fuel ih =>
      intro h hrun
      unfold Agent.fillBatchLoop at hrun
      simp only [Option.bind_eq_bind, Option.bind_eq_some_iff] at hrun
      obtain ⟨current, -, batch, -, hrun⟩ := hrun
      split at hrun
      · simp only [Option.bind_eq_some_iff] at hrun
        obtain ⟨⟨o, h₁⟩, hpop, q, -, ⟨rc, h₂⟩, hpush, hrest⟩ := hrun
        exact ((metricListPop_sheds hpop).trans
          (metricListPush_sheds hpush)).trans (ih _ hrest)
      · cases hrun
        exact .refl _

theorem sendAllMetrics_sheds {maxSendSize : Nat} {sendOk : Bool}
    (hrun : a.sendAllMetrics maxSendSize sendOk = some a') :
    Sheds a.heap a'.heap := by
  unfold Agent.sendAllMetrics at hrun
  simp only [Option.bind_eq_bind, Option.bind_eq_some_iff] at hrun
  obtain ⟨current, -, cache, -, hrun⟩ := hrun
  split at hrun
  case isTrue => cases hrun; exact .refl _
  case isFalse =>
      unfold Heap.metricListNew Heap.malloc at hrun
      cases h₀ : a.heap.allocs 0 with
      | false =>
          simp only [h₀, Option.bind_eq_some_iff, Option.pure_def,
            Option.some.injEq] at hrun
          obtain ⟨h₁, hcache, rfl⟩ := hrun
          exact (Sheds.allocs _ _).trans (metricListConcat_sheds hcache)
      | true =>
          simp only [h₀, Option.bind_eq_some_iff, Option.pure_def] at hrun
          obtain ⟨h₁, huncache, h₂, hfill, hrun⟩ := hrun
          have hnew : Sheds a.heap h₂ := by
            have halloc : Sheds a.heap
                (({ a.heap with allocs := fun n => a.heap.allocs (n + 1) }
                  : Heap).metricListInit a.heap.brk).bump :=
              .still rfl rfl (Nat.le_succ _)
            exact (halloc.trans (metricStoreUncache_sheds huncache)).trans
              (fillBatchLoop_sheds _ _ hfill)
          split at hrun
          · simp only [Option.bind_eq_some_iff, Option.some.injEq] at hrun
            obtain ⟨h₃, hcache, rfl⟩ := hrun
            exact hnew.trans (metricListConcat_sheds hcache)
          · simp only [Option.bind_eq_some_iff, Option.some.injEq] at hrun
            obtain ⟨h₃, hback, h₄, hcache, rfl⟩ := hrun
            exact (hnew.trans (metricListConcat_sheds hback)).trans
              (metricListConcat_sheds hcache)

theorem updateBackoff_sheds {updateInterval : Int}
    (hrun : a.updateBackoff updateInterval = some a') :
    Sheds a.heap a'.heap := by
  unfold Agent.updateBackoff at hrun
  simp only [Option.bind_eq_bind, Option.pure_def] at hrun
  split at hrun
  · simp only [Option.bind_eq_some_iff, Option.some.injEq] at hrun
    obtain ⟨h₁, hflush, rfl⟩ := hrun
    exact metricStoreFlushAll_sheds hflush
  · simp only [Option.bind_some, Option.some.injEq] at hrun
    cases hrun
    exact .refl _

theorem handleServerResponse_sheds {updateInterval httpCode : Int}
    {result : Nat} (hrun : a.handleServerResponse updateInterval l result
      httpCode = some a') : Sheds a.heap a'.heap := by
  unfold Agent.handleServerResponse at hrun
  -- the update of a success leaves the heap alone
  obtain ⟨b, hb, hheap⟩ : ∃ b, (if result = curleOk ∧ httpCode = 200 then
      { a with update := a.update.success } else a) = b
        ∧ b.heap = a.heap := by
    refine ⟨_, rfl, ?_⟩
    split <;> rfl
  rw [← hheap]
  simp only [hb, Option.bind_eq_bind, Option.pure_def] at hrun
  split at hrun
  · simp only [Option.bind_some, Option.bind_eq_some_iff,
      Option.some.injEq] at hrun
    obtain ⟨h₁, hback, h₂, hfree, rfl⟩ := hrun
    exact (metricListConcat_sheds hback).trans (metricListFree_sheds hfree)
  · split at hrun
    · simp only [Option.bind_eq_some_iff, Option.some.injEq] at hrun
      obtain ⟨a₁, hback, h₁, hfree, rfl⟩ := hrun
      exact (updateBackoff_sheds hback).trans (metricListFree_sheds hfree)
    · simp only [Option.bind_some, Option.bind_eq_some_iff,
        Option.some.injEq] at hrun
      obtain ⟨h₁, hfree, rfl⟩ := hrun
      exact metricListFree_sheds hfree

end Monikor
