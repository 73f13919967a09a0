/-
The account of the metrics a heap has held: `freed` logs each metric
once, a logged metric is gone, and no metric disappears without being
logged.

This holds of every run of the list and store functions that does not
fault, whatever the lists look like: the only writes to the metrics are
an allocation at an unused address, a free of a live metric and an
overwrite of a live one. Each lemma below follows one function down to
those three (`Accounts.build`, `Accounts.free`, `Accounts.overwrite`).
-/
import Mathlib.Data.List.Nodup
import Monikor.Lists.Store

namespace Monikor

variable {F : FloatOps} {h h' h'' : Heap} {l p : Addr} {m : Metric}

-- ============================================================ vocabulary

/-- The metric is live, or has been freed. -/
def Known (h : Heap) (p : Addr) : Prop := h.metric p ≠ none ∨ p ∈ h.freed

/-- No metric was freed twice, and none is live after it was freed. -/
structure FreeLog (h : Heap) : Prop where
  nodup : h.freed.Nodup
  dead : ∀ p ∈ h.freed, h.metric p = none
  lt : ∀ p, Known h p → p < h.brk

/-- From one heap to the next the log is kept, and with it every metric
there was. -/
structure Accounts (h h' : Heap) : Prop where
  brk : h.brk ≤ h'.brk
  log : FreeLog h → FreeLog h'
  known : ∀ p, Known h p → Known h' p

namespace Accounts

theorem refl (h : Heap) : Accounts h h := ⟨Nat.le_refl _, id, fun _ => id⟩

theorem trans (h₁ : Accounts h h') (h₂ : Accounts h' h'') : Accounts h h'' :=
  ⟨Nat.le_trans h₁.brk h₂.brk, h₂.log ∘ h₁.log,
    fun p => h₂.known p ∘ h₁.known p⟩

/-- A step that leaves metrics and log alone. -/
theorem still (hm : h'.metric = h.metric) (hf : h'.freed = h.freed)
    (hb : h.brk ≤ h'.brk) : Accounts h h' where
  brk := hb
  log := fun hl => by
    refine ⟨hf ▸ hl.nodup, fun p hp => ?_, fun p hp => ?_⟩
    · rw [hm]
      exact hl.dead p (hf ▸ hp)
    · unfold Known at hp
      rw [hm, hf] at hp
      exact Nat.lt_of_lt_of_le (hl.lt p hp) hb
  known := fun p hp => by rwa [Known, hm, hf]

theorem setNode (a : Addr) (n : Node) : Accounts h (h.setNode a n) :=
  .still rfl rfl (Nat.le_refl _)

theorem setList (l : Addr) (hdr : MetricList) : Accounts h (h.setList l hdr) :=
  .still rfl rfl (Nat.le_refl _)

/-- A free of a live metric. -/
theorem free {a : Addr} (ha : h.metric a ≠ none) :
    Accounts h (h.eraseMetric a) where
  brk := Nat.le_refl _
  log := fun hl => by
    have hnew : a ∉ h.freed := fun hin => ha (hl.dead a hin)
    constructor
    · show (h.freed ++ [a]).Nodup
      rw [List.nodup_append]
      exact ⟨hl.nodup, List.nodup_singleton a, fun x hx y hy => by
        rintro rfl
        exact hnew (List.mem_singleton.mp hy ▸ hx)⟩
    · intro p hp
      by_cases e : p = a
      · simp [e]
      · have hp' : p ∈ h.freed := by simpa [e] using hp
        simpa [e] using hl.dead p hp'
    · intro p hp
      by_cases e : p = a
      · rw [e]
        exact hl.lt a (.inl ha)
      · exact hl.lt p (by simpa [Known, e] using hp)
  known := fun p hp => by
    by_cases e : p = a
    · exact .inr (by simp [e])
    · rcases hp with hp | hp
      · exact .inl (by simpa [e] using hp)
      · exact .inr (by simp [hp])

/-- An overwrite of a live metric. -/
theorem overwrite {a : Addr} (ha : h.metric a ≠ none) (m : Metric) :
    Accounts h (h.setMetric a m) where
  brk := Nat.le_refl _
  log := fun hl => by
    refine ⟨hl.nodup, fun p hp => ?_, fun p hp => ?_⟩
    · have hpa : p ≠ a := by
        intro e
        subst e
        exact ha (hl.dead p hp)
      simpa [hpa] using hl.dead p hp
    · by_cases e : p = a
      · rw [e]
        exact hl.lt a (.inl ha)
      · exact hl.lt p (by simpa [Known, e] using hp)
  known := fun p hp => by
    rcases hp with hp | hp
    · refine .inl ?_
      by_cases e : p = a <;> simp [e, hp]
    · exact .inr hp

/-- A metric allocated at the next unused address. -/
theorem build (m : Metric) : Accounts h (h.setMetric h.brk m).bump where
  brk := Nat.le_succ _
  log := fun hl => by
    refine ⟨hl.nodup, fun p hp => ?_, fun p hp => ?_⟩
    · have hlt := hl.lt p (.inr hp)
      simpa [Nat.ne_of_lt hlt] using hl.dead p hp
    · by_cases e : p = h.brk
      · rw [e]
        exact Nat.lt_succ_self _
      · exact Nat.lt_succ_of_lt (hl.lt p (by simpa [Known, e] using hp))
  known := fun p hp => by
    rcases hp with hp | hp
    · refine .inl ?_
      by_cases e : p = h.brk <;> simp [e, hp]
    · exact .inr hp

end Accounts

-- ============================================== metric.c, metric_compute.c

/-- A metric is built at the next unused address, or not at all. -/
theorem metricBuild_cases (h : Heap) (m : Metric) :
    ∃ allocs, h.metricBuild m = (none, { h with allocs })
      ∨ h.metricBuild m
        = (some h.brk, (Heap.setMetric { h with allocs } h.brk m).bump) := by
  unfold Heap.metricBuild Heap.malloc
  cases h₀ : h.allocs 0 with
  | false => exact ⟨_, .inl rfl⟩
  | true =>
      cases h₁ : h.allocs (0 + 1) with
      | false =>
          simp only [h₁]
          exact ⟨_, .inl rfl⟩
      | true =>
          simp only [h₁]
          cases m.value with
          | int v => exact ⟨_, .inr rfl⟩
          | float v => exact ⟨_, .inr rfl⟩
          | string v =>
              cases h₂ : h.allocs (0 + 1 + 1) with
              | false =>
                  simp only
                  exact ⟨_, .inl rfl⟩
              | true =>
                  simp only
                  exact ⟨_, .inr rfl⟩

theorem metricBuild_accounts (h : Heap) (m : Metric) :
    Accounts h (h.metricBuild m).2 := by
  have hstill : ∀ allocs, Accounts h { h with allocs } :=
    fun _ => .still rfl rfl (Nat.le_refl _)
  obtain ⟨allocs, hrun | hrun⟩ := metricBuild_cases h m
  · rw [hrun]
    exact hstill allocs
  · rw [hrun]
    exact (hstill allocs).trans (.build m)

theorem metricFree_accounts (hrun : h.metricFree p = some h') :
    Accounts h h' := by
  unfold Heap.metricFree at hrun
  simp only [Option.bind_eq_bind, Option.bind_eq_some_iff, Option.pure_def,
    Option.some.injEq] at hrun
  obtain ⟨m, hm, rfl⟩ := hrun
  exact .free (by simp [hm])

theorem metricComputeDelta_accounts {a b : Addr} {o : Option Addr}
    (hrun : h.metricComputeDelta F a b = some (o, h')) : Accounts h h' := by
  unfold Heap.metricComputeDelta at hrun
  simp only [Option.bind_eq_bind, Option.bind_eq_some_iff,
    Option.pure_def] at hrun
  obtain ⟨x, hx, y, hy, hrun⟩ := hrun
  split at hrun
  case isTrue => cases hrun; exact .refl h
  case isFalse =>
      unfold Heap.metricClone at hrun
      simp only [hx, Option.bind_eq_bind, Option.bind_some,
        Option.pure_def] at hrun
      obtain ⟨allocs, hb | hb⟩ := metricBuild_cases h x
      · have hacc := metricBuild_accounts h x
        rw [hb] at hrun hacc
        cases hrun
        exact hacc
      · have hacc := metricBuild_accounts h x
        rw [hb] at hrun hacc
        simp only at hrun
        split at hrun
        · cases hrun
          exact hacc.trans (.overwrite (by simp) _)
        · simp only [Option.bind_eq_some_iff, Option.some.injEq,
            Prod.mk.injEq] at hrun
          obtain ⟨h₂, hfree, -, rfl⟩ := hrun
          exact hacc.trans (metricFree_accounts hfree)

-- ========================================================= metric_list.c

theorem metricListPush_accounts {rc : Int}
    (hrun : h.metricListPush l p = some (rc, h')) : Accounts h h' := by
  unfold Heap.metricListPush Heap.metricListNodeNew Heap.malloc at hrun
  cases h₀ : h.allocs 0 with
  | false =>
      simp only [h₀] at hrun
      cases hrun
      exact .still rfl rfl (Nat.le_refl _)
  | true =>
      simp only [h₀, Heap.metricListPushNode, Option.bind_eq_bind,
        Option.bind_eq_some_iff, Option.pure_def] at hrun
      obtain ⟨hdr, -, hrun⟩ := hrun
      split at hrun
      · simp only [Option.bind_some, Option.bind_eq_some_iff,
          Option.some.injEq] at hrun
        obtain ⟨hdr₁, -, size, -, heq⟩ := hrun
        cases heq
        exact .still rfl rfl (Nat.le_succ _)
      · simp only [Option.bind_some, Option.bind_eq_some_iff,
          Option.some.injEq] at hrun
        obtain ⟨last, -, n, -, hdr₁, -, size, -, heq⟩ := hrun
        cases heq
        exact .still rfl rfl (Nat.le_succ _)

theorem freeNode_accounts {a : Addr} (hrun : h.freeNode a = some h') :
    Accounts h h' := by
  unfold Heap.freeNode at hrun
  simp only [Option.bind_eq_bind, Option.bind_eq_some_iff, Option.pure_def,
    Option.some.injEq] at hrun
  obtain ⟨n, -, rfl⟩ := hrun
  exact .still rfl rfl (Nat.le_refl _)

theorem metricListPop_accounts {o : Option Addr}
    (hrun : h.metricListPop l = some (o, h')) : Accounts h h' := by
  unfold Heap.metricListPop at hrun
  simp only [Option.bind_eq_bind, Option.bind_eq_some_iff,
    Option.pure_def] at hrun
  obtain ⟨hdr, -, hrun⟩ := hrun
  split at hrun
  case h_1 => cases hrun; exact .refl h
  case h_2 =>
      simp only [Option.bind_eq_some_iff, Option.some.injEq,
        Prod.mk.injEq] at hrun
      obtain ⟨n, -, size, -, h₁, hfree, -, rfl⟩ := hrun
      exact (Accounts.setList _ _).trans (freeNode_accounts hfree)

theorem metricListEmptyLoop_accounts (fuel : Nat) :
    ∀ (h : Heap) (cur : Option Addr),
      Heap.metricListEmptyLoop fuel h cur = some h' → Accounts h h' := by
  induction fuel with
  | zero => exact fun h cur hrun => by cases hrun
  | succ fuel ih =>
      intro h cur hrun
      cases cur with
      | none => cases hrun; exact .refl _
      | some cur =>
          unfold Heap.metricListEmptyLoop at hrun
          simp only [Heap.metricListNodeFree, Option.bind_eq_bind,
            Option.bind_eq_some_iff] at hrun
          obtain ⟨n, -, h₁, ⟨n₁, -, h₂, hfree, hnode⟩, hrest⟩ := hrun
          exact ((metricFree_accounts hfree).trans
            (freeNode_accounts hnode)).trans (ih _ _ hrest)

theorem metricListEmpty_accounts (hrun : h.metricListEmpty l = some h') :
    Accounts h h' := by
  unfold Heap.metricListEmpty at hrun
  simp only [Option.bind_eq_bind, Option.bind_eq_some_iff, Option.pure_def,
    Option.some.injEq] at hrun
  obtain ⟨hdr, -, h₁, hloop, rfl⟩ := hrun
  exact (metricListEmptyLoop_accounts _ _ _ hloop).trans
    (.setList _ _)

theorem metricListFree_accounts (hrun : h.metricListFree l = some h') :
    Accounts h h' := by
  unfold Heap.metricListFree at hrun
  simp only [Option.bind_eq_bind, Option.bind_eq_some_iff, Option.pure_def,
    Option.some.injEq] at hrun
  obtain ⟨h₁, hempty, rfl⟩ := hrun
  exact (metricListEmpty_accounts hempty).trans
    (.still rfl rfl (Nat.le_refl _))

theorem removeNode_accounts {prev : Option Addr} {node : Addr}
    (hrun : h.removeNode l prev node = some h') : Accounts h h' := by
  unfold Heap.removeNode at hrun
  simp only [Option.bind_eq_bind, Option.bind_eq_some_iff] at hrun
  obtain ⟨n, -, hrun⟩ := hrun
  cases prev with
  | none =>
      simp only [Option.bind_some, Option.bind_eq_some_iff] at hrun
      obtain ⟨hdr, -, size, -, h₁, hfree, hnode⟩ := hrun
      exact (Accounts.setList _ _).trans
        ((metricFree_accounts hfree).trans (freeNode_accounts hnode))
  | some q =>
      simp only [Option.bind_some, Option.bind_eq_some_iff] at hrun
      obtain ⟨pn, -, hdr, -, size, -, h₁, hfree, hnode⟩ := hrun
      exact ((Accounts.setNode _ _).trans (.setList _ _)).trans
        ((metricFree_accounts hfree).trans (freeNode_accounts hnode))

theorem metricListRemoveIfLoop_accounts {σ : Type}
    (f : σ → Metric → Bool × σ) {n' : Nat} (fuel : Nat) :
    ∀ (h : Heap) (prev cur : Option Addr) (data : σ) (n : Nat),
      Heap.metricListRemoveIfLoop f fuel h l prev cur data n = some (n', h') →
      Accounts h h' := by
  induction fuel with
  | zero => exact fun h prev cur data n hrun => by cases hrun
  | succ fuel ih =>
      intro h prev cur data n hrun
      cases cur with
      | none => cases hrun; exact .refl _
      | some cur =>
          unfold Heap.metricListRemoveIfLoop at hrun
          simp only [Option.bind_eq_bind, Option.bind_eq_some_iff] at hrun
          obtain ⟨nd, -, m, -, hrun⟩ := hrun
          split at hrun
          · simp only [Option.bind_eq_some_iff] at hrun
            obtain ⟨h₁, hremove, hrest⟩ := hrun
            exact (removeNode_accounts hremove).trans (ih _ _ _ _ _ hrest)
          · exact ih _ _ _ _ _ hrun

theorem metricListRemoveIf_accounts {σ : Type} {f : σ → Metric → Bool × σ}
    {data : σ} {n : Nat}
    (hrun : h.metricListRemoveIf f l data = some (n, h')) :
    Accounts h h' := by
  unfold Heap.metricListRemoveIf at hrun
  simp only [Option.bind_eq_bind, Option.bind_eq_some_iff] at hrun
  obtain ⟨hdr, -, hloop⟩ := hrun
  exact metricListRemoveIfLoop_accounts f _ _ _ _ _ _ hloop

-- ======================================================== metric_store.c

theorem pushAggregateLoop_accounts {st : StoreRef} {rc : Int} (fuel : Nat) :
    ∀ (h : Heap) (cur : Option Addr),
      Heap.pushAggregateLoop F fuel h st p cur = some (rc, h') →
      Accounts h h' := by
  induction fuel with
  | zero => exact fun h cur hrun => by cases hrun
  | succ fuel ih =>
      intro h cur hrun
      cases cur with
      | none => exact metricListPush_accounts hrun
      | some cur =>
          unfold Heap.pushAggregateLoop at hrun
          simp only [Option.bind_eq_bind, Option.bind_eq_some_iff] at hrun
          obtain ⟨n, -, dst, hdst, m, -, hrun⟩ := hrun
          split at hrun
          · simp only [Option.bind_eq_some_iff, Option.pure_def,
              Option.some.injEq, Prod.mk.injEq] at hrun
            obtain ⟨h₁, hfree, -, rfl⟩ := hrun
            exact (Accounts.overwrite (by simp [hdst]) _).trans
              (metricFree_accounts hfree)
          · exact ih _ _ hrun

theorem metricStorePushComputed_accounts {st : StoreRef} {rc : Int}
    (hrun : h.metricStorePushComputed F st p = some (rc, h')) :
    Accounts h h' := by
  unfold Heap.metricStorePushComputed at hrun
  simp only [Heap.metricStorePushAggregate, Option.bind_eq_bind,
    Option.bind_eq_some_iff] at hrun
  obtain ⟨m, -, hrun⟩ := hrun
  split at hrun
  · simp only [Option.bind_eq_some_iff] at hrun
    obtain ⟨hdr, -, hloop⟩ := hrun
    exact pushAggregateLoop_accounts _ _ _ hloop
  · exact metricListPush_accounts hrun

theorem pushDeltaLoop_accounts {st : StoreRef} {rc : Int} (fuel : Nat) :
    ∀ (h : Heap) (cur : Option Addr),
      Heap.pushDeltaLoop F fuel h st p cur = some (rc, h') →
      Accounts h h' := by
  induction fuel with
  | zero => exact fun h cur hrun => by cases hrun
  | succ fuel ih =>
      intro h cur hrun
      cases cur with
      | none => exact metricListPush_accounts hrun
      | some cur =>
          unfold Heap.pushDeltaLoop at hrun
          simp only [Option.bind_eq_bind, Option.bind_eq_some_iff] at hrun
          obtain ⟨n, -, cached, -, m, -, hrun⟩ := hrun
          split at hrun
          · simp only [Option.bind_eq_some_iff] at hrun
            obtain ⟨⟨o, h₁⟩, hdelta, hrun⟩ := hrun
            have hacc := metricComputeDelta_accounts hdelta
            cases o with
            | none =>
                cases hrun
                exact hacc
            | some new =>
                simp only [Option.bind_eq_some_iff] at hrun
                obtain ⟨h₂, hfree, hpush⟩ := hrun
                exact ((hacc.trans (metricFree_accounts hfree)).trans
                  (.setNode _ _)).trans (metricStorePushComputed_accounts hpush)
          · exact ih _ _ hrun

theorem metricStorePush_accounts {st : StoreRef} {rc : Int}
    (hrun : h.metricStorePush F st p = some (rc, h')) : Accounts h h' := by
  unfold Heap.metricStorePush at hrun
  simp only [Heap.metricStorePushDelta, Option.bind_eq_bind,
    Option.bind_eq_some_iff] at hrun
  obtain ⟨m, -, hrun⟩ := hrun
  split at hrun
  · simp only [Option.bind_eq_some_iff] at hrun
    obtain ⟨hdr, -, hloop⟩ := hrun
    exact pushDeltaLoop_accounts _ _ _ hloop
  · exact metricStorePushComputed_accounts hrun

theorem lpushLoop_accounts {st : StoreRef} {rc : Int} (fuel : Nat) :
    ∀ (h : Heap) (err : Int),
      Heap.lpushLoop F fuel h st l err = some (rc, h') → Accounts h h' := by
  induction fuel with
  | zero => exact fun h err hrun => by cases hrun
  | succ fuel ih =>
      intro h err hrun
      unfold Heap.lpushLoop at hrun
      simp only [Option.bind_eq_bind, Option.bind_eq_some_iff] at hrun
      obtain ⟨⟨o, h₁⟩, hpop, hrun⟩ := hrun
      have hacc := metricListPop_accounts hpop
      cases o with
      | none =>
          cases hrun
          exact hacc
      | some q =>
          simp only [Option.bind_eq_some_iff] at hrun
          obtain ⟨⟨rc₁, h₂⟩, hpush, hrest⟩ := hrun
          exact (hacc.trans (metricStorePush_accounts hpush)).trans
            (ih _ _ hrest)

theorem evictCacheLoop_accounts {st : StoreRef} {maxSize n' : Nat}
    (fuel : Nat) :
    ∀ (h : Heap) (n : Nat),
      Heap.evictCacheLoop fuel h st maxSize n = some (n', h') →
      Accounts h h' := by
  induction fuel with
  | zero => exact fun h n hrun => by cases hrun
  | succ fuel ih =>
      intro h n hrun
      unfold Heap.evictCacheLoop at hrun
      simp only [Option.bind_eq_bind, Option.bind_eq_some_iff] at hrun
      obtain ⟨hdr, -, hrun⟩ := hrun
      split at hrun
      · simp only [Option.bind_eq_some_iff] at hrun
        obtain ⟨⟨o, h₁⟩, hpop, q, -, h₂, hfree, hrest⟩ := hrun
        exact ((metricListPop_accounts hpop).trans
          (metricFree_accounts hfree)).trans (ih _ _ hrest)
      · cases hrun
        exact .refl _

end Monikor
