/-
A store in use on pointers is the store in use on sequences, and where it
settles every metric handed to it, nothing is lost or freed twice.

`StoreHolds A h st c` says that the heap `h` holds the store `st` with
the cells `c` and no other list, and that its log of freed metrics is in
order. One lemma a call takes it from state to state (`Leaves`), together
with the metrics left loose; `storeStep_holds` collects them.
-/
import Monikor.Lists.Proofs.Ownership
import Monikor.Lists.Proofs.Refine

namespace Monikor

open Linked Machine

variable {F : FloatOps} {h h' : Heap} {A A' : Lists} {l p a : Addr}
  {cs : List Cell} {m : Metric} {st : StoreRef} {c : Store Cell}

-- ============================================================ vocabulary

/-- A store whose elements are read through a function. -/
def Store.map {α β : Type*} (f : α → β) (s : Store α) : Store β :=
  ⟨s.current.map f, s.delta.map f, s.cache.map f⟩

/-- The contents of a store made of cells. -/
def Store.contents (c : Store Cell) : Store Metric := c.map Cell.metric

/-- The heap holds the store, made of the given cells, and no other
list. -/
structure StoreHolds (A : Lists) (h : Heap) (st : StoreRef)
    (c : Store Cell) : Prop where
  rep : Rep h A
  allocs : AllocsOk h
  log : FreeLog h
  distinct : [st.current, st.delta, st.cache].Nodup
  only : ∀ l cs, A l = some cs → l ∈ [st.current, st.delta, st.cache]
  current : A st.current = some c.current
  delta : A st.delta = some c.delta
  cache : A st.cache = some c.cache

/-- What a call leaves: the store `s`, every metric accounted for, and, if
it settles what it was given, no metric loose that was not loose
before. -/
def Leaves (h : Heap) (A : Lists) (st : StoreRef) (settled : Prop)
    (h' : Heap) (s : Store Metric) : Prop :=
  ∃ A' c', StoreHolds A' h' st c' ∧ c'.contents = s ∧ Accounts h h'
    ∧ (settled → ∀ a, Loose h' A' a → Loose h A a)

namespace StoreHolds

theorem storeRep (hs : StoreHolds A h st c) : StoreRep A h st c :=
  ⟨hs.rep, hs.distinct, hs.current, hs.delta, hs.cache⟩

theorem ne (hs : StoreHolds A h st c) :
    st.current ≠ st.delta ∧ st.current ≠ st.cache ∧ st.delta ≠ st.cache :=
  hs.storeRep.ne

/-- A metric is listed when one of the three lists has it. -/
theorem listed_iff (hs : StoreHolds A h st c) :
    Listed A a ↔ a ∈ (c.current ++ c.delta ++ c.cache).map Cell.ptr := by
  simp only [List.map_append, List.mem_append]
  constructor
  · intro hlist
    obtain ⟨l, cs, hl, ha⟩ := hlist
    have hmem := hs.only l cs hl
    simp only [List.mem_cons, List.not_mem_nil, or_false] at hmem
    rcases hmem with rfl | rfl | rfl
    · obtain rfl := Option.some.inj (hl.symm.trans hs.current)
      exact .inl (.inl ha)
    · obtain rfl := Option.some.inj (hl.symm.trans hs.delta)
      exact .inl (.inr ha)
    · obtain rfl := Option.some.inj (hl.symm.trans hs.cache)
      exact .inr ha
  · intro hin
    rcases hin with (hin | hin) | hin
    · exact ⟨_, _, hs.current, hin⟩
    · exact ⟨_, _, hs.delta, hin⟩
    · exact ⟨_, _, hs.cache, hin⟩

end StoreHolds

/-- An operation that frees the metrics `ps` and keeps the others listed
makes none loose. -/
theorem Frees.loose {ps : List Addr} (hf : Frees h h' ps) (hlog : FreeLog h')
    (hkeep : Listed A a → a ∈ ps ∨ Listed A' a) (ha : Loose h' A' a) :
    Loose h A a := by
  obtain ⟨hlive, hno⟩ := ha
  have hps : a ∉ ps := by
    intro hin
    apply hlive
    apply hlog.dead
    rw [hf.freed]
    exact List.mem_append_right _ hin
  rw [hf.metric a hps] at hlive
  refine ⟨hlive, fun hlist => ?_⟩
  rcases hkeep hlist with hin | hin
  · exact hps hin
  · exact hno hin

-- ================================================================= pushes

/-- A fresh metric is in no list, and it alone is new. -/
theorem StoreHolds.build (hs : StoreHolds A h st c) (m : Metric) :
    h.metricBuild m = (some h.brk, (h.setMetric h.brk m).bump)
      ∧ StoreHolds A (h.setMetric h.brk m).bump st c
      ∧ Accounts h (h.setMetric h.brk m).bump
      ∧ ((h.setMetric h.brk m).bump).metric h.brk = some m
      ∧ ¬ Listed A h.brk
      ∧ ∀ a, a ≠ h.brk → Loose ((h.setMetric h.brk m).bump) A a →
          Loose h A a := by
  have hacc : Accounts h (h.setMetric h.brk m).bump := .build m
  refine ⟨metricBuild_ok hs.allocs m, ?_, hacc, by simp,
    hs.rep.not_listed_brk, fun a ha hloose => ?_⟩
  · exact ⟨(hs.rep.setMetric_bump m).1, hs.allocs, hacc.log hs.log,
      hs.distinct, hs.only, hs.current, hs.delta, hs.cache⟩
  · exact ⟨by simpa [ha] using hloose.1, hloose.2⟩

/-- `monikor_metric_store_push` of a metric in no list. -/
theorem push_leaves (hs : StoreHolds A h st c) (hp : h.metric p = some m)
    (hu : ¬ Listed A p) :
    ∃ h', h.metricStorePush F st p
        = some ((Seq.metricStorePush F c.contents m).1, h')
      ∧ ∃ A' c', StoreHolds A' h' st c'
        ∧ c'.contents = (Seq.metricStorePush F c.contents m).2
        ∧ Accounts h h'
        ∧ ((Seq.metricStorePush F c.contents m).1 = 0 →
            ∀ a, Loose h' A' a → Loose h A a ∧ a ≠ p) := by
  have hb : PushReady h A st c.contents c.current c.delta p m :=
    ⟨hs.rep, hs.allocs, hs.ne.1, hs.current, hs.delta, rfl, rfl, hp, hu⟩
  obtain ⟨rc, h', cur', del', A', hrun, hA', hr', hseq, hfr, -⟩ :=
    metricStorePush_spec (F := F) hb
  have hacc := metricStorePush_accounts hrun
  rw [hseq]
  refine ⟨h', hrun, A', ⟨cur', del', c.cache⟩, ?_, rfl, hacc, ?_⟩
  · refine ⟨hr', hfr.allocs.trans hs.allocs, hacc.log hs.log, hs.distinct,
      ?_, ?_, ?_, ?_⟩
    · intro l cs hl
      by_cases hcur : l = st.current
      · simp [hcur]
      · by_cases hdel : l = st.delta
        · simp [hdel]
        · rw [hA', Function.update_of_ne hcur,
            Function.update_of_ne hdel] at hl
          exact hs.only l cs hl
    · rw [hA', Function.update_self]
    · rw [hA', Function.update_of_ne (Ne.symm hs.ne.1), Function.update_self]
    · rw [hA', Function.update_of_ne (Ne.symm hs.ne.2.1),
        Function.update_of_ne (Ne.symm hs.ne.2.2)]
      exact hs.cache
  · intro hcode a ha
    obtain rfl : rc = 0 := hcode
    exact metricStorePush_loose hb hrun hr' ha

/-- The same for a metric built for it. -/
theorem push_fresh_leaves (hs : StoreHolds A h st c) (m : Metric) :
    ∃ h', ((h.setMetric h.brk m).bump).metricStorePush F st h.brk
        = some ((Seq.metricStorePush F c.contents m).1, h')
      ∧ (∀ q ∈ [h.brk], Known h' q)
      ∧ Leaves h A st ((Seq.metricStorePush F c.contents m).1 = 0) h'
          (Seq.metricStorePush F c.contents m).2 := by
  obtain ⟨-, hs₁, hacc₁, hlive, hu, hloose₁⟩ := hs.build m
  obtain ⟨h', hrun, A', c', hs', hc', hacc, hloose⟩ :=
    push_leaves (F := F) hs₁ hlive hu
  refine ⟨h', hrun, fun q hq => ?_, A', c', hs', hc', hacc₁.trans hacc,
    fun hcode a ha => ?_⟩
  · obtain rfl := List.mem_singleton.mp hq
    exact hacc.known _ (.inl (by simp))
  · obtain ⟨ha₁, hne⟩ := hloose hcode a ha
    exact hloose₁ a hne ha₁

-- ==================================================== freeing and moving

section Move

variable {ps : List Addr}

/-- An operation that frees the metrics `ps` and keeps the others in the
store's lists. -/
theorem Leaves.of_frees (c' : Store Cell) (hs : StoreHolds A h st c)
    (hr' : Rep h' A')
    (hf : Frees h h' ps) (hacc : Accounts h h')
    (hkept : ListsKept A A' [st.current, st.delta, st.cache])
    (hcur : A' st.current = some c'.current)
    (hdel : A' st.delta = some c'.delta)
    (hcac : A' st.cache = some c'.cache)
    (hptr : ∀ a ∈ (c.current ++ c.delta ++ c.cache).map Cell.ptr, a ∈ ps
      ∨ a ∈ (c'.current ++ c'.delta ++ c'.cache).map Cell.ptr) :
    Leaves h A st True h' c'.contents := by
  have hs' : StoreHolds A' h' st c' := by
    refine ⟨hr', hf.allocs.trans hs.allocs, hacc.log hs.log, hs.distinct, ?_,
      hcur, hdel, hcac⟩
    intro l cs hl
    by_contra hout
    rw [hkept l hout] at hl
    exact hout (hs.only l cs hl)
  refine ⟨A', c', hs', rfl, hacc, fun _ a ha => ?_⟩
  apply hf.loose hs'.log _ ha
  rw [hs.listed_iff, hs'.listed_iff]
  exact hptr a

/-- Replacing one list leaves the others. -/
theorem listsKept_update {ls : List Addr} (hl : l ∈ ls)
    (o : Option (List Cell)) : ListsKept A (Function.update A l o) ls := by
  intro l' hl'
  apply Function.update_of_ne
  intro e
  exact hl' (e ▸ hl)

/-- Moves between the cache and the current list leave the delta list. -/
theorem StoreHolds.moved (hs : StoreHolds A h st c)
    (hkept : ListsKept A A' [st.cache, st.current]) :
    A' st.delta = some c.delta
      ∧ ListsKept A A' [st.current, st.delta, st.cache] := by
  constructor
  · rw [hkept st.delta (by simp [hs.ne.2.2, Ne.symm hs.ne.1]), hs.delta]
  · intro l hl
    apply hkept
    intro hin
    apply hl
    rcases List.mem_pair.mp hin with rfl | rfl
    · simp
    · simp

/-- `monikor_metric_store_flush`. -/
theorem flush_leaves (hs : StoreHolds A h st c) :
    ∃ h', h.metricStoreFlush st = some h'
      ∧ Leaves h A st True h' (Seq.metricStoreFlush c.contents) := by
  obtain ⟨h', hrun, hr', hf⟩ := metricListEmpty_spec hs.rep hs.current
  refine ⟨h', hrun, Leaves.of_frees ⟨[], c.delta, c.cache⟩ hs hr' hf
    (metricListEmpty_accounts hrun) (listsKept_update (by simp) _)
    (Function.update_self ..) ?_ ?_ ?_⟩
  · rw [Function.update_of_ne (Ne.symm hs.ne.1), hs.delta]
  · rw [Function.update_of_ne (Ne.symm hs.ne.2.1), hs.cache]
  · intro a ha
    rw [List.append_assoc, List.map_append, List.mem_append] at ha
    exact ha

/-- `monikor_metric_store_flush_all`. -/
theorem flushAll_leaves (hs : StoreHolds A h st c) :
    ∃ h', h.metricStoreFlushAll st = some h'
      ∧ Leaves h A st True h' (Seq.metricStoreFlushAll c.contents) := by
  obtain ⟨h', A', hrun, hr', hcur, hdel, hcac, hkept, hf⟩ :=
    metricStoreFlushAll_spec hs.rep hs.distinct hs.current hs.delta hs.cache
  have hacc : Accounts h h' := by
    unfold Heap.metricStoreFlushAll at hrun
    simp only [Option.bind_eq_bind, Option.bind_eq_some_iff] at hrun
    obtain ⟨h₁, hrun₁, h₂, hrun₂, hrun₃⟩ := hrun
    exact ((metricListEmpty_accounts hrun₁).trans
      (metricListEmpty_accounts hrun₂)).trans (metricListEmpty_accounts hrun₃)
  exact ⟨h', hrun, Leaves.of_frees ⟨[], [], []⟩ hs hr' hf hacc hkept
    hcur hdel hcac fun a ha => .inl ha⟩

/-- `monikor_metric_store_cache`. -/
theorem cache_leaves (hs : StoreHolds A h st c) :
    ∃ h', h.metricStoreCache st = some h'
      ∧ Leaves h A st True h' (Seq.metricStoreCache c.contents) := by
  obtain ⟨h', A', hrun, hr', hcac, hcur, hkept, hq⟩ :=
    metricStoreCache_spec hs.rep (Ne.symm hs.ne.2.1) hs.current hs.cache
  obtain ⟨hdel, hkept⟩ := hs.moved hkept
  have hleaves := Leaves.of_frees ⟨[], c.delta, c.cache ++ c.current⟩ hs hr'
    hq.frees (.still hq.metric hq.freed hq.brk)
    hkept hcur hdel hcac (by
        intro a ha
        right
        simp only [List.map_append, List.mem_append, List.nil_append]
          at ha ⊢
        rcases ha with (ha | ha) | ha <;> simp [ha])
  refine ⟨h', hrun, ?_⟩
  simpa [Seq.metricStoreCache, Seq.metricListConcat, Store.contents,
    Store.map] using hleaves

/-- `monikor_metric_store_uncache`. -/
theorem uncache_leaves (hs : StoreHolds A h st c) :
    ∃ h', h.metricStoreUncache st = some h'
      ∧ Leaves h A st True h' (Seq.metricStoreUncache c.contents) := by
  obtain ⟨h', A', hrun, hr', hcur, hcac, hkept, hq⟩ :=
    metricStoreUncache_spec hs.rep (Ne.symm hs.ne.2.1) hs.current hs.cache
  obtain ⟨hdel, hkept⟩ := hs.moved hkept
  have hleaves := Leaves.of_frees ⟨c.cache ++ c.current, c.delta, []⟩ hs hr'
    hq.frees (.still hq.metric hq.freed hq.brk)
    hkept hcur hdel hcac (by
        intro a ha
        right
        simp only [List.map_append, List.mem_append, List.append_nil]
          at ha ⊢
        rcases ha with (ha | ha) | ha <;> simp [ha])
  refine ⟨h', hrun, ?_⟩
  simpa [Seq.metricStoreUncache, Seq.metricStoreCache, Seq.metricListConcat,
    Store.contents, Store.map] using hleaves

/-- `monikor_metric_store_evict_cache`. -/
theorem evictCache_leaves (hs : StoreHolds A h st c) (maxSize : Nat) :
    ∃ h', h.metricStoreEvictCache st maxSize
        = some ((Seq.metricStoreEvictCache metricNodeSize c.contents
            maxSize).1.length, h')
      ∧ Leaves h A st True h'
          (Seq.metricStoreEvictCache metricNodeSize c.contents maxSize).2 := by
  obtain ⟨h', hrun, hr', hf⟩ :=
    metricStoreEvictCache_spec hs.rep hs.cache maxSize
  have hmap : Seq.evictCacheLoop metricNodeSize maxSize
      (c.cache.map Cell.metric)
      = ((Seq.evictCacheLoop Cell.size maxSize c.cache).1.map Cell.metric,
        (Seq.evictCacheLoop Cell.size maxSize c.cache).2.map Cell.metric) :=
    Seq.evictCacheLoop_map Cell.metric maxSize c.cache
  have hleaves := Leaves.of_frees ⟨c.current, c.delta,
      (Seq.evictCacheLoop Cell.size maxSize c.cache).2⟩ hs hr' hf
    (evictCacheLoop_accounts _ _ _ hrun) (listsKept_update (by simp) _)
    (by rw [Function.update_of_ne hs.ne.2.1, hs.current])
    (by rw [Function.update_of_ne hs.ne.2.2, hs.delta])
    (Function.update_self ..) (by
      intro a ha
      rw [List.map_append, List.mem_append] at ha ⊢
      rcases ha with ha | ha
      · exact .inr (.inl ha)
      · rw [← Seq.evictCacheLoop_append (w := Cell.size) maxSize c.cache,
          List.map_append, List.mem_append] at ha
        exact ha.imp_right .inr)
  refine ⟨h', ?_, ?_⟩
  · simpa [Seq.metricStoreEvictCache, Store.contents, Store.map, hmap]
      using hrun
  · simpa [Seq.metricStoreEvictCache, Store.contents, Store.map, hmap]
      using hleaves

/-- `monikor_metric_store_evict_delta`. -/
theorem evictDelta_leaves (hs : StoreHolds A h st c) (clock : Timeval) :
    ∃ h', h.metricStoreEvictDelta st clock
        = some ((Seq.metricStoreEvictDelta c.contents clock).1, h')
      ∧ Leaves h A st True h'
          (Seq.metricStoreEvictDelta c.contents clock).2 := by
  obtain ⟨h', ps, hrun, hr', hf, hperm⟩ := metricListRemoveIf_spec
    (fun data m => (evictDeltaPredicate m data, data)) clock hs.rep hs.delta
  have hmap := metricListRemoveIf_map
    (fun data m => (evictDeltaPredicate m data, data)) Cell.metric clock
    c.delta
  have hleaves := Leaves.of_frees ⟨c.current, _, c.cache⟩ hs hr' hf
    (metricListRemoveIf_accounts hrun) (listsKept_update (by simp) _)
    (by rw [Function.update_of_ne hs.ne.1, hs.current])
    (Function.update_self ..)
    (by rw [Function.update_of_ne (Ne.symm hs.ne.2.2), hs.cache]) (by
      intro a ha
      simp only [List.map_append, List.mem_append] at ha ⊢
      rcases ha with (ha | ha) | ha
      · exact .inr (.inl (.inl ha))
      · rw [hperm.mem_iff, List.mem_append] at ha
        exact ha.symm.imp_right fun ha => .inl (.inr ha)
      · exact .inr (.inr ha))
  refine ⟨h', ?_, ?_⟩
  · simpa [Heap.metricStoreEvictDelta, Seq.metricStoreEvictDelta,
      Store.contents, Store.map, hmap] using hrun
  · simpa [Seq.metricStoreEvictDelta, Store.contents, Store.map, hmap]
      using hleaves

end Move

-- =================================================================== lpush

/-- Building a list appends fresh metrics to it, and leaves none loose. -/
theorem buildList_spec (ms : List Metric) :
    ∀ (h : Heap) (A : Lists) (cs : List Cell), Rep h A → AllocsOk h →
      A l = some cs →
      ∃ ps h' cs', h.buildList l ms = some (ps, h')
        ∧ Rep h' (Function.update A l (some (cs ++ cs')))
        ∧ cs'.map Cell.metric = ms ∧ AllocsOk h' ∧ Accounts h h'
        ∧ (∀ p ∈ ps, Known h' p)
        ∧ ∀ a, Loose h' (Function.update A l (some (cs ++ cs'))) a →
            Loose h A a := by
  induction ms with
  | nil =>
      intro h A cs hr hal hl
      have hA : Function.update A l (some (cs ++ [])) = A := by
        rw [List.append_nil, ← hl, Function.update_eq_self]
      rw [hA.symm] at hr
      refine ⟨[], h, [], rfl, hr, rfl, hal, .refl h, by simp, fun a ha => ?_⟩
      rwa [hA] at ha
  | cons m ms ih =>
      intro h A cs hr hal hl
      have hbuild := metricBuild_ok hal m
      have hr₁ := (hr.setMetric_bump m).1
      have hlive : ((h.setMetric h.brk m).bump).metric h.brk = some m := by simp
      obtain ⟨h₂, hrun₂, hr₂, hq₂⟩ := metricListPush_spec hr₁ hal hl hlive
        hr.not_listed_brk
      obtain ⟨ps, h₃, cs', hrun₃, hr₃, hcs', hal₃, hacc₃, hps, hloose₃⟩ :=
        ih h₂ _ _ hr₂ (hq₂.ok hal) (Function.update_self ..)
      rw [Function.update_idem, List.append_assoc] at hr₃ hloose₃
      have hacc₂ : Accounts (h.setMetric h.brk m).bump h₂ :=
        .still hq₂.metric hq₂.freed hq₂.brk
      refine ⟨h.brk :: ps, h₃, _, ?_, hr₃, ?_, hal₃,
        ((Accounts.build m).trans hacc₂).trans hacc₃, ?_, fun a ha => ?_⟩
      · simp [Heap.buildList, hbuild, hrun₂, hrun₃]
      · simp [hcs']
      · intro p hp
        rcases List.mem_cons.mp hp with rfl | hp
        · exact hacc₃.known _ (hacc₂.known _ (.inl (by simp)))
        · exact hps p hp
      · obtain ⟨⟨hlive, hno⟩, hne⟩ := metricListPush_loose hr₁ hal hl hlive
          hr.not_listed_brk hrun₂ hr₂ (hloose₃ a ha)
        exact ⟨by simpa [hne] using hlive, hno⟩

/-- A list whose pushes all go through leaves nothing loose. -/
theorem lpushLoop_loose {metrics : Addr} {rc : Int}
    (hnd : [st.current, st.delta, metrics].Nodup) (hr' : Rep h' A')
    (ha : Loose h' A' a) :
    ∀ (ms : List Cell) (h : Heap) (A : Lists) (cur del : List Cell)
      (s : Store Metric) (fuel : Nat) (err : Int),
      Rep h A → AllocsOk h → A metrics = some ms →
      A st.current = some cur → A st.delta = some del →
      s.current = cur.map Cell.metric → s.delta = del.map Cell.metric →
      Heap.lpushLoop F fuel h st metrics err = some (rc, h') →
      (Seq.metricStoreLpush F s (ms.map Cell.metric)).1 = 0 →
      Loose h A a := by
  intro ms
  induction ms with
  | nil =>
      intro h A cur del s fuel err hr hal hl hcur hdel hsc hsd hrun hcode
      cases fuel with
      | zero => cases hrun
      | succ fuel =>
          unfold Heap.lpushLoop at hrun
          simp only [metricListPop_nil hr hl, Option.bind_eq_bind,
            Option.bind_some] at hrun
          cases hrun
          rwa [hr.unique hr']
  | cons c ms ih =>
      intro h A cur del s fuel err hr hal hl hcur hdel hsc hsd hrun hcode
      cases fuel with
      | zero => cases hrun
      | succ fuel =>
          obtain ⟨h₁, rc₁, h₂, A₂, cur₂, del₂, hpop, hq₁, hb, hpush, hr₂, hal₂,
            hl₂, hcur₂, hdel₂, -, hseq⟩ :=
            lpush_turn (F := F) hnd s hr hal hl hcur hdel hsc hsd
          unfold Heap.lpushLoop at hrun
          simp only [hpop, hpush, Option.bind_eq_bind,
            Option.bind_some] at hrun
          simp only [List.map_cons, Seq.metricStoreLpush, hseq] at hcode
          have hrc : rc₁ = 0 := by
            by_contra hne
            rw [if_pos hne] at hcode
            cases hcode
          rw [if_neg (not_not_intro hrc)] at hcode
          have ha₂ := ih h₂ A₂ cur₂ del₂ (Seq.metricStorePush F s c.metric).2
            fuel _ hr₂ hal₂ hl₂ hcur₂ hdel₂ (by rw [hseq]) (by rw [hseq]) hrun
            (by rwa [hseq])
          rw [hrc] at hpush
          obtain ⟨⟨hlive, hno⟩, hne⟩ := metricStorePush_loose hb hpush hr₂ ha₂
          refine ⟨by rwa [← hq₁.metric], fun hlist => hno ?_⟩
          apply hlist.update hl
          intro hin
          rw [List.map_cons, List.mem_cons] at hin
          exact hin.resolve_left hne

/-- The hand-over of a list of fresh metrics. -/
theorem lpushFresh_leaves (hs : StoreHolds A h st c) (ms : List Metric) :
    ∃ ps h', h.lpushFresh F st ms
        = some (ps, (Seq.metricStoreLpush F c.contents ms).1, h')
      ∧ (∀ p ∈ ps, Known h' p)
      ∧ Leaves h A st ((Seq.metricStoreLpush F c.contents ms).1 = 0) h'
          (Seq.metricStoreLpush F c.contents ms).2 := by
  obtain ⟨h₁, hrun₁, hr₁, hq₁⟩ := metricListNew_spec hs.rep hs.allocs
  have hnew : ∀ l cs, A l = some cs → l ≠ h.brk := fun l cs hl =>
    Nat.ne_of_lt (hs.rep.list_lt hl)
  have hcurne := hnew _ _ hs.current
  have hdelne := hnew _ _ hs.delta
  have hcacne := hnew _ _ hs.cache
  obtain ⟨ps, h₂, cs, hrun₂, hr₂, hcs, hal₂, hacc₂, hps, hloose₂⟩ :=
    buildList_spec ms h₁ _ [] hr₁ (hq₁.ok hs.allocs) (Function.update_self ..)
  rw [Function.update_idem, List.nil_append] at hr₂ hloose₂
  have hnd : [st.current, st.delta, h.brk].Nodup := by
    simp [hs.ne.1, hcurne, hdelne]
  have hcur₂ : Function.update A h.brk (some cs) st.current
      = some c.current := by rw [Function.update_of_ne hcurne, hs.current]
  have hdel₂ : Function.update A h.brk (some cs) st.delta = some c.delta := by
    rw [Function.update_of_ne hdelne, hs.delta]
  obtain ⟨rc, h₃, A₃, cur₃, del₃, hrun₃, hr₃, hl₃, hcur₃, hdel₃, hkept₃, hal₃,
    hseq⟩ := metricStoreLpush_spec (F := F) c.contents hr₂ hal₂ hnd
      (Function.update_self ..) hcur₂ hdel₂ rfl rfl
  rw [hcs] at hseq
  obtain ⟨h₄, hrun₄, hr₄, hf₄⟩ := metricListFree_spec hr₃ hl₃
  have hacc₁ : Accounts h h₁ := .still hq₁.metric hq₁.freed hq₁.brk
  have hacc₄ := (lpushLoop_accounts _ _ _ hrun₃).trans
    (metricListFree_accounts hrun₄)
  have hacc := (hacc₁.trans hacc₂).trans hacc₄
  have hkept : ∀ l, l ∉ [st.current, st.delta] → l ≠ h.brk →
      A₃ l = A l := by
    intro l hl hne
    rw [hkept₃ l (by simpa [hne] using hl), Function.update_of_ne hne]
  rw [hseq]
  refine ⟨ps, h₄, ?_, fun p hp => hacc₄.known p (hps p hp),
    Function.update A₃ h.brk none, ⟨cur₃, del₃, c.cache⟩, ?_, rfl, hacc, ?_⟩
  · simp [Heap.lpushFresh, hrun₁, hrun₂, hrun₃, hrun₄]
  · refine ⟨hr₄, hf₄.allocs.trans hal₃, hacc.log hs.log, hs.distinct, ?_, ?_,
      ?_, ?_⟩
    · intro l cs' hl
      have hne : l ≠ h.brk := by
        intro e
        subst e
        rw [Function.update_self] at hl
        cases hl
      rw [Function.update_of_ne hne] at hl
      by_cases hin : l ∈ [st.current, st.delta]
      · simp only [List.mem_cons, List.not_mem_nil, or_false] at hin ⊢
        exact hin.imp_right .inl
      · rw [hkept l hin hne] at hl
        exact hs.only l cs' hl
    · rw [Function.update_of_ne hcurne, hcur₃]
    · rw [Function.update_of_ne hdelne, hdel₃]
    · rw [Function.update_of_ne hcacne, hkept _ ?_ hcacne, hs.cache]
      simp [Ne.symm hs.ne.2.1, Ne.symm hs.ne.2.2]
  · intro hcode a ha
    -- back through the free, the pushes, the building and the new header
    have ha₃ : Loose h₃ A₃ a := by
      refine hf₄.loose (hacc.log hs.log) (fun hlist => .inr ?_) ha
      obtain ⟨l, cs', hl, hin⟩ := hlist
      refine ⟨l, cs', ?_, hin⟩
      rw [Function.update_of_ne _, hl]
      intro e
      subst e
      rw [hl₃] at hl
      cases hl
      cases hin
    have ha₂ := lpushLoop_loose (F := F) hnd hr₃ ha₃ cs h₂ _ c.current c.delta
      c.contents _ 0 hr₂ hal₂ (Function.update_self ..) hcur₂ hdel₂ rfl rfl
      hrun₃ (by rw [hcs, hseq]; exact hcode)
    obtain ⟨hlive, hno⟩ := hloose₂ a ha₂
    refine ⟨by rwa [← hq₁.metric], fun hlist => hno ?_⟩
    obtain ⟨l, cs', hl, hin⟩ := hlist
    exact ⟨l, cs', by rwa [Function.update_of_ne (hnew l cs' hl)], hin⟩

-- =============================================================== one call

/-- The store answers a call with 0. -/
def Answered (F : FloatOps) : StoreOp → Store Metric → Prop
  | .storePush m, s => (Seq.metricStorePush F s m).1 = 0
  | .metricPush m, s => (Seq.metricStorePush F s m).1 = 0
  | .lpush ms, s => (Seq.metricStoreLpush F s ms).1 = 0
  | _, _ => True

/-- A call that is handed nothing. -/
theorem moved_holds {u : StoreUse} {op : StoreOp} {out : Int}
    {settled : Prop} {s : Store Metric}
    (hrun : StoreUse.step F op u = some (out, { u with heap := h' }))
    (hleaves : Leaves u.heap A u.store settled h' s) :
    ∃ u', StoreUse.step F op u = some (out, u') ∧ u'.store = u.store
      ∧ (∀ p ∈ u'.handed, p ∈ u.handed ∨ Known u'.heap p)
      ∧ Leaves u.heap A u.store settled u'.heap s :=
  ⟨_, hrun, rfl, fun _ hp => .inl hp, hleaves⟩

/-- One call on pointers and on sequences. -/
theorem storeStep_holds {u : StoreUse} (hs : StoreHolds A u.heap u.store c)
    (op : StoreOp) :
    ∃ u', StoreUse.step F op u = some ((Seq.storeStep F op c.contents).1, u')
      ∧ u'.store = u.store
      ∧ (∀ p ∈ u'.handed, p ∈ u.handed ∨ Known u'.heap p)
      ∧ Leaves u.heap A u.store (Answered F op c.contents) u'.heap
          (Seq.storeStep F op c.contents).2 := by
  cases op with
  | storePush m =>
      obtain ⟨h', hrun, hknown, hleaves⟩ := push_fresh_leaves (F := F) hs m
      refine ⟨{ u with heap := h', handed := u.handed ++ [u.heap.brk] }, ?_,
        rfl, ?_, hleaves⟩
      · simp [StoreUse.step, (hs.build m).1, hrun, Seq.storeStep]
      · intro p hp
        exact (List.mem_append.mp hp).imp_right (hknown p)
  | metricPush m =>
      obtain ⟨h', hrun, hknown, hleaves⟩ := push_fresh_leaves (F := F) hs m
      refine ⟨{ u with heap := h', handed := u.handed ++ [u.heap.brk] }, ?_,
        rfl, ?_, hleaves⟩
      · simp [StoreUse.step, (hs.build m).1, Heap.metricPush, hrun,
          Seq.storeStep]
      · intro p hp
        exact (List.mem_append.mp hp).imp_right (hknown p)
  | lpush ms =>
      obtain ⟨ps, h', hrun, hps, hleaves⟩ := lpushFresh_leaves (F := F) hs ms
      refine ⟨{ u with heap := h', handed := u.handed ++ ps }, ?_, rfl, ?_,
        hleaves⟩
      · simp [StoreUse.step, hrun, Seq.storeStep]
      · intro p hp
        exact (List.mem_append.mp hp).imp_right (hps p)
  | evictCache maxSize =>
      obtain ⟨h', hrun, hleaves⟩ := evictCache_leaves hs maxSize
      exact moved_holds (by simp [StoreUse.step, hrun, Seq.storeStep]) hleaves
  | evictDelta clock =>
      obtain ⟨h', hrun, hleaves⟩ := evictDelta_leaves hs clock
      exact moved_holds (by simp [StoreUse.step, hrun, Seq.storeStep]) hleaves
  | cache =>
      obtain ⟨h', hrun, hleaves⟩ := cache_leaves hs
      exact moved_holds (by simp [StoreUse.step, hrun, Seq.storeStep]) hleaves
  | uncache =>
      obtain ⟨h', hrun, hleaves⟩ := uncache_leaves hs
      exact moved_holds (by simp [StoreUse.step, hrun, Seq.storeStep]) hleaves
  | flush =>
      obtain ⟨h', hrun, hleaves⟩ := flush_leaves hs
      exact moved_holds (by simp [StoreUse.step, hrun, Seq.storeStep]) hleaves
  | flushAll =>
      obtain ⟨h', hrun, hleaves⟩ := flushAll_leaves hs
      exact moved_holds (by simp [StoreUse.step, hrun, Seq.storeStep]) hleaves

/-- A store on pointers holds the contents of one on sequences. -/
def StoreUse.Shows (u : StoreUse) (s : Store Metric) : Prop :=
  ∃ A c, StoreHolds A u.heap u.store c ∧ c.contents = s

/-- The store on pointers simulates the store on sequences. -/
theorem storeUse_simulates (F : FloatOps) :
    Simulates StoreUse.Shows (StoreUse.step F) (Seq.storeStep F) := by
  intro op u s hshows
  obtain ⟨A, c, hs, rfl⟩ := hshows
  obtain ⟨u', hrun, hstore, -, A', c', hs', hc', -, -⟩ :=
    storeStep_holds (F := F) hs op
  exact ⟨u', hrun, A', c', hstore ▸ hs', hc'⟩

end Monikor
