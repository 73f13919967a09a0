/-
One specification a store function that moves or frees whole lists:
evict_cache, cache, uncache, flush_all and lpush of metric_store.c, with
metric_list_free.

Where several lists change, the specification says what the lists named
are afterwards and that the others are as they were, so that a caller
chains two of them without rewriting under `Function.update`.
-/
import Monikor.Lists.Proofs.StorePush

namespace Monikor

variable {F : FloatOps} {h h' : Heap} {A : Lists} {l p : Addr}
  {cs cur del cac ms : List Cell} {m : Metric} {st : StoreRef}

/-- What a node of the cell's metric adds to `data_size`. -/
def Cell.size (c : Cell) : Nat := metricNodeSize c.metric

/-- The heap holds the store, made of the given cells; it may hold other
lists. -/
structure StoreRep (A : Lists) (h : Heap) (st : StoreRef) (c : Store Cell) :
    Prop where
  rep : Rep h A
  distinct : [st.current, st.delta, st.cache].Nodup
  current : A st.current = some c.current
  delta : A st.delta = some c.delta
  cache : A st.cache = some c.cache

theorem StoreRep.ne {c : Store Cell} (hs : StoreRep A h st c) :
    st.current ≠ st.delta ∧ st.current ≠ st.cache ∧ st.delta ≠ st.cache := by
  have hnd := hs.distinct
  simp only [List.nodup_cons, List.mem_cons, List.not_mem_nil, or_false,
    not_or] at hnd
  exact ⟨hnd.1.1, hnd.1.2, hnd.2.1⟩

-- ==================================================================== free

/-- `monikor_metric_free` of a metric no list holds. -/
theorem metricFree_spec (hr : Rep h A) (hp : h.metric p = some m)
    (hu : ¬ Listed A p) :
    ∃ h', h.metricFree p = some h' ∧ Rep h' A ∧ Frees h h' [p] := by
  have hne : ∀ a, a ≠ p → (h.eraseMetric p).metric a = h.metric a :=
    fun a ha => by simp [ha]
  refine ⟨h.eraseMetric p, by simp [Heap.metricFree, hp],
    hr.congr rfl rfl ?_ (hr.fresh.eraseMetric p),
    ⟨rfl, fun a ha => hne a (by simpa using ha), rfl, Nat.le_refl _⟩⟩
  exact fun a ha => hne a fun e => hu (e ▸ ha)

/-- Giving up the header of an empty list. -/
theorem Rep.erase (hr : Rep h A) (hl : A l = some []) :
    Rep { h with list := Function.update h.list l none }
      (Function.update A l none) where
  isList := fun l' cs hcs => by
    have hne : l' ≠ l := by
      intro heq
      subst heq
      simp at hcs
    rw [Function.update_of_ne hne] at hcs
    obtain ⟨hdr, hh, hcs⟩ := hr.isList l' cs hcs
    exact ⟨hdr, by simpa [hne] using hh,
      hcs.congr (fun _ _ => rfl) (fun _ _ => rfl)⟩
  absent := fun l' hl' => by
    by_cases e : l' = l
    · simp [e]
    · rw [Function.update_of_ne e] at hl'
      simpa [e] using hr.absent l' hl'
  sep := fun l₁ l₂ cs₁ cs₂ h₁ h₂ hne => by
    have h₁' : l₁ ≠ l := by
      intro heq
      subst heq
      simp at h₁
    have h₂' : l₂ ≠ l := by
      intro heq
      subst heq
      simp at h₂
    rw [Function.update_of_ne h₁'] at h₁
    rw [Function.update_of_ne h₂'] at h₂
    exact hr.sep l₁ l₂ cs₁ cs₂ h₁ h₂ hne
  fresh := {
    node := hr.fresh.node
    metric := hr.fresh.metric
    list := fun a ha => by
      by_cases e : a = l
      · simp [e]
      · simpa [e] using hr.fresh.list a ha }

/-- `monikor_metric_list_free`. -/
theorem metricListFree_spec (hr : Rep h A) (hl : A l = some cs) :
    ∃ h', h.metricListFree l = some h' ∧ Rep h' (Function.update A l none)
      ∧ Frees h h' (cs.map Cell.ptr) := by
  obtain ⟨h₁, hrun, hr₁, hf⟩ := metricListEmpty_spec hr hl
  have hr₂ := hr₁.erase (Function.update_self ..)
  rw [Function.update_idem] at hr₂
  exact ⟨_, by simp [Heap.metricListFree, hrun], hr₂,
    ⟨hf.freed, hf.metric, hf.allocs, hf.brk⟩⟩

-- ================================================================ eviction

/-- The loop of `monikor_metric_store_evict_cache` frees cells from the
front, until the others fit. -/
theorem evictCacheLoop_spec (st : StoreRef) (maxSize : Nat) :
    ∀ (cs : List Cell) (h : Heap) (A : Lists) (fuel n : Nat), Rep h A →
      A st.cache = some cs → cs.length < fuel →
      ∃ h', Heap.evictCacheLoop fuel h st maxSize n
          = some (n + (Seq.evictCacheLoop Cell.size maxSize cs).1.length, h')
        ∧ Rep h' (Function.update A st.cache
            (some (Seq.evictCacheLoop Cell.size maxSize cs).2))
        ∧ Frees h h'
            ((Seq.evictCacheLoop Cell.size maxSize cs).1.map Cell.ptr) := by
  intro cs
  induction cs with
  | nil =>
      intro h A fuel n hr hl hfuel
      obtain ⟨k, rfl⟩ := Nat.exists_eq_succ_of_ne_zero
        (Nat.ne_of_gt (Nat.zero_lt_of_lt hfuel))
      obtain ⟨hdr, hh, hcs⟩ := hr.isList _ _ hl
      have hsize : hdr.dataSize = 0 := hcs.dataSize
      refine ⟨h, by simp [Heap.evictCacheLoop, hh, hsize, Seq.evictCacheLoop],
        ?_, ⟨by simp [Seq.evictCacheLoop], fun _ _ => rfl, rfl, Nat.le_refl _⟩⟩
      rwa [Seq.evictCacheLoop, ← hl, Function.update_eq_self]
  | cons c cs ih =>
      intro h A fuel n hr hl hfuel
      obtain ⟨k, rfl⟩ := Nat.exists_eq_succ_of_ne_zero
        (Nat.ne_of_gt (Nat.zero_lt_of_lt hfuel))
      obtain ⟨hdr, hh, hcs⟩ := hr.isList _ _ hl
      have hsize : hdr.dataSize = Seq.dataSize Cell.size (c :: cs) :=
        hcs.dataSize
      unfold Seq.evictCacheLoop
      split
      case isTrue hover =>
          obtain ⟨h₁, hpop, hr₁, hq₁⟩ := metricListPop_cons hr hl
          have hm₁ : h₁.metric c.ptr = some c.metric := by
            rw [hq₁.metric]
            exact hcs.contents c (List.mem_cons_self ..)
          obtain ⟨h₂, hfree, hr₂, hf₂⟩ :=
            metricFree_spec hr₁ hm₁ (not_listed_pop hr hl)
          obtain ⟨h₃, hrest, hr₃, hf₃⟩ := ih h₂ _ k (n + 1) hr₂
            (Function.update_self ..) (Nat.lt_of_succ_lt_succ hfuel)
          rw [Function.update_idem] at hr₃
          have hall := hq₁.frees.trans (hf₂.trans hf₃)
          refine ⟨h₃, ?_, hr₃, by simpa using hall⟩
          simp [Heap.evictCacheLoop, hh, hsize, hover, hpop, hfree, hrest,
            Nat.add_assoc, Nat.add_comm 1]
      case isFalse hfit =>
          refine ⟨h, by simp [Heap.evictCacheLoop, hh, hsize, hfit], ?_,
            ⟨by simp, fun _ _ => rfl, rfl, Nat.le_refl _⟩⟩
          rwa [← hl, Function.update_eq_self]

/-- `monikor_metric_store_evict_cache`: it ends, never pops from an empty
list, and returns how many metrics it freed. -/
theorem metricStoreEvictCache_spec (hr : Rep h A) (hl : A st.cache = some cs)
    (maxSize : Nat) :
    ∃ h', h.metricStoreEvictCache st maxSize
        = some ((Seq.evictCacheLoop Cell.size maxSize cs).1.length, h')
      ∧ Rep h' (Function.update A st.cache
          (some (Seq.evictCacheLoop Cell.size maxSize cs).2))
      ∧ Frees h h'
          ((Seq.evictCacheLoop Cell.size maxSize cs).1.map Cell.ptr) := by
  obtain ⟨h', hrun, hr', hf⟩ := evictCacheLoop_spec st maxSize cs h A
    (h.brk + 1) 0 hr hl (Nat.lt_succ_of_le (hr.length_le_brk hl))
  exact ⟨h', by simpa [Heap.metricStoreEvictCache] using hrun, hr', hf⟩

-- =================================================================== moves

/-- The lists other than `ls` are as they were. -/
def ListsKept (A A' : Lists) (ls : List Addr) : Prop :=
  ∀ l, l ∉ ls → A' l = A l

/-- `monikor_metric_store_cache`. -/
theorem metricStoreCache_spec (hr : Rep h A) (hne : st.cache ≠ st.current)
    (hcur : A st.current = some cur) (hcac : A st.cache = some cac) :
    ∃ h' A', h.metricStoreCache st = some h' ∧ Rep h' A'
      ∧ A' st.cache = some (cac ++ cur) ∧ A' st.current = some []
      ∧ ListsKept A A' [st.cache, st.current] ∧ Quiet h h' := by
  obtain ⟨h', hrun, hr', hq⟩ := metricListConcat_spec hr hne hcac hcur
  refine ⟨h', _, hrun, hr', ?_, Function.update_self .., ?_, hq⟩
  · rw [Function.update_of_ne hne, Function.update_self]
  · intro l hl
    simp only [List.mem_cons, List.not_mem_nil, or_false, not_or] at hl
    rw [Function.update_of_ne hl.2, Function.update_of_ne hl.1]

/-- `monikor_metric_store_uncache`: the cache goes to the front of the
current list. -/
theorem metricStoreUncache_spec (hr : Rep h A) (hne : st.cache ≠ st.current)
    (hcur : A st.current = some cur) (hcac : A st.cache = some cac) :
    ∃ h' A', h.metricStoreUncache st = some h' ∧ Rep h' A'
      ∧ A' st.current = some (cac ++ cur) ∧ A' st.cache = some []
      ∧ ListsKept A A' [st.cache, st.current] ∧ Quiet h h' := by
  obtain ⟨h₁, A₁, hrun₁, hr₁, hcac₁, hcur₁, hkept₁, hq₁⟩ :=
    metricStoreCache_spec hr hne hcur hcac
  obtain ⟨h₂, hrun₂, hr₂, hq₂⟩ :=
    metricListConcat_spec hr₁ (Ne.symm hne) hcur₁ hcac₁
  refine ⟨h₂, _, ?_, hr₂, ?_, Function.update_self .., ?_, hq₁.trans hq₂⟩
  · unfold Heap.metricStoreCache at hrun₁
    simp [Heap.metricStoreUncache, hrun₁, hrun₂]
  · rw [Function.update_of_ne (Ne.symm hne), Function.update_self,
      List.nil_append]
  · intro l hl
    have hl' := hl
    simp only [List.mem_cons, List.not_mem_nil, or_false, not_or] at hl'
    rw [Function.update_of_ne hl'.1, Function.update_of_ne hl'.2,
      hkept₁ l hl]

/-- `monikor_metric_store_flush_all`. -/
theorem metricStoreFlushAll_spec (hr : Rep h A)
    (hnd : [st.current, st.delta, st.cache].Nodup)
    (hcur : A st.current = some cur) (hdel : A st.delta = some del)
    (hcac : A st.cache = some cac) :
    ∃ h' A', h.metricStoreFlushAll st = some h' ∧ Rep h' A'
      ∧ A' st.current = some [] ∧ A' st.delta = some []
      ∧ A' st.cache = some []
      ∧ ListsKept A A' [st.current, st.delta, st.cache]
      ∧ Frees h h' ((cur ++ del ++ cac).map Cell.ptr) := by
  simp only [List.nodup_cons, List.mem_cons, List.not_mem_nil, or_false,
    not_or] at hnd
  obtain ⟨⟨hcd, hcc⟩, hdc, -⟩ := hnd
  obtain ⟨h₁, hrun₁, hr₁, hf₁⟩ := metricListEmpty_spec hr hcur
  have hdel₁ : Function.update A st.current (some []) st.delta = some del := by
    rw [Function.update_of_ne (Ne.symm hcd), hdel]
  obtain ⟨h₂, hrun₂, hr₂, hf₂⟩ := metricListEmpty_spec hr₁ hdel₁
  have hcac₂ : Function.update (Function.update A st.current (some []))
      st.delta (some []) st.cache = some cac := by
    rw [Function.update_of_ne (Ne.symm hdc),
      Function.update_of_ne (Ne.symm hcc), hcac]
  obtain ⟨h₃, hrun₃, hr₃, hf₃⟩ := metricListEmpty_spec hr₂ hcac₂
  refine ⟨h₃, _, ?_, hr₃, ?_, ?_, Function.update_self .., ?_, ?_⟩
  · simp [Heap.metricStoreFlushAll, hrun₁, hrun₂, hrun₃]
  · rw [Function.update_of_ne hcc, Function.update_of_ne hcd,
      Function.update_self]
  · rw [Function.update_of_ne hdc, Function.update_self]
  · intro l hl
    simp only [List.mem_cons, List.not_mem_nil, or_false, not_or] at hl
    rw [Function.update_of_ne hl.2.2, Function.update_of_ne hl.2.1,
      Function.update_of_ne hl.1]
  · simpa using (hf₁.trans hf₂).trans hf₃

-- =================================================================== lpush

/-- The code is -1 as soon as one push fails, and 0 otherwise. -/
theorem metricStoreLpush_code (l : List Metric) :
    ∀ s, (Seq.metricStoreLpush F s l).1
      = if (Seq.metricStoreLpush F s l).1 ≠ 0 then -1 else 0 := by
  induction l with
  | nil => exact fun s => rfl
  | cons m l ih =>
      intro s
      unfold Seq.metricStoreLpush
      by_cases hrc : (Seq.metricStorePush F s m).1 = 0
      · simpa [hrc] using ih (Seq.metricStorePush F s m).2
      · simp [hrc]

/-- One turn of the loop of `monikor_metric_store_lpush`: the first metric
of the list is popped and pushed to the store. -/
theorem lpush_turn {metrics : Addr} {c : Cell}
    (hnd : [st.current, st.delta, metrics].Nodup) (s : Store Metric)
    (hr : Rep h A) (ha : AllocsOk h) (hl : A metrics = some (c :: ms))
    (hcur : A st.current = some cur) (hdel : A st.delta = some del)
    (hsc : s.current = cur.map Cell.metric)
    (hsd : s.delta = del.map Cell.metric) :
    ∃ h₁ rc h₂ A₂ cur₂ del₂, h.metricListPop metrics = some (some c.ptr, h₁)
      ∧ Quiet h h₁
      ∧ PushReady h₁ (Function.update A metrics (some ms)) st s cur del c.ptr
        c.metric
      ∧ h₁.metricStorePush F st c.ptr = some (rc, h₂)
      ∧ Rep h₂ A₂ ∧ AllocsOk h₂ ∧ A₂ metrics = some ms
      ∧ A₂ st.current = some cur₂ ∧ A₂ st.delta = some del₂
      ∧ ListsKept A A₂ [st.current, st.delta, metrics]
      ∧ Seq.metricStorePush F s c.metric
        = (rc, { s with current := cur₂.map Cell.metric
                        delta := del₂.map Cell.metric }) := by
  simp only [List.nodup_cons, List.mem_cons, List.not_mem_nil, or_false,
    not_or] at hnd
  obtain ⟨⟨hcd, hcm⟩, hdm, -⟩ := hnd
  obtain ⟨hdr, -, hcs⟩ := hr.isList _ _ hl
  obtain ⟨h₁, hpop, hr₁, hq₁⟩ := metricListPop_cons hr hl
  have hp₁ : h₁.metric c.ptr = some c.metric := by
    rw [hq₁.metric]
    exact hcs.contents c (List.mem_cons_self ..)
  have hcur₁ : Function.update A metrics (some ms) st.current = some cur := by
    rw [Function.update_of_ne hcm, hcur]
  have hdel₁ : Function.update A metrics (some ms) st.delta = some del := by
    rw [Function.update_of_ne hdm, hdel]
  have hb : PushReady h₁ (Function.update A metrics (some ms)) st s cur del
      c.ptr c.metric :=
    ⟨hr₁, hq₁.ok ha, hcd, hcur₁, hdel₁, hsc, hsd, hp₁, not_listed_pop hr hl⟩
  obtain ⟨rc, h₂, cur₂, del₂, A₂, hpush, rfl, hr₂, hseq, hfr, -⟩ :=
    metricStorePush_spec (F := F) hb
  refine ⟨h₁, rc, h₂, _, cur₂, del₂, hpop, hq₁, hb, hpush, hr₂,
    hfr.allocs.trans (hq₁.ok ha), ?_, Function.update_self .., ?_, ?_, hseq⟩
  · rw [Function.update_of_ne (Ne.symm hcm),
      Function.update_of_ne (Ne.symm hdm), Function.update_self]
  · rw [Function.update_of_ne (Ne.symm hcd), Function.update_self]
  · intro l hl'
    simp only [List.mem_cons, List.not_mem_nil, or_false, not_or] at hl'
    rw [Function.update_of_ne hl'.1, Function.update_of_ne hl'.2.1,
      Function.update_of_ne hl'.2.2]

/-- The loop of `monikor_metric_store_lpush` pushes the metrics of the
list in order; `err` remembers a push that failed. -/
theorem lpushLoop_spec {metrics : Addr}
    (hnd : [st.current, st.delta, metrics].Nodup) :
    ∀ (ms : List Cell) (h : Heap) (A : Lists) (cur del : List Cell)
      (s : Store Metric) (fuel : Nat) (err : Int),
      Rep h A → AllocsOk h → A metrics = some ms →
      A st.current = some cur → A st.delta = some del →
      s.current = cur.map Cell.metric → s.delta = del.map Cell.metric →
      ms.length < fuel →
      ∃ h' A' cur' del', Heap.lpushLoop F fuel h st metrics err
          = some (if (Seq.metricStoreLpush F s (ms.map Cell.metric)).1 ≠ 0
              then -1 else err, h')
        ∧ Rep h' A' ∧ A' metrics = some [] ∧ A' st.current = some cur'
        ∧ A' st.delta = some del'
        ∧ ListsKept A A' [st.current, st.delta, metrics] ∧ AllocsOk h'
        ∧ (Seq.metricStoreLpush F s (ms.map Cell.metric)).2
          = { s with current := cur'.map Cell.metric
                     delta := del'.map Cell.metric } := by
  intro ms
  induction ms with
  | nil =>
      intro h A cur del s fuel err hr ha hl hcur hdel hsc hsd hfuel
      obtain ⟨k, rfl⟩ := Nat.exists_eq_succ_of_ne_zero
        (Nat.ne_of_gt (Nat.zero_lt_of_lt hfuel))
      refine ⟨h, A, cur, del, ?_, hr, hl, hcur, hdel, fun _ _ => rfl, ha, ?_⟩
      · simp [Heap.lpushLoop, metricListPop_nil hr hl, Seq.metricStoreLpush]
      · rw [← hsc, ← hsd]
        rfl
  | cons c ms ih =>
      intro h A cur del s fuel err hr ha hl hcur hdel hsc hsd hfuel
      obtain ⟨k, rfl⟩ := Nat.exists_eq_succ_of_ne_zero
        (Nat.ne_of_gt (Nat.zero_lt_of_lt hfuel))
      obtain ⟨h₁, rc, h₂, A₂, cur₂, del₂, hpop, -, -, hpush, hr₂, ha₂, hl₂,
        hcur₂, hdel₂, hkept₂, hseq⟩ :=
        lpush_turn (F := F) hnd s hr ha hl hcur hdel hsc hsd
      obtain ⟨h₃, A₃, cur₃, del₃, hrest, hr₃, hl₃, hcur₃, hdel₃, hkept₃, ha₃,
        hs₃⟩ := ih h₂ A₂ cur₂ del₂ (Seq.metricStorePush F s c.metric).2 k
          (if rc ≠ 0 then -1 else err) hr₂ ha₂ hl₂ hcur₂ hdel₂
          (by rw [hseq]) (by rw [hseq]) (Nat.lt_of_succ_lt_succ hfuel)
      refine ⟨h₃, A₃, cur₃, del₃, ?_, hr₃, hl₃, hcur₃, hdel₃, ?_, ha₃, ?_⟩
      · unfold Heap.lpushLoop
        simp only [hpop, hpush, Option.bind_eq_bind, Option.bind_some, hrest,
          List.map_cons, Seq.metricStoreLpush, hseq]
        by_cases hrc : rc = 0 <;> simp [hrc]
      · exact fun l hl' => (hkept₃ l hl').trans (hkept₂ l hl')
      · rw [hseq] at hs₃
        simp only [List.map_cons, Seq.metricStoreLpush, hseq]
        exact hs₃

/-- `monikor_metric_store_lpush` on pointers and on sequences; the list
given is left empty. -/
theorem metricStoreLpush_spec {metrics : Addr} (s : Store Metric)
    (hr : Rep h A) (ha : AllocsOk h)
    (hnd : [st.current, st.delta, metrics].Nodup)
    (hl : A metrics = some ms) (hcur : A st.current = some cur)
    (hdel : A st.delta = some del) (hsc : s.current = cur.map Cell.metric)
    (hsd : s.delta = del.map Cell.metric) :
    ∃ rc h' A' cur' del', h.metricStoreLpush F st metrics = some (rc, h')
      ∧ Rep h' A' ∧ A' metrics = some [] ∧ A' st.current = some cur'
      ∧ A' st.delta = some del'
      ∧ ListsKept A A' [st.current, st.delta, metrics] ∧ AllocsOk h'
      ∧ Seq.metricStoreLpush F s (ms.map Cell.metric)
        = (rc, { s with current := cur'.map Cell.metric
                        delta := del'.map Cell.metric }) := by
  obtain ⟨h', A', cur', del', hrun, hr', hl', hcur', hdel', hkept, hal, hs⟩ :=
    lpushLoop_spec (F := F) hnd ms h A cur del s (h.brk + 1) 0 hr ha hl hcur
      hdel hsc hsd (Nat.lt_succ_of_le (hr.length_le_brk hl))
  refine ⟨_, h', A', cur', del', hrun, hr', hl', hcur', hdel', hkept, hal,
    Prod.ext ?_ hs⟩
  exact metricStoreLpush_code (F := F) (ms.map Cell.metric) s

end Monikor
