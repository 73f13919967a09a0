/-
The send path on pointers is the send path on sequences: whatever
happens, send.c goes through without a fault and its lists hold what the
same events leave on sequences, metric by metric.

`Viewed A a q` relates an agent on pointers to one on sequences through
the cells `A` of its heap, as `Holds` does for a client of the lists;
headers that nothing refers to any more may remain (a batch that could
not be sent leaves one). `step_viewed` is the step lemma, and
`Viewed.view_eq` reads the sequences off the heap again.
-/
import Monikor.Lists.Proofs.Refine
import Monikor.Lists.Proofs.StoreMoves
import Monikor.Send.Proofs.Moves
import Monikor.Send.Run

namespace Monikor

open Linked Machine

variable {F : FloatOps} (updateInterval : Int) {h h' : Heap} {A A' : Lists}
  {a a' : Agent} {q : Seq.Agent Item} {l : Addr} {cs bs cur : List Cell}
  {st : StoreRef}

-- =================================================================== items

/-- The metric of a cell. -/
def Cell.item (c : Cell) : Item := (c.ptr, c.metric)

/-- The metrics of the list at `l`. -/
def itemsOf (A : Lists) (l : Addr) : Option (List Item) :=
  (A l).map (List.map Cell.item)

theorem itemsOf_some {items : List Item} (h : itemsOf A l = some items) :
    ∃ cs, A l = some cs ∧ cs.map Cell.item = items :=
  Option.map_eq_some_iff.mp h

theorem map_item_fst (cs : List Cell) :
    (cs.map Cell.item).map Prod.fst = cs.map Cell.ptr := by
  rw [List.map_map]
  rfl

theorem cellsSize_item (cs : List Cell) :
    cellsSize cs = Seq.dataSize Item.size (cs.map Cell.item) := by
  rw [Seq.dataSize_map]
  rfl

/-- The items of a list are live. -/
theorem Rep.item_live (hr : Rep h A) (hl : A l = some cs) {x : Item}
    (hx : x ∈ cs.map Cell.item) : h.metric x.1 = some x.2 := by
  obtain ⟨hdr, -, hcs⟩ := hr.isList l cs hl
  obtain ⟨c, hc, rfl⟩ := List.mem_map.mp hx
  exact hcs.contents c hc

/-- Walking a list reads its items back. -/
theorem itemsAt_eq (hr : Rep h A) {items : List Item}
    (hl : itemsOf A l = some items) : h.itemsAt l = some items := by
  obtain ⟨cs, hcs, rfl⟩ := itemsOf_some hl
  obtain ⟨hdr, hh, hlist⟩ := hr.isList l cs hcs
  have hwalk := walk_chain cs hdr.first hlist.chain
  have hcell : ∀ c ∈ cs, h.nodeItem c.node = some c.item := by
    intro c hc
    obtain ⟨n, hn, hnm⟩ := hlist.node_mem hc
    simp [Heap.nodeItem, hn, hnm, hlist.contents c hc, Cell.item]
  unfold Heap.itemsAt
  simp only [hh, hlist.size, Option.bind_eq_bind, Option.bind_some, hwalk]
  exact mapM_cells hcell

theorem mapM_itemsAt (hr : Rep h A) (ls : List Addr) :
    ∀ qs : List (List Item), ls.map (itemsOf A) = qs.map some →
      ls.mapM h.itemsAt = some qs := by
  induction ls with
  | nil =>
      intro qs hqs
      rw [List.map_eq_nil_iff.mp hqs.symm]
      rfl
  | cons l ls ih =>
      intro qs hqs
      cases qs with
      | nil => cases hqs
      | cons items qs =>
          simp only [List.map_cons, List.cons.injEq] at hqs
          simp [itemsAt_eq hr hqs.1, ih qs hqs.2]

-- ================================================================ releases

/-- The metrics `items` were freed, in that order. -/
structure Releases (h h' : Heap) (items : List Item) : Prop where
  freed : h'.freed = h.freed ++ items.map Prod.fst
  live : ∀ x ∈ items, h.metric x.1 = some x.2

theorem Releases.released_eq {items : List Item} (hf : Releases h h' items) :
    h.released h' = items := by
  unfold Heap.released
  rw [hf.freed, List.drop_left, List.filterMap_map]
  have hread : ∀ x ∈ items, ((fun p => (h.metric p).map fun m => (p, m))
      ∘ Prod.fst) x = some x := by
    intro x hx
    simp [hf.live x hx]
  rw [List.filterMap_congr hread, List.filterMap_some]

theorem Releases.of_quiet (hq : Quiet h h') : Releases h h' [] :=
  ⟨by simp [hq.freed], fun _ hx => absurd hx (List.not_mem_nil)⟩

-- ============================================================ the relation

/-- The headers an agent refers to. -/
def Agent.headers (a : Agent) : List Addr :=
  a.metrics.current :: a.metrics.delta :: a.metrics.cache :: a.inFlight

structure Viewed (A : Lists) (a : Agent) (q : Seq.Agent Item) : Prop where
  rep : Rep a.heap A
  headers : a.headers.Nodup
  current : itemsOf A a.metrics.current = some q.store.current
  delta : itemsOf A a.metrics.delta = some q.store.delta
  cache : itemsOf A a.metrics.cache = some q.store.cache
  inFlight : a.inFlight.map (itemsOf A) = q.inFlight.map some
  update : a.update = q.update

namespace Viewed

/-- The store's lists and the batches in flight, apart. -/
theorem headers_append (hv : Viewed A a q) :
    ([a.metrics.current, a.metrics.delta, a.metrics.cache]
      ++ a.inFlight).Nodup := hv.headers

/-- The store's three lists are different lists. -/
theorem store_nodup (hv : Viewed A a q) :
    [a.metrics.current, a.metrics.delta, a.metrics.cache].Nodup :=
  (List.nodup_append.mp hv.headers_append).1

theorem cache_ne (hv : Viewed A a q) : a.metrics.cache ≠ a.metrics.current := by
  have hnd := hv.store_nodup
  simp only [List.nodup_cons, List.mem_cons, List.not_mem_nil, or_false,
    not_or] at hnd
  exact Ne.symm hnd.1.2

theorem delta_ne (hv : Viewed A a q) :
    a.metrics.delta ≠ a.metrics.current
      ∧ a.metrics.delta ≠ a.metrics.cache := by
  have hnd := hv.store_nodup
  simp only [List.nodup_cons, List.mem_cons, List.not_mem_nil, or_false,
    not_or] at hnd
  exact ⟨Ne.symm hnd.1.1, hnd.2.1⟩

/-- A batch in flight is none of the store's lists. -/
theorem inFlight_ne (hv : Viewed A a q) (hl : l ∈ a.inFlight) :
    l ∉ [a.metrics.current, a.metrics.delta, a.metrics.cache] :=
  fun hm => (List.nodup_append.mp hv.headers_append).2.2 l hm l hl rfl

/-- The rule of one step: the store's lists are what is said, and the
batches in flight are as they were. -/
theorem setStore (hv : Viewed A a q) {heap : Heap} {s : Store Item}
    {u v : Update} (hr : Rep heap A')
    (hcur : itemsOf A' a.metrics.current = some s.current)
    (hdel : itemsOf A' a.metrics.delta = some s.delta)
    (hcac : itemsOf A' a.metrics.cache = some s.cache)
    (hkept : ∀ l ∈ a.inFlight, A' l = A l) (hu : u = v) :
    Viewed A' { a with heap, update := u }
      { q with store := s, update := v } where
  rep := hr
  headers := hv.headers
  current := hcur
  delta := hdel
  cache := hcac
  inFlight := by
    rw [← hv.inFlight]
    exact List.map_congr_left fun l hl => by rw [itemsOf, itemsOf, hkept l hl]
  update := hu

/-- Only allocation outcomes changed. -/
theorem withAllocs (hv : Viewed A a q) (allocs : Nat → Bool) :
    Viewed A { a with heap := { a.heap with allocs } } q :=
  { hv with rep := hv.rep.withAllocs allocs }

/-- A batch in flight, by its place. -/
theorem batch (hv : Viewed A a q) {i : Nat} (hi : a.inFlight[i]? = some l) :
    ∃ bs, A l = some bs ∧ q.inFlight[i]? = some (bs.map Cell.item) := by
  have hget := congrArg (·[i]?) hv.inFlight
  simp only [List.getElem?_map, hi, Option.map_some] at hget
  obtain ⟨items, hq, hitems⟩ := Option.map_eq_some_iff.mp hget.symm
  obtain ⟨bs, hbs, rfl⟩ := itemsOf_some hitems.symm
  exact ⟨bs, hbs, hq⟩

theorem batch_none (hv : Viewed A a q) {i : Nat}
    (hi : a.inFlight[i]? = none) : q.inFlight[i]? = none := by
  have hget := congrArg (·[i]?) hv.inFlight
  simp only [List.getElem?_map, hi, Option.map_none] at hget
  exact Option.map_eq_none_iff.mp hget.symm

/-- Taking a batch out of the requests in flight. -/
theorem eraseIdx (hv : Viewed A a q) (i : Nat) :
    Viewed A { a with inFlight := a.inFlight.eraseIdx i }
      { q with inFlight := q.inFlight.eraseIdx i } :=
  { hv with
    headers := hv.headers.sublist
      (((((List.eraseIdx_sublist a.inFlight i).cons_cons _).cons_cons
        _).cons_cons _))
    inFlight := by
      rw [← List.eraseIdx_map, hv.inFlight, List.eraseIdx_map] }

/-- The batch taken out is no longer referred to. -/
theorem not_mem_eraseIdx (hv : Viewed A a q) {i : Nat}
    (hi : a.inFlight[i]? = some l) : l ∉ a.inFlight.eraseIdx i := by
  obtain ⟨hlt, rfl⟩ := List.getElem?_eq_some_iff.mp hi
  have hnd : a.inFlight.Nodup :=
    hv.headers.sublist ((List.sublist_cons_self ..).trans
      ((List.sublist_cons_self ..).trans (List.sublist_cons_self ..)))
  rw [← hnd.erase_getElem i hlt, hnd.mem_erase_iff]
  exact fun hm => hm.1 rfl

/-- Reading the lists off the heap. -/
theorem view_eq (hv : Viewed A a q) : a.view = some q := by
  have hfl := mapM_itemsAt hv.rep a.inFlight q.inFlight hv.inFlight
  simp [Agent.view, itemsAt_eq hv.rep hv.current, itemsAt_eq hv.rep hv.delta,
    itemsAt_eq hv.rep hv.cache, hfl, hv.update]

end Viewed

-- =================================================================== push

/-- What a step on pointers comes to: the agent afterwards is the one on
sequences, the metrics released are the same, and no address is handed
out twice. -/
def StepsTo (a : Agent) (released : List Item) (q' : Seq.Agent Item)
    (a' : Agent) : Prop :=
  (∃ A', Viewed A' a' q') ∧ Releases a.heap a'.heap released
    ∧ a.heap.brk ≤ a'.heap.brk

/-- A plain metric goes to the back of the current list. -/
theorem push_viewed (hv : Viewed A a q) (ha : AllocsOk a.heap)
    (m : PlainMetric) :
    ∃ a', a.step F updateInterval (.push m)
        = some ([(a.heap.brk, m.metric)], a')
      ∧ StepsTo a [] { q with store := { q.store with
          current := q.store.current ++ [(a.heap.brk, m.metric)] } } a'
      ∧ a.heap.brk < a'.heap.brk := by
  obtain ⟨cs, hcur, hcs⟩ := itemsOf_some hv.current
  obtain ⟨hr₁, -⟩ := hv.rep.setMetric_bump m.metric
  let h₁ := (a.heap.setMetric a.heap.brk m.metric).bump
  have hp₁ : h₁.metric a.heap.brk = some m.metric := by simp [h₁]
  obtain ⟨h₂, hpush, hr₂, hq⟩ := metricListPush_spec hr₁
    (show AllocsOk h₁ from ha)
    hcur hp₁ hv.rep.not_listed_brk
  have hstore : h₁.metricStorePush F a.metrics a.heap.brk = some (0, h₂) := by
    simp [Heap.metricStorePush, Heap.metricStorePushComputed, m.not_delta,
      m.not_aggregate, hpush, h₁]
  have hbrk : a.heap.brk < h₂.brk := Nat.lt_of_lt_of_le
    (Nat.lt_succ_self _) hq.brk
  refine ⟨{ a with heap := h₂ }, ?_, ⟨⟨_, hv.setStore hr₂ ?_ ?_ ?_ ?_ hv.update⟩,
    ⟨by simp [hq.freed], fun x hx => absurd hx List.not_mem_nil⟩,
    Nat.le_of_lt hbrk⟩, hbrk⟩
  · simp [Agent.step, metricBuild_ok ha, hstore, h₁]
  · simp [itemsOf, ← hcs, Cell.item]
  · unfold itemsOf
    rw [Function.update_of_ne hv.delta_ne.1]
    exact hv.delta
  · unfold itemsOf
    rw [Function.update_of_ne hv.cache_ne]
    exact hv.cache
  · intro l hl
    exact Function.update_of_ne (fun e => hv.inFlight_ne hl (by simp [e])) ..

-- ==================================================== evictions and flushes

theorem evictCache_viewed (hv : Viewed A a q) (maxSize : Nat) :
    ∃ a', a.step F updateInterval (.evictCache maxSize) = some ([], a')
      ∧ StepsTo a (Seq.metricStoreEvictCache Item.size q.store maxSize).1
        { q with
          store := (Seq.metricStoreEvictCache Item.size q.store maxSize).2 }
        a' := by
  obtain ⟨cs, hcac, hcs⟩ := itemsOf_some hv.cache
  obtain ⟨h', hrun, hr', hf⟩ := metricStoreEvictCache_spec hv.rep hcac maxSize
  have hmap : Seq.evictCacheLoop Item.size maxSize q.store.cache
      = ((Seq.evictCacheLoop Cell.size maxSize cs).1.map Cell.item,
        (Seq.evictCacheLoop Cell.size maxSize cs).2.map Cell.item) := by
    rw [← hcs]
    exact Seq.evictCacheLoop_map Cell.item maxSize cs
  have hall := Seq.evictCacheLoop_append (w := Cell.size) maxSize cs
  refine ⟨{ a with heap := h' }, by simp [Agent.step, hrun],
    ⟨_, hv.setStore hr' ?_ ?_ ?_ ?_ hv.update⟩, ⟨?_, ?_⟩, hf.brk⟩
  · unfold itemsOf
    rw [Function.update_of_ne (Ne.symm hv.cache_ne)]
    exact hv.current
  · unfold itemsOf
    rw [Function.update_of_ne hv.delta_ne.2]
    exact hv.delta
  · simp [itemsOf, Seq.metricStoreEvictCache, hmap]
  · intro l hl
    exact Function.update_of_ne (fun e => hv.inFlight_ne hl (by simp [e])) ..
  · rw [hf.freed, Seq.metricStoreEvictCache, hmap, map_item_fst]
  · intro x hx
    unfold Seq.metricStoreEvictCache at hx
    rw [hmap] at hx
    apply hv.rep.item_live hcac
    rw [← hall, List.map_append]
    exact List.mem_append_left _ hx

theorem flushAll_viewed (hv : Viewed A a q) {u v : Update} (hu : u = v) :
    ∃ h' A', a.heap.metricStoreFlushAll a.metrics = some h'
      ∧ Viewed A' { a with heap := h', update := u }
        { q with store := Seq.metricStoreFlushAll q.store, update := v }
      ∧ ListsKept A A' [a.metrics.current, a.metrics.delta, a.metrics.cache]
      ∧ Releases a.heap h' (Seq.metricStoreElems q.store)
      ∧ a.heap.brk ≤ h'.brk := by
  obtain ⟨cur, hcur, hcs⟩ := itemsOf_some hv.current
  obtain ⟨del, hdel, hds⟩ := itemsOf_some hv.delta
  obtain ⟨cac, hcac, hks⟩ := itemsOf_some hv.cache
  obtain ⟨h', A', hrun, hr', hcur', hdel', hcac', hkept, hf⟩ :=
    metricStoreFlushAll_spec hv.rep hv.store_nodup hcur hdel hcac
  have hitems : Seq.metricStoreElems q.store
      = (cur ++ del ++ cac).map Cell.item := by
    simp [Seq.metricStoreElems, ← hcs, ← hds, ← hks]
  refine ⟨h', A', hrun, hv.setStore hr' ?_ ?_ ?_ ?_ hu, hkept, ⟨?_, ?_⟩,
    hf.brk⟩
  · simp [itemsOf, hcur', Seq.metricStoreFlushAll]
  · simp [itemsOf, hdel', Seq.metricStoreFlushAll]
  · simp [itemsOf, hcac', Seq.metricStoreFlushAll]
  · exact fun l hl => hkept l (hv.inFlight_ne hl)
  · rw [hf.freed, hitems, map_item_fst]
  · intro x hx
    rw [hitems, List.map_append, List.map_append] at hx
    simp only [List.mem_append] at hx
    rcases hx with (hx | hx) | hx
    · exact hv.rep.item_live hcur hx
    · exact hv.rep.item_live hdel hx
    · exact hv.rep.item_live hcac hx

-- =============================================================== responses

/-- Freeing the batch of a request that is done. -/
theorem freeBatch_viewed (hv : Viewed A a q) (hl : A l = some bs)
    (hnew : l ∉ a.headers) :
    ∃ h', a.heap.metricListFree l = some h'
      ∧ Viewed (Function.update A l none) { a with heap := h' } q
      ∧ Frees a.heap h' (bs.map Cell.ptr) := by
  obtain ⟨h', hrun, hr', hf⟩ := metricListFree_spec hv.rep hl
  have hkept : ∀ k ∈ a.headers, Function.update A l none k = A k :=
    fun k hk => Function.update_of_ne (fun e : k = l => hnew (e ▸ hk)) ..
  refine ⟨h', hrun, hv.setStore hr' ?_ ?_ ?_ ?_ hv.update, hf⟩
  · unfold itemsOf
    rw [hkept _ (by simp [Agent.headers])]
    exact hv.current
  · unfold itemsOf
    rw [hkept _ (by simp [Agent.headers])]
    exact hv.delta
  · unfold itemsOf
    rw [hkept _ (by simp [Agent.headers])]
    exact hv.cache
  · exact fun k hk => hkept k (by simp [Agent.headers, hk])

/-- A failed batch goes to the back of the cache. -/
theorem cacheBatch_viewed (hv : Viewed A a q) (hl : A l = some bs)
    (hnew : l ∉ a.headers) {u v : Update} (hu : u = v) :
    ∃ h' A', a.heap.metricListConcat a.metrics.cache l = some h'
      ∧ Viewed A' { a with heap := h', update := u }
        { q with
          store := { q.store with
            cache := q.store.cache ++ bs.map Cell.item }
          update := v }
      ∧ A' l = some [] ∧ Quiet a.heap h' := by
  obtain ⟨cac, hcac, hks⟩ := itemsOf_some hv.cache
  have hne : ∀ k ∈ a.headers, k ≠ l := fun k hk e => hnew (e ▸ hk)
  obtain ⟨h', hrun, hr', hq⟩ := metricListConcat_spec hv.rep
    (hne a.metrics.cache (by simp [Agent.headers])) hcac hl
  have hkept : ∀ k ∈ a.headers, k ≠ a.metrics.cache →
      Function.update (Function.update A a.metrics.cache (some (cac ++ bs))) l
        (some []) k = A k := by
    intro k hk hkc
    rw [Function.update_of_ne (hne k hk), Function.update_of_ne hkc]
  refine ⟨h', _, hrun, hv.setStore hr' ?_ ?_ ?_ ?_ hu, Function.update_self ..,
    hq⟩
  · unfold itemsOf
    rw [hkept _ (by simp [Agent.headers]) (Ne.symm hv.cache_ne)]
    exact hv.current
  · unfold itemsOf
    rw [hkept _ (by simp [Agent.headers]) hv.delta_ne.2]
    exact hv.delta
  · unfold itemsOf
    rw [Function.update_of_ne (hne _ (by simp [Agent.headers])),
      Function.update_self]
    simp [← hks]
  · exact fun k hk => hkept k (by simp [Agent.headers, hk])
      fun e => hv.inFlight_ne hk (by simp [e])

theorem updateBackoff_viewed (hv : Viewed A a q) :
    ∃ a' A', a.updateBackoff updateInterval = some a'
      ∧ Viewed A' a' (Seq.updateBackoff updateInterval q).2
      ∧ a'.headers = a.headers
      ∧ ListsKept A A' [a.metrics.current, a.metrics.delta, a.metrics.cache]
      ∧ Releases a.heap a'.heap (Seq.updateBackoff updateInterval q).1
      ∧ a.heap.brk ≤ a'.heap.brk := by
  have hback : a.update.backoff updateInterval
      = q.update.backoff updateInterval := by rw [hv.update]
  unfold Agent.updateBackoff Seq.updateBackoff
  rw [hv.update]
  by_cases hcount : q.update.backoffCount > 0
  · obtain ⟨h₁, A₁, hrun₁, hv₁, hkept₁, hf₁, hb₁⟩ := flushAll_viewed hv hback
    rw [hback] at hv₁
    simp only [if_pos hcount, hrun₁, Option.bind_eq_bind, Option.bind_some]
    exact ⟨_, A₁, rfl, hv₁, rfl, hkept₁, hf₁, hb₁⟩
  · have hv₁ : Viewed A { a with update := q.update.backoff updateInterval }
        { q with update := q.update.backoff updateInterval } :=
      { hv with update := rfl }
    simp only [if_neg hcount, Option.bind_eq_bind, Option.bind_some]
    exact ⟨_, A, rfl, hv₁, rfl, fun _ _ => rfl,
      ⟨by simp, fun x hx => absurd hx List.not_mem_nil⟩, Nat.le_refl _⟩

theorem handleServerResponse_viewed (hv : Viewed A a q) (hl : A l = some bs)
    (hnew : l ∉ a.headers) (result : Nat) (httpCode : Int) :
    ∃ a', a.handleServerResponse updateInterval l result httpCode = some a'
      ∧ StepsTo a
        (Seq.handleServerResponse updateInterval q (bs.map Cell.item) result
          httpCode).1
        (Seq.handleServerResponse updateInterval q (bs.map Cell.item) result
          httpCode).2 a' := by
  have hlive : ∀ x ∈ bs.map Cell.item, a.heap.metric x.1 = some x.2 :=
    fun x hx => hv.rep.item_live hl hx
  unfold Agent.handleServerResponse Seq.handleServerResponse
  by_cases hfail : result ≠ curleOk ∨ httpCode ≥ 500
  · -- back to the cache
    have hack : ¬ (result = curleOk ∧ httpCode = 200) := by
      intro hok
      obtain ⟨hr, hc⟩ := hok
      rcases hfail with hf | hf
      · exact hf hr
      · omega
    obtain ⟨h₁, A₁, hrun₁, hv₁, hl₁, hq₁⟩ := cacheBatch_viewed hv hl hnew
      (congrArg Update.success hv.update)
    obtain ⟨h₂, hrun₂, hv₂, hf₂⟩ := freeBatch_viewed hv₁ hl₁ hnew
    simp only [if_neg hack, if_pos hfail, hrun₁, Option.bind_eq_bind,
      Option.bind_some, hrun₂]
    exact ⟨_, rfl, ⟨_, hv₂⟩, ⟨by simp [hf₂.freed, hq₁.freed],
      fun x hx => absurd hx List.not_mem_nil⟩, Nat.le_trans hq₁.brk hf₂.brk⟩
  · simp only [if_neg hfail]
    by_cases hack : result = curleOk ∧ httpCode = 200
    · -- acknowledged
      have hsmall : ¬ httpCode ≥ 400 := by omega
      have hv₁ : Viewed A { a with update := a.update.success }
          { q with update := q.update.success } :=
        { hv with update := congrArg Update.success hv.update }
      obtain ⟨h₂, hrun₂, hv₂, hf₂⟩ := freeBatch_viewed hv₁ hl hnew
      simp only [if_pos hack, if_neg hsmall, Option.bind_eq_bind,
        Option.bind_some, hrun₂]
      exact ⟨_, rfl, ⟨_, hv₂⟩, ⟨by rw [hf₂.freed, map_item_fst], hlive⟩,
        hf₂.brk⟩
    · simp only [if_neg hack]
      by_cases hcode : httpCode ≥ 400
      case neg =>
          -- dropped, nothing else
          obtain ⟨h₂, hrun₂, hv₂, hf₂⟩ := freeBatch_viewed hv hl hnew
          simp only [if_neg hcode, Option.bind_eq_bind, Option.bind_some,
            hrun₂]
          exact ⟨_, rfl, ⟨_, hv₂⟩, ⟨by rw [hf₂.freed, map_item_fst], hlive⟩,
            hf₂.brk⟩
      -- dropped, after whatever a backoff flushes
      obtain ⟨a₁, A₁, hrun₁, hv₁, hheaders, hkept₁, hf₁, hb₁⟩ :=
        updateBackoff_viewed updateInterval hv
      have hl₁ : A₁ l = some bs := by
        rw [hkept₁ l fun hm => hnew ?_, hl]
        simp only [List.mem_cons, List.not_mem_nil, or_false] at hm
        rcases hm with rfl | rfl | rfl <;> simp [Agent.headers]
      obtain ⟨h₂, hrun₂, hv₂, hf₂⟩ := freeBatch_viewed hv₁ hl₁
        (hheaders ▸ hnew)
      simp only [if_pos hcode, hrun₁, Option.bind_eq_bind, Option.bind_some,
        hrun₂]
      refine ⟨_, rfl, ⟨_, hv₂⟩, ⟨?_, ?_⟩, Nat.le_trans hb₁ hf₂.brk⟩
      · rw [hf₂.freed, hf₁.freed, List.map_append, map_item_fst,
          List.append_assoc]
      · intro x hx
        rcases List.mem_append.mp hx with hx | hx
        · exact hf₁.live x hx
        · exact hlive x hx

-- ================================================================ send_all

/-- The loop of `monikor_send_all_metrics` moves the batch over, metric by
metric. -/
theorem fillBatchLoop_spec (hne : st.current ≠ l) (maxSendSize : Nat) :
    ∀ (cur : List Cell) (h : Heap) (A : Lists) (bs : List Cell) (fuel : Nat),
      Rep h A → AllocsOk h → A st.current = some cur → A l = some bs →
      cur.length < fuel →
      ∃ h' A' cur' bs', Agent.fillBatchLoop fuel h st l maxSendSize = some h'
        ∧ Rep h' A' ∧ A' st.current = some cur' ∧ A' l = some bs'
        ∧ ListsKept A A' [st.current, l] ∧ Quiet h h'
        ∧ Seq.fillBatch Item.size maxSendSize (bs.map Cell.item)
            (cur.map Cell.item) = (bs'.map Cell.item, cur'.map Cell.item) := by
  intro cur
  induction cur with
  | nil =>
      intro h A bs fuel hr ha hcur hl hfuel
      obtain ⟨k, rfl⟩ := Nat.exists_eq_succ_of_ne_zero
        (Nat.ne_of_gt (Nat.zero_lt_of_lt hfuel))
      obtain ⟨hc, hhc, hcs⟩ := hr.isList _ _ hcur
      obtain ⟨hb, hhb, -⟩ := hr.isList _ _ hl
      have hsize : hc.size = 0 := hcs.size
      exact ⟨h, A, [], bs, by simp [Agent.fillBatchLoop, hhc, hhb, hsize], hr,
        hcur, hl, fun _ _ => rfl, ⟨rfl, rfl, rfl, Nat.le_refl _⟩, rfl⟩
  | cons c cur ih =>
      intro h A bs fuel hr ha hcur hl hfuel
      obtain ⟨k, rfl⟩ := Nat.exists_eq_succ_of_ne_zero
        (Nat.ne_of_gt (Nat.zero_lt_of_lt hfuel))
      obtain ⟨hc, hhc, hcs⟩ := hr.isList _ _ hcur
      obtain ⟨hb, hhb, hbs⟩ := hr.isList _ _ hl
      have hsize : hc.size ≠ 0 := by simp [hcs.size]
      have hdata : hb.dataSize = Seq.dataSize Item.size (bs.map Cell.item) :=
        hbs.dataSize.trans (cellsSize_item bs)
      rw [List.map_cons, Seq.fillBatch]
      by_cases hroom : Seq.dataSize Item.size (bs.map Cell.item) < maxSendSize
      case neg =>
          refine ⟨h, A, c :: cur, bs, ?_, hr, hcur, hl, fun _ _ => rfl,
            ⟨rfl, rfl, rfl, Nat.le_refl _⟩, by simp [hroom]⟩
          simp [Agent.fillBatchLoop, hhc, hhb, hdata, hroom]
      -- one metric from the front of the current list to the batch
      obtain ⟨h₁, hpop, hr₁, hq₁⟩ := metricListPop_cons hr hcur
      have hp₁ : h₁.metric c.ptr = some c.metric := by
        rw [hq₁.metric]
        exact hcs.contents c (List.mem_cons_self ..)
      have hl₁ : Function.update A st.current (some cur) l = some bs := by
        rw [Function.update_of_ne (Ne.symm hne), hl]
      obtain ⟨h₂, hpush, hr₂, hq₂⟩ := metricListPush_spec hr₁ (hq₁.ok ha) hl₁
        hp₁ (not_listed_pop hr hcur)
      have hcur₂ : Function.update (Function.update A st.current (some cur)) l
          (some (bs ++ [⟨h₁.brk, c.ptr, c.metric⟩])) st.current = some cur := by
        rw [Function.update_of_ne hne, Function.update_self]
      obtain ⟨h₃, A₃, cur₃, bs₃, hrun, hr₃, hcur₃, hl₃, hkept, hq₃, hseq⟩ :=
        ih h₂ _ _ k hr₂ (hq₂.ok (hq₁.ok ha)) hcur₂ (Function.update_self ..)
          (Nat.lt_of_succ_lt_succ hfuel)
      refine ⟨h₃, A₃, cur₃, bs₃, ?_, hr₃, hcur₃, hl₃, ?_,
        (hq₁.trans hq₂).trans hq₃, ?_⟩
      · unfold Agent.fillBatchLoop
        simp only [hhc, hhb, hdata, hroom, hpop, hpush, Option.bind_eq_bind,
          Option.bind_some, ne_eq, hsize, not_false_iff, and_self, if_true,
          hrun]
      · intro k' hk
        have hk' := hk
        simp only [List.mem_cons, List.not_mem_nil, or_false, not_or] at hk'
        rw [hkept k' hk, Function.update_of_ne hk'.2,
          Function.update_of_ne hk'.1]
      · rw [if_pos hroom, ← hseq, List.map_append]
        rfl

/-- The headers an agent refers to lead to lists. -/
theorem Viewed.header_some (hv : Viewed A a q) (hl : l ∈ a.headers) :
    ∃ cs, A l = some cs := by
  unfold Agent.headers at hl
  rw [List.mem_cons, List.mem_cons, List.mem_cons] at hl
  rcases hl with rfl | rfl | rfl | hl
  · exact (itemsOf_some hv.current).imp fun _ h => h.1
  · exact (itemsOf_some hv.delta).imp fun _ h => h.1
  · exact (itemsOf_some hv.cache).imp fun _ h => h.1
  · obtain ⟨i, hi⟩ := List.getElem?_of_mem hl
    exact (hv.batch hi).imp fun _ h => h.1

/-- A batch handed to a request. -/
theorem Viewed.addBatch (hv : Viewed A a q) (hl : A l = some bs)
    (hnew : l ∉ a.headers) :
    Viewed A { a with inFlight := a.inFlight ++ [l] }
      { q with inFlight := q.inFlight ++ [bs.map Cell.item] } :=
  { hv with
    headers := List.Nodup.append hv.headers (List.nodup_singleton l)
      (by simpa using hnew)
    inFlight := by simp [hv.inFlight, itemsOf, hl] }

theorem metricStoreCache_viewed (hv : Viewed A a q) :
    ∃ h' A', a.heap.metricStoreCache a.metrics = some h'
      ∧ Viewed A' { a with heap := h' }
        { q with store := Seq.metricStoreCache q.store }
      ∧ ListsKept A A' [a.metrics.cache, a.metrics.current]
      ∧ Quiet a.heap h' := by
  obtain ⟨cur, hcur, hcs⟩ := itemsOf_some hv.current
  obtain ⟨cac, hcac, hks⟩ := itemsOf_some hv.cache
  obtain ⟨h', A', hrun, hr', hcac', hcur', hkept, hq⟩ :=
    metricStoreCache_spec hv.rep hv.cache_ne hcur hcac
  refine ⟨h', A', hrun, hv.setStore hr' ?_ ?_ ?_ ?_ hv.update, hkept, hq⟩
  · simp [itemsOf, hcur', Seq.metricStoreCache, Seq.metricListConcat]
  · unfold itemsOf
    rw [hkept _ (by simp [hv.delta_ne.1, hv.delta_ne.2])]
    exact hv.delta
  · simp [itemsOf, hcac', Seq.metricStoreCache, Seq.metricListConcat, ← hcs,
      ← hks]
  · intro l hl
    have hne := hv.inFlight_ne hl
    simp only [List.mem_cons, List.not_mem_nil, or_false, not_or] at hne
    exact hkept l (by simp [hne])

/-- What `monikor_send_all_metrics` does before it sends: the new list
holds the batch, and the store the rest. -/
theorem takeBatch_viewed (hv : Viewed A a q) (ha : AllocsOk a.heap)
    (maxSendSize : Nat) :
    ∃ h₁ h₂ h₃ A' bs, a.heap.metricListNew = (some a.heap.brk, h₁)
      ∧ h₁.metricStoreUncache a.metrics = some h₂
      ∧ Agent.fillBatchLoop (h₂.brk + 1) h₂ a.metrics a.heap.brk maxSendSize
        = some h₃
      ∧ Viewed A' { a with heap := h₃ }
        { q with store := (Seq.takeBatch Item.size maxSendSize q.store).2 }
      ∧ A' a.heap.brk = some bs
      ∧ bs.map Cell.item = (Seq.takeBatch Item.size maxSendSize q.store).1
      ∧ a.heap.brk ∉ a.headers ∧ Quiet a.heap h₃ := by
  obtain ⟨cur, hcur, hcs⟩ := itemsOf_some hv.current
  obtain ⟨cac, hcac, hks⟩ := itemsOf_some hv.cache
  have hnew : a.heap.brk ∉ a.headers := fun hm => by
    obtain ⟨cs, hl⟩ := hv.header_some hm
    exact Nat.lt_irrefl _ (hv.rep.list_lt hl)
  have hne : ∀ k ∈ a.headers, k ≠ a.heap.brk := fun k hk e => hnew (e ▸ hk)
  have hcne := hne a.metrics.current (by simp [Agent.headers])
  obtain ⟨h₁, hrun₁, hr₁, hq₁⟩ := metricListNew_spec hv.rep ha
  have hold : ∀ k ∈ a.headers,
      Function.update A a.heap.brk (some []) k = A k :=
    fun k hk => Function.update_of_ne (hne k hk) ..
  obtain ⟨h₂, A₂, hrun₂, hr₂, hcur₂, hcac₂, hkept₂, hq₂⟩ :=
    metricStoreUncache_spec hr₁ hv.cache_ne
      (by rw [hold _ (by simp [Agent.headers]), hcur])
      (by rw [hold _ (by simp [Agent.headers]), hcac])
  have hl₂ : A₂ a.heap.brk = some [] := by
    rw [hkept₂ a.heap.brk, Function.update_self]
    simp only [List.mem_cons, List.not_mem_nil, or_false, not_or]
    exact ⟨Ne.symm (hne _ (by simp [Agent.headers])), Ne.symm hcne⟩
  obtain ⟨h₃, A₃, cur₃, bs, hrun₃, hr₃, hcur₃, hl₃, hkept₃, hq₃, hseq⟩ :=
    fillBatchLoop_spec hcne maxSendSize _ h₂ A₂ [] (h₂.brk + 1) hr₂
      (hq₂.ok (hq₁.ok ha)) hcur₂ hl₂ (Nat.lt_succ_of_le (hr₂.length_le_brk hcur₂))
  have htake : Seq.takeBatch Item.size maxSendSize q.store
      = (bs.map Cell.item, { q.store with
          current := cur₃.map Cell.item, cache := [] }) := by
    rw [List.map_nil, List.map_append, hks, hcs] at hseq
    unfold Seq.takeBatch
    simp only [Seq.metricStoreUncache, Seq.metricStoreCache,
      Seq.metricListConcat, List.nil_append, hseq]
  have hkept : ∀ k ∈ a.headers, k ≠ a.metrics.current → k ≠ a.metrics.cache →
      A₃ k = A k := by
    intro k hk hkc hkk
    rw [hkept₃ k (by simp [hkc, hne k hk]), hkept₂ k (by simp [hkc, hkk]),
      hold k hk]
  refine ⟨h₁, h₂, h₃, A₃, bs, hrun₁, hrun₂, hrun₃,
    hv.setStore hr₃ ?_ ?_ ?_ ?_ hv.update, hl₃, by rw [htake], hnew,
    (hq₁.trans hq₂).trans hq₃⟩
  · unfold itemsOf
    rw [hcur₃, htake]
    rfl
  · unfold itemsOf
    rw [hkept _ (by simp [Agent.headers]) hv.delta_ne.1
      hv.delta_ne.2, htake]
    exact hv.delta
  · unfold itemsOf
    have hkept : A₃ a.metrics.cache = A₂ a.metrics.cache := by
      apply hkept₃
      simp only [List.mem_cons, List.not_mem_nil, or_false, not_or]
      exact ⟨hv.cache_ne, hne _ (by simp [Agent.headers])⟩
    rw [hkept, hcac₂, htake]
    rfl
  · intro k hk
    have hkne := hv.inFlight_ne hk
    simp only [List.mem_cons, List.not_mem_nil, or_false, not_or] at hkne
    exact hkept k (by simp [Agent.headers, hk]) hkne.1 hkne.2.2

/-- A list is empty when its header says so. -/
theorem size_eq_zero (hr : Rep h A) {hdr : MetricList} {items : List Item}
    (hh : h.list l = some hdr) (hl : itemsOf A l = some items) :
    hdr.size = 0 ↔ items = [] := by
  obtain ⟨cs, hcs, rfl⟩ := itemsOf_some hl
  obtain ⟨hdr', hh', hlist⟩ := hr.isList l cs hcs
  rw [hh] at hh'
  cases hh'
  rw [hlist.size, List.length_eq_zero_iff, List.map_eq_nil_iff]

theorem sendAllMetrics_viewed (hv : Viewed A a q) (maxSendSize : Nat)
    (listOk sendOk : Bool)
    (ha : a.heap.allocs
      = (AgentOp.sendAll (β := PlainMetric) maxSendSize listOk sendOk).allocs) :
    ∃ a', a.sendAllMetrics maxSendSize sendOk = some a'
      ∧ StepsTo a []
        (Seq.sendAllMetrics Item.size q maxSendSize listOk sendOk) a' := by
  obtain ⟨cur, hcur, -⟩ := itemsOf_some hv.current
  obtain ⟨cac, hcac, -⟩ := itemsOf_some hv.cache
  obtain ⟨hc, hhc, -⟩ := hv.rep.isList _ _ hcur
  obtain ⟨hk, hhk, -⟩ := hv.rep.isList _ _ hcac
  have hempty : (hc.size = 0 ∧ hk.size = 0)
      ↔ (q.store.current = [] ∧ q.store.cache = []) := by
    rw [size_eq_zero hv.rep hhc hv.current, size_eq_zero hv.rep hhk hv.cache]
  unfold Agent.sendAllMetrics Seq.sendAllMetrics
  simp only [hhc, hhk, Option.bind_eq_bind, Option.bind_some, hempty]
  by_cases hnone : q.store.current = [] ∧ q.store.cache = []
  · simp only [if_pos hnone]
    exact ⟨a, rfl, ⟨A, hv⟩, ⟨by simp, fun x hx => absurd hx List.not_mem_nil⟩,
      Nat.le_refl _⟩
  simp only [if_neg hnone]
  cases listOk with
  | false =>
      -- no memory for the batch: everything waits in the cache
      have hnew : a.heap.metricListNew
          = (none, { a.heap with allocs := fun n => a.heap.allocs (n + 1) }) := by
        simp [Heap.metricListNew, Heap.malloc, ha, AgentOp.allocs]
      obtain ⟨h', A', hrun, hv', -, hq⟩ := metricStoreCache_viewed
        (hv.withAllocs fun n => a.heap.allocs (n + 1))
      simp only [hnew, hrun, Option.bind_some, if_true]
      exact ⟨_, rfl, ⟨A', hv'⟩, ⟨by simp [hq.freed],
        fun x hx => absurd hx List.not_mem_nil⟩, hq.brk⟩
  | true =>
      have hok : AllocsOk a.heap := by
        unfold AllocsOk
        rw [ha]
        funext n
        cases n <;> rfl
      obtain ⟨h₁, h₂, h₃, A₃, bs, hrun₁, hrun₂, hrun₃, hv₃, hl₃, hbs, hnew,
        hq₃⟩ := takeBatch_viewed hv hok maxSendSize
      simp only [hrun₁, hrun₂, hrun₃, Option.bind_some, Bool.true_eq_false,
        if_false]
      cases sendOk with
      | true =>
          obtain ⟨h₄, A₄, hrun₄, hv₄, hkept₄, hq₄⟩ :=
            metricStoreCache_viewed hv₃
          have hl₄ : A₄ a.heap.brk = some bs := by
            rw [hkept₄ _ fun hm => hnew ?_, hl₃]
            simp only [List.mem_cons, List.not_mem_nil, or_false] at hm
            rcases hm with hm | hm <;> rw [hm] <;> simp [Agent.headers]
          have hv₅ := hv₄.addBatch hl₄ hnew
          rw [hbs] at hv₅
          simp only [if_true, hrun₄, Option.bind_some]
          exact ⟨_, rfl, ⟨A₄, hv₅⟩, .of_quiet (hq₃.trans hq₄),
            (hq₃.trans hq₄).brk⟩
      | false =>
          obtain ⟨h₄, A₄, hrun₄, hv₄, -, hq₄⟩ :=
            cacheBatch_viewed hv₃ hl₃ hnew hv.update
          obtain ⟨h₅, A₅, hrun₅, hv₅, -, hq₅⟩ := metricStoreCache_viewed hv₄
          rw [hbs] at hv₅
          simp only [Bool.false_eq_true, if_false, hrun₄, hrun₅,
            Option.bind_some]
          exact ⟨_, rfl, ⟨A₅, hv₅⟩, .of_quiet ((hq₃.trans hq₄).trans hq₅),
            ((hq₃.trans hq₄).trans hq₅).brk⟩

-- ============================================================== one step

/-- A step on pointers is the same step on sequences; a metric it pushes
is at an address no metric had. -/
theorem step_viewed (hv : Viewed A a q) (op : AgentOp PlainMetric)
    (ha : a.heap.allocs = op.allocs) :
    ∃ a', a.step F updateInterval op
        = some ((q.step Item.size updateInterval (op.placed a.heap.brk)).1.1, a')
      ∧ StepsTo a (q.step Item.size updateInterval (op.placed a.heap.brk)).1.2
        (q.step Item.size updateInterval (op.placed a.heap.brk)).2 a'
      ∧ ∀ x ∈ (q.step Item.size updateInterval (op.placed a.heap.brk)).1.1,
          x.1 = a.heap.brk ∧ x.1 < a'.heap.brk := by
  have hnone : ∀ (a' : Agent) (x : Item), x ∈ ([] : List Item) →
      x.1 = a.heap.brk ∧ x.1 < a'.heap.brk :=
    fun _ x hx => absurd hx List.not_mem_nil
  cases op with
  | push m =>
      have hok : AllocsOk a.heap := ha
      obtain ⟨a', hrun, hsteps, hlt⟩ := push_viewed updateInterval hv hok m
      refine ⟨a', hrun, hsteps, fun x hx => ?_⟩
      rw [List.mem_singleton.mp hx]
      exact ⟨rfl, hlt⟩
  | sendAll maxSendSize listOk sendOk =>
      obtain ⟨a', hrun, hsteps⟩ :=
        sendAllMetrics_viewed hv maxSendSize listOk sendOk ha
      exact ⟨a', by simp [Agent.step, hrun, AgentOp.placed, Seq.Agent.step], hsteps,
        hnone a'⟩
  | respond i result httpCode =>
      cases hi : a.inFlight[i]? with
      | none =>
          have hq := hv.batch_none hi
          refine ⟨a, ?_, ?_, ?_⟩
          · simp [Agent.step, hi, AgentOp.placed, Seq.Agent.step, hq]
          · unfold AgentOp.placed
            simp only [Seq.Agent.step, hq]
            exact ⟨⟨A, hv⟩, ⟨by simp, fun x hx => absurd hx List.not_mem_nil⟩,
              Nat.le_refl _⟩
          · simpa only [AgentOp.placed, Seq.Agent.step, hq] using hnone a
      | some l =>
          obtain ⟨bs, hl, hq⟩ := hv.batch hi
          have hnew : l ∉ Agent.headers
              { a with inFlight := a.inFlight.eraseIdx i } := by
            have hne := hv.inFlight_ne (List.mem_of_getElem? hi)
            have hout := hv.not_mem_eraseIdx hi
            simp only [List.mem_cons, List.not_mem_nil, or_false,
              not_or] at hne
            simp [Agent.headers, hne, hout]
          obtain ⟨a', hrun, hsteps⟩ := handleServerResponse_viewed
            updateInterval (hv.eraseIdx i) hl hnew result httpCode
          refine ⟨a', ?_, ?_, ?_⟩
          · simp [Agent.step, hi, hrun, AgentOp.placed, Seq.Agent.step, hq]
          · unfold AgentOp.placed
            simp only [Seq.Agent.step, hq]
            exact hsteps
          · simpa only [AgentOp.placed, Seq.Agent.step, hq] using hnone a'
  | evictCache maxSize =>
      obtain ⟨a', hrun, hsteps⟩ := evictCache_viewed (F := F) updateInterval hv
        maxSize
      exact ⟨a', hrun, hsteps, hnone a'⟩
  | flushAll =>
      obtain ⟨h', A', hrun, hv', -, hf, hb⟩ := flushAll_viewed hv hv.update
      exact ⟨{ a with heap := h' }, by simp [Agent.step, hrun, AgentOp.placed,
        Seq.Agent.step], ⟨⟨A', hv'⟩, hf, hb⟩, hnone _⟩

-- ================================================================== runs

/-- A run on pointers and one on sequences, at the same point: the lists
and the ledgers are the same, what was pushed is at different addresses,
and new ones are still handed out above them. -/
structure Follows (t : Tracked Agent Item)
    (s : Tracked (Seq.Agent Item) Item) : Prop where
  viewed : ∃ A, Viewed A t.agent s.agent
  ledger : t.ledger = s.ledger
  distinct : (t.ledger.pushed.map Prod.fst).Nodup
  below : ∀ x ∈ t.ledger.pushed, x.1 < t.agent.heap.brk

theorem Follows.view_eq {t : Tracked Agent Item}
    {s : Tracked (Seq.Agent Item) Item} (hf : Follows t s) :
    t.agent.view = some s.agent := by
  obtain ⟨A, hv⟩ := hf.viewed
  exact hv.view_eq

theorem trackedStep_follows {t : Tracked Agent Item}
    {s : Tracked (Seq.Agent Item) Item} (hf : Follows t s)
    (op : AgentOp PlainMetric) :
    ∃ t', Agent.trackedStep F updateInterval op t = some ((), t')
      ∧ Follows t' (Seq.trackedStep Item.size updateInterval
          (op.placed t.agent.heap.brk) s) := by
  obtain ⟨A, hv⟩ := hf.viewed
  obtain ⟨a', hrun, ⟨hv', hrel, hb⟩, hnew⟩ := step_viewed (F := F)
    updateInterval (hv.withAllocs op.allocs) op rfl
  have hrec : ∀ new released : List Item,
      s.ledger.record op new released
        = s.ledger.record (op.placed t.agent.heap.brk) new released := by
    intro new released
    cases op <;> rfl
  have hone : (((s.agent.step Item.size updateInterval
      (op.placed t.agent.heap.brk)).1.1).map Prod.fst).Nodup := by
    cases op with
    | push m => simp [AgentOp.placed, Seq.Agent.step]
    | sendAll maxSendSize listOk sendOk => simp [AgentOp.placed, Seq.Agent.step]
    | respond i result httpCode =>
        unfold AgentOp.placed
        simp only [Seq.Agent.step]
        split <;> simp
    | evictCache maxSize => simp [AgentOp.placed, Seq.Agent.step]
    | flushAll => simp [AgentOp.placed, Seq.Agent.step]
  refine ⟨_, by simp only [Agent.trackedStep, hrun, Option.bind_eq_bind,
    Option.bind_some]; rfl, hv', ?_, ?_, ?_⟩
  · unfold Seq.trackedStep
    simp only [hrel.released_eq, hf.ledger, hrec]
  · unfold Ledger.record
    rw [List.map_append]
    apply List.Nodup.append hf.distinct hone
    intro p hp hp'
    obtain ⟨x, hx, rfl⟩ := List.mem_map.mp hp
    obtain ⟨y, hy, hxy⟩ := List.mem_map.mp hp'
    have hlt := hf.below x hx
    rw [← hxy, (hnew y hy).1] at hlt
    exact Nat.lt_irrefl _ hlt
  · intro x hx
    rcases List.mem_append.mp hx with hx | hx
    · exact Nat.lt_of_lt_of_le (hf.below x hx) hb
    · exact (hnew x hx).2

/-- A fresh agent, on pointers and on sequences. -/
theorem start_follows (update : Update) :
    Follows (Tracked.start update)
      ⟨⟨Seq.metricStoreNew, [], update⟩, Ledger.empty⟩ where
  viewed := by
    have h₀ : Rep Heap.empty fun _ => none :=
      { isList := fun l cs hl => absurd hl (by simp)
        absent := fun _ _ => rfl
        sep := fun l₁ l₂ cs₁ cs₂ hl => absurd hl (by simp)
        fresh := ⟨fun _ _ => rfl, fun _ _ => rfl, fun _ _ => rfl⟩ }
    obtain ⟨h₁, hrun₁, hr₁, hq₁⟩ := metricListNew_spec h₀ rfl
    obtain ⟨h₂, hrun₂, hr₂, hq₂⟩ := metricListNew_spec hr₁ (hq₁.ok rfl)
    obtain ⟨h₃, hrun₃, hr₃, hq₃⟩ :=
      metricListNew_spec hr₂ (hq₂.ok (hq₁.ok rfl))
    cases hrun₁
    cases hrun₂
    cases hrun₃
    have hnd : ([0, 1, 2] : List Addr).Nodup := by decide
    exact ⟨_, { rep := hr₃, headers := hnd, current := rfl, delta := rfl
                cache := rfl, inFlight := rfl, update := rfl }⟩
  ledger := rfl
  distinct := List.nodup_nil
  below := fun x hx => absurd hx List.not_mem_nil

end Monikor
