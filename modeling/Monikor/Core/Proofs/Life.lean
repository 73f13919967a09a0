/-
The agent on pointers lives as the agent on sequences does.

Whatever is called in whatever order, no call faults, what it returns is
what the same call on sequences returns, and the lists of the store and
of the batches in flight hold the same metrics (`life_refines`). Each
call is taken from `Viewed` to `Viewed`; what happens to addresses is
forgotten at the end, by reading the metrics of the items.

A call touches the lists of the headers it knows. The lists it does not
know, those of the stores that reloads have left, stay as they are, which
is what the account of the metrics needs.
-/
import Monikor.Core.Life
import Monikor.Lists.Proofs.StoreRuns
import Monikor.Send.Proofs.Simulate

namespace Monikor

open Linked Machine

-- ============================================== sequences, read through a map

namespace Seq

variable {α β : Type*} {w : α → Nat} (f : β → α)

theorem takeBatch_map (maxSendSize : Nat) (s : Store β) :
    takeBatch w maxSendSize (s.map f)
      = ((takeBatch (fun b => w (f b)) maxSendSize s).1.map f,
        (takeBatch (fun b => w (f b)) maxSendSize s).2.map f) := by
  have hfill := fillBatch_map (w := w) maxSendSize f
    (s.cache ++ s.current) []
  rw [List.map_nil, List.map_append] at hfill
  unfold takeBatch
  simp only [metricStoreUncache, metricStoreCache, metricListConcat,
    Store.map, List.nil_append, hfill, List.map_nil]

/-- A send only looks at sizes. -/
theorem sendAllMetrics_map (a : Agent β) (maxSendSize : Nat)
    (listOk sendOk : Bool) :
    sendAllMetrics w (a.map f) maxSendSize listOk sendOk
      = (sendAllMetrics (fun b => w (f b)) a maxSendSize listOk sendOk).map
        f := by
  have htake := takeBatch_map (w := w) f maxSendSize a.store
  unfold sendAllMetrics
  simp only [Agent.map, List.map_eq_nil_iff]
  split
  · rfl
  split
  · simp [metricStoreCache, metricListConcat]
  · unfold Store.map at htake
    simp only [htake]
    cases sendOk with
    | true => simp [metricStoreCache, metricListConcat]
    | false => simp [metricStoreCache, metricListConcat]

theorem updateBackoff_map (updateInterval : Int) (a : Agent β) :
    (updateBackoff updateInterval (a.map f)).2
      = (updateBackoff updateInterval a).2.map f := by
  unfold updateBackoff
  by_cases hcount : a.update.backoffCount > 0
  · have hmap : (a.map f).update.backoffCount > 0 := hcount
    simp only [if_pos hcount, if_pos hmap]
    rfl
  · have hmap : ¬ (a.map f).update.backoffCount > 0 := hcount
    simp only [if_neg hcount, if_neg hmap]
    rfl

/-- A response only looks at what it says. -/
theorem handleServerResponse_map (updateInterval : Int) (a : Agent β)
    (batch : List β) (result : Nat) (httpCode : Int) :
    (handleServerResponse updateInterval (a.map f) (batch.map f) result
        httpCode).2
      = (handleServerResponse updateInterval a batch result httpCode).2.map
        f := by
  have hback (a : Agent β) := updateBackoff_map f updateInterval a
  unfold handleServerResponse
  by_cases hack : result = curleOk ∧ httpCode = 200
  · have hsucc : { a.map f with update := (a.map f).update.success }
        = Agent.map f { a with update := a.update.success } := rfl
    simp only [if_pos hack, hsucc]
    split
    · simp [Agent.map, metricListConcat]
    · split
      · exact hback _
      · rfl
  · simp only [if_neg hack]
    split
    · simp [Agent.map, metricListConcat]
    · split
      · exact hback _
      · rfl

end Seq

-- ================================================================= reading

/-- The metrics of an agent's items. -/
def Seq.Agent.metrics (q : Seq.Agent Item) : Seq.Agent Metric := q.map Prod.snd

variable {F : FloatOps} {h h' : Heap} {A A' : Lists} {a a' : Agent}
  {q : Seq.Agent Item} {l p : Addr} {cs bs : List Cell} {m : Metric}

theorem map_item_snd (cs : List Cell) :
    (cs.map Cell.item).map Prod.snd = cs.map Cell.metric := by
  rw [List.map_map]
  rfl

/-- A list of the agent, as its metrics. -/
theorem itemsOf_metrics {items : List Item} (hi : itemsOf A l = some items)
    (hl : A l = some cs) : items.map Prod.snd = cs.map Cell.metric := by
  obtain ⟨ds, hds, rfl⟩ := itemsOf_some hi
  obtain rfl := Option.some.inj (hl.symm.trans hds)
  exact map_item_snd cs

/-- The rule of a call that knows two lists: the others are kept. -/
theorem Viewed.setCells (hv : Viewed A a q) {heap : Heap}
    {cur del cac : List Cell} (hr : Rep heap A')
    (hcur : A' a.metrics.current = some cur)
    (hdel : A' a.metrics.delta = some del)
    (hcac : A' a.metrics.cache = some cac)
    (hkept : ListsKept A A'
      [a.metrics.current, a.metrics.delta, a.metrics.cache]) :
    Viewed A' { a with heap } { q with store :=
      ⟨cur.map Cell.item, del.map Cell.item, cac.map Cell.item⟩ } :=
  hv.setStore hr (by simp [itemsOf, hcur]) (by simp [itemsOf, hdel])
    (by simp [itemsOf, hcac]) (fun _ hl => hkept _ (hv.inFlight_ne hl))
    hv.update

-- ================================================================== pushes

/-- `monikor_metric_store_push` of a metric in no list. -/
theorem storePush_viewed (hv : Viewed A a q) (hal : AllocsOk a.heap)
    (hp : a.heap.metric p = some m) (hu : ¬ Listed A p) :
    ∃ h' A' s, a.heap.metricStorePush F a.metrics p
        = some ((Seq.metricStorePush F q.metrics.store m).1, h')
      ∧ Viewed A' { a with heap := h' } { q with store := s }
      ∧ s.map Prod.snd = (Seq.metricStorePush F q.metrics.store m).2
      ∧ ListsKept A A' [a.metrics.current, a.metrics.delta, a.metrics.cache]
      ∧ ((Seq.metricStorePush F q.metrics.store m).1 = 0 →
          ∀ x, Loose h' A' x → Loose a.heap A x ∧ x ≠ p) := by
  obtain ⟨cur, hcur, -⟩ := itemsOf_some hv.current
  obtain ⟨del, hdel, -⟩ := itemsOf_some hv.delta
  obtain ⟨cac, hcac, -⟩ := itemsOf_some hv.cache
  have hb : PushReady a.heap A a.metrics q.metrics.store cur del p m :=
    ⟨hv.rep, hal, Ne.symm hv.delta_ne.1, hcur, hdel,
      itemsOf_metrics hv.current hcur, itemsOf_metrics hv.delta hdel, hp, hu⟩
  obtain ⟨rc, h', cur', del', A', hrun, hA', hr', hseq, -, -⟩ :=
    metricStorePush_spec (F := F) hb
  have hother : ∀ l, l ≠ a.metrics.current → l ≠ a.metrics.delta →
      A' l = A l := by
    intro l hc hd
    rw [hA', Function.update_of_ne hc, Function.update_of_ne hd]
  rw [hseq]
  refine ⟨h', A', ⟨cur'.map Cell.item, del'.map Cell.item, cac.map Cell.item⟩,
    hrun, hv.setCells hr' ?_ ?_ ?_ ?_, ?_, ?_, ?_⟩
  · rw [hA', Function.update_self]
  · rw [hA', Function.update_of_ne hv.delta_ne.1, Function.update_self]
  · rw [hother _ hv.cache_ne (Ne.symm hv.delta_ne.2), hcac]
  · intro l hl
    simp only [List.mem_cons, List.not_mem_nil, or_false, not_or] at hl
    exact hother l hl.1 hl.2.1
  · simp only [Store.map, map_item_snd]
    congr 1
    exact (itemsOf_metrics hv.cache hcac).symm
  · intro l hl
    simp only [List.mem_cons, List.not_mem_nil, or_false, not_or] at hl
    exact hother l hl.1 hl.2.1
  · intro hcode x hx
    obtain rfl : rc = 0 := hcode
    exact metricStorePush_loose hb hrun hr' hx

/-- No list of the agent is at the next address. -/
theorem Viewed.ne_brk (hv : Viewed A a q) (hl : A l = some cs) :
    l ≠ a.heap.brk := Nat.ne_of_lt (hv.rep.list_lt hl)

/-- The hand-over of a list of fresh metrics. -/
theorem lpushFresh_viewed (hv : Viewed A a q) (hal : AllocsOk a.heap)
    (ms : List Metric) :
    ∃ ps h' A' s, a.heap.lpushFresh F a.metrics ms
        = some (ps, (Seq.metricStoreLpush F q.metrics.store ms).1, h')
      ∧ Viewed A' { a with heap := h' } { q with store := s }
      ∧ s.map Prod.snd = (Seq.metricStoreLpush F q.metrics.store ms).2
      ∧ ListsKept A A' [a.metrics.current, a.metrics.delta, a.metrics.cache]
      ∧ Accounts a.heap h' ∧ (∀ p ∈ ps, Known h' p)
      ∧ (FreeLog a.heap → (Seq.metricStoreLpush F q.metrics.store ms).1 = 0 →
          ∀ x, Loose h' A' x → Loose a.heap A x) := by
  obtain ⟨cur, hcur, -⟩ := itemsOf_some hv.current
  obtain ⟨del, hdel, -⟩ := itemsOf_some hv.delta
  obtain ⟨cac, hcac, -⟩ := itemsOf_some hv.cache
  have hsc := itemsOf_metrics hv.current hcur
  have hsd := itemsOf_metrics hv.delta hdel
  -- the list of the message, filled, pushed and freed
  obtain ⟨h₁, hrun₁, hr₁, hq₁⟩ := metricListNew_spec hv.rep hal
  obtain ⟨ps, h₂, cs, hrun₂, hr₂, hcs, hal₂, hacc₂, hps, hloose₂⟩ :=
    buildList_spec ms h₁ _ [] hr₁ (hq₁.ok hal) (Function.update_self ..)
  rw [Function.update_idem, List.nil_append] at hr₂ hloose₂
  have hold : ∀ l ds, A l = some ds →
      Function.update A a.heap.brk (some cs) l = some ds := by
    intro l ds hl
    rw [Function.update_of_ne (hv.ne_brk hl), hl]
  have hnd : [a.metrics.current, a.metrics.delta, a.heap.brk].Nodup := by
    simp [Ne.symm hv.delta_ne.1, hv.ne_brk hcur, hv.ne_brk hdel]
  obtain ⟨rc, h₃, A₃, cur₃, del₃, hrun₃, hr₃, hl₃, hcur₃, hdel₃, hkept₃, hal₃,
    hseq⟩ := metricStoreLpush_spec (F := F) q.metrics.store hr₂ hal₂ hnd
      (Function.update_self ..) (hold _ _ hcur) (hold _ _ hdel) hsc hsd
  rw [hcs] at hseq
  obtain ⟨h₄, hrun₄, hr₄, hf₄⟩ := metricListFree_spec hr₃ hl₃
  have hacc₁ : Accounts a.heap h₁ := .still hq₁.metric hq₁.freed hq₁.brk
  have hacc₄ := (lpushLoop_accounts _ _ _ hrun₃).trans
    (metricListFree_accounts hrun₄)
  have hacc := (hacc₁.trans hacc₂).trans hacc₄
  have hother : ∀ l, l ≠ a.metrics.current → l ≠ a.metrics.delta →
      Function.update A₃ a.heap.brk none l = A l := by
    intro l hc hd
    by_cases hb : l = a.heap.brk
    · rw [hb, Function.update_self]
      cases hA : A a.heap.brk with
      | none => rfl
      | some ds => exact absurd rfl (hv.ne_brk hA)
    · rw [Function.update_of_ne hb, hkept₃ l (by simp [hc, hd, hb]),
        Function.update_of_ne hb]
  rw [hseq]
  refine ⟨ps, h₄, Function.update A₃ a.heap.brk none,
    ⟨cur₃.map Cell.item, del₃.map Cell.item, cac.map Cell.item⟩, ?_,
    hv.setCells hr₄ ?_ ?_ ?_ ?_, ?_, ?_, hacc,
    fun p hp => hacc₄.known p (hps p hp), ?_⟩
  · simp [Heap.lpushFresh, hrun₁, hrun₂, hrun₃, hrun₄]
  · rw [Function.update_of_ne (hv.ne_brk hcur), hcur₃]
  · rw [Function.update_of_ne (hv.ne_brk hdel), hdel₃]
  · rw [hother _ hv.cache_ne (Ne.symm hv.delta_ne.2), hcac]
  · intro l hl
    simp only [List.mem_cons, List.not_mem_nil, or_false, not_or] at hl
    exact hother l hl.1 hl.2.1
  · simp only [Store.map, map_item_snd]
    congr 1
    exact (itemsOf_metrics hv.cache hcac).symm
  · intro l hl
    simp only [List.mem_cons, List.not_mem_nil, or_false, not_or] at hl
    exact hother l hl.1 hl.2.1
  · intro hlog hcode x hx
    -- back through the free, the pushes, the building and the new header
    have hx₃ : Loose h₃ A₃ x := by
      refine hf₄.loose (hacc.log hlog) (fun hlist => .inr ?_) hx
      obtain ⟨l, ds, hl, hin⟩ := hlist
      refine ⟨l, ds, ?_, hin⟩
      rw [Function.update_of_ne _, hl]
      intro e
      subst e
      rw [hl₃] at hl
      cases hl
      cases hin
    have hx₂ := lpushLoop_loose (F := F) hnd hr₃ hx₃ cs h₂ _ cur del
      q.metrics.store _ 0 hr₂ hal₂ (Function.update_self ..) (hold _ _ hcur)
      (hold _ _ hdel) hsc hsd hrun₃ (by rw [hcs, hseq]; exact hcode)
    obtain ⟨hlive, hno⟩ := hloose₂ x hx₂
    refine ⟨by rwa [← hq₁.metric], fun hlist => hno ?_⟩
    obtain ⟨l, ds, hl, hin⟩ := hlist
    exact ⟨l, ds, by rwa [Function.update_of_ne (hv.ne_brk hl)], hin⟩

-- ============================================== evictions, and a new store

/-- `monikor_evict_metrics`. -/
theorem evictMetrics_viewed (hv : Viewed A a q)
    (pollInterval maxSize : Int32) (now : Timeval) :
    ∃ h' A' s ps, a.heap.evictMetrics a.metrics pollInterval maxSize now
        = some ((Seq.evictMetrics q.metrics.store pollInterval maxSize now).1,
          h')
      ∧ Viewed A' { a with heap := h' } { q with store := s }
      ∧ s.map Prod.snd
        = (Seq.evictMetrics q.metrics.store pollInterval maxSize now).2
      ∧ Frees a.heap h' ps
      ∧ (Seq.metricStoreElems q.store).map Prod.fst
        ⊆ (Seq.metricStoreElems s).map Prod.fst ++ ps := by
  obtain ⟨cur, hcur, hcs⟩ := itemsOf_some hv.current
  obtain ⟨del, hdel, hds⟩ := itemsOf_some hv.delta
  obtain ⟨cac, hcac, hks⟩ := itemsOf_some hv.cache
  let cutoff : Timeval :=
    { now with sec := now.sec - (3 * pollInterval).toInt64 }
  let keep (data : Timeval) (m : Metric) : Bool × Timeval :=
    (evictDeltaPredicate m data, data)
  obtain ⟨h₁, ps, hrun₁, hr₁, hf₁, hperm⟩ :=
    metricListRemoveIf_spec keep cutoff hv.rep hdel
  have hmap := metricListRemoveIf_map keep Cell.metric cutoff del
  have hcac₁ : Function.update A a.metrics.delta
      (some (Seq.metricListRemoveIf (fun s c => keep s c.metric) cutoff del).1)
      a.metrics.cache = some cac := by
    rw [Function.update_of_ne (Ne.symm hv.delta_ne.2), hcac]
  obtain ⟨h₂, hrun₂, hr₂, hf₂⟩ :=
    metricStoreEvictCache_spec hr₁ hcac₁ (sizeOfInt maxSize).toNat
  have hcache : Seq.evictCacheLoop metricNodeSize (sizeOfInt maxSize).toNat
      (cac.map Cell.metric)
      = ((Seq.evictCacheLoop Cell.size (sizeOfInt maxSize).toNat cac).1.map
          Cell.metric,
        (Seq.evictCacheLoop Cell.size (sizeOfInt maxSize).toNat cac).2.map
          Cell.metric) :=
    Seq.evictCacheLoop_map Cell.metric _ cac
  have hall := Seq.evictCacheLoop_append (w := Cell.size)
    (sizeOfInt maxSize).toNat cac
  have hcurrents : q.metrics.store.current = cur.map Cell.metric :=
    itemsOf_metrics hv.current hcur
  have hdeltas : q.metrics.store.delta = del.map Cell.metric :=
    itemsOf_metrics hv.delta hdel
  have hcaches : q.metrics.store.cache = cac.map Cell.metric :=
    itemsOf_metrics hv.cache hcac
  have hseq : Seq.evictMetrics q.metrics.store pollInterval maxSize now
      = ((Seq.metricListRemoveIf (fun s c => keep s c.metric) cutoff del).2
          + (Seq.evictCacheLoop Cell.size (sizeOfInt maxSize).toNat
            cac).1.length,
        ⟨cur.map Cell.metric,
          (Seq.metricListRemoveIf (fun s c => keep s c.metric) cutoff
            del).1.map Cell.metric,
          (Seq.evictCacheLoop Cell.size (sizeOfInt maxSize).toNat cac).2.map
            Cell.metric⟩) := by
    have hremove : Seq.metricStoreEvictDelta q.metrics.store cutoff
        = ((Seq.metricListRemoveIf keep cutoff (del.map Cell.metric)).2,
          { q.metrics.store with delta :=
            (Seq.metricListRemoveIf keep cutoff (del.map Cell.metric)).1 }) := by
      rw [← hdeltas]
      rfl
    show (_, _) = _
    rw [hremove, hmap]
    simp only [Seq.metricStoreEvictCache, hcaches, hcache, hcurrents,
      List.length_map]
  refine ⟨h₂, _, ⟨cur.map Cell.item,
      (Seq.metricListRemoveIf (fun s c => keep s c.metric) cutoff del).1.map
        Cell.item,
      (Seq.evictCacheLoop Cell.size (sizeOfInt maxSize).toNat cac).2.map
        Cell.item⟩, _, ?_, hv.setCells hr₂ ?_ ?_ ?_ ?_, ?_, hf₁.trans hf₂, ?_⟩
  · have hrun₁ : a.heap.metricStoreEvictDelta a.metrics cutoff
        = some (_, h₁) := hrun₁
    unfold Heap.evictMetrics
    simp only [Option.bind_eq_bind]
    rw [hrun₁, Option.bind_some, hrun₂, hseq]
    rfl
  · rw [Function.update_of_ne (Ne.symm hv.cache_ne),
      Function.update_of_ne (Ne.symm hv.delta_ne.1), hcur]
  · rw [Function.update_of_ne hv.delta_ne.2, Function.update_self]
  · exact Function.update_self ..
  · intro l hl
    simp only [List.mem_cons, List.not_mem_nil, or_false, not_or] at hl
    rw [Function.update_of_ne hl.2.2, Function.update_of_ne hl.2.1]
  · rw [hseq]
    simp only [Store.map, map_item_snd]
  · unfold Seq.metricStoreElems
    rw [← hcs, ← hds, ← hks]
    simp only [List.map_append, map_item_fst]
    intro p hp
    simp only [List.mem_append] at hp ⊢
    rcases hp with (hp | hp) | hp
    · exact .inl (.inl (.inl hp))
    · rw [hperm.mem_iff, List.mem_append] at hp
      rcases hp with hp | hp
      · exact .inl (.inl (.inr hp))
      · exact .inr (.inl hp)
    · rw [← hall, List.map_append, List.mem_append] at hp
      rcases hp with hp | hp
      · exact .inr (.inr hp)
      · exact .inl (.inr hp)

/-- `monikor_metric_store_new`, while the lists of the old store stay among
those that are kept. -/
theorem metricStoreNew_viewed (hv : Viewed A a q) (hal : AllocsOk a.heap)
    {ls ks : List Addr} {us vs : List (List Item)}
    (hfl : a.inFlight = ls ++ ks) (hfq : q.inFlight = us ++ vs)
    (hlen : ls.length = us.length) :
    ∃ st h' A', a.heap.metricStoreNew = some (some st, h')
      ∧ Viewed A' { a with
          heap := h', metrics := st
          inFlight := ls
            ++ [a.metrics.current, a.metrics.delta, a.metrics.cache] ++ ks }
        { q with
          store := ⟨[], [], []⟩
          inFlight := us
            ++ [q.store.current, q.store.delta, q.store.cache] ++ vs }
      ∧ Quiet a.heap h' := by
  obtain ⟨h₁, hrun₁, hr₁, hq₁⟩ := metricListNew_spec hv.rep hal
  obtain ⟨h₂, hrun₂, hr₂, hq₂⟩ := metricListNew_spec hr₁ (hq₁.ok hal)
  obtain ⟨h₃, hrun₃, hr₃, hq₃⟩ := metricListNew_spec hr₂ (hq₂.ok (hq₁.ok hal))
  have hb₁ : a.heap.brk < h₁.brk := hr₁.list_lt (Function.update_self ..)
  have hb₂ : h₁.brk < h₂.brk := hr₂.list_lt (Function.update_self ..)
  have hold : ∀ l ∈ a.headers, l < a.heap.brk := by
    intro l hl
    obtain ⟨cs, hcs⟩ := hv.header_some hl
    exact hv.rep.list_lt hcs
  -- the headers there were, in another order
  have hperm : (ls ++ [a.metrics.current, a.metrics.delta, a.metrics.cache]
      ++ ks).Perm a.headers := by
    have hsplit : a.headers = [a.metrics.current, a.metrics.delta,
        a.metrics.cache] ++ (ls ++ ks) := by rw [← hfl]; rfl
    rw [hsplit, ← List.append_assoc]
    exact List.perm_append_comm.append_right ks
  have hkept : ∀ l ∈ a.headers, itemsOf (Function.update (Function.update
      (Function.update A a.heap.brk (some [])) h₁.brk (some [])) h₂.brk
      (some [])) l = itemsOf A l := by
    intro l hl
    have hlt := hold l hl
    unfold itemsOf
    rw [Function.update_of_ne (Nat.ne_of_lt (hlt.trans (hb₁.trans hb₂))),
      Function.update_of_ne (Nat.ne_of_lt (hlt.trans hb₁)),
      Function.update_of_ne (Nat.ne_of_lt hlt)]
  have hparts : ls.map (itemsOf A) = us.map some
      ∧ ks.map (itemsOf A) = vs.map some := by
    have hall := hv.inFlight
    rw [hfl, hfq, List.map_append, List.map_append] at hall
    exact List.append_inj hall (by simp [hlen])
  refine ⟨⟨a.heap.brk, h₁.brk, h₂.brk⟩, h₃, _, ?_, ⟨hr₃, ?_, ?_, ?_, ?_, ?_,
    hv.update⟩, (hq₁.trans hq₂).trans hq₃⟩
  · simp [Heap.metricStoreNew, malloc_ok hal, hrun₁, hrun₂, hrun₃]
  · have hnew : ∀ l ∈ ls ++ [a.metrics.current, a.metrics.delta,
        a.metrics.cache] ++ ks, l < a.heap.brk :=
      fun l hl => hold l (hperm.mem_iff.mp hl)
    have hout : ∀ b, a.heap.brk ≤ b → b ∉ ls ++ [a.metrics.current,
        a.metrics.delta, a.metrics.cache] ++ ks :=
      fun b hb hin => Nat.lt_irrefl _ (Nat.lt_of_lt_of_le (hnew b hin) hb)
    refine List.nodup_cons.mpr ⟨?_, List.nodup_cons.mpr ⟨?_,
      List.nodup_cons.mpr ⟨hout _ (hb₁.trans hb₂).le,
        hperm.nodup_iff.mpr hv.headers⟩⟩⟩
    · rw [List.mem_cons, List.mem_cons, not_or, not_or]
      exact ⟨Nat.ne_of_lt hb₁, Nat.ne_of_lt (hb₁.trans hb₂), hout _ le_rfl⟩
    · rw [List.mem_cons, not_or]
      exact ⟨Nat.ne_of_lt hb₂, hout _ hb₁.le⟩
  · unfold itemsOf
    rw [Function.update_of_ne (Nat.ne_of_lt (hb₁.trans hb₂)),
      Function.update_of_ne (Nat.ne_of_lt hb₁), Function.update_self]
    rfl
  · unfold itemsOf
    rw [Function.update_of_ne (Nat.ne_of_lt hb₂), Function.update_self]
    rfl
  · unfold itemsOf
    rw [Function.update_self]
    rfl
  · rw [List.map_congr_left fun l hl => hkept l (hperm.mem_iff.mp hl)]
    simp only [List.map_append, hparts.1, hparts.2, List.map_cons,
      List.map_nil, hv.current, hv.delta, hv.cache]

end Monikor
