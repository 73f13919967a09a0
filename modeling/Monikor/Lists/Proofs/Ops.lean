/-
One specification a list operation: on a heap that holds the lists `A`,
with allocations succeeding, each function of metric_list.c returns (no
fault, no endless loop), leaves a heap that holds `A` with the lists it
names replaced as sequences, and touches no metric it does not free.
-/
import Monikor.Lists.Proofs.Rep
import Monikor.Lists.Seq

namespace Monikor

open Linked

variable {h h' h'' : Heap} {A : Lists} {l : Addr} {cs : List Cell}
  {p : Addr} {m : Metric}

-- ============================================================ allocation

/-- What every list operation that frees nothing leaves alone. -/
structure Quiet (h h' : Heap) : Prop where
  metric : h'.metric = h.metric
  freed : h'.freed = h.freed
  allocs : h'.allocs = h.allocs
  brk : h.brk ≤ h'.brk

theorem Quiet.trans (h₁ : Quiet h h') (h₂ : Quiet h' h'') : Quiet h h'' :=
  ⟨h₂.metric.trans h₁.metric, h₂.freed.trans h₁.freed,
    h₂.allocs.trans h₁.allocs, Nat.le_trans h₁.brk h₂.brk⟩

theorem Quiet.ok (hq : Quiet h h') (ha : AllocsOk h) : AllocsOk h' :=
  hq.allocs.trans ha

/-- What an operation leaves alone that frees the metrics `ps`, in that
order, and no others. -/
structure Frees (h h' : Heap) (ps : List Addr) : Prop where
  freed : h'.freed = h.freed ++ ps
  metric : ∀ a, a ∉ ps → h'.metric a = h.metric a
  allocs : h'.allocs = h.allocs
  brk : h.brk ≤ h'.brk

theorem Quiet.frees (hq : Quiet h h') : Frees h h' [] :=
  ⟨by simp [hq.freed], fun a _ => congrFun hq.metric a, hq.allocs, hq.brk⟩

theorem Frees.trans {ps qs : List Addr} (h₁ : Frees h h' ps)
    (h₂ : Frees h' h'' qs) : Frees h h'' (ps ++ qs) where
  freed := by rw [h₂.freed, h₁.freed, List.append_assoc]
  metric := fun a ha => by
    rw [List.mem_append, not_or] at ha
    rw [h₂.metric a ha.2, h₁.metric a ha.1]
  allocs := h₂.allocs.trans h₁.allocs
  brk := Nat.le_trans h₁.brk h₂.brk

/-- A succeeding allocation changes nothing but the block it hands out. -/
theorem malloc_ok (ha : AllocsOk h) : h.malloc = (true, h) := by
  unfold AllocsOk at ha
  cases h
  subst ha
  rfl

theorem metricListNodeNew_ok (ha : AllocsOk h) (p : Addr) :
    h.metricListNodeNew p
      = (some h.brk, (h.setNode h.brk { next := none, metric := p }).bump) := by
  simp [Heap.metricListNodeNew, malloc_ok ha]

/-- Filling the next node and stepping past it leaves what is beyond
unused. -/
theorem Fresh.setNode_bump (hf : Fresh h) (n : Node) :
    Fresh (h.setNode h.brk n).bump where
  node := fun a ha => by
    have : a ≠ h.brk := Nat.ne_of_gt ha
    simpa [this] using hf.node a (Nat.le_of_succ_le ha)
  metric := fun a ha => hf.metric a (Nat.le_of_succ_le ha)
  list := fun a ha => hf.list a (Nat.le_of_succ_le ha)

theorem Fresh.list_lt (hf : Fresh h) {hdr : MetricList}
    (hl : h.list l = some hdr) : l < h.brk := by
  by_contra hge
  rw [hf.list _ (Nat.not_lt.mp hge)] at hl
  cases hl

/-- Rewriting a header that is in use leaves what is unused unused. -/
theorem Fresh.setList (hf : Fresh h) (hl : l < h.brk) (hdr : MetricList) :
    Fresh (h.setList l hdr) where
  node := hf.node
  metric := hf.metric
  list := fun a ha => by
    have : a ≠ l := Nat.ne_of_gt (Nat.lt_of_lt_of_le hl ha)
    simpa [this] using hf.list a ha

/-- Rewriting a node that is in use leaves what is unused unused. -/
theorem Fresh.setNode (hf : Fresh h) {a : Addr} (ha : a < h.brk) (n : Node) :
    Fresh (h.setNode a n) where
  node := fun b hb => by
    have : b ≠ a := Nat.ne_of_gt (Nat.lt_of_lt_of_le ha hb)
    simpa [this] using hf.node b hb
  metric := hf.metric
  list := hf.list

/-- Freeing leaves what is unused unused. -/
theorem Fresh.eraseNode (hf : Fresh h) (a : Addr) : Fresh (h.eraseNode a) where
  node := fun b hb => by
    by_cases e : b = a
    · simp [e]
    · simpa [e] using hf.node b hb
  metric := hf.metric
  list := hf.list

theorem Fresh.eraseMetric (hf : Fresh h) (a : Addr) :
    Fresh (h.eraseMetric a) where
  node := hf.node
  metric := fun b hb => by
    by_cases e : b = a
    · simp [e]
    · simpa [e] using hf.metric b hb
  list := hf.list

/-- Two writes of one header are the second. -/
@[simp] theorem setList_setList (h : Heap) (l : Addr) (x y : MetricList) :
    (h.setList l x).setList l y = h.setList l y := by
  simp [Heap.setList]

-- ================================================================= joining

/-- A node that links to nothing is a list of one cell. -/
theorem isList_singleton {a : Addr}
    (hn : h.node a = some { next := none, metric := p })
    (hp : h.metric p = some m) :
    IsList h ⟨1, metricNodeSize m, some a, some a⟩ [⟨a, p, m⟩] where
  chain := ⟨rfl, _, hn, rfl, rfl⟩
  last := rfl
  size := rfl
  dataSize := rfl
  contents := List.forall_mem_singleton.mpr hp
  nodup := List.nodup_singleton _
  ptr_nodup := List.nodup_singleton _

/-- Linking the last cell of one list to the first of another, whose
cells are elsewhere, joins their chains. -/
theorem IsList.link {hd tl : MetricList} {bs ds : List Cell} {b : Cell}
    {n : Node} (hcs : IsList h hd (bs ++ [b])) (hds : IsList h tl ds)
    (hn : h.node b.node = some n)
    (hsep : ∀ c ∈ bs ++ [b], ∀ d ∈ ds, c.node ≠ d.node ∧ c.ptr ≠ d.ptr) :
    Chain Node.next Node.metric
      (Function.update h.node b.node (some { n with next := tl.first }))
      hd.first ((bs ++ [b] ++ ds).map Cell.link) none := by
  obtain ⟨n', hn', hnm⟩ := hcs.node_mem (c := b) (by simp)
  obtain rfl : n = n' := Option.some.inj (hn.symm.trans hn')
  have hbd : b.node ∉ (ds.map Cell.link).map Prod.fst := by
    rw [map_link_fst]
    intro hm
    obtain ⟨d, hd, he⟩ := List.mem_map.mp hm
    exact (hsep b (by simp) d hd).1 he.symm
  have hchain := hcs.chain
  rw [List.map_append] at hchain
  rw [List.map_append, List.map_append]
  exact chain_append.mpr ⟨tl.first,
    hchain.relink_last hcs.last_notMem hnm rfl, hds.chain.update hbd⟩

/-- Two disjoint lists, linked one behind the other, are one list; only
the last node of the first is written. -/
theorem IsList.append {hd tl : MetricList} {ds : List Cell}
    (hcs : IsList h hd cs) (hds : IsList h tl ds)
    (hsep : ∀ c ∈ cs, ∀ d ∈ ds, c.node ≠ d.node ∧ c.ptr ≠ d.ptr)
    {first last : Option Addr}
    (hchain : Chain Node.next Node.metric h'.node first
      ((cs ++ ds).map Cell.link) none)
    (hlast : last = (cs ++ ds).getLast?.map Cell.node)
    (hmetric : h'.metric = h.metric) :
    IsList h'
      { size := hd.size + tl.size, dataSize := hd.dataSize + tl.dataSize
        first, last } (cs ++ ds) where
  chain := hchain
  last := hlast
  size := by simp [hcs.size, hds.size]
  dataSize := by simp [hcs.dataSize, hds.dataSize]
  contents := by
    rw [hmetric]
    intro c hc
    rcases List.mem_append.mp hc with hc | hc
    · exact hcs.contents c hc
    · exact hds.contents c hc
  nodup := by
    rw [List.map_append]
    apply List.Nodup.append hcs.nodup hds.nodup
    intro a ha hb
    obtain ⟨c, hc, rfl⟩ := List.mem_map.mp ha
    obtain ⟨d, hd, he⟩ := List.mem_map.mp hb
    exact (hsep c hc d hd).1 he.symm
  ptr_nodup := by
    rw [List.map_append]
    apply List.Nodup.append hcs.ptr_nodup hds.ptr_nodup
    intro a ha hb
    obtain ⟨c, hc, rfl⟩ := List.mem_map.mp ha
    obtain ⟨d, hd, he⟩ := List.mem_map.mp hb
    exact (hsep c hc d hd).2 he.symm

-- ================================================================== push

/-- `monikor_metric_list_push` appends the metric to the list. -/
theorem metricListPush_spec (hr : Rep h A) (ha : AllocsOk h)
    (hl : A l = some cs) (hp : h.metric p = some m) (hu : ¬ Listed A p) :
    ∃ h', h.metricListPush l p = some (0, h')
      ∧ Rep h' (Function.update A l (some (cs ++ [⟨h.brk, p, m⟩])))
      ∧ Quiet h h' := by
  obtain ⟨hdr, hh, hcs⟩ := hr.isList l cs hl
  have hlb := Nat.lt_succ_of_lt (hr.list_lt hl)
  have hnodes : ∀ c ∈ cs ++ [⟨h.brk, p, m⟩],
      c.node ∈ cs.map Cell.node ∨ ¬ NodeListed A c.node :=
    List.forall_mem_append.mpr ⟨fun c hc => .inl (List.mem_map_of_mem hc),
      List.forall_mem_singleton.mpr (.inr hr.not_nodeListed_brk)⟩
  have hptrs : ∀ c ∈ cs ++ [⟨h.brk, p, m⟩],
      c.ptr ∈ cs.map Cell.ptr ∨ ¬ Listed A c.ptr :=
    List.forall_mem_append.mpr ⟨fun c hc => .inl (List.mem_map_of_mem hc),
      List.forall_mem_singleton.mpr (.inr hu)⟩
  -- the new node is a list of its own, elsewhere
  let h₁ := (h.setNode h.brk { next := none, metric := p }).bump
  have hone : IsList h₁ ⟨1, metricNodeSize m, some h.brk, some h.brk⟩
      [⟨h.brk, p, m⟩] := isList_singleton (by simp [h₁]) hp
  have hcs₁ : IsList h₁ hdr cs := by
    refine hcs.congr (fun c hc => ?_) fun _ _ => rfl
    have : c.node ≠ h.brk := Nat.ne_of_lt (hr.node_lt hl hc)
    simp [h₁, this]
  have hsep : ∀ c ∈ cs, ∀ d ∈ [(⟨h.brk, p, m⟩ : Cell)],
      c.node ≠ d.node ∧ c.ptr ≠ d.ptr := by
    intro c hc
    have hptr : c.ptr ≠ p := fun e => hu ⟨l, cs, hl,
      e ▸ List.mem_map_of_mem hc⟩
    exact List.forall_mem_singleton.mpr
      ⟨Nat.ne_of_lt (hr.node_lt hl hc), hptr⟩
  rcases List.eq_nil_or_concat' cs with rfl | ⟨ds, d, rfl⟩
  · -- the first node of the list
    have hsize : hdr.size = 0 := hcs.size
    have hdata : hdr.dataSize = 0 := hcs.dataSize
    have hrun : h.metricListPush l p = some (0, h₁.setList l
          { size := 1, dataSize := hdr.dataSize + metricNodeSize m
            first := some h.brk, last := some h.brk }) := by
      simp [h₁, Heap.metricListPush, metricListNodeNew_ok ha,
        Heap.metricListPushNode, hh, hsize, Heap.nodeSize, hp]
    refine ⟨_, hrun, hr.modify [] (by simp [hl])
      (fun l' hne => by simp [h₁, hne]) ⟨_, Function.update_self .., ?_⟩ ?_
      (fun _ _ _ => rfl) hnodes hptrs
      ((hr.fresh.setNode_bump _).setList hlb _),
      ⟨rfl, rfl, rfl, Nat.le_succ _⟩⟩
    · rw [hdata, Nat.zero_add]
      exact hone.congr (fun _ _ => rfl) fun _ _ => rfl
    · intro a ha' _
      simp [h₁, Nat.ne_of_lt ha']
  · -- a node after the last one
    have hsize : hdr.size ≠ 0 := by simp [hcs.size]
    have hlast : hdr.last = some d.node := by simp [hcs.last]
    obtain ⟨n, hn, -⟩ := hcs.node_mem (c := d) (by simp)
    have hdb : d.node < h.brk := hr.node_lt hl (by simp)
    have hdne : d.node ≠ h.brk := Nat.ne_of_lt hdb
    have hn₁ : h₁.node d.node = some n := by simp [h₁, hdne, hn]
    have hrun : h.metricListPush l p = some (0,
        (h₁.setNode d.node { n with next := some h.brk }).setList l
            { size := hdr.size + 1
              dataSize := hdr.dataSize + metricNodeSize m
              first := hdr.first, last := some h.brk }) := by
      simp [h₁, Heap.metricListPush, metricListNodeNew_ok ha,
        Heap.metricListPushNode, hh, hsize, hlast, hn, hdne, Heap.nodeSize,
        Function.update_of_ne (Ne.symm hdne), hp]
    refine ⟨_, hrun, hr.modify (ds ++ [d]) (by simp [hl])
      (fun l' hne => by simp [h₁, hne]) ⟨_, Function.update_self .., ?_⟩ ?_
      (fun _ _ _ => rfl) hnodes hptrs (((hr.fresh.setNode_bump _).setNode
        (Nat.lt_succ_of_lt hdb) _).setList hlb _),
      ⟨rfl, rfl, rfl, Nat.le_succ _⟩⟩
    · exact hcs₁.append hone hsep (hcs₁.link hone hn₁ hsep) (by simp) rfl
    · intro a ha' hm
      have : a ≠ d.node := fun e => hm (by simp [e])
      simp [h₁, Nat.ne_of_lt ha', this]

-- =================================================================== pop

theorem metricListPop_nil (hr : Rep h A) (hl : A l = some []) :
    h.metricListPop l = some (none, h) := by
  obtain ⟨hdr, hh, hcs⟩ := hr.isList l [] hl
  simp [Heap.metricListPop, hh, hcs.first_nil]

/-- The last cell of a list with a cell in front of it is not that
cell. -/
private theorem getLast_node_ne {ks rs : List Cell} {c : Cell}
    (hnd : ((ks ++ c :: rs).map Cell.node).Nodup) (hrs : rs ≠ []) :
    (rs.getLast hrs).node ≠ c.node := by
  rw [List.map_append, List.nodup_append, List.map_cons,
    List.nodup_cons] at hnd
  exact fun e => hnd.2.1.1 (e ▸ List.mem_map_of_mem (List.getLast_mem hrs))

/-- `last` after unlinking a cell whose predecessor is the last of
`ks`. -/
theorem IsList.last_remove {hdr : MetricList} (ks : List Cell)
    {rs : List Cell} {c : Cell} (hcs : IsList h hdr (ks ++ c :: rs)) :
    (if hdr.last = some c.node then ks.getLast?.map Cell.node else hdr.last)
      = (ks ++ rs).getLast?.map Cell.node := by
  by_cases hrs : rs = []
  · subst hrs
    simp [hcs.last]
  · have hlast : ∀ xs : List Cell,
        (xs ++ rs).getLast?.map Cell.node = some (rs.getLast hrs).node := by
      intro xs
      rw [List.getLast?_append_of_ne_nil _ hrs,
        List.getLast?_eq_getLast_of_ne_nil hrs]
      rfl
    have hold : hdr.last = some (rs.getLast hrs).node := by
      rw [hcs.last, ← hlast (ks ++ [c]), List.append_assoc]
      rfl
    rw [hlast ks, hold, if_neg]
    simpa using getLast_node_ne hcs.nodup hrs

/-- `first` after unlinking a cell. -/
theorem IsList.first_remove {hdr : MetricList} {ks rs : List Cell} {c : Cell}
    {n : Node} (hcs : IsList h hdr (ks ++ c :: rs))
    (hn : h.node c.node = some n) :
    (if hdr.first = some c.node then n.next else hdr.first)
      = (ks ++ rs).head?.map Cell.node := by
  have hfirst := hcs.chain.start
  have hchain := hcs.chain
  rw [List.map_append] at hchain
  obtain ⟨r, -, -, v, hv, -, hrest⟩ := chain_append.mp hchain
  obtain rfl : n = v := by simpa [hn] using hv
  cases ks with
  | nil =>
      have hnext := hrest.start
      simp only [List.head?_map, Option.map_map, Function.comp_def,
        Cell.link_fst] at hfirst hnext
      simp [hfirst, hnext]
  | cons k ks =>
      have hne : k.node ≠ c.node :=
        fun e => hcs.notMem_others.1 (by simp [← e])
      simp [hfirst, hne]

/-- `monikor_metric_list_pop` removes and returns the head. -/
theorem metricListPop_cons {c : Cell} (hr : Rep h A)
    (hl : A l = some (c :: cs)) :
    ∃ h', h.metricListPop l = some (some c.ptr, h')
      ∧ Rep h' (Function.update A l (some cs)) ∧ Quiet h h' := by
  obtain ⟨hdr, hh, hcs⟩ := hr.isList l _ hl
  obtain ⟨hfirst, n, hn, hnm, hchain⟩ := hcs.head
  have hsz := hcs.nodeSize (c := c) (by simp)
  have hrun : h.metricListPop l = some (some c.ptr,
      (h.setList l
        { first := n.next
          last := if hdr.last = some c.node then none else hdr.last
          size := hdr.size - 1
          dataSize := hdr.dataSize - metricNodeSize c.metric }).eraseNode
        c.node) := by
    simp [Heap.metricListPop, hh, hfirst, hn, hsz, Heap.freeNode, hnm]
  have hcn : c.node ∉ cs.map Cell.node := (List.nodup_cons.mp hcs.nodup).1
  refine ⟨_, hrun, hr.modify (c :: cs) (by simp [hl])
    (fun l' hne => by simp [hne]) ⟨_, Function.update_self .., ?_⟩ ?_
    (fun _ _ _ => rfl) ?_ ?_
    ((hr.fresh.setList (hr.list_lt hl) _).eraseNode _),
    ⟨rfl, rfl, rfl, Nat.le_refl _⟩⟩
  · exact {
      chain := hchain.update (by rwa [map_link_fst])
      last := hcs.last_remove []
      size := by simp [hcs.size]
      dataSize := by simp [hcs.dataSize]
      contents := fun d hd => hcs.contents d (List.mem_cons_of_mem _ hd)
      nodup := (List.nodup_cons.mp hcs.nodup).2
      ptr_nodup := (List.nodup_cons.mp hcs.ptr_nodup).2 }
  · intro a _ hm
    have : a ≠ c.node := fun e => hm (by simp [e])
    simp [this]
  · exact fun d hd => .inl (List.mem_map_of_mem (List.mem_cons_of_mem _ hd))
  · exact fun d hd => .inl (List.mem_map_of_mem (List.mem_cons_of_mem _ hd))

/-- A popped metric is in no list. -/
theorem not_listed_pop {c : Cell} (hr : Rep h A)
    (hl : A l = some (c :: cs)) :
    ¬ Listed (Function.update A l (some cs)) c.ptr := by
  obtain ⟨hdr, -, hcs⟩ := hr.isList l _ hl
  exact hr.not_listed_of_update hl (by simp)
    (List.nodup_cons.mp hcs.ptr_nodup).1

-- ============================================================== init, new

/-- `monikor_metric_list_init` leaves an empty list. -/
theorem metricListInit_spec (hr : Rep h A) (hl : A l = some cs) :
    Rep (h.metricListInit l) (Function.update A l (some []))
      ∧ Quiet h (h.metricListInit l) :=
  ⟨hr.modify cs (by simp [hl]) (fun l' hne => by
      simp [Heap.metricListInit, hne])
    ⟨_, Function.update_self .., isList_nil⟩ (fun _ _ _ => rfl)
    (fun _ _ _ => rfl) (by simp) (by simp)
    (hr.fresh.setList (hr.list_lt hl) _), ⟨rfl, rfl, rfl, Nat.le_refl _⟩⟩

/-- `monikor_metric_list_new` hands out a header no list had. -/
theorem metricListNew_spec (hr : Rep h A) (ha : AllocsOk h) :
    ∃ h', h.metricListNew = (some h.brk, h')
      ∧ Rep h' (Function.update A h.brk (some [])) ∧ Quiet h h' := by
  have hA : A h.brk = none := by
    cases hl : A h.brk with
    | none => rfl
    | some cs => exact absurd (hr.list_lt hl) (Nat.lt_irrefl _)
  refine ⟨(h.metricListInit h.brk).bump, by
    simp [Heap.metricListNew, malloc_ok ha], ?_,
    ⟨rfl, rfl, rfl, Nat.le_succ _⟩⟩
  refine hr.modify [] (by simp [hA]) (fun l' hne => by
      simp [Heap.metricListInit, hne])
    ⟨_, Function.update_self .., isList_nil⟩ (fun _ _ _ => rfl)
    (fun _ _ _ => rfl) (by simp) (by simp) ?_
  exact {
    node := fun a ha' => hr.fresh.node a (Nat.le_of_succ_le ha')
    metric := fun a ha' => hr.fresh.metric a (Nat.le_of_succ_le ha')
    list := fun a ha' => by
      have : a ≠ h.brk := Nat.ne_of_gt ha'
      simpa [Heap.metricListInit, this]
        using hr.fresh.list a (Nat.le_of_succ_le ha') }

-- ================================================================= concat

/-- Once a header stands over the cells of both lists, and the other is
emptied, the cells are handed over. -/
theorem Rep.handOver {head tail : Addr} {ds : List Cell} {h₂ : Heap}
    {hdr : MetricList} (hr : Rep h A) (hne : head ≠ tail)
    (hhead : A head = some cs) (htail : A tail = some ds)
    (hmetric : h₂.metric = h.metric) (hlist : h₂.list = h.list)
    (hnode : ∀ a, a ∉ cs.map Cell.node → h₂.node a = h.node a)
    (hfresh : Fresh h₂) (hown : IsList h₂ hdr (cs ++ ds)) :
    Rep ((h₂.setList head hdr).metricListInit tail)
      (Function.update (Function.update A head (some (cs ++ ds)))
        tail (some [])) := by
  obtain ⟨hd, hhd, -⟩ := hr.isList head cs hhead
  obtain ⟨tl, htl, -⟩ := hr.isList tail ds htail
  -- give the tail's cells up first: then no list holds them
  obtain ⟨hr₁, -⟩ := metricListInit_spec hr htail
  rw [Function.update_comm hne]
  refine hr₁.modify cs ?_ ?_ ⟨hdr, ?_, hown.congr ?_ ?_⟩ ?_ ?_ ?_ ?_ ?_
  · rw [Function.update_of_ne hne, hhead, Option.getD_some]
  · intro l' hl'
    by_cases e : l' = tail
    · simp [Heap.metricListInit, e]
    · simp [Heap.metricListInit, e, hl', hlist]
  · simp [Heap.metricListInit, hne]
  · exact fun _ _ => rfl
  · exact fun _ _ => rfl
  · exact fun a _ ha => hnode a ha
  · exact fun a _ _ => congrFun hmetric a
  · refine List.forall_mem_append.mpr ⟨fun c hc => .inl ?_, fun c hc => .inr ?_⟩
    · exact List.mem_map_of_mem hc
    · exact hr.not_nodeListed_of_update htail (List.mem_map_of_mem hc)
        (by simp)
  · refine List.forall_mem_append.mpr ⟨fun c hc => .inl ?_, fun c hc => .inr ?_⟩
    · exact List.mem_map_of_mem hc
    · exact hr.not_listed_of_update htail (List.mem_map_of_mem hc) (by simp)
  · exact (hfresh.setList (hfresh.list_lt (hlist ▸ hhd)) hdr).setList
      (hfresh.list_lt (hlist ▸ htl)) _

/-- `monikor_metric_list_concat` moves the tail's cells behind the
head's. -/
theorem metricListConcat_spec {head tail : Addr} {ds : List Cell}
    (hr : Rep h A) (hne : head ≠ tail) (hhead : A head = some cs)
    (htail : A tail = some ds) :
    ∃ h', h.metricListConcat head tail = some h'
      ∧ Rep h' (Function.update (Function.update A head (some (cs ++ ds)))
          tail (some []))
      ∧ Quiet h h' := by
  obtain ⟨hd, hhd, hcs⟩ := hr.isList head cs hhead
  obtain ⟨tl, htl, hds⟩ := hr.isList tail ds htail
  have hsep := hr.sep head tail cs ds hhead htail hne
  rcases List.eq_nil_or_concat' ds with rfl | ⟨es, e, rfl⟩
  · -- nothing to move: the header is written back as it was
    have htsize : tl.size = 0 := hds.size
    have hrun : h.metricListConcat head tail
        = some ((h.setList head
            { size := hd.size + tl.size, dataSize := hd.dataSize + tl.dataSize
              first := hd.first, last := hd.last }).metricListInit tail) := by
      simp [Heap.metricListConcat, hhd, htl, htsize]
    have hown : IsList h
        { size := hd.size + tl.size, dataSize := hd.dataSize + tl.dataSize
          first := hd.first, last := hd.last } (cs ++ []) :=
      hcs.append hds hsep (by simpa using hcs.chain) (by simpa using hcs.last)
        rfl
    exact ⟨_, hrun, hr.handOver hne hhead htail rfl rfl (fun _ _ => rfl)
      hr.fresh hown, ⟨rfl, rfl, rfl, Nat.le_refl _⟩⟩
  have htsize : tl.size ≠ 0 := by simp [hds.size]
  have htlast : tl.last = some e.node := by simp [hds.last]
  rcases List.eq_nil_or_concat' cs with rfl | ⟨bs, b, rfl⟩
  · -- the head takes over both end pointers
    have hsize : hd.size = 0 := hcs.size
    have hrun : h.metricListConcat head tail
        = some ((h.setList head
            { size := hd.size + tl.size
              dataSize := hd.dataSize + tl.dataSize
              first := tl.first, last := tl.last }).metricListInit tail) := by
      simp [Heap.metricListConcat, hhd, htl, htsize, hsize]
    have hown := hcs.append hds hsep hds.chain hds.last rfl
    exact ⟨_, hrun, hr.handOver hne hhead htail rfl rfl (fun _ _ => rfl)
      hr.fresh hown, ⟨rfl, rfl, rfl, Nat.le_refl _⟩⟩
  · -- the head's last node is linked to the tail's first
    have hsize : hd.size ≠ 0 := by simp [hcs.size]
    have hlast : hd.last = some b.node := by simp [hcs.last]
    obtain ⟨n, hn, -⟩ := hcs.node_mem (c := b) (by simp)
    have hrun : h.metricListConcat head tail
        = some (((h.setNode b.node { n with next := tl.first }).setList head
            { size := hd.size + tl.size
              dataSize := hd.dataSize + tl.dataSize
              first := hd.first, last := tl.last }).metricListInit tail) := by
      simp [Heap.metricListConcat, hhd, htl, htsize, hsize, hlast, hn]
    have hown : IsList (h.setNode b.node { n with next := tl.first })
        { size := hd.size + tl.size, dataSize := hd.dataSize + tl.dataSize
          first := hd.first, last := tl.last } (bs ++ [b] ++ (es ++ [e])) := by
      refine hcs.append hds hsep (hcs.link hds hn hsep) ?_ rfl
      rw [← List.append_assoc, List.getLast?_concat, htlast]
      rfl
    refine ⟨_, hrun, hr.handOver hne hhead htail rfl rfl (fun a ha => ?_)
      (hr.fresh.setNode (hr.node_lt hhead (by simp)) _) hown,
      ⟨rfl, rfl, rfl, Nat.le_refl _⟩⟩
    have : a ≠ b.node := fun e => ha (by simp [e])
    simp [this]

-- ================================================================== empty

/-- Release the nodes and the metrics of some cells, front to back. -/
def Heap.eraseCells (h : Heap) (cs : List Cell) : Heap :=
  cs.foldl (fun h c => (h.eraseMetric c.ptr).eraseNode c.node) h

@[simp] theorem eraseCells_cons (c : Cell) (cs : List Cell) :
    h.eraseCells (c :: cs)
      = ((h.eraseMetric c.ptr).eraseNode c.node).eraseCells cs := rfl

/-- What erasing cells does to each map of the heap. -/
theorem eraseCells_fields (h : Heap) (cs : List Cell) :
    (h.eraseCells cs).list = h.list ∧ (h.eraseCells cs).brk = h.brk
      ∧ (h.eraseCells cs).allocs = h.allocs
      ∧ (h.eraseCells cs).freed = h.freed ++ cs.map Cell.ptr
      ∧ (∀ a, (h.eraseCells cs).node a
          = if a ∈ cs.map Cell.node then none else h.node a)
      ∧ (∀ a, (h.eraseCells cs).metric a
          = if a ∈ cs.map Cell.ptr then none else h.metric a) := by
  induction cs generalizing h with
  | nil => simp [Heap.eraseCells]
  | cons c cs ih =>
      obtain ⟨hl, hb, ha, hf, hn, hm⟩ :=
        ih ((h.eraseMetric c.ptr).eraseNode c.node)
      rw [eraseCells_cons]
      refine ⟨hl, hb, ha, by simp [hf], fun a => ?_, fun a => ?_⟩
      · rw [hn]
        by_cases e : a = c.node <;> simp [e]
      · rw [hm]
        by_cases e : a = c.ptr <;> simp [e]

theorem Fresh.eraseCells (hf : Fresh h) (cs : List Cell) :
    Fresh (h.eraseCells cs) := by
  induction cs generalizing h with
  | nil => exact hf
  | cons c cs ih => exact ih ((hf.eraseMetric _).eraseNode _)

/-- The loop of `monikor_metric_list_empty` releases the cells it walks
and ends. -/
theorem metricListEmptyLoop_eq :
    ∀ (cs : List Cell) (h : Heap) (cur : Option Addr) (fuel : Nat),
      Chain Node.next Node.metric h.node cur (cs.map Cell.link) none →
      (∀ c ∈ cs, h.metric c.ptr = some c.metric) →
      (cs.map Cell.node).Nodup → (cs.map Cell.ptr).Nodup →
      cs.length < fuel →
      Heap.metricListEmptyLoop fuel h cur = some (h.eraseCells cs) := by
  intro cs
  induction cs with
  | nil =>
      intro h cur fuel hchain _ _ _ hfuel
      obtain rfl : cur = none := hchain
      cases fuel with
      | zero => omega
      | succ fuel => rfl
  | cons c cs ih =>
      intro h cur fuel hchain hm hnd hpd hfuel
      obtain ⟨rfl, n, hn, hnm, hrest⟩ := hchain
      rw [List.map_cons, List.nodup_cons] at hnd hpd
      cases fuel with
      | zero => omega
      | succ fuel =>
          have hc := hm c (List.mem_cons_self ..)
          have hfree : h.metricListNodeFree c.node
              = some ((h.eraseMetric c.ptr).eraseNode c.node) := by
            simp [Heap.metricListNodeFree, hn, Heap.metricFree, hc,
              Heap.freeNode, hnm]
          have hstep := ih ((h.eraseMetric c.ptr).eraseNode c.node) n.next fuel
            (hrest.update (by rw [map_link_fst]; exact hnd.1)) (by
              intro d hd
              have : d.ptr ≠ c.ptr := fun e =>
                hpd.1 (e ▸ List.mem_map_of_mem hd)
              simpa [this] using hm d (List.mem_cons_of_mem _ hd))
            hnd.2 hpd.2 (by simpa using hfuel)
          unfold Heap.metricListEmptyLoop
          simp only [hn, hfree, Option.bind_eq_bind, Option.bind_some, hstep,
            eraseCells_cons]

/-- `monikor_metric_list_empty` frees the list's metrics, in order. -/
theorem metricListEmpty_spec (hr : Rep h A) (hl : A l = some cs) :
    ∃ h', h.metricListEmpty l = some h'
      ∧ Rep h' (Function.update A l (some []))
      ∧ Frees h h' (cs.map Cell.ptr) := by
  obtain ⟨hdr, hh, hcs⟩ := hr.isList l cs hl
  obtain ⟨hlist, hbrk, hal, hfr, hn, hm⟩ := eraseCells_fields h cs
  have hrun : h.metricListEmpty l
      = some ((h.eraseCells cs).metricListInit l) := by
    have := metricListEmptyLoop_eq cs h hdr.first (h.brk + 1) hcs.chain
      hcs.contents hcs.nodup hcs.ptr_nodup
      (Nat.lt_succ_of_le (hr.length_le_brk hl))
    simp [Heap.metricListEmpty, hh, this]
  refine ⟨_, hrun, hr.modify cs (by simp [hl]) ?_
    ⟨_, Function.update_self .., isList_nil⟩ ?_ ?_ (by simp) (by simp) ?_,
    hfr, ?_, hal, Nat.le_of_eq hbrk.symm⟩
  · intro l' hne
    simp [Heap.metricListInit, hne, hlist]
  · intro a _ ha
    exact (hn a).trans (if_neg ha)
  · intro a _ ha
    exact (hm a).trans (if_neg ha)
  · exact (hr.fresh.eraseCells cs).setList (by
      rw [hbrk]
      exact hr.list_lt hl) _
  · intro a ha
    exact (hm a).trans (if_neg ha)

-- ============================================================== remove_if

/-- The list without one of its cells, once the others are linked. -/
theorem IsList.remove {hdr : MetricList} {ks rs : List Cell} {c : Cell}
    (hcs : IsList h hdr (ks ++ c :: rs))
    (hchain : Chain Node.next Node.metric h'.node
      ((ks ++ rs).head?.map Cell.node) ((ks ++ rs).map Cell.link) none)
    (hmetric : ∀ a, a ≠ c.ptr → h'.metric a = h.metric a) :
    IsList h'
      { first := (ks ++ rs).head?.map Cell.node
        last := (ks ++ rs).getLast?.map Cell.node
        size := hdr.size - 1
        dataSize := hdr.dataSize - metricNodeSize c.metric } (ks ++ rs) := by
  have hsub : (ks ++ rs).Sublist (ks ++ c :: rs) :=
    (List.Sublist.refl ks).append (List.sublist_cons_self c rs)
  exact {
    chain := hchain
    last := rfl
    size := by simp [hcs.size]
    dataSize := by
      simp only [hcs.dataSize, cellsSize_append, cellsSize_cons]
      omega
    contents := by
      intro d hd
      have hdc : d.ptr ≠ c.ptr :=
        fun e => hcs.notMem_others.2 (e ▸ List.mem_map_of_mem hd)
      rw [hmetric _ hdc, hcs.contents d (hsub.subset hd)]
    nodup := hcs.nodup.sublist (hsub.map _)
    ptr_nodup := hcs.ptr_nodup.sublist (hsub.map _) }

/-- Releasing a cell once the list is closed behind it. -/
theorem Rep.removed {ks rs : List Cell} {c : Cell} {h₂ : Heap}
    {hdr : MetricList} (hr : Rep h A) (hl : A l = some (ks ++ c :: rs))
    (hlist : h₂.list = h.list) (hmetric : h₂.metric = h.metric)
    (hfresh : Fresh h₂)
    (hnode : ∀ a, a ∉ (ks ++ c :: rs).map Cell.node → h₂.node a = h.node a)
    (hown : IsList (((h₂.setList l hdr).eraseMetric c.ptr).eraseNode c.node)
      hdr (ks ++ rs)) :
    Rep (((h₂.setList l hdr).eraseMetric c.ptr).eraseNode c.node)
      (Function.update A l (some (ks ++ rs))) := by
  obtain ⟨old, hh, -⟩ := hr.isList l _ hl
  have hsub : ∀ d ∈ ks ++ rs, d ∈ ks ++ c :: rs := by
    intro d hd
    rcases List.mem_append.mp hd with hd | hd <;> simp [hd]
  refine hr.modify (ks ++ c :: rs) (by simp [hl]) ?_ ⟨hdr, by simp, hown⟩
    ?_ ?_ (fun d hd => .inl (List.mem_map_of_mem (hsub d hd)))
    (fun d hd => .inl (List.mem_map_of_mem (hsub d hd))) ?_
  · intro l' hne
    simp [hne, hlist]
  · intro a _ ha
    have : a ≠ c.node := fun e => ha (by simp [e])
    simpa [this] using hnode a ha
  · intro a _ ha
    have : a ≠ c.ptr := fun e => ha (by simp [e])
    simp [this, hmetric]
  · exact ((hfresh.setList (hfresh.list_lt (hlist ▸ hh)) hdr).eraseMetric
      _).eraseNode _

/-- Removing one cell of a list: what the accepted branch of the loop of
`monikor_metric_list_remove_if` leaves. `prev` is the last cell kept so
far. -/
theorem removeNode_spec {ks rs : List Cell} {c : Cell} (hr : Rep h A)
    (hl : A l = some (ks ++ c :: rs)) :
    ∃ h', h.removeNode l (ks.getLast?.map Cell.node) c.node = some h'
      ∧ Rep h' (Function.update A l (some (ks ++ rs)))
      ∧ Frees h h' [c.ptr] := by
  obtain ⟨hdr, hh, hcs⟩ := hr.isList l _ hl
  obtain ⟨n, hn, hnm⟩ := hcs.node_mem (c := c) (by simp)
  have hcm := hcs.contents c (by simp)
  have hfirst := hcs.first_remove hn
  have hlast := hcs.last_remove ks
  have hout := hcs.notMem_others.1
  rcases List.eq_nil_or_concat' ks with rfl | ⟨ks, k, rfl⟩
  · -- the head of the list: only the header changes
    have hrun : h.removeNode l none c.node = some
        (((h.setList l
          { first := if hdr.first = some c.node then n.next else hdr.first
            last := if hdr.last = some c.node then none else hdr.last
            size := hdr.size - 1
            dataSize := hdr.dataSize - metricNodeSize c.metric }).eraseMetric
          c.ptr).eraseNode c.node) := by
      simp [Heap.removeNode, hn, hh, hcs.nodeSize (c := c) (by simp),
        Heap.metricFree, hnm, hcm, Heap.freeNode]
    have hlast' : (if hdr.last = some c.node then none else hdr.last)
        = ([] ++ rs).getLast?.map Cell.node := by simpa using hlast
    obtain ⟨-, v, hv, -, hrest⟩ := hcs.head
    obtain rfl : n = v := Option.some.inj (hn.symm.trans hv)
    have hstart : n.next = ([] ++ rs).head?.map Cell.node := by
      simpa [Function.comp_def] using hrest.start
    have hcn : c.node ∉ (rs.map Cell.link).map Prod.fst := by
      rwa [map_link_fst]
    refine ⟨_, hrun, ?_, rfl, fun a ha => ?_, rfl, Nat.le_refl _⟩
    case refine_2 =>
        have : a ≠ c.ptr := by simpa using ha
        simp [this]
    apply hr.removed hl rfl rfl hr.fresh (fun _ _ => rfl)
    rw [hfirst, hlast']
    exact hcs.remove (hstart ▸ hrest.update hcn) fun a ha => by simp [ha]
  · -- an inner or last cell: its predecessor's link changes too
    obtain ⟨kn, hkn, hkm⟩ := hcs.node_mem (c := k) (by simp)
    have hkc : k.node ≠ c.node := fun e => hout (by simp [← e])
    have hprev : (ks ++ [k]).getLast?.map Cell.node = some k.node := by
      rw [List.getLast?_concat]
      rfl
    have hrun : h.removeNode l (some k.node) c.node = some
        ((((h.setNode k.node { kn with next := n.next }).setList l
          { first := if hdr.first = some c.node then n.next else hdr.first
            last := if hdr.last = some c.node then some k.node else hdr.last
            size := hdr.size - 1
            dataSize := hdr.dataSize - metricNodeSize c.metric }).eraseMetric
          c.ptr).eraseNode c.node) := by
      simp [Heap.removeNode, hn, hh, hkn, Heap.nodeSize,
        Function.update_of_ne (Ne.symm hkc), Heap.metricFree, hnm, hcm,
        Heap.freeNode]
    have hunlink : Chain Node.next Node.metric
        (Function.update h.node k.node (some { kn with next := n.next }))
        hdr.first ((ks ++ [k] ++ rs).map Cell.link) none := by
      have hall := hcs.chain
      have hnd := hcs.nodup
      rw [← map_link_fst] at hnd
      simp only [List.append_assoc, List.cons_append, List.nil_append,
        List.map_append, List.map_cons, Cell.link] at hall hnd ⊢
      refine hall.unlink ?_ hn hkm rfl
      simpa [List.map_append, List.map_cons] using hnd
    have hhead : hdr.first = (ks ++ [k] ++ rs).head?.map Cell.node := by
      simpa [Function.comp_def] using hunlink.start
    rw [hprev] at hlast
    rw [hprev]
    refine ⟨_, hrun, ?_, rfl, fun a ha => ?_, rfl, Nat.le_refl _⟩
    case refine_2 =>
        have : a ≠ c.ptr := by simpa using ha
        simp [this]
    refine hr.removed hl rfl rfl
      (hr.fresh.setNode (hr.node_lt hl (by simp)) _) (fun a ha => ?_) ?_
    · have : a ≠ k.node := fun e => ha (by simp [e])
      simp [this]
    · rw [hfirst, hlast]
      refine hcs.remove ?_ fun a ha => by simp [ha]
      rw [← hhead]
      exact hunlink.update (by rwa [map_link_fst])

/-- `monikor_metric_list_remove_if` from inside its loop: `ks` is what it
has kept, `rs` what it has not visited. It frees what it does not keep. -/
theorem metricListRemoveIfLoop_spec {σ : Type}
    (f : σ → Metric → Bool × σ) :
    ∀ (rs ks : List Cell) (h : Heap) (A : Lists) (data : σ) (n fuel : Nat),
      Rep h A → A l = some (ks ++ rs) → rs.length < fuel →
      ∃ h' ps, Heap.metricListRemoveIfLoop f fuel h l
          (ks.getLast?.map Cell.node) (rs.head?.map Cell.node) data n
          = some (n + (Seq.metricListRemoveIf (fun s c => f s c.metric)
              data rs).2, h')
        ∧ Rep h' (Function.update A l (some (ks
            ++ (Seq.metricListRemoveIf (fun s c => f s c.metric) data rs).1)))
        ∧ Frees h h' ps
        ∧ (rs.map Cell.ptr).Perm ((Seq.metricListRemoveIf
            (fun s c => f s c.metric) data rs).1.map Cell.ptr ++ ps) := by
  intro rs
  induction rs with
  | nil =>
      intro ks h A data n fuel hr hl hfuel
      cases fuel with
      | zero => omega
      | succ fuel =>
          refine ⟨h, [], rfl, ?_, ⟨by simp, fun _ _ => rfl, rfl, Nat.le_refl _⟩,
            List.Perm.refl _⟩
          unfold Seq.metricListRemoveIf
          simp only [← hl, Function.update_eq_self]
          exact hr
  | cons c rs ih =>
      intro ks h A data n fuel hr hl hfuel
      obtain ⟨hdr, hh, hcs⟩ := hr.isList l _ hl
      obtain ⟨nd, hnd, hnm⟩ := hcs.node_mem (c := c) (by simp)
      have hcm := hcs.contents c (by simp)
      have hnext : nd.next = rs.head?.map Cell.node := by
        have hchain := hcs.chain
        rw [List.map_append, List.map_cons] at hchain
        obtain ⟨r, -, -, v, hv, -, hrest⟩ := chain_append.mp hchain
        obtain rfl : nd = v := by simpa [hnd] using hv
        simpa [Function.comp_def] using hrest.start
      cases fuel with
      | zero => omega
      | succ fuel =>
          have hfuel' : rs.length < fuel := by simpa using hfuel
          simp only [List.head?_cons, Option.map_some,
            Heap.metricListRemoveIfLoop, Seq.metricListRemoveIf, hnd, hnm,
            hcm, Option.bind_eq_bind, Option.bind_some, hnext]
          cases hf : f data c.metric with
          | mk accept data' =>
              cases accept with
              | true =>
                  obtain ⟨h₁, hrun₁, hr₁, hf₁⟩ := removeNode_spec hr hl
                  obtain ⟨h₂, ps, hrun₂, hr₂, hf₂, hperm⟩ :=
                    ih ks h₁ _ data' (n + 1) fuel hr₁
                      (Function.update_self ..) hfuel'
                  refine ⟨h₂, c.ptr :: ps, ?_, ?_, hf₁.trans hf₂, ?_⟩
                  · simp only [hrun₁, Option.bind_some, hrun₂,
                      Nat.add_assoc, Nat.add_comm 1]
                  · simpa only [Function.update_idem] using hr₂
                  · exact (hperm.cons c.ptr).trans List.perm_middle.symm
              | false =>
                  have hl' : A l = some ((ks ++ [c]) ++ rs) := by
                    simpa using hl
                  obtain ⟨h₂, ps, hrun₂, hr₂, hf₂, hperm⟩ :=
                    ih (ks ++ [c]) h A data' n fuel hr hl' hfuel'
                  refine ⟨h₂, ps, ?_, ?_, hf₂, hperm.cons c.ptr⟩
                  · simpa using hrun₂
                  · simpa using hr₂

/-- `monikor_metric_list_remove_if` keeps what the predicate rejects, in
order, frees the rest, and returns how many it removed. -/
theorem metricListRemoveIf_spec {σ : Type} (f : σ → Metric → Bool × σ)
    (data : σ) (hr : Rep h A) (hl : A l = some cs) :
    ∃ h' ps, h.metricListRemoveIf f l data
        = some ((Seq.metricListRemoveIf (fun s c => f s c.metric)
            data cs).2, h')
      ∧ Rep h' (Function.update A l (some
          (Seq.metricListRemoveIf (fun s c => f s c.metric) data cs).1))
      ∧ Frees h h' ps
      ∧ (cs.map Cell.ptr).Perm ((Seq.metricListRemoveIf
          (fun s c => f s c.metric) data cs).1.map Cell.ptr ++ ps) := by
  obtain ⟨hdr, hh, hcs⟩ := hr.isList l _ hl
  have hstart : hdr.first = cs.head?.map Cell.node := by
    simpa [Function.comp_def] using hcs.chain.start
  obtain ⟨h', ps, hrun, hr', hf, hperm⟩ :=
    metricListRemoveIfLoop_spec f cs [] h A data 0 (h.brk + 1) hr hl
      (Nat.lt_succ_of_le (hr.length_le_brk hl))
  refine ⟨h', ps, ?_, hr', hf, hperm⟩
  unfold Heap.metricListRemoveIf
  rw [hh, Option.bind_eq_bind, Option.bind_some, hstart]
  simpa using hrun

end Monikor
