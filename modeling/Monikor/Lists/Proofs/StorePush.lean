/-
The store's pushes on pointers do to the lists' contents what the pushes
on sequences do.

The two loops of metric_store.c search a list and edit one node in place:
`monikor_metric_store_push_aggregate` overwrites the contents of the
node's metric, `monikor_metric_store_push_delta` makes the node point at
another metric. `IsList.replace` is the one fact both edits need: if the
new contents take as much room as the old, the list stays well formed
with its counters as they are.

The frame of a push (`PushFrame`) is what its caller may go on assuming:
metrics in no list keep their contents, and the lists gain no metric but
the pushed one and blocks allocated meanwhile.
-/
import Monikor.Lists.Proofs.Keys
import Monikor.Lists.Proofs.Ops

namespace Monikor

open Linked

variable {F : FloatOps} {h h' h'' : Heap} {A A' A'' : Lists} {l : Addr}
  {cs : List Cell} {p : Addr} {m : Metric} {st : StoreRef}

-- ================================================================= frames

/-- What a push of the metric at `p` leaves to its caller. -/
structure PushFrame (h : Heap) (A : Lists) (p : Addr) (h' : Heap)
    (A' : Lists) : Prop where
  keep : ∀ a, ¬ Listed A a → a ≠ p → a < h.brk → h'.metric a = h.metric a
  listed : ∀ a, Listed A' a → Listed A a ∨ a = p ∨ h.brk ≤ a
  allocs : h'.allocs = h.allocs

/-- A metric listed after a list was replaced is in the new list, or was
listed. -/
theorem Listed.of_update {cs' : List Cell} {a : Addr}
    (h : Listed (Function.update A l (some cs')) a) :
    a ∈ cs'.map Cell.ptr ∨ Listed A a := by
  obtain ⟨l', ds, hl', ha⟩ := h
  by_cases e : l' = l
  · subst e
    rw [Function.update_self] at hl'
    cases hl'
    exact .inl ha
  · rw [Function.update_of_ne e] at hl'
    exact .inr ⟨l', ds, hl', ha⟩

/-- A metric listed after one cell was replaced is the new cell's, or was
listed. -/
theorem Listed.of_replace {pre post : List Cell} {c c' : Cell} {a : Addr}
    (hl : A l = some (pre ++ c :: post))
    (h : Listed (Function.update A l (some (pre ++ c' :: post))) a) :
    a = c'.ptr ∨ Listed A a := by
  rcases h.of_update with ha | ha
  · simp only [List.map_append, List.mem_append, List.map_cons,
      List.mem_cons] at ha
    rcases ha with ha | ha | ha
    · exact .inr ⟨_, _, hl, by simp [ha]⟩
    · exact .inl ha
    · exact .inr ⟨_, _, hl, by simp [ha]⟩
  · exact .inr ha

/-- A heap that differs in unlisted metrics only holds the same lists. -/
theorem Rep.congr (hr : Rep h A) (hl : h'.list = h.list)
    (hn : h'.node = h.node) (hm : ∀ a, Listed A a → h'.metric a = h.metric a)
    (hf : Fresh h') : Rep h' A where
  isList := by
    intro l cs hA
    obtain ⟨hdr, hh, hcs⟩ := hr.isList l cs hA
    refine ⟨hdr, hl ▸ hh, hcs.congr (fun c _ => congrFun hn _) ?_⟩
    exact fun c hc => hm _ ⟨l, cs, hA, List.mem_map_of_mem hc⟩
  absent := fun l hA => hl ▸ hr.absent l hA
  sep := hr.sep
  fresh := hf

/-- Allocation outcomes are no part of what a heap holds. -/
theorem Rep.withAllocs (hr : Rep h A) (allocs : Nat → Bool) :
    Rep { h with allocs } A :=
  hr.congr rfl rfl (fun _ _ => rfl)
    ⟨hr.fresh.node, hr.fresh.metric, hr.fresh.list⟩

/-- Allocating a metric: the next block takes the contents. -/
theorem Fresh.setMetric_bump (hf : Fresh h) (m : Metric) :
    Fresh (h.setMetric h.brk m).bump where
  node := fun a ha => hf.node a (Nat.le_of_succ_le ha)
  metric := fun a ha => by
    have : a ≠ h.brk := Nat.ne_of_gt ha
    simpa [this] using hf.metric a (Nat.le_of_succ_le ha)
  list := fun a ha => hf.list a (Nat.le_of_succ_le ha)

/-- Rewriting a live metric leaves what is unused unused. -/
theorem Fresh.setMetric (hf : Fresh h) {a : Addr} (ha : a < h.brk)
    (m : Metric) : Fresh (h.setMetric a m) where
  node := hf.node
  metric := fun b hb => by
    have : b ≠ a := Nat.ne_of_gt (Nat.lt_of_lt_of_le ha hb)
    simpa [this] using hf.metric b hb
  list := hf.list

theorem metricBuild_ok (ha : AllocsOk h) (m : Metric) :
    h.metricBuild m = (some h.brk, (h.setMetric h.brk m).bump) := by
  unfold Heap.metricBuild
  rw [malloc_ok ha]
  simp only [malloc_ok ha]
  cases m.value <;> rfl

/-- A new metric disturbs no list and no metric there is. -/
theorem Rep.setMetric_bump (hr : Rep h A) (m : Metric) :
    Rep ((h.setMetric h.brk m).bump) A
      ∧ ∀ p x, h.metric p = some x →
          ((h.setMetric h.brk m).bump).metric p = some x := by
  have hkeep : ∀ p x, h.metric p = some x →
      ((h.setMetric h.brk m).bump).metric p = some x := by
    intro p x hx
    have : p ≠ h.brk := Nat.ne_of_lt (hr.metric_lt hx)
    simpa [this] using hx
  refine ⟨hr.congr rfl rfl ?_ (hr.fresh.setMetric_bump m), hkeep⟩
  intro a ha
  obtain ⟨x, hx⟩ := hr.listed_live ha
  rw [hkeep a x hx, hx]

-- ========================================================= in-place edits

/-- Overwriting one cell in place, by one that takes as much room. -/
theorem IsList.replace {hdr : MetricList} {pre post : List Cell} {c c' : Cell}
    {n : Node} (hcs : IsList h hdr (pre ++ c :: post))
    (hn : h.node c.node = some n)
    (hnode : h'.node
      = Function.update h.node c.node (some { n with metric := c'.ptr }))
    (hc' : c'.node = c.node) (hcont : h'.metric c'.ptr = some c'.metric)
    (hothers : ∀ d ∈ pre ++ post, h'.metric d.ptr = h.metric d.ptr)
    (hsize : metricNodeSize c'.metric = metricNodeSize c.metric)
    (hptr : c'.ptr ∉ (pre ++ post).map Cell.ptr) :
    IsList h' hdr (pre ++ c' :: post) where
  chain := by
    have hchain := hcs.chain
    have hnd := hcs.nodup
    rw [← map_link_fst] at hnd
    rw [List.map_append, List.map_cons] at hchain hnd ⊢
    rw [hnode, show c'.link = (c.node, c'.ptr) from by
      rw [Cell.link, hc']]
    exact hchain.repayload hnd hn rfl rfl
  last := by
    rw [hcs.last]
    rcases List.eq_nil_or_concat' post with rfl | ⟨qs, q, rfl⟩
    · simp [hc']
    · rw [← List.cons_append, ← List.append_assoc, List.getLast?_concat,
        ← List.cons_append, ← List.append_assoc, List.getLast?_concat]
  size := by simp [hcs.size]
  dataSize := by simp [hcs.dataSize, hsize]
  contents := by
    intro d hd
    rcases List.mem_append.mp hd with hd' | hd'
    · rw [hothers d (by simp [hd'])]
      exact hcs.contents d (by simp [hd'])
    · rcases List.mem_cons.mp hd' with rfl | hd'
      · exact hcont
      · rw [hothers d (by simp [hd'])]
        exact hcs.contents d (by simp [hd'])
  nodup := by
    have := hcs.nodup
    simpa only [List.map_append, List.map_cons, hc'] using this
  ptr_nodup := by
    have := hcs.ptr_nodup
    rw [List.map_append, List.map_cons] at this ⊢
    have hrest := (List.nodup_cons.mp (List.nodup_middle.mp this)).2
    rw [← List.map_append] at hrest
    refine List.nodup_middle.mpr (List.nodup_cons.mpr ⟨?_, ?_⟩)
    · rwa [← List.map_append]
    · rwa [← List.map_append]

/-- The metrics of a list are pairwise different. -/
theorem IsList.ptr_ne {hdr : MetricList} {pre post : List Cell} {c d : Cell}
    (hcs : IsList h hdr (pre ++ c :: post)) (hd : d ∈ pre ++ post) :
    d.ptr ≠ c.ptr :=
  fun e => hcs.notMem_others.2 (e ▸ List.mem_map_of_mem hd)

/-- An in-place edit of one cell re-establishes the lists with that cell
replaced. -/
theorem Rep.replace {pre post : List Cell} {c c' : Cell} {n : Node}
    (hr : Rep h A) (hl : A l = some (pre ++ c :: post))
    (hlist : h'.list = h.list) (hn : h.node c.node = some n)
    (hnode : h'.node
      = Function.update h.node c.node (some { n with metric := c'.ptr }))
    (hc' : c'.node = c.node) (hcont : h'.metric c'.ptr = some c'.metric)
    (hkeep : ∀ a, Listed A a → a ≠ c.ptr → h'.metric a = h.metric a)
    (hsize : metricNodeSize c'.metric = metricNodeSize c.metric)
    (hptr : c'.ptr = c.ptr ∨ ¬ Listed A c'.ptr) (hfresh : Fresh h') :
    Rep h' (Function.update A l (some (pre ++ c' :: post))) := by
  obtain ⟨hdr, hh, hcs⟩ := hr.isList l _ hl
  have hmem : ∀ d ∈ pre ++ post, d ∈ pre ++ c :: post := by
    intro d hd
    rcases List.mem_append.mp hd with hd | hd <;> simp [hd]
  have hothers : ∀ d ∈ pre ++ post, h'.metric d.ptr = h.metric d.ptr :=
    fun d hd => hkeep _ ⟨l, _, hl, List.mem_map_of_mem (hmem d hd)⟩
      (hcs.ptr_ne hd)
  have hptr' : c'.ptr ∉ (pre ++ post).map Cell.ptr := by
    intro hm
    obtain ⟨d, hd, he⟩ := List.mem_map.mp hm
    rcases hptr with e | hun
    · exact hcs.ptr_ne hd (he.trans e)
    · exact hun ⟨l, _, hl, he ▸ List.mem_map_of_mem (hmem d hd)⟩
  have hin : ∀ d ∈ pre ++ c' :: post, d = c' ∨ d ∈ pre ++ post := by
    intro d hd
    rcases List.mem_append.mp hd with hd | hd
    · exact .inr (by simp [hd])
    · rcases List.mem_cons.mp hd with rfl | hd
      · exact .inl rfl
      · exact .inr (by simp [hd])
  refine hr.modify (pre ++ c :: post) (by simp [hl])
    (fun l' _ => congrFun hlist l')
    ⟨hdr, hlist ▸ hh, hcs.replace hn hnode hc' hcont hothers hsize hptr'⟩
    ?_ ?_ ?_ ?_ hfresh
  · intro a _ ha
    have : a ≠ c.node := fun e => ha (by simp [e])
    rw [hnode, Function.update_of_ne this]
  · intro a hla ha
    exact hkeep a hla fun e => ha (by simp [e])
  · intro d hd
    rcases hin d hd with rfl | hd
    · exact .inl (by simp [hc'])
    · exact .inl (List.mem_map_of_mem (hmem d hd))
  · intro d hd
    rcases hin d hd with rfl | hd
    · rcases hptr with e | hun
      · exact .inl (by simp [e])
      · exact .inr hun
    · exact .inl (List.mem_map_of_mem (hmem d hd))

-- ================================================================ the loops

/-- The first part of a list, too, is within the loops' fuel. -/
private theorem length_le_of_append {pre rest : List Cell} (hr : Rep h A)
    (hl : A l = some (pre ++ rest)) : pre.length ≤ h.brk :=
  Nat.le_trans (by simp) (hr.length_le_brk hl)

/-- The loop of `monikor_metric_store_push_aggregate` steps over the
nodes that do not take the metric. -/
theorem pushAggregateLoop_skip (hp : h.metric p = some m) :
    ∀ (pre rest : List Cell) (node : Option Addr) (fuel : Nat),
      Chain Node.next Node.metric h.node node ((pre ++ rest).map Cell.link)
        none →
      (∀ c ∈ pre, h.metric c.ptr = some c.metric
        ∧ aggregatedSum F m c.metric = none) →
      Heap.pushAggregateLoop F (pre.length + fuel) h st p node
        = Heap.pushAggregateLoop F fuel h st p
            (rest.head?.map Cell.node) := by
  intro pre
  induction pre with
  | nil =>
      intro rest node fuel hchain _
      have : node = rest.head?.map Cell.node := by
        simpa [Function.comp_def] using hchain.start
      simp [this]
  | cons c pre ih =>
      intro rest node fuel hchain hpre
      obtain ⟨rfl, n, hn, hnm, hrest⟩ := hchain
      obtain ⟨hcm, hsum⟩ := hpre c (List.mem_cons_self ..)
      rw [← ih rest n.next fuel hrest
        fun d hd => hpre d (List.mem_cons_of_mem _ hd)]
      rw [List.length_cons, Nat.add_right_comm]
      simp [Heap.pushAggregateLoop, hn, hnm, hcm, hp, hsum]

/-- The loop of `monikor_metric_store_push_delta` steps over the nodes
that do not match the metric. -/
theorem pushDeltaLoop_skip (hp : h.metric p = some m) :
    ∀ (pre rest : List Cell) (node : Option Addr) (fuel : Nat),
      Chain Node.next Node.metric h.node node ((pre ++ rest).map Cell.link)
        none →
      (∀ c ∈ pre, h.metric c.ptr = some c.metric
        ∧ isCachedMetric m c.metric = false) →
      Heap.pushDeltaLoop F (pre.length + fuel) h st p node
        = Heap.pushDeltaLoop F fuel h st p (rest.head?.map Cell.node) := by
  intro pre
  induction pre with
  | nil =>
      intro rest node fuel hchain _
      have : node = rest.head?.map Cell.node := by
        simpa [Function.comp_def] using hchain.start
      simp [this]
  | cons c pre ih =>
      intro rest node fuel hchain hpre
      obtain ⟨rfl, n, hn, hnm, hrest⟩ := hchain
      obtain ⟨hcm, hcached⟩ := hpre c (List.mem_cons_self ..)
      rw [← ih rest n.next fuel hrest
        fun d hd => hpre d (List.mem_cons_of_mem _ hd)]
      rw [List.length_cons, Nat.add_right_comm]
      simp [Heap.pushDeltaLoop, hn, hnm, hcm, hp, hcached]

/-- `monikor_metric_store_push_aggregate` once its loop has passed the
cells `pre`. -/
theorem metricStorePushAggregate_skip (pre rest : List Cell) (hr : Rep h A)
    (hl : A st.current = some (pre ++ rest)) (hp : h.metric p = some m)
    (hpre : ∀ c ∈ pre, aggregatedSum F m c.metric = none) :
    h.metricStorePushAggregate F st p
      = Heap.pushAggregateLoop F (h.brk - pre.length + 1) h st p
          (rest.head?.map Cell.node) := by
  obtain ⟨hdr, hh, hcs⟩ := hr.isList _ _ hl
  unfold Heap.metricStorePushAggregate
  rw [hh, Option.bind_eq_bind,
    Option.bind_some, ← pushAggregateLoop_skip hp pre rest hdr.first _
      hcs.chain fun c hc => ⟨hcs.contents c (by simp [hc]), hpre c hc⟩]
  rw [← Nat.add_assoc, Nat.add_sub_cancel' (length_le_of_append hr hl)]

/-- `monikor_metric_store_push_delta` once its loop has passed the cells
`pre`. -/
theorem metricStorePushDelta_skip (pre rest : List Cell) (hr : Rep h A)
    (hl : A st.delta = some (pre ++ rest)) (hp : h.metric p = some m)
    (hpre : ∀ c ∈ pre, isCachedMetric m c.metric = false) :
    h.metricStorePushDelta F st p
      = Heap.pushDeltaLoop F (h.brk - pre.length + 1) h st p
          (rest.head?.map Cell.node) := by
  obtain ⟨hdr, hh, hcs⟩ := hr.isList _ _ hl
  unfold Heap.metricStorePushDelta
  rw [hh, Option.bind_eq_bind,
    Option.bind_some, ← pushDeltaLoop_skip hp pre rest hdr.first _
      hcs.chain fun c hc => ⟨hcs.contents c (by simp [hc]), hpre c hc⟩]
  rw [← Nat.add_assoc, Nat.add_sub_cancel' (length_le_of_append hr hl)]

-- ================================================================== push

/-- Appending the pushed metric to one list of the store. -/
theorem PushFrame.push (hl : A l = some cs) (hq : Quiet h h') :
    PushFrame h A p h'
      (Function.update A l (some (cs ++ [⟨h.brk, p, m⟩]))) where
  keep := fun a _ _ _ => congrFun hq.metric a
  listed := by
    intro a ha
    rcases ha.of_update with ha | ha
    · simp only [List.map_append, List.mem_append, List.map_cons,
        List.map_nil, List.mem_singleton] at ha
      rcases ha with ha | rfl
      · exact .inl ⟨l, cs, hl, ha⟩
      · exact .inr (.inl rfl)
    · exact .inl ha
  allocs := hq.allocs

/-- The run of `monikor_metric_store_push_aggregate` that finds a node to
add into: the node's metric takes the sum, and the pushed one is freed. -/
theorem metricStorePushAggregate_hit {pre post : List Cell} {c : Cell}
    {sum : Metric} (hr : Rep h A)
    (hl : A st.current = some (pre ++ c :: post)) (hp : h.metric p = some m)
    (hu : ¬ Listed A p) (hpre : ∀ d ∈ pre, aggregatedSum F m d.metric = none)
    (hsum : aggregatedSum F m c.metric = some sum) :
    h.metricStorePushAggregate F st p
      = some (0, (h.setMetric c.ptr sum).eraseMetric p) := by
  obtain ⟨hdr, -, hcs⟩ := hr.isList _ _ hl
  obtain ⟨n, hn, hnm⟩ := hcs.node_mem (c := c) (by simp)
  have hcm := hcs.contents c (by simp)
  have hcp : c.ptr ≠ p := by
    intro heq
    subst heq
    exact hu ⟨_, _, hl, by simp⟩
  rw [metricStorePushAggregate_skip pre (c :: post) hr hl hp hpre]
  simp [Heap.pushAggregateLoop, hn, hnm, hcm, hp, hsum,
    Heap.metricFree, Function.update_of_ne (Ne.symm hcp)]

/-- `monikor_metric_store_push_aggregate` on pointers and on sequences. -/
theorem metricStorePushAggregate_spec (s : Store Metric) (hr : Rep h A)
    (ha : AllocsOk h) (hl : A st.current = some cs)
    (hs : s.current = cs.map Cell.metric) (hp : h.metric p = some m)
    (hu : ¬ Listed A p) :
    ∃ h' cs', h.metricStorePushAggregate F st p
        = some ((Seq.metricStorePushAggregate F s m).1, h')
      ∧ Rep h' (Function.update A st.current (some cs'))
      ∧ Seq.metricStorePushAggregate F s m
        = (0, { s with current := cs'.map Cell.metric })
      ∧ PushFrame h A p h' (Function.update A st.current (some cs')) := by
  obtain ⟨hdr, -, hcs⟩ := hr.isList _ cs hl
  unfold Seq.metricStorePushAggregate
  rw [hs]
  cases hf : replaceFirst (aggregatedSum F m) (cs.map Cell.metric) with
  | none =>
      have hall : ∀ c ∈ cs, aggregatedSum F m c.metric = none := by
        intro c hc
        exact replaceFirst_eq_none.mp hf _ (List.mem_map_of_mem hc)
      obtain ⟨h', hrun, hr', hq⟩ := metricListPush_spec hr ha hl hp hu
      refine ⟨h', _, ?_, hr', by simp [Seq.metricListPush],
        PushFrame.push hl hq⟩
      rw [metricStorePushAggregate_skip cs [] hr (by simpa using hl)
        hp hall]
      exact hrun
  | some r =>
      obtain ⟨x, ys⟩ := r
      obtain ⟨pre', post', sum, hsplit, rfl, hpre', hsum⟩ :=
        replaceFirst_eq_some hf
      -- the same split, on cells
      obtain ⟨pre, rest, rfl, rfl, hrest⟩ := List.map_eq_append_iff.mp hsplit
      obtain ⟨c, post, rfl, rfl, rfl⟩ := List.map_eq_cons_iff.mp hrest
      obtain ⟨n, hn, hnm⟩ := hcs.node_mem (c := c) (by simp)
      have hcm := hcs.contents c (by simp)
      have hcp : c.ptr ≠ p := by
        intro heq
        subst heq
        exact hu ⟨_, _, hl, by simp⟩
      have hrun := metricStorePushAggregate_hit hr hl hp hu
        (fun d hd => hpre' _ (List.mem_map_of_mem hd)) hsum
      refine ⟨_, pre ++ { c with metric := sum } :: post, hrun, ?_, by simp,
        ?_⟩
      · refine hr.replace (n := n) hl rfl hn ?_ rfl ?_ ?_ ?_ (.inl rfl)
          ((hr.fresh.setMetric (hr.metric_lt hcm) sum).eraseMetric p)
        · change h.node = _
          rw [← hnm, ← hn, Function.update_eq_self]
        · simp [Function.update_of_ne hcp]
        · intro a hla hac
          have hap : a ≠ p := by
            intro heq
            subst heq
            exact hu hla
          simp [hap, hac]
        · exact metricNodeSize_aggregatedSum hsum
      · constructor
        · intro a hla hap _
          have hac : a ≠ c.ptr := by
            intro heq
            subst heq
            exact hla ⟨_, _, hl, by simp⟩
          simp [hap, hac]
        · intro a hla
          rcases hla.of_replace hl with rfl | hla
          · exact .inl ⟨_, _, hl, by simp⟩
          · exact .inl hla
        · rfl

/-- The branches past the DELTA test, on pointers and on sequences. -/
theorem metricStorePushComputed_spec (s : Store Metric) (hr : Rep h A)
    (ha : AllocsOk h) (hl : A st.current = some cs)
    (hs : s.current = cs.map Cell.metric) (hp : h.metric p = some m)
    (hu : ¬ Listed A p) :
    ∃ h' cs', h.metricStorePushComputed F st p = some (0, h')
      ∧ Rep h' (Function.update A st.current (some cs'))
      ∧ Seq.metricStorePushComputed F s m
        = (0, { s with current := cs'.map Cell.metric })
      ∧ PushFrame h A p h' (Function.update A st.current (some cs')) := by
  unfold Heap.metricStorePushComputed Seq.metricStorePushComputed
  simp only [hp, Option.bind_eq_bind, Option.bind_some]
  cases hagg : m.isAggregate with
  | true =>
      obtain ⟨h', cs', hrun, hr', hseq, hfr⟩ :=
        metricStorePushAggregate_spec (F := F) s hr ha hl hs hp hu
      exact ⟨h', cs', by simpa [hseq] using hrun, hr', by simpa using hseq, hfr⟩
  | false =>
      obtain ⟨h', hrun, hr', hq⟩ := metricListPush_spec hr ha hl hp hu
      exact ⟨h', _, by simpa using hrun, hr',
        by simp [Seq.metricListPush, hs], PushFrame.push hl hq⟩

/-- `monikor_metric_compute_delta` when there is a difference: one new
metric, holding it. -/
theorem metricComputeDelta_some {a b : Addr} {x y r : Metric}
    (ha : AllocsOk h) (hx : h.metric a = some x) (hy : h.metric b = some y)
    (hd : metricComputeDelta F x y = some r) :
    h.metricComputeDelta F a b
      = some (some h.brk, (h.setMetric h.brk r).bump) := by
  have htype := metricComputeDelta_type hd
  simp [Heap.metricComputeDelta, hx, hy, htype, Heap.metricClone,
    metricBuild_ok ha, hd, Heap.setMetric, Heap.bump]

/-- `monikor_metric_compute_delta` when there is none: a clone it made is
released again. -/
theorem metricComputeDelta_none {a b : Addr} {x y : Metric} (hf : Fresh h)
    (ha : AllocsOk h) (hx : h.metric a = some x) (hy : h.metric b = some y)
    (hd : metricComputeDelta F x y = none) :
    ∃ h', h.metricComputeDelta F a b = some (none, h') ∧ h'.list = h.list
      ∧ h'.node = h.node ∧ h'.metric = h.metric ∧ h'.allocs = h.allocs
      ∧ Fresh h' := by
  by_cases htype : x.type = y.type
  · refine ⟨((h.setMetric h.brk x).bump).eraseMetric h.brk, ?_, rfl, rfl, ?_,
      rfl, (hf.setMetric_bump x).eraseMetric _⟩
    · simp [Heap.metricComputeDelta, hx, hy, htype, Heap.metricClone,
        metricBuild_ok ha, hd, Heap.metricFree]
    · change Function.update (Function.update h.metric h.brk (some x)) h.brk
        none = h.metric
      rw [Function.update_idem, ← hf.metric h.brk (Nat.le_refl _),
        Function.update_eq_self]
  · exact ⟨h, by simp [Heap.metricComputeDelta, hx, hy, htype], rfl, rfl, rfl,
      rfl, hf⟩

variable {cur del : List Cell} {s : Store Metric}

/-- What a push finds: the store's current and delta lists, and a live
metric that is in no list. -/
structure PushReady (h : Heap) (A : Lists) (st : StoreRef) (s : Store Metric)
    (cur del : List Cell) (p : Addr) (m : Metric) : Prop where
  rep : Rep h A
  allocs : AllocsOk h
  ne : st.current ≠ st.delta
  current : A st.current = some cur
  delta : A st.delta = some del
  currentMetrics : s.current = cur.map Cell.metric
  deltaMetrics : s.delta = del.map Cell.metric
  live : h.metric p = some m
  unlisted : ¬ Listed A p

/-- A push on pointers does what `r` says of the sequences. One that
returns a code leaves the metric with its caller. -/
def PushAgrees (h : Heap) (A : Lists) (st : StoreRef) (s : Store Metric)
    (p : Addr) (m : Metric) (run : Option (Int × Heap))
    (r : Int × Store Metric) : Prop :=
  ∃ rc h' cur' del' A', run = some (rc, h')
    ∧ A' = Function.update (Function.update A st.delta (some del'))
        st.current (some cur')
    ∧ Rep h' A'
    ∧ r = (rc, { s with current := cur'.map Cell.metric
                        delta := del'.map Cell.metric })
    ∧ PushFrame h A p h' A'
    ∧ (rc ≠ 0 → A' = A ∧ h'.metric p = some m)

/-- The first value of a counter: the metric becomes its baseline. -/
theorem pushDelta_first (hb : PushReady h A st s cur del p m)
    (hall : ∀ c ∈ del, isCachedMetric m c.metric = false) :
    PushAgrees h A st s p m (h.metricStorePushDelta F st p)
      (0, { s with delta := s.delta ++ [m] }) := by
  obtain ⟨h', hrun, hr', hq⟩ :=
    metricListPush_spec hb.rep hb.allocs hb.delta hb.live hb.unlisted
  have hcur : Function.update A st.delta
      (some (del ++ [⟨h.brk, p, m⟩])) st.current = some cur := by
    rw [Function.update_of_ne hb.ne]
    exact hb.current
  have hA : Function.update (Function.update A st.delta
      (some (del ++ [⟨h.brk, p, m⟩]))) st.current (some cur)
      = Function.update A st.delta (some (del ++ [⟨h.brk, p, m⟩])) :=
    Function.update_eq_self_iff.mpr hcur.symm
  refine ⟨0, h', cur, del ++ [⟨h.brk, p, m⟩], _, ?_, rfl, ?_, ?_, ?_,
    fun h0 => absurd rfl h0⟩
  · rw [metricStorePushDelta_skip del [] hb.rep (by simpa using hb.delta)
      hb.live hall]
    exact hrun
  · rwa [hA]
  · simp [← hb.currentMetrics, hb.deltaMetrics]
  · rw [hA]
    exact PushFrame.push hb.delta hq

section Match

variable {pre post : List Cell} {c : Cell}

/-- No difference to the baseline: nothing changes, and the metric stays
with the caller. -/
theorem pushDelta_none (hb : PushReady h A st s cur (pre ++ c :: post) p m)
    (hpre : ∀ d ∈ pre, isCachedMetric m d.metric = false)
    (hcached : isCachedMetric m c.metric = true)
    (hd : metricComputeDelta F c.metric m = none) :
    PushAgrees h A st s p m (h.metricStorePushDelta F st p) (-1, s) := by
  obtain ⟨hdr, -, hcs⟩ := hb.rep.isList _ _ hb.delta
  obtain ⟨n, hn, hnm⟩ := hcs.node_mem (c := c) (by simp)
  have hcm := hcs.contents c (by simp)
  obtain ⟨h', hrun, hlist, hnode, hmetric, hal, hfresh⟩ :=
    metricComputeDelta_none hb.rep.fresh hb.allocs hcm hb.live hd
  have hA : Function.update (Function.update A st.delta
      (some (pre ++ c :: post))) st.current (some cur) = A := by
    rw [← hb.delta, Function.update_eq_self, ← hb.current,
      Function.update_eq_self]
  refine ⟨-1, h', cur, pre ++ c :: post, A, ?_, hA.symm,
    hb.rep.congr hlist hnode (fun a _ => congrFun hmetric a) hfresh, ?_,
    ⟨fun a _ _ _ => congrFun hmetric a, fun a hl => .inl hl, hal⟩,
    fun _ => ⟨rfl, (congrFun hmetric p).trans hb.live⟩⟩
  · rw [metricStorePushDelta_skip pre (c :: post) hb.rep hb.delta hb.live hpre]
    simp [Heap.pushDeltaLoop, hn, hnm, hcm, hb.live, hcached, hrun]
  · rw [← hb.currentMetrics, ← hb.deltaMetrics]

/-- The heap once the pushed metric is the baseline: the old baseline is
freed, and the difference is in the next block. -/
theorem pushDelta_baseline {n : Node} {new : Metric}
    (hb : PushReady h A st s cur (pre ++ c :: post) p m)
    (hn : h.node c.node = some n) (hcm : h.metric c.ptr = some c.metric)
    (hcached : isCachedMetric m c.metric = true)
    (hd : metricComputeDelta F c.metric m = some new) :
    PushReady ((((h.setMetric h.brk new).bump).eraseMetric c.ptr).setNode
        c.node { n with metric := p })
      (Function.update A st.delta (some (pre ++ ⟨c.node, p, m⟩ :: post))) st
      { s with delta := (pre ++ ⟨c.node, p, m⟩ :: post).map Cell.metric }
      cur (pre ++ ⟨c.node, p, m⟩ :: post) h.brk new := by
  have hcl : Listed A c.ptr := ⟨_, _, hb.delta, by simp⟩
  have hcp : c.ptr ≠ p := fun e => hb.unlisted (e ▸ hcl)
  have hpb : p < h.brk := hb.rep.metric_lt hb.live
  have hcb : c.ptr < h.brk := hb.rep.metric_lt hcm
  constructor
  case rep =>
      refine hb.rep.replace (n := n) hb.delta rfl hn rfl rfl ?_ ?_ ?_
        (.inr hb.unlisted) ?_
      · simp [Function.update_of_ne (Ne.symm hcp),
          Function.update_of_ne (Nat.ne_of_lt hpb), hb.live]
      · intro a hla hac
        obtain ⟨x, hx⟩ := hb.rep.listed_live hla
        have hab : a ≠ h.brk := Nat.ne_of_lt (hb.rep.metric_lt hx)
        simp [hac, hab]
      · exact metricNodeSize_baseline hcached hd
      · exact ((hb.rep.fresh.setMetric_bump new).eraseMetric _).setNode
          (Nat.lt_succ_of_lt (hb.rep.node_lt hb.delta (by simp))) _
  case allocs => exact hb.allocs
  case ne => exact hb.ne
  case current =>
      rw [Function.update_of_ne hb.ne]
      exact hb.current
  case delta => exact Function.update_self ..
  case currentMetrics => exact hb.currentMetrics
  case deltaMetrics => rfl
  case live => simp [Function.update_of_ne (Nat.ne_of_gt hcb)]
  case unlisted =>
      intro hl
      rcases hl.of_replace hb.delta with hl | hl
      · exact Nat.ne_of_gt hpb hl
      · exact hb.rep.not_listed_brk hl

/-- The run of `monikor_metric_store_push_delta` that finds its baseline:
past the replacement, it pushes the difference. -/
theorem pushDelta_hit {n : Node} {new : Metric}
    (hb : PushReady h A st s cur (pre ++ c :: post) p m)
    (hpre : ∀ d ∈ pre, isCachedMetric m d.metric = false)
    (hcached : isCachedMetric m c.metric = true)
    (hd : metricComputeDelta F c.metric m = some new)
    (hn : h.node c.node = some n) (hnm : n.metric = c.ptr) :
    h.metricStorePushDelta F st p
      = ((((h.setMetric h.brk new).bump).eraseMetric c.ptr).setNode c.node
          { n with metric := p }).metricStorePushComputed F st h.brk := by
  obtain ⟨hdr, -, hcs⟩ := hb.rep.isList _ _ hb.delta
  have hcm := hcs.contents c (by simp)
  have hcb : c.ptr < h.brk := hb.rep.metric_lt hcm
  have hcompute := metricComputeDelta_some hb.allocs hcm hb.live hd
  rw [metricStorePushDelta_skip pre (c :: post) hb.rep hb.delta hb.live hpre]
  simp only [List.head?_cons, Option.map_some, Heap.pushDeltaLoop, hn, hnm,
    hcm, hb.live, hcached, Option.bind_eq_bind, Option.bind_some, if_true,
    hcompute]
  unfold Heap.metricFree
  simp only [Heap.bump_metric, Heap.setMetric_metric,
    Function.update_of_ne (Nat.ne_of_lt hcb), hcm, Option.bind_eq_bind,
    Option.bind_some, Option.pure_def]

/-- A difference: the pushed metric becomes the baseline, and the
difference is pushed as the computed metric it is. -/
theorem pushDelta_some {new : Metric}
    (hb : PushReady h A st s cur (pre ++ c :: post) p m)
    (hpre : ∀ d ∈ pre, isCachedMetric m d.metric = false)
    (hcached : isCachedMetric m c.metric = true)
    (hd : metricComputeDelta F c.metric m = some new) :
    PushAgrees h A st s p m (h.metricStorePushDelta F st p)
      (Seq.metricStorePushComputed F
        { s with delta := (pre ++ ⟨c.node, p, m⟩ :: post).map Cell.metric }
        new) := by
  obtain ⟨hdr, -, hcs⟩ := hb.rep.isList _ _ hb.delta
  obtain ⟨n, hn, hnm⟩ := hcs.node_mem (c := c) (by simp)
  have hcm := hcs.contents c (by simp)
  have hcl : Listed A c.ptr := ⟨_, _, hb.delta, by simp⟩
  have hb₂ := pushDelta_baseline (F := F) hb hn hcm hcached hd
  obtain ⟨h', cur', hrun, hr', hseq, hfr⟩ := metricStorePushComputed_spec
    (F := F) _ hb₂.rep hb₂.allocs hb₂.current hb₂.currentMetrics hb₂.live
    hb₂.unlisted
  refine ⟨0, h', cur', pre ++ ⟨c.node, p, m⟩ :: post, _, ?_, rfl, hr', hseq,
    ?_, fun h0 => absurd rfl h0⟩
  · rw [pushDelta_hit hb hpre hcached hd hn hnm]
    exact hrun
  · constructor
    · intro a hla hap hab
      have hac : a ≠ c.ptr := fun e => hla (e ▸ hcl)
      have hne : a ≠ h.brk := Nat.ne_of_lt hab
      rw [hfr.keep a ?_ hne (Nat.lt_succ_of_lt hab)]
      · simp [hac, hne]
      · intro hl
        rcases hl.of_replace hb.delta with hl | hl
        · exact hap hl
        · exact hla hl
    · intro a hl
      rcases hfr.listed a hl with hl | rfl | hge
      · exact (hl.of_replace hb.delta).symm.imp_right .inl
      · exact .inr (.inr (Nat.le_refl _))
      · exact .inr (.inr (Nat.le_of_succ_le hge))
    · exact hfr.allocs

end Match

/-- The search among the cells of the delta list. -/
theorem baseline_cells (m : Metric) (del : List Cell) :
    ((∀ c ∈ del, isCachedMetric m c.metric = false)
      ∧ replaceFirst (fun c => if isCachedMetric m c then some m else none)
          (del.map Cell.metric) = none)
    ∨ ∃ pre c post, del = pre ++ c :: post
      ∧ (∀ d ∈ pre, isCachedMetric m d.metric = false)
      ∧ isCachedMetric m c.metric = true
      ∧ replaceFirst (fun c => if isCachedMetric m c then some m else none)
          (del.map Cell.metric)
        = some (c.metric,
            pre.map Cell.metric ++ m :: post.map Cell.metric) := by
  rcases baseline_cases m (del.map Cell.metric) with
    ⟨hnone, hr⟩ | ⟨pre', stored, post', hsplit, hpre, hcached, hr⟩
  · exact .inl ⟨fun c hc => hnone _ (List.mem_map_of_mem hc), hr⟩
  · obtain ⟨pre, rest, rfl, rfl, hrest⟩ := List.map_eq_append_iff.mp hsplit
    obtain ⟨c, post, rfl, rfl, rfl⟩ := List.map_eq_cons_iff.mp hrest
    exact .inr ⟨pre, c, post, rfl,
      fun d hd => hpre _ (List.mem_map_of_mem hd), hcached, hr⟩

/-- `monikor_metric_store_push_delta` on pointers and on sequences. -/
theorem metricStorePushDelta_spec (hb : PushReady h A st s cur del p m) :
    PushAgrees h A st s p m (h.metricStorePushDelta F st p)
      (Seq.metricStorePushDelta F s m) := by
  unfold Seq.metricStorePushDelta
  rw [hb.deltaMetrics]
  rcases baseline_cells m del with
    ⟨hall, hf⟩ | ⟨pre, c, post, rfl, hpre, hcached, hf⟩
  · have hpush := pushDelta_first (F := F) hb hall
    rw [hb.deltaMetrics] at hpush
    rwa [hf]
  · rw [hf]
    cases hd : metricComputeDelta F c.metric m with
    | none =>
        simp only [hd]
        exact pushDelta_none hb hpre hcached hd
    | some new =>
        have hpush := pushDelta_some hb hpre hcached hd
        rw [List.map_append, List.map_cons] at hpush
        simp only [hd]
        exact hpush

/-- `monikor_metric_store_push` on pointers and on sequences. -/
theorem metricStorePush_spec (hb : PushReady h A st s cur del p m) :
    PushAgrees h A st s p m (h.metricStorePush F st p)
      (Seq.metricStorePush F s m) := by
  unfold Heap.metricStorePush Seq.metricStorePush
  simp only [hb.live, Option.bind_eq_bind, Option.bind_some]
  cases hdelta : m.isDelta with
  | true => simpa using metricStorePushDelta_spec hb
  | false =>
      obtain ⟨h', cur', hrun, hr', hseq, hfr⟩ :=
        metricStorePushComputed_spec (F := F) s hb.rep hb.allocs hb.current
          hb.currentMetrics hb.live hb.unlisted
      have hA : Function.update A st.delta (some del) = A := by
        rw [← hb.delta, Function.update_eq_self]
      refine ⟨0, h', cur', del, _, by simpa using hrun, rfl, ?_, ?_, ?_,
        fun h0 => absurd rfl h0⟩
      · rwa [hA]
      · simp [hseq, ← hb.deltaMetrics]
      · rwa [hA]

end Monikor
