/-
What it means that a heap holds given lists.

`Rep h A` says that the headers of `h` are exactly the addresses where
`A` is defined, that the header at `l` is a well-formed list with the
cells `A l` (`IsList`), and that no node and no metric is in two lists.
A `Cell` is everything a list position is: the node's address, the
metric it points at, and that metric's contents.

`Rep.modify` is the rule every operation goes through: an operation that
changes one list, and of the rest of the heap only blocks no list holds,
re-establishes `Rep` with that one list replaced.
-/
import Mathlib.Data.List.Nodup
import Mathlib.Data.List.Perm.Subperm
import Mathlib.Data.List.Range
import Monikor.Lib.Chain
import Monikor.Lists.Heap

namespace Monikor

open Linked

-- ============================================================ vocabulary

/-- One position of a list: its node, the metric the node points at, and
that metric's contents. -/
structure Cell where
  node : Addr
  ptr : Addr
  metric : Metric
deriving DecidableEq

/-- The node and its payload, as `Chain` sees them. -/
def Cell.link (c : Cell) : Addr × Addr := (c.node, c.ptr)

/-- The cells of every list of a heap, by the header's address. -/
abbrev Lists := Addr → Option (List Cell)

/-- The sum `data_size` tracks. -/
def cellsSize (cs : List Cell) : Nat :=
  (cs.map fun c => metricNodeSize c.metric).sum

/-- Some list holds the metric at `p`. -/
def Listed (A : Lists) (p : Addr) : Prop :=
  ∃ l cs, A l = some cs ∧ p ∈ cs.map Cell.ptr

/-- Some list holds the node at `a`. -/
def NodeListed (A : Lists) (a : Addr) : Prop :=
  ∃ l cs, A l = some cs ∧ a ∈ cs.map Cell.node

/-- All coming allocations succeed. -/
def AllocsOk (h : Heap) : Prop := h.allocs = fun _ => true

/-- A header together with the cells it leads through. -/
structure IsList (h : Heap) (hdr : MetricList) (cs : List Cell) : Prop where
  chain : Chain Node.next Node.metric h.node hdr.first (cs.map Cell.link) none
  last : hdr.last = cs.getLast?.map Cell.node
  size : hdr.size = cs.length
  dataSize : hdr.dataSize = cellsSize cs
  contents : ∀ c ∈ cs, h.metric c.ptr = some c.metric
  nodup : (cs.map Cell.node).Nodup
  ptr_nodup : (cs.map Cell.ptr).Nodup

/-- Blocks not handed out yet are not live. -/
structure Fresh (h : Heap) : Prop where
  node : ∀ a, h.brk ≤ a → h.node a = none
  metric : ∀ a, h.brk ≤ a → h.metric a = none
  list : ∀ a, h.brk ≤ a → h.list a = none

/-- The heap holds exactly the lists `A`, well formed and disjoint. -/
structure Rep (h : Heap) (A : Lists) : Prop where
  isList : ∀ l cs, A l = some cs → ∃ hdr, h.list l = some hdr
      ∧ IsList h hdr cs
  absent : ∀ l, A l = none → h.list l = none
  sep : ∀ l₁ l₂ cs₁ cs₂, A l₁ = some cs₁ → A l₂ = some cs₂ → l₁ ≠ l₂ →
    ∀ c₁ ∈ cs₁, ∀ c₂ ∈ cs₂, c₁.node ≠ c₂.node ∧ c₁.ptr ≠ c₂.ptr
  fresh : Fresh h

variable {h h' : Heap} {A : Lists} {l : Addr} {cs cs' : List Cell}
  {hdr : MetricList} {c : Cell} {p : Addr} {m : Metric}

@[simp] theorem Cell.link_fst (c : Cell) : c.link.1 = c.node := rfl

@[simp] theorem Cell.link_snd (c : Cell) : c.link.2 = c.ptr := rfl

@[simp] theorem cellsSize_nil : cellsSize [] = 0 := rfl

@[simp] theorem cellsSize_cons (c : Cell) (cs : List Cell) :
    cellsSize (c :: cs) = metricNodeSize c.metric + cellsSize cs := rfl

@[simp] theorem cellsSize_append (cs ds : List Cell) :
    cellsSize (cs ++ ds) = cellsSize cs + cellsSize ds := by
  simp [cellsSize]

theorem map_link_fst (cs : List Cell) :
    (cs.map Cell.link).map Prod.fst = cs.map Cell.node := by
  simp [Function.comp_def]

-- ==================================================== reading one list

namespace IsList

/-- The node of a cell is live and points at the cell's metric. -/
theorem node_mem (hl : IsList h hdr cs) (hc : c ∈ cs) :
    ∃ n, h.node c.node = some n ∧ n.metric = c.ptr := by
  obtain ⟨n, hn, hm⟩ := hl.chain.mem (List.mem_map_of_mem hc)
  exact ⟨n, hn, hm⟩

theorem nodeSize (hl : IsList h hdr cs) (hc : c ∈ cs) :
    h.nodeSize c.node = some (metricNodeSize c.metric) := by
  obtain ⟨n, hn, hm⟩ := hl.node_mem hc
  simp [Heap.nodeSize, hn, hm, hl.contents c hc]

/-- The first node of a non-empty list. -/
theorem head (hl : IsList h hdr (c :: cs)) :
    hdr.first = some c.node ∧ ∃ n, h.node c.node = some n
      ∧ n.metric = c.ptr
      ∧ Chain Node.next Node.metric h.node n.next (cs.map Cell.link) none :=
  hl.chain

theorem first_nil (hl : IsList h hdr []) : hdr.first = none := hl.chain

/-- `first` is NULL exactly when the list is empty. -/
theorem first_eq_none (hl : IsList h hdr cs) :
    hdr.first = none ↔ cs = [] := by
  cases cs with
  | nil => simp [hl.first_nil]
  | cons c cs => simp [hl.head.1]

/-- `last` is NULL exactly when the list is empty. -/
theorem last_eq_none (hl : IsList h hdr cs) :
    hdr.last = none ↔ cs = [] := by
  rw [hl.last]
  simp

/-- The last cell of a list is none of those in front of it. -/
theorem last_notMem {ds : List Cell} {d : Cell}
    (hl : IsList h hdr (ds ++ [d])) :
    d.node ∉ (ds.map Cell.link).map Prod.fst := by
  have hnd := hl.nodup
  rw [List.map_append, List.nodup_append] at hnd
  rw [map_link_fst]
  exact fun hm => hnd.2.2 _ hm _ (List.mem_singleton_self _) rfl

/-- A cell of a list is none of the others. -/
theorem notMem_others {ks rs : List Cell}
    (hl : IsList h hdr (ks ++ c :: rs)) :
    c.node ∉ (ks ++ rs).map Cell.node ∧ c.ptr ∉ (ks ++ rs).map Cell.ptr := by
  have hnd := hl.nodup
  have hpd := hl.ptr_nodup
  rw [List.map_append, List.map_cons] at hnd hpd
  rw [List.map_append, List.map_append]
  exact ⟨(List.nodup_cons.mp (List.nodup_middle.mp hnd)).1,
    (List.nodup_cons.mp (List.nodup_middle.mp hpd)).1⟩

/-- A list survives any change outside its own nodes and metrics. -/
theorem congr (hl : IsList h hdr cs)
    (hn : ∀ c ∈ cs, h'.node c.node = h.node c.node)
    (hm : ∀ c ∈ cs, h'.metric c.ptr = h.metric c.ptr) :
    IsList h' hdr cs where
  chain := hl.chain.congr (by
    intro x hx
    obtain ⟨c, hc, rfl⟩ := List.mem_map.mp hx
    exact hn c hc)
  last := hl.last
  size := hl.size
  dataSize := hl.dataSize
  contents := fun c hc => (hm c hc).trans (hl.contents c hc)
  nodup := hl.nodup
  ptr_nodup := hl.ptr_nodup

end IsList

/-- The empty header is the empty list. -/
theorem isList_nil : IsList h ⟨0, 0, none, none⟩ [] where
  chain := rfl
  last := rfl
  size := rfl
  dataSize := rfl
  contents := by simp
  nodup := by simp
  ptr_nodup := by simp

-- ======================================================= reading the heap

namespace Rep

theorem node_lt (hr : Rep h A) (hl : A l = some cs) (hc : c ∈ cs) :
    c.node < h.brk := by
  obtain ⟨hdr, -, hcs⟩ := hr.isList l cs hl
  obtain ⟨n, hn, -⟩ := hcs.node_mem hc
  by_contra hge
  rw [hr.fresh.node _ (Nat.not_lt.mp hge)] at hn
  cases hn

theorem metric_lt (hr : Rep h A) (hp : h.metric p = some m) : p < h.brk := by
  by_contra hge
  rw [hr.fresh.metric _ (Nat.not_lt.mp hge)] at hp
  cases hp

theorem list_lt (hr : Rep h A) (hl : A l = some cs) : l < h.brk := by
  obtain ⟨hdr, hh, -⟩ := hr.isList l cs hl
  by_contra hge
  rw [hr.fresh.list _ (Nat.not_lt.mp hge)] at hh
  cases hh

/-- A listed metric is live. -/
theorem listed_live (hr : Rep h A) (hp : Listed A p) :
    ∃ m, h.metric p = some m := by
  obtain ⟨l, cs, hl, hp⟩ := hp
  obtain ⟨c, hc, rfl⟩ := List.mem_map.mp hp
  obtain ⟨hdr, -, hcs⟩ := hr.isList l cs hl
  exact ⟨c.metric, hcs.contents c hc⟩

/-- An address not handed out yet is in no list. -/
theorem not_listed_brk (hr : Rep h A) : ¬ Listed A h.brk := by
  intro hl
  obtain ⟨m, hm⟩ := hr.listed_live hl
  rw [hr.fresh.metric _ (Nat.le_refl _)] at hm
  cases hm

theorem not_nodeListed_brk (hr : Rep h A) : ¬ NodeListed A h.brk := by
  intro hlisted
  obtain ⟨l, cs, hl, hm⟩ := hlisted
  obtain ⟨c, hc, he⟩ := List.mem_map.mp hm
  exact Nat.lt_irrefl _ (he ▸ hr.node_lt hl hc)

/-- The loops' fuel: a list has at most `brk` nodes. -/
theorem length_le_brk (hr : Rep h A) (hl : A l = some cs) :
    cs.length ≤ h.brk := by
  obtain ⟨hdr, -, hcs⟩ := hr.isList l cs hl
  have hsub : cs.map Cell.node ⊆ List.range h.brk := by
    intro a ha
    obtain ⟨c, hc, rfl⟩ := List.mem_map.mp ha
    exact List.mem_range.mpr (hr.node_lt hl hc)
  have := (hcs.nodup.subperm hsub).length_le
  simpa using this

/-- The metrics of one list are in no other. -/
theorem not_listed_of_update (hr : Rep h A) (hl : A l = some cs)
    (hp : p ∈ cs.map Cell.ptr) (hp' : p ∉ cs'.map Cell.ptr) :
    ¬ Listed (Function.update A l (some cs')) p := by
  intro hlisted
  obtain ⟨l', ds, hl', hpd⟩ := hlisted
  by_cases e : l' = l
  · subst e
    rw [Function.update_self] at hl'
    cases hl'
    exact hp' hpd
  · rw [Function.update_of_ne e] at hl'
    obtain ⟨c, hc, rfl⟩ := List.mem_map.mp hp
    obtain ⟨d, hd, he⟩ := List.mem_map.mp hpd
    exact (hr.sep l l' cs ds hl hl' (Ne.symm e) c hc d hd).2 he.symm

/-- The nodes of one list are in no other. -/
theorem not_nodeListed_of_update (hr : Rep h A) (hl : A l = some cs)
    {a : Addr} (ha : a ∈ cs.map Cell.node) (ha' : a ∉ cs'.map Cell.node) :
    ¬ NodeListed (Function.update A l (some cs')) a := by
  intro hlisted
  obtain ⟨l', ds, hl', had⟩ := hlisted
  by_cases e : l' = l
  · subst e
    rw [Function.update_self] at hl'
    cases hl'
    exact ha' had
  · rw [Function.update_of_ne e] at hl'
    obtain ⟨c, hc, rfl⟩ := List.mem_map.mp ha
    obtain ⟨d, hd, he⟩ := List.mem_map.mp had
    exact (hr.sep l l' cs ds hl hl' (Ne.symm e) c hc d hd).1 he.symm

/-- The rule of one operation: list `l` becomes `cs'`; the other headers,
the nodes handed out and outside `l`, and the metrics other lists hold
are untouched; and `cs'` takes its nodes and metrics from the old list
or from blocks no list holds. -/
theorem modify (hr : Rep h A) (cs : List Cell) (hl : (A l).getD [] = cs)
    (hlist : ∀ l', l' ≠ l → h'.list l' = h.list l')
    (hown : ∃ hdr, h'.list l = some hdr ∧ IsList h' hdr cs')
    (hnode : ∀ a, a < h.brk → a ∉ cs.map Cell.node → h'.node a = h.node a)
    (hmetric : ∀ a, Listed A a → a ∉ cs.map Cell.ptr →
      h'.metric a = h.metric a)
    (hnodes : ∀ c ∈ cs', c.node ∈ cs.map Cell.node ∨ ¬ NodeListed A c.node)
    (hptrs : ∀ c ∈ cs', c.ptr ∈ cs.map Cell.ptr ∨ ¬ Listed A c.ptr)
    (hfresh : Fresh h') : Rep h' (Function.update A l (some cs')) := by
  -- the old cells of `l`, when it had any, are in no other list
  have hother : ∀ l' ds, l' ≠ l → A l' = some ds → ∀ d ∈ ds,
      d.node ∉ cs.map Cell.node ∧ d.ptr ∉ cs.map Cell.ptr := by
    intro l' ds hne hds d hd
    cases hA : A l with
    | none =>
        rw [hA] at hl
        subst hl
        simp
    | some cs₀ =>
        rw [hA] at hl
        subst hl
        constructor
        · intro hm
          obtain ⟨c, hc, he⟩ := List.mem_map.mp hm
          exact (hr.sep l l' _ _ hA hds (Ne.symm hne) c hc d hd).1 he
        · intro hm
          obtain ⟨c, hc, he⟩ := List.mem_map.mp hm
          exact (hr.sep l l' _ _ hA hds (Ne.symm hne) c hc d hd).2 he
  have hsep : ∀ l' ds, l' ≠ l → A l' = some ds → ∀ c ∈ cs', ∀ d ∈ ds,
      c.node ≠ d.node ∧ c.ptr ≠ d.ptr := by
    intro l' ds hne hds c hc d hd
    obtain ⟨hdn, hdp⟩ := hother l' ds hne hds d hd
    constructor
    · intro he
      rcases hnodes c hc with hm | hun
      · exact hdn (he ▸ hm)
      · exact hun (he ▸ ⟨l', ds, hds, List.mem_map_of_mem hd⟩)
    · intro he
      rcases hptrs c hc with hm | hun
      · exact hdp (he ▸ hm)
      · exact hun (he ▸ ⟨l', ds, hds, List.mem_map_of_mem hd⟩)
  refine ⟨?_, ?_, ?_, hfresh⟩
  · intro l' ds hds
    by_cases e : l' = l
    · subst e
      rw [Function.update_self] at hds
      cases hds
      exact hown
    · rw [Function.update_of_ne e] at hds
      obtain ⟨hdr, hh, hlds⟩ := hr.isList l' ds hds
      refine ⟨hdr, (hlist l' e).trans hh, hlds.congr ?_ ?_⟩
      · intro d hd
        exact hnode _ (hr.node_lt hds hd) (hother l' ds e hds d hd).1
      · intro d hd
        exact hmetric _ ⟨l', ds, hds, List.mem_map_of_mem hd⟩
          (hother l' ds e hds d hd).2
  · intro l' hds
    by_cases e : l' = l
    · subst e
      rw [Function.update_self] at hds
      cases hds
    · rw [Function.update_of_ne e] at hds
      rw [hlist l' e, hr.absent l' hds]
  · intro l₁ l₂ cs₁ cs₂ h₁ h₂ hne c₁ hc₁ c₂ hc₂
    by_cases e₁ : l₁ = l
    · subst e₁
      rw [Function.update_self] at h₁
      rw [Function.update_of_ne (Ne.symm hne)] at h₂
      cases h₁
      exact hsep l₂ cs₂ (Ne.symm hne) h₂ c₁ hc₁ c₂ hc₂
    · rw [Function.update_of_ne e₁] at h₁
      by_cases e₂ : l₂ = l
      · subst e₂
        rw [Function.update_self] at h₂
        cases h₂
        obtain ⟨hn, hp⟩ := hsep l₁ cs₁ hne h₁ c₂ hc₂ c₁ hc₁
        exact ⟨Ne.symm hn, Ne.symm hp⟩
      · rw [Function.update_of_ne e₂] at h₂
        exact hr.sep l₁ l₂ cs₁ cs₂ h₁ h₂ hne c₁ hc₁ c₂ hc₂

end Rep

end Monikor
