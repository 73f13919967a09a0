/-
Doubly linked lists in a partial store.

A `Dlist` is a store of nodes with a header (`first`, `last`). A node has
links both ways and a payload; a freed address is absent, so reading it
is visible: every operation returns `Option`, and `none` is a dereference
of a node that is not live.

`IsDlist d xs` says that `d` holds exactly the cells `xs` (address and
payload, in order): the chain of `next` links from `first` visits them
forwards, the chain of `prev` links from `last` backwards, and no address
occurs twice. The rules are one specification an operation
(`IsDlist.create`, `IsDlist.push`, `IsDlist.remove`, `IsDlist.free`), and
`IsDlist.run` for whole histories. What a list looks like from outside is
`IsDlist.wellFormed`.

Removing a cell is one argument used twice: the forward chain loses the
cell by `Chain.bypass`, and so does the backward chain, read from the
other end.
-/
import Mathlib.Data.List.Nodup
import Monikor.Lib.Chain

namespace Linked

/-- A node with links both ways. -/
structure DNode (ι β : Type) where
  next : Option ι
  prev : Option ι
  val : β
deriving DecidableEq

/-- A store of nodes, and the header of a list in it. -/
structure Dlist (ι β : Type) where
  node : ι → Option (DNode ι β)
  first : Option ι
  last : Option ι

variable {ι β : Type}

namespace Dlist

variable [DecidableEq ι]

/-- An empty list in an empty store. -/
def empty : Dlist ι β := ⟨fun _ => none, none, none⟩

-- ============================================================ operations

/-- `a->next = o`. -/
def setNext (d : Dlist ι β) (a : ι) (o : Option ι) : Option (Dlist ι β) := do
  let n ← d.node a
  return { d with node := Function.update d.node a (some { n with next := o }) }

/-- `a->prev = o`. -/
def setPrev (d : Dlist ι β) (a : ι) (o : Option ι) : Option (Dlist ι β) := do
  let n ← d.node a
  return { d with node := Function.update d.node a (some { n with prev := o }) }

/-- `if (o) o->prev = x`. -/
def linkPrev (d : Dlist ι β) (o x : Option ι) : Option (Dlist ι β) :=
  match o with
  | none => some d
  | some b => d.setPrev b x

/-- `if (o) o->next = x`. -/
def linkNext (d : Dlist ι β) (o x : Option ι) : Option (Dlist ι β) :=
  match o with
  | none => some d
  | some b => d.setNext b x

/-- A new node at `a`, linked to nothing. -/
def create (d : Dlist ι β) (a : ι) (v : β) : Dlist ι β :=
  { d with node := Function.update d.node a (some ⟨none, none, v⟩) }

/-- Release the node at `a`. -/
def free (d : Dlist ι β) (a : ι) : Option (Dlist ι β) := do
  let _ ← d.node a
  return { d with node := Function.update d.node a none }

/-- Rewrite the payload of the node at `a`. -/
def write (d : Dlist ι β) (a : ι) (v : β) : Option (Dlist ι β) := do
  let n ← d.node a
  return { d with node := Function.update d.node a (some { n with val := v }) }

/-- Append the node at `a`. -/
def push (d : Dlist ι β) (a : ι) : Option (Dlist ι β) := do
  let d ← match d.first with
    | none => some { d with first := some a }
    | some _ => do
        let last ← d.last
        let d ← d.setNext last (some a)
        d.setPrev a d.last
  return { d with last := some a }

/-- Unlink the node at `a`. Its own links stay as they are. -/
def remove (d : Dlist ι β) (a : ι) : Option (Dlist ι β) := do
  let n ← d.node a
  let d ← d.linkPrev n.next n.prev
  let n ← d.node a
  let d ← d.linkNext n.prev n.next
  let n ← d.node a
  let d := if d.first = some a then { d with first := n.next } else d
  return if d.last = some a then { d with last := n.prev } else d

/-- The store with the node a link leads to, if any, rewritten. -/
def relink (σ : ι → Option (DNode ι β)) (o : Option ι)
    (f : DNode ι β → DNode ι β) (b : ι) : Option (DNode ι β) :=
  if o = some b then (σ b).map f else σ b

theorem relink_none (σ : ι → Option (DNode ι β)) (f : DNode ι β → DNode ι β) :
    relink σ none f = σ := by
  funext b
  simp [relink]

theorem relink_some {σ : ι → Option (DNode ι β)} {a : ι} {n : DNode ι β}
    (hn : σ a = some n) (f : DNode ι β → DNode ι β) :
    relink σ (some a) f = Function.update σ a (some (f n)) := by
  funext b
  by_cases e : b = a
  · subst e
    simp [relink, hn]
  · have hne : ¬ a = b := fun h => e h.symm
    simp [relink, e, hne]

/-- The store once the neighbours of a removed node are linked. -/
def unlinked (σ : ι → Option (DNode ι β)) (nx pv : Option ι) :
    ι → Option (DNode ι β) :=
  relink (relink σ nx fun n => { n with prev := pv }) pv
    fun n => { n with next := nx }

section Unlinked

variable {σ : ι → Option (DNode ι β)} {nx pv : Option ι} {a b : ι}
  {n : DNode ι β}

/-- Only the node in front changes its forward link. -/
theorem sameCell_next (hb : pv ≠ some b) :
    SameCell DNode.next DNode.val σ (unlinked σ nx pv) b := by
  intro n hn
  rw [show unlinked σ nx pv b = relink σ nx _ b from if_neg hb]
  by_cases e : nx = some b
  · exact ⟨{ n with prev := pv }, (if_pos e).trans (by rw [hn]; rfl), rfl, rfl⟩
  · exact ⟨n, (if_neg e).trans hn, rfl, rfl⟩

/-- Only the node behind changes its backward link. -/
theorem sameCell_prev (hb : nx ≠ some b) :
    SameCell DNode.prev DNode.val σ (unlinked σ nx pv) b := by
  intro n hn
  have hσ : relink σ nx (fun n => { n with prev := pv }) b = some n :=
    (if_neg hb).trans hn
  by_cases e : pv = some b
  · exact ⟨{ n with next := nx }, (if_pos e).trans (by rw [hσ]; rfl), rfl, rfl⟩
  · exact ⟨n, (if_neg e).trans hσ, rfl, rfl⟩

/-- The node in front leads to the node behind. -/
theorem unlinked_front (hn : σ b = some n) (hb : nx ≠ some b) :
    unlinked σ nx (some b) b = some { n with next := nx } := by
  have hσ : relink σ nx (fun n => { n with prev := some b }) b = some n :=
    (if_neg hb).trans hn
  exact (if_pos rfl).trans (by rw [hσ]; rfl)

/-- The node behind leads back to the node in front. -/
theorem unlinked_back (hn : σ b = some n) (hb : pv ≠ some b) :
    unlinked σ (some b) pv b = some { n with prev := pv } :=
  (if_neg hb).trans ((if_pos rfl).trans (by rw [hn]; rfl))

theorem unlinked_other (hnx : nx ≠ some b) (hpv : pv ≠ some b) :
    unlinked σ nx pv b = σ b :=
  (if_neg hpv).trans (if_neg hnx)

theorem unlinked_eq_none : unlinked σ nx pv b = none ↔ σ b = none := by
  unfold unlinked relink
  split
  · split
    · simp
    · simp
  · split
    · simp
    · simp

end Unlinked

/-- `Dlist.remove`, where the links of the node lead to live nodes that
are not itself and not the same. -/
theorem remove_eq {d : Dlist ι β} {a : ι} {nx pv : Option ι} {v : β}
    (ha : d.node a = some ⟨nx, pv, v⟩) (hnx : nx ≠ some a) (hpv : pv ≠ some a)
    (hne : ∀ b, nx = some b → pv ≠ some b)
    (hlive : ∀ b, nx = some b ∨ pv = some b → d.node b ≠ none) :
    d.remove a = some
      { node := unlinked d.node nx pv
        first := if d.first = some a then nx else d.first
        last := if d.last = some a then pv else d.last } := by
  let σ := relink d.node nx fun n => { n with prev := pv }
  let τ := unlinked d.node nx pv
  have hback : d.linkPrev nx pv = some { d with node := σ } := by
    cases nx with
    | none => rw [linkPrev, show σ = d.node from relink_none _ _]
    | some b =>
        obtain ⟨n, hn⟩ := Option.ne_none_iff_exists'.mp (hlive b (.inl rfl))
        simp [linkPrev, setPrev, hn, σ, relink_some hn]
  have haσ : σ a = some ⟨nx, pv, v⟩ := by
    rw [show σ a = d.node a from if_neg hnx, ha]
  have hfront : linkNext { d with node := σ } pv nx
      = some { d with node := τ } := by
    cases pv with
    | none => rw [linkNext, show τ = σ from relink_none _ _]
    | some c =>
        obtain ⟨n, hn⟩ := Option.ne_none_iff_exists'.mp (hlive c (.inr rfl))
        have hnc : ¬ nx = some c := fun e => hne c e rfl
        have hn' : σ c = some n := by
          rw [show σ c = d.node c from if_neg hnc, hn]
        have hτ : τ = Function.update σ c (some { n with next := nx }) :=
          relink_some hn' _
        simp [linkNext, setNext, hn', hτ]
  have haτ : τ a = some ⟨nx, pv, v⟩ := by
    rw [show τ a = σ a from if_neg hpv, haσ]
  unfold Dlist.remove
  simp only [ha, hback, haσ, hfront, haτ, Option.bind_eq_bind,
    Option.bind_some, Option.pure_def]
  by_cases hf : d.first = some a <;> by_cases hl : d.last = some a <;>
    simp [hf, hl, τ]

/-- The addresses met from `p` on by following `link`, if the walk ends
within the given number of nodes. -/
def walk (d : Dlist ι β) (link : DNode ι β → Option ι) :
    Nat → Option ι → Option (List ι)
  | _, none => some []
  | 0, some _ => none
  | fuel + 1, some a => do
      let n ← d.node a
      let rest ← d.walk link fuel (link n)
      return a :: rest

end Dlist

open Dlist

-- ======================================================== representation

/-- The list holds exactly the given cells. -/
structure IsDlist (d : Dlist ι β) (xs : List (ι × β)) : Prop where
  forward : Chain DNode.next DNode.val d.node d.first xs none
  backward : Chain DNode.prev DNode.val d.node d.last xs.reverse none
  nodup : (xs.map Prod.fst).Nodup

variable {d d' : Dlist ι β} {xs ys zs : List (ι × β)} {a b : ι} {v w : β}
  {n : DNode ι β}

theorem isDlist_empty : IsDlist (empty : Dlist ι β) [] :=
  ⟨rfl, rfl, List.nodup_nil⟩

namespace IsDlist

theorem first_eq (h : IsDlist d xs) : d.first = xs.head?.map Prod.fst :=
  h.forward.start

theorem last_eq (h : IsDlist d xs) : d.last = xs.getLast?.map Prod.fst := by
  rw [h.backward.start, List.head?_reverse]

/-- The links of a member lead to its neighbours. -/
theorem member (h : IsDlist d (ys ++ (a, v) :: zs)) :
    d.node a = some ⟨zs.head?.map Prod.fst, ys.getLast?.map Prod.fst, v⟩ := by
  obtain ⟨r, -, -, n, hn, hval, hnext⟩ := chain_append.mp h.forward
  have hback := h.backward
  rw [List.reverse_append, List.reverse_cons, List.append_assoc,
    List.singleton_append] at hback
  obtain ⟨r', -, -, n', hn', -, hprev⟩ := chain_append.mp hback
  obtain rfl := Option.some.inj (hn.symm.trans hn')
  have hnext := hnext.start
  have hprev := hprev.start
  rw [List.head?_reverse] at hprev
  rw [hn, ← hnext, ← hprev, ← hval]

/-- Members are live. -/
theorem live (h : IsDlist d xs) (ha : a ∈ xs.map Prod.fst) :
    d.node a ≠ none := by
  obtain ⟨c, hc, rfl⟩ := List.mem_map.mp ha
  obtain ⟨n, hn, -⟩ := h.forward.mem hc
  simp [hn]

/-- A list with the same ends, in a store that agrees on its members. -/
theorem congr (h : IsDlist d xs) (hfirst : d'.first = d.first)
    (hlast : d'.last = d.last)
    (hnode : ∀ a ∈ xs.map Prod.fst, d'.node a = d.node a) :
    IsDlist d' xs where
  forward := by
    rw [hfirst]
    exact h.forward.congr fun c hc => hnode _ (List.mem_map_of_mem hc)
  backward := by
    rw [hlast]
    exact h.backward.congr fun c hc =>
      hnode _ (List.mem_map_of_mem (List.mem_reverse.mp hc))
  nodup := h.nodup

variable [DecidableEq ι]

/-- A node elsewhere may be made or released. -/
theorem update (h : IsDlist d xs) (ha : a ∉ xs.map Prod.fst)
    (o : Option (DNode ι β)) :
    IsDlist { d with node := Function.update d.node a o } xs := by
  refine h.congr rfl rfl fun b hb => Function.update_of_ne ?_ _ _
  intro e
  exact ha (e ▸ hb)

-- ================================================================= write

/-- Rewriting the payload of a member. -/
theorem write (h : IsDlist d (ys ++ (a, v) :: zs)) :
    ∃ d', d.write a w = some d' ∧ IsDlist d' (ys ++ (a, w) :: zs)
      ∧ ∀ b, d'.node b = none ↔ d.node b = none := by
  have hn := h.member
  have hback : Chain DNode.prev DNode.val d.node d.last
      (zs.reverse ++ (a, v) :: ys.reverse) none := by
    simpa using h.backward
  have hnd : ((zs.reverse ++ (a, v) :: ys.reverse).map Prod.fst).Nodup := by
    rw [show zs.reverse ++ (a, v) :: ys.reverse
      = (ys ++ (a, v) :: zs).reverse by simp, List.map_reverse,
      List.nodup_reverse]
    exact h.nodup
  have hrun : d.write a w = some { d with
      node := Function.update d.node a
        (some ⟨zs.head?.map Prod.fst, ys.getLast?.map Prod.fst, w⟩) } := by
    simp [Dlist.write, hn]
  refine ⟨_, hrun, ⟨?_, ?_, ?_⟩, fun b => ?_⟩
  · exact h.forward.repayload h.nodup hn rfl rfl
  · rw [show (ys ++ (a, w) :: zs).reverse
      = zs.reverse ++ (a, w) :: ys.reverse by simp]
    exact hback.repayload hnd hn rfl rfl
  · simpa using h.nodup
  · by_cases e : b = a
    · simp [e, hn]
    · simp [e]

-- ================================================================== push

/-- Appending a new node. -/
theorem push (h : IsDlist d xs) (hn : d.node a = some ⟨none, none, v⟩)
    (ha : a ∉ xs.map Prod.fst) :
    ∃ d', d.push a = some d' ∧ IsDlist d' (xs ++ [(a, v)])
      ∧ (∀ b, b ∉ (xs ++ [(a, v)]).map Prod.fst → d'.node b = d.node b)
      ∧ ∀ b, d'.node b = none ↔ d.node b = none := by
  rcases List.eq_nil_or_concat' xs with rfl | ⟨ys, ⟨b, w⟩, rfl⟩
  · -- the only member
    have hfirst : d.first = none := h.first_eq
    refine ⟨{ d with first := some a, last := some a }, ?_, ⟨?_, ?_, ?_⟩,
      fun _ _ => rfl, fun _ => Iff.rfl⟩
    · simp [Dlist.push, hfirst]
    · exact ⟨rfl, _, hn, rfl, rfl⟩
    · exact ⟨rfl, _, hn, rfl, rfl⟩
    · simp
  · -- behind the last member
    have hlast : d.last = some b := by simpa using h.last_eq
    have hb := h.member
    have hne : b ≠ a := by
      intro e
      subst e
      exact ha (by simp)
    obtain ⟨c, hc⟩ : ∃ c, d.first = some c := by
      rw [h.first_eq]
      cases ys <;> simp
    let node := Function.update (Function.update d.node b
      (some ⟨some a, ys.getLast?.map Prod.fst, w⟩)) a
      (some ⟨none, some b, v⟩)
    have hrun : d.push a
        = some { d with node := node, last := some a } := by
      simp [Dlist.push, hc, hlast, setNext, hb, setPrev,
        Function.update_of_ne (Ne.symm hne), hn, node]
    have hna : node a = some ⟨none, some b, v⟩ := Function.update_self ..
    have hnb : node b = some ⟨some a, ys.getLast?.map Prod.fst, w⟩ := by
      rw [show node b = Function.update d.node b _ b from
        Function.update_of_ne hne _ _, Function.update_self]
    have hother : ∀ x, x ≠ a → x ≠ b → node x = d.node x := by
      intro x hxa hxb
      rw [show node x = Function.update d.node b _ x from
        Function.update_of_ne hxa _ _, Function.update_of_ne hxb]
    have hnd := h.nodup
    rw [List.map_append, List.nodup_append] at hnd
    have hys : ∀ c ∈ ys, node c.1 = d.node c.1 := by
      intro c hc
      have hmem := List.mem_map_of_mem (f := Prod.fst) hc
      refine hother _ ?_ ?_
      · intro e
        exact ha (by rw [List.map_append, List.mem_append, ← e]; exact .inl hmem)
      · intro e
        exact hnd.2.2 _ hmem b (by simp) e
    refine ⟨_, hrun, ⟨?_, ?_, ?_⟩, ?_, ?_⟩
    · have hfront := (chain_snoc.mp h.forward).1
      refine chain_snoc.mpr ⟨chain_snoc.mpr ⟨hfront.congr hys, _, hnb, rfl, rfl⟩,
        _, hna, rfl, rfl⟩
    · have hback := h.backward
      rw [List.reverse_append, List.reverse_singleton, List.singleton_append]
        at hback ⊢
      obtain ⟨-, n, hn', -, hrest⟩ := hback
      rw [List.reverse_append, List.reverse_singleton, List.singleton_append]
      obtain rfl := Option.some.inj (hb.symm.trans hn')
      refine ⟨rfl, _, hna, rfl, rfl, _, hnb, rfl, ?_⟩
      exact hrest.congr fun c hc => hys c (List.mem_reverse.mp hc)
    · rw [List.map_append, List.nodup_append_comm]
      exact List.nodup_cons.mpr ⟨ha, h.nodup⟩
    · intro x hx
      refine hother x ?_ ?_
      · intro e
        exact hx (by simp [e])
      · intro e
        exact hx (by simp [e])
    · intro x
      by_cases hxa : x = a
      · simp [hxa, hna, hn]
      · by_cases hxb : x = b
        · simp [hxb, hnb, hb]
        · rw [show ({ d with node := node, last := some a } : Dlist ι β).node x
            = d.node x from hother x hxa hxb]

-- ================================================================ remove

omit [DecidableEq ι] in
theorem head_ne (hb : b ∉ zs.map Prod.fst) :
    zs.head?.map Prod.fst ≠ some b := by
  intro e
  obtain ⟨c, hc, rfl⟩ := Option.map_eq_some_iff.mp e
  exact hb (List.mem_map_of_mem (List.mem_of_head? hc))

omit [DecidableEq ι] in
theorem getLast_ne (hb : b ∉ ys.map Prod.fst) :
    ys.getLast?.map Prod.fst ≠ some b := by
  intro e
  obtain ⟨c, hc, rfl⟩ := Option.map_eq_some_iff.mp e
  exact hb (List.mem_map_of_mem (List.mem_of_getLast? hc))

omit [DecidableEq ι] in
/-- What stands on either side of a member is neither it nor on the
other. -/
theorem apart (h : IsDlist d (ys ++ (a, v) :: zs)) :
    a ∉ ys.map Prod.fst ∧ a ∉ zs.map Prod.fst
      ∧ ∀ b, b ∈ ys.map Prod.fst → b ∉ zs.map Prod.fst := by
  have hnd := h.nodup
  simp only [List.map_append, List.map_cons, List.nodup_append,
    List.nodup_cons, List.mem_cons] at hnd
  obtain ⟨-, ⟨hazs, -⟩, hdis⟩ := hnd
  exact ⟨fun hb => hdis a hb a (.inl rfl) rfl, hazs,
    fun b hb hb' => hdis b hb b (.inr hb') rfl⟩

/-- Forwards, the node in front of the member is the one redirected. -/
theorem remove_forward (h : IsDlist d (ys ++ (a, v) :: zs)) :
    Chain DNode.next DNode.val
      (unlinked d.node (zs.head?.map Prod.fst) (ys.getLast?.map Prod.fst))
      (if d.first = some a then zs.head?.map Prod.fst else d.first)
      (ys ++ zs) none := by
  obtain ⟨hays, -, hdis⟩ := h.apart
  have hstart : (if d.first = some a then zs.head?.map Prod.fst else d.first)
      = if ys = [] then zs.head?.map Prod.fst else d.first := by
    have hfirst := h.first_eq
    cases ys with
    | nil => simp [show d.first = some a from hfirst]
    | cons c ys =>
        have hca : ¬ c.1 = a := fun e => hays (by simp [e])
        simp [show d.first = some c.1 from hfirst, hca]
  rw [hstart]
  refine h.forward.bypass h.member (fun c hc => sameCell_next
    (getLast_ne fun hin => hdis _ hin (List.mem_map_of_mem hc))) ?_
  intro ds e he
  subst he
  have hpv : (ds ++ [e]).getLast?.map Prod.fst = some e.1 := by simp
  have hnd := (List.nodup_append.mp (List.map_append ▸ h.nodup)).1
  rw [List.map_append, List.nodup_append] at hnd
  rw [hpv]
  refine ⟨fun c hc => sameCell_next fun hce => ?_, ?_⟩
  · exact hnd.2.2 c.1 (List.mem_map_of_mem hc) e.1 (by simp)
      (Option.some.inj hce).symm
  · obtain ⟨n, hn, hval⟩ := h.forward.mem (c := e) (by simp)
    exact ⟨_, unlinked_front hn (head_ne (hdis _ (by simp))), rfl, hval⟩

/-- Backwards, the node behind it is. -/
theorem remove_backward (h : IsDlist d (ys ++ (a, v) :: zs)) :
    Chain DNode.prev DNode.val
      (unlinked d.node (zs.head?.map Prod.fst) (ys.getLast?.map Prod.fst))
      (if d.last = some a then ys.getLast?.map Prod.fst else d.last)
      (ys ++ zs).reverse none := by
  obtain ⟨-, hazs, hdis⟩ := h.apart
  have hstart : (if d.last = some a then ys.getLast?.map Prod.fst else d.last)
      = if zs.reverse = [] then ys.getLast?.map Prod.fst else d.last := by
    have hlast := h.last_eq
    rcases List.eq_nil_or_concat' zs with rfl | ⟨ds, e, rfl⟩
    · simp [show d.last = some a by simpa using hlast]
    · have hea : ¬ e.1 = a := fun he => hazs (by simp [he])
      have hlast' : d.last = some e.1 := by
        rw [hlast, ← List.cons_append, ← List.append_assoc,
          List.getLast?_concat]
        rfl
      simp [hlast', hea]
  have hback := h.backward
  rw [List.reverse_append, List.reverse_cons, List.append_assoc,
    List.singleton_append] at hback
  rw [hstart, List.reverse_append]
  refine hback.bypass h.member (fun c hc => sameCell_prev
    (head_ne (hdis _ (List.mem_map_of_mem (List.mem_reverse.mp hc))))) ?_
  intro ds e he
  obtain rfl : zs = e :: ds.reverse := by
    rw [← List.reverse_reverse zs, he, List.reverse_append,
      List.reverse_singleton, List.singleton_append]
  have hnx : (e :: ds.reverse).head?.map Prod.fst = some e.1 := rfl
  have hnd := (List.nodup_append.mp (List.map_append ▸ h.nodup)).2.1
  simp only [List.map_cons, List.nodup_cons] at hnd
  rw [hnx]
  refine ⟨fun c hc => sameCell_prev fun hce => ?_, ?_⟩
  · apply hnd.2.1
    rw [Option.some.inj hce]
    exact List.mem_map_of_mem (List.mem_reverse.mpr hc)
  · obtain ⟨n, hn, hval⟩ := h.forward.mem (c := e) (by simp)
    refine ⟨_, unlinked_back hn (getLast_ne fun hin => ?_), rfl, hval⟩
    exact hdis _ hin (by simp)

/-- Unlinking a member. -/
theorem remove (h : IsDlist d (ys ++ (a, v) :: zs)) :
    ∃ d', d.remove a = some d' ∧ IsDlist d' (ys ++ zs)
      ∧ (∀ b, b ∉ (ys ++ zs).map Prod.fst → d'.node b = d.node b)
      ∧ ∀ b, d'.node b = none ↔ d.node b = none := by
  obtain ⟨hays, hazs, hdis⟩ := h.apart
  have hrun := remove_eq h.member (head_ne hazs) (getLast_ne hays)
    (fun b hb => getLast_ne fun hin => head_ne (hdis b hin) hb)
    (fun b hb => by
      apply h.live
      by_contra hout
      simp only [List.map_append, List.map_cons, List.mem_append,
        List.mem_cons, not_or] at hout
      rcases hb with hb | hb
      · exact head_ne hout.2.2 hb
      · exact getLast_ne hout.1 hb)
  refine ⟨_, hrun, ⟨h.remove_forward, h.remove_backward, ?_⟩, ?_,
    fun b => unlinked_eq_none⟩
  · have hsub : (ys ++ zs).Sublist (ys ++ (a, v) :: zs) :=
      (List.sublist_cons_self ..).append_left ys
    exact h.nodup.sublist (hsub.map Prod.fst)
  · intro b hb
    rw [List.map_append, List.mem_append, not_or] at hb
    exact unlinked_other (head_ne hb.2) (getLast_ne hb.1)

end IsDlist

-- ======================================================= seen from outside

/-- Following a chain to null visits its cells. -/
theorem walk_chain {link : DNode ι β → Option ι} (xs : List (ι × β)) :
    ∀ (p : Option ι) (fuel : Nat), Chain link DNode.val d.node p xs none →
      xs.length ≤ fuel → d.walk link fuel p = some (xs.map Prod.fst) := by
  induction xs with
  | nil =>
      intro p fuel h _
      obtain rfl : p = none := h
      cases fuel <;> rfl
  | cons c xs ih =>
      intro p fuel h hfuel
      obtain ⟨a, v⟩ := c
      obtain ⟨rfl, n, hn, -, hrest⟩ := h
      cases fuel with
      | zero => simp at hfuel
      | succ fuel =>
          have hwalk := ih _ fuel hrest (by simpa using hfuel)
          simp [walk, hn, hwalk]

/-- What a list with the given members, in order, looks like. -/
structure Dlist.WellFormed (d : Dlist ι β) (as : List ι) : Prop where
  forward : ∀ fuel, as.length ≤ fuel →
    d.walk DNode.next fuel d.first = some as
  backward : ∀ fuel, as.length ≤ fuel →
    d.walk DNode.prev fuel d.last = some as.reverse
  first_prev : ∀ a, d.first = some a → ∃ n, d.node a = some n ∧ n.prev = none
  last_next : ∀ a, d.last = some a → ∃ n, d.node a = some n ∧ n.next = none
  linked : ∀ a ∈ as, ∀ b ∈ as, ∃ m n, d.node a = some m ∧ d.node b = some n
    ∧ (m.next = some b ↔ n.prev = some a)
  first_null : d.first = none ↔ as = []
  last_null : d.last = none ↔ as = []

/-- The neighbours of two members agree on which is in front. -/
theorem IsDlist.linked (h : IsDlist d xs) (ha : a ∈ xs.map Prod.fst)
    (hb : b ∈ xs.map Prod.fst) :
    ∃ m n, d.node a = some m ∧ d.node b = some n
      ∧ (m.next = some b ↔ n.prev = some a) := by
  obtain ⟨⟨a, v⟩, hav, rfl⟩ := List.mem_map.mp ha
  obtain ⟨⟨b, w⟩, hbw, rfl⟩ := List.mem_map.mp hb
  obtain ⟨ys, zs, rfl⟩ := List.append_of_mem hav
  obtain ⟨ps, qs, hsplit⟩ := List.append_of_mem hbw
  have hm := h.member
  have hn := (hsplit ▸ h).member
  refine ⟨_, _, hm, hn, ?_⟩
  constructor
  · -- read the successor of `a` at its own place
    intro hnext
    cases zs with
    | nil => simp at hnext
    | cons c zs =>
        obtain ⟨b', w'⟩ := c
        obtain rfl : b' = b := by simpa using hnext
        have hb : d.node b' = some ⟨zs.head?.map Prod.fst, some a, w'⟩ := by
          have hmid : IsDlist d ((ys ++ [(a, v)]) ++ (b', w') :: zs) := by
            simpa using h
          simpa using hmid.member
        exact congrArg DNode.prev (Option.some.inj (hn.symm.trans hb))
  · intro hprev
    rcases List.eq_nil_or_concat' ps with rfl | ⟨ps, ⟨a', v'⟩, rfl⟩
    · simp at hprev
    · obtain rfl : a' = a := by simpa using hprev
      have ha' : d.node a' = some ⟨some b, ps.getLast?.map Prod.fst, v'⟩ := by
        have hmid : IsDlist d (ps ++ (a', v') :: (b, w) :: qs) := by
          rw [hsplit] at h
          simpa using h
        exact hmid.member
      exact congrArg DNode.next (Option.some.inj (hm.symm.trans ha'))

theorem IsDlist.wellFormed (h : IsDlist d xs) :
    d.WellFormed (xs.map Prod.fst) where
  forward := fun fuel hfuel =>
    walk_chain xs _ fuel h.forward (by simpa using hfuel)
  backward := fun fuel hfuel => by
    rw [← List.map_reverse]
    exact walk_chain xs.reverse _ fuel h.backward (by simpa using hfuel)
  first_prev := by
    intro a ha
    cases xs with
    | nil => simp [h.first_eq] at ha
    | cons c xs =>
        obtain rfl : c.1 = a := by simpa [h.first_eq] using ha
        have hhead : IsDlist d ([] ++ (c.1, c.2) :: xs) := h
        exact ⟨_, hhead.member, rfl⟩
  last_next := by
    intro a ha
    rcases List.eq_nil_or_concat' xs with rfl | ⟨ys, c, rfl⟩
    · simp [h.last_eq] at ha
    · obtain rfl : c.1 = a := by simpa [h.last_eq] using ha
      exact ⟨_, h.member (v := c.2), rfl⟩
  linked := fun _ ha _ hb => h.linked ha hb
  first_null := by
    rw [h.first_eq]
    cases xs <;> simp
  last_null := by
    rw [h.last_eq]
    simp

-- =============================================================== histories

/-- What may happen to a list: a node is made and appended, a node is
unlinked, an unlinked node is released. -/
inductive Dlist.Op (ι β : Type) where
  | push (a : ι) (v : β)
  | remove (a : ι)
  | free (a : ι)

/-- The addresses in use, and the members in the order they were pushed. -/
structure Dlist.History (ι : Type) where
  live : List ι
  members : List ι

namespace Dlist.History

def start : History ι := ⟨[], []⟩

variable [DecidableEq ι]

def next (H : History ι) : Op ι β → History ι
  | .push a _ => ⟨a :: H.live, H.members ++ [a]⟩
  | .remove a => { H with members := H.members.erase a }
  | .free a => { H with live := H.live.filter (· ≠ a) }

/-- A new node takes an address that is not in use, members are unlinked,
and what is released is in use and no member. -/
def Allows (H : History ι) : Op ι β → Prop
  | .push a _ => a ∉ H.live
  | .remove a => a ∈ H.members
  | .free a => a ∈ H.live ∧ a ∉ H.members

/-- The history after a sequence of operations. -/
def after (H : History ι) (ops : List (Op ι β)) : History ι :=
  ops.foldl next H

/-- Each operation of a sequence is allowed in its turn. -/
def AllowsAll (H : History ι) : List (Op ι β) → Prop
  | [] => True
  | op :: ops => H.Allows op ∧ (H.next op).AllowsAll ops

instance (H : History ι) (op : Op ι β) : Decidable (H.Allows op) :=
  match op with
  | .push a _ => inferInstanceAs (Decidable (a ∉ H.live))
  | .remove a => inferInstanceAs (Decidable (a ∈ H.members))
  | .free a => inferInstanceAs (Decidable (a ∈ H.live ∧ a ∉ H.members))

instance AllowsAll.decidable :
    (ops : List (Op ι β)) → (H : History ι) → Decidable (H.AllowsAll ops)
  | [], _ => .isTrue trivial
  | op :: ops, H =>
      have := AllowsAll.decidable ops (H.next op)
      inferInstanceAs (Decidable (H.Allows op ∧ (H.next op).AllowsAll ops))

end Dlist.History

/-- The list has come about by a history. -/
def Dlist.Follows (d : Dlist ι β) (H : History ι) : Prop :=
  ∃ xs, IsDlist d xs ∧ xs.map Prod.fst = H.members
    ∧ ∀ a, d.node a ≠ none ↔ a ∈ H.live

theorem follows_start : (empty : Dlist ι β).Follows History.start :=
  ⟨[], isDlist_empty, rfl, by simp [empty, History.start]⟩

theorem Dlist.Follows.wellFormed {H : History ι} (h : d.Follows H) :
    d.WellFormed H.members := by
  obtain ⟨xs, hxs, hmem, -⟩ := h
  exact hmem ▸ hxs.wellFormed

section Steps

variable [DecidableEq ι] {H : History ι}

/-- A new node, made and appended. -/
theorem Dlist.Follows.push (h : d.Follows H)
    (hop : H.Allows (.push a v)) :
    ∃ d', (d.create a v).push a = some d' ∧ d'.node a ≠ none
      ∧ d'.Follows (H.next (.push a v)) := by
  obtain ⟨xs, hxs, hmem, hlive⟩ := h
  have hfree : d.node a = none := by
    by_contra hne
    exact hop ((hlive a).mp hne)
  have hout : a ∉ xs.map Prod.fst := fun hin => hxs.live hin hfree
  obtain ⟨d', hrun, hd', -, hsame⟩ := IsDlist.push
    (hxs.update hout (some ⟨none, none, v⟩)) (Function.update_self ..) hout
  have hnone : ∀ b, d'.node b = none ↔ b ≠ a ∧ d.node b = none := by
    intro b
    rw [hsame]
    by_cases e : b = a <;> simp [e]
  refine ⟨d', hrun, fun hn => ((hnone a).mp hn).1 rfl, _, hd', ?_, ?_⟩
  · simp [History.next, hmem]
  · intro b
    rw [ne_eq, hnone, History.next, List.mem_cons, ← hlive]
    by_cases e : b = a <;> simp [e]

/-- A member, unlinked. -/
theorem Dlist.Follows.remove (h : d.Follows H)
    (hop : H.Allows (β := β) (.remove a)) :
    ∃ d', d.remove a = some d' ∧ d'.node a ≠ none
      ∧ d'.Follows (H.next (β := β) (.remove a)) := by
  obtain ⟨xs, hxs, hmem, hlive⟩ := h
  have hin : a ∈ xs.map Prod.fst := hmem ▸ hop
  obtain ⟨⟨a, v⟩, hav, rfl⟩ := List.mem_map.mp hin
  obtain ⟨ys, zs, rfl⟩ := List.append_of_mem hav
  obtain ⟨d', hrun, hd', -, hsame⟩ := hxs.remove
  refine ⟨d', hrun, ?_, _, hd', ?_, fun b => ?_⟩
  · rw [ne_eq, hsame]
    exact hxs.live hin
  · have hnd := hxs.nodup
    rw [List.map_append, List.map_cons, List.nodup_append] at hnd
    have hays : a ∉ ys.map Prod.fst := fun hb => hnd.2.2 a hb a (by simp) rfl
    show _ = H.members.erase a
    rw [← hmem, List.map_append, List.map_append, List.map_cons,
      List.erase_append_right _ hays, List.erase_cons_head]
  · rw [ne_eq, hsame]
    exact hlive b

/-- A node that is no member, released. -/
theorem Dlist.Follows.free (h : d.Follows H)
    (hop : H.Allows (β := β) (.free a)) :
    ∃ d', d.free a = some d' ∧ d'.Follows (H.next (β := β) (.free a)) := by
  obtain ⟨xs, hxs, hmem, hlive⟩ := h
  obtain ⟨n, hn⟩ := Option.ne_none_iff_exists'.mp ((hlive a).mpr hop.1)
  have hout : a ∉ xs.map Prod.fst := by
    rw [hmem]
    exact hop.2
  refine ⟨_, by simp [Dlist.free, hn], xs, hxs.update hout none, hmem, ?_⟩
  intro b
  by_cases e : b = a
  · simp [e, History.next]
  · simp [e, History.next, ← hlive]

end Steps

end Linked
