/-
Singly linked chains in a partial store.

A store maps addresses to nodes (`σ : ι → Option ν`), a node has a
`next` link and a payload. `Chain next val σ p xs q` says that following
`next` from `p` visits exactly the cells `xs` (address and payload, in
order) and arrives at `q`; `q = none` is a chain that ends in a null
link, `q = some b` a segment that stops short of `b`.

The rules a pointer program needs:

- `chain_append` splits and joins segments;
- `Chain.congr` is the frame rule: a chain depends on the store at its
  own addresses only;
- `Chain.relink_last` redirects the link of the last cell, and
  `chain_snoc` reads it.
-/
import Mathlib.Data.List.Basic
import Mathlib.Logic.Function.Basic

namespace Linked

variable {ι ν β : Type*} (next : ν → Option ι) (val : ν → β)

/-- Following `next` from the first link visits exactly the listed cells
and arrives at the second link. -/
def Chain (σ : ι → Option ν) : Option ι → List (ι × β) → Option ι → Prop
  | p, [], q => p = q
  | p, (a, b) :: xs, q =>
      p = some a ∧ ∃ v, σ a = some v ∧ val v = b ∧ Chain σ (next v) xs q

variable {next val} {σ τ : ι → Option ν} {p q r : Option ι}
  {xs ys : List (ι × β)} {a : ι} {b : β}

@[simp] theorem chain_nil : Chain next val σ p [] q ↔ p = q := Iff.rfl

@[simp] theorem chain_cons :
    Chain next val σ p ((a, b) :: xs) q
      ↔ p = some a ∧ ∃ v, σ a = some v ∧ val v = b
          ∧ Chain next val σ (next v) xs q := Iff.rfl

/-- A chain of two segments passes through the link between them. -/
theorem chain_append :
    Chain next val σ p (xs ++ ys) q
      ↔ ∃ r, Chain next val σ p xs r ∧ Chain next val σ r ys q := by
  induction xs generalizing p with
  | nil => simp
  | cons c xs ih =>
      obtain ⟨a, b⟩ := c
      simp only [List.cons_append, chain_cons, ih]
      constructor
      · intro h
        obtain ⟨hp, v, hv, hb, r, hxs, hys⟩ := h
        exact ⟨r, ⟨hp, v, hv, hb, hxs⟩, hys⟩
      · intro h
        obtain ⟨r, ⟨hp, v, hv, hb, hxs⟩, hys⟩ := h
        exact ⟨hp, v, hv, hb, r, hxs, hys⟩

/-- The last cell of a chain holds the chain's end link. -/
theorem chain_snoc :
    Chain next val σ p (xs ++ [(a, b)]) q
      ↔ Chain next val σ p xs (some a)
          ∧ ∃ v, σ a = some v ∧ val v = b ∧ next v = q := by
  rw [chain_append]
  constructor
  · intro h
    obtain ⟨r, hxs, rfl, v, hv, hb, hq⟩ := h
    exact ⟨hxs, v, hv, hb, hq⟩
  · intro h
    obtain ⟨hxs, v, hv, hb, hq⟩ := h
    exact ⟨some a, hxs, rfl, v, hv, hb, hq⟩

/-- The second store has the node at an address with the link and the
payload it has in the first. -/
def SameCell (next : ν → Option ι) (val : ν → β) (σ τ : ι → Option ν)
    (a : ι) : Prop :=
  ∀ v, σ a = some v → ∃ v', τ a = some v' ∧ next v' = next v ∧ val v' = val v

/-- A store with the same links and payloads on a chain's own addresses
has the chain. -/
theorem Chain.retain (h : Chain next val σ p xs q)
    (hσ : ∀ c ∈ xs, SameCell next val σ τ c.1) : Chain next val τ p xs q := by
  induction xs generalizing p with
  | nil => exact h
  | cons c xs ih =>
      obtain ⟨a, b⟩ := c
      obtain ⟨hp, v, hv, hb, hxs⟩ := h
      obtain ⟨v', hv', hnext, hval⟩ := hσ (a, b) (List.mem_cons_self ..) v hv
      refine ⟨hp, v', hv', hval.trans hb, ?_⟩
      rw [hnext]
      exact ih hxs fun c hc => hσ c (List.mem_cons_of_mem _ hc)

/-- A store that agrees on the chain's own addresses has the chain. -/
theorem Chain.congr (h : Chain next val σ p xs q)
    (hσ : ∀ c ∈ xs, τ c.1 = σ c.1) : Chain next val τ p xs q :=
  h.retain fun c hc v hv => ⟨v, (hσ c hc).trans hv, rfl, rfl⟩

/-- A store where the link in front of a cell leads past it has the chain
without the cell. Where the cell was the first, the chain starts behind
it. -/
theorem Chain.bypass {v : ν} (h : Chain next val σ p (xs ++ (a, b) :: ys) q)
    (hv : σ a = some v) (hys : ∀ c ∈ ys, SameCell next val σ τ c.1)
    (hxs : ∀ ds d, xs = ds ++ [d] → (∀ c ∈ ds, SameCell next val σ τ c.1)
      ∧ ∃ w, τ d.1 = some w ∧ next w = next v ∧ val w = d.2) :
    Chain next val τ (if xs = [] then next v else p) (xs ++ ys) q := by
  obtain ⟨r, hfront, hr, w, hw, -, hback⟩ := chain_append.mp h
  obtain rfl := Option.some.inj (hv.symm.trans hw)
  have hback' := hback.retain hys
  rcases List.eq_nil_or_concat' xs with rfl | ⟨ds, d, rfl⟩
  · rw [if_pos rfl]
    exact hback'
  · obtain ⟨hds, w, hw, hnext, hval⟩ := hxs ds d rfl
    rw [if_neg (by simp)]
    refine chain_append.mpr ⟨next v, ?_, hback'⟩
    exact chain_snoc.mpr
      ⟨(chain_snoc.mp hfront).1.retain hds, w, hw, hval, hnext⟩

/-- Every cell of a chain is in the store, with its payload. -/
theorem Chain.mem (h : Chain next val σ p xs q) {c : ι × β} (hc : c ∈ xs) :
    ∃ v, σ c.1 = some v ∧ val v = c.2 := by
  obtain ⟨ys, zs, rfl⟩ := List.append_of_mem hc
  obtain ⟨r, -, -, v, hv, hb, -⟩ := chain_append.mp h
  exact ⟨v, hv, hb⟩

/-- A chain to the null link starts at its first cell. -/
theorem Chain.start (h : Chain next val σ p xs none) :
    p = xs.head?.map Prod.fst := by
  cases xs with
  | nil => exact h
  | cons c xs => exact h.1

/-- A store has at most one chain from a link to null. -/
theorem Chain.unique (hxs : Chain next val σ p xs none)
    (hys : Chain next val σ p ys none) : xs = ys := by
  induction xs generalizing p ys with
  | nil =>
      cases ys with
      | nil => rfl
      | cons c ys => exact absurd (hxs.symm.trans hys.1) (by simp)
  | cons c xs ih =>
      obtain ⟨a, b⟩ := c
      obtain ⟨rfl, v, hv, rfl, hrest⟩ := hxs
      cases ys with
      | nil => exact absurd hys (by simp)
      | cons c ys =>
          obtain ⟨a', b'⟩ := c
          obtain ⟨ha, w, hw, rfl, hrest'⟩ := hys
          obtain rfl := Option.some.inj ha
          obtain rfl := Option.some.inj (hv.symm.trans hw)
          rw [ih hrest hrest']

section Update

variable [DecidableEq ι]

/-- Writing outside a chain keeps it. -/
theorem Chain.update (h : Chain next val σ p xs q) {o : Option ν}
    (ha : a ∉ xs.map Prod.fst) :
    Chain next val (Function.update σ a o) p xs q := by
  refine h.congr fun c hc => Function.update_of_ne ?_ ..
  intro heq
  subst heq
  exact ha (List.mem_map_of_mem hc)

/-- Redirecting the link of the last cell redirects the chain's end. -/
theorem Chain.relink_last (h : Chain next val σ p (xs ++ [(a, b)]) q)
    (ha : a ∉ xs.map Prod.fst) {v : ν} (hv : val v = b) (hn : next v = r) :
    Chain next val (Function.update σ a (some v)) p (xs ++ [(a, b)]) r :=
  chain_snoc.mpr
    ⟨(chain_snoc.mp h).1.update ha, v, Function.update_self .., hv, hn⟩

/-- Unlinking a cell: redirecting the link before it to the link after
it gives the chain without the cell. -/
theorem Chain.unlink {b' : β} {a' : ι}
    (h : Chain next val σ p (xs ++ (a, b) :: (a', b') :: ys) q)
    (hnd : ((xs ++ (a, b) :: (a', b') :: ys).map Prod.fst).Nodup)
    {v v' : ν} (hv' : σ a' = some v') (hb : val v = b)
    (hn : next v = next v') :
    Chain next val (Function.update σ a (some v)) p
      (xs ++ (a, b) :: ys) q := by
  obtain ⟨r, hxs, hr, w, -, -, ha', w', hw', -, hys⟩ := chain_append.mp h
  obtain rfl : v' = w' := by simpa using hv'.symm.trans hw'
  simp only [List.map_append, List.map_cons, List.nodup_append,
    List.nodup_cons, List.mem_cons, not_or] at hnd
  obtain ⟨-, ⟨⟨-, hays⟩, -⟩, hdis⟩ := hnd
  refine chain_append.mpr ⟨some a, ?_, rfl, v, Function.update_self .., hb, ?_⟩
  · exact (hr ▸ hxs).update fun hm => hdis a hm a (.inl rfl) rfl
  · exact hn ▸ hys.update hays

/-- Overwriting the payload of one cell changes that cell only. -/
theorem Chain.repayload {b' : β}
    (h : Chain next val σ p (xs ++ (a, b) :: ys) q)
    (hnd : ((xs ++ (a, b) :: ys).map Prod.fst).Nodup) {v v' : ν}
    (hv : σ a = some v) (hn : next v' = next v) (hb : val v' = b') :
    Chain next val (Function.update σ a (some v')) p
      (xs ++ (a, b') :: ys) q := by
  obtain ⟨r, hxs, hr, w, hw, -, hys⟩ := chain_append.mp h
  obtain rfl : v = w := by simpa using hv.symm.trans hw
  simp only [List.map_append, List.map_cons, List.nodup_append,
    List.nodup_cons, List.mem_cons] at hnd
  obtain ⟨-, ⟨hays, -⟩, hdis⟩ := hnd
  refine chain_append.mpr ⟨r, ?_, hr, v', Function.update_self .., hb, ?_⟩
  · exact hxs.update fun hm => hdis a hm a (.inl rfl) rfl
  · exact hn ▸ hys.update hays

end Update

end Linked
