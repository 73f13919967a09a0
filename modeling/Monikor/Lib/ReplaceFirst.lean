/-
Replacing the first element of a list that a partial function accepts:
the search of a loop that edits one element in place and stops.

`replaceFirst f xs` is `none` when `f` rejects every element, and
otherwise the element found together with the list in which `f`'s answer
stands in its place.
-/
import Mathlib.Data.List.Basic

variable {α : Type*}

/-- The first element `f` accepts, and the list with it replaced by
`f`'s answer. -/
def replaceFirst (f : α → Option α) : List α → Option (α × List α)
  | [] => none
  | x :: xs =>
      match f x with
      | some y => some (x, y :: xs)
      | none => (replaceFirst f xs).map fun r => (r.1, x :: r.2)

theorem replaceFirst_eq_none {f : α → Option α} {xs : List α} :
    replaceFirst f xs = none ↔ ∀ x ∈ xs, f x = none := by
  induction xs with
  | nil => simp [replaceFirst]
  | cons x xs ih =>
      cases hf : f x with
      | some y => simp [replaceFirst, hf]
      | none => simp [replaceFirst, hf, ih]

/-- A successful search splits the list at the element found. -/
theorem replaceFirst_eq_some {f : α → Option α} {xs ys : List α} {x : α}
    (h : replaceFirst f xs = some (x, ys)) :
    ∃ pre post y, xs = pre ++ x :: post ∧ ys = pre ++ y :: post
      ∧ (∀ z ∈ pre, f z = none) ∧ f x = some y := by
  induction xs generalizing ys with
  | nil => simp [replaceFirst] at h
  | cons z xs ih =>
      cases hf : f z with
      | some y =>
          unfold replaceFirst at h
          simp only [hf, Option.some.injEq, Prod.mk.injEq] at h
          obtain ⟨rfl, rfl⟩ := h
          exact ⟨[], xs, y, rfl, rfl, by simp, hf⟩
      | none =>
          unfold replaceFirst at h
          simp only [hf, Option.map_eq_some_iff] at h
          obtain ⟨⟨x', ys'⟩, hr, he⟩ := h
          obtain ⟨rfl, rfl⟩ := Prod.mk.inj he
          obtain ⟨pre, post, y, rfl, rfl, hpre, hy⟩ := ih hr
          refine ⟨z :: pre, post, y, rfl, rfl, ?_, hy⟩
          intro w hw
          rcases List.mem_cons.mp hw with rfl | hw
          · exact hf
          · exact hpre w hw

/-- Past elements it rejects, the search finds the first one accepted. -/
theorem replaceFirst_skip {f : α → Option α} {pre post : List α} {x y : α}
    (hpre : ∀ z ∈ pre, f z = none) (hx : f x = some y) :
    replaceFirst f (pre ++ x :: post) = some (x, pre ++ y :: post) := by
  induction pre with
  | nil => simp [replaceFirst, hx]
  | cons z pre ih =>
      have hz := hpre z (List.mem_cons_self ..)
      have hrest := ih fun w hw => hpre w (List.mem_cons_of_mem _ hw)
      simp [replaceFirst, hz, hrest]
