/-
Order of arrival: a log lists elements as they arrived, and a sequence is
in order when its elements stand in it as they stand in the log. What
arrived before stays before as the log grows, and an arrival is behind
everything that is there.
-/
import Mathlib.Data.List.Pairwise

namespace Arrival

variable {α : Type*} {log l l' : List α} {x y : α}

/-- `x` arrived before `y`. -/
def Before (log : List α) (x y : α) : Prop := List.Sublist [x, y] log

instance [DecidableEq α] : DecidableRel (Before log) :=
  fun x y => inferInstanceAs (Decidable (List.Sublist [x, y] log))

/-- The elements of `l` stand in the order they arrived in. -/
def InOrder (log l : List α) : Prop := l.Pairwise (Before log)

instance [DecidableEq α] : Decidable (InOrder log l) :=
  inferInstanceAs (Decidable (l.Pairwise (Before log)))

theorem inOrder_nil : InOrder log [] := List.Pairwise.nil

theorem inOrder_append : InOrder log (l ++ l')
    ↔ InOrder log l ∧ InOrder log l' ∧ ∀ x ∈ l, ∀ y ∈ l', Before log x y :=
  List.pairwise_append

theorem InOrder.sublist (h : InOrder log l) (hs : l'.Sublist l) :
    InOrder log l' :=
  List.Pairwise.sublist hs h

theorem InOrder.left (h : InOrder log (l ++ l')) : InOrder log l :=
  (inOrder_append.mp h).1

theorem InOrder.right (h : InOrder log (l ++ l')) : InOrder log l' :=
  (inOrder_append.mp h).2.1

theorem Before.grow (h : Before log x y) (more : List α) :
    Before (log ++ more) x y :=
  List.Sublist.trans h (List.sublist_append_left log more)

/-- What is in the log is before what arrives next. -/
theorem before_arrival (hx : x ∈ log) (y : α) : Before (log ++ [y]) x y :=
  (List.singleton_sublist.mpr hx).append (List.Sublist.refl [y])

/-- An arrival goes to the back of a sequence that is in order. -/
theorem InOrder.arrive (h : InOrder log l) (hl : ∀ x ∈ l, x ∈ log) (y : α) :
    InOrder (log ++ [y]) (l ++ [y]) := by
  refine inOrder_append.mpr ⟨h.imp fun hxy => hxy.grow [y],
    List.pairwise_singleton _ y, fun x hx z hz => ?_⟩
  rw [List.mem_singleton.mp hz]
  exact before_arrival (hl x hx) y

end Arrival
