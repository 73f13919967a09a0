/-
A counter that follows a bound: at each step it goes up by one if it is
below the bound of that step. Under a rising bound nothing is lost to a
step at which the bound runs ahead: the counter is the least of what any
one step and the number of steps since leave it (`chase_isLeast`).
-/
import Mathlib.Order.Bounds.Basic
import Mathlib.Data.List.Induction

namespace Chase

/-- One step of the counter `k` under the bound `a`. -/
def follow (k a : Nat) : Nat := if k < a then k + 1 else k

/-- The counter after the bounds `as`, from 0. -/
def chase (as : List Nat) : Nat := as.foldl follow 0

/-- What the steps allow: one each, and after step `j` its bound and one for
every step since. -/
def Allowed (as : List Nat) : Set Nat :=
  insert as.length
    {k | ∃ j a, as[j]? = some a ∧ k = a + (as.length - (j + 1))}

variable {as : List Nat} {a k : Nat}

@[simp] theorem chase_nil : chase [] = 0 := rfl

theorem chase_concat (as : List Nat) (a : Nat) :
    chase (as ++ [a]) = follow (chase as) a := by
  simp [chase]

/-- The counter is never ahead of the bounds. -/
theorem chase_le (h : ∀ x ∈ as, x ≤ a) : chase as ≤ a := by
  induction as using List.reverseRecOn with
  | nil => exact Nat.zero_le a
  | append_singleton as x ih =>
      have hx : x ≤ a := h x (by simp)
      have hk : chase as ≤ a := ih fun y hy => h y (by simp [hy])
      rw [chase_concat, follow]
      split <;> omega

/-- One more step allows one more of everything, and its own bound. -/
theorem allowed_concat (as : List Nat) (a k : Nat) :
    k ∈ Allowed (as ++ [a]) ↔ k = a ∨ ∃ k' ∈ Allowed as, k = k' + 1 := by
  simp only [Allowed, Set.mem_insert_iff, Set.mem_ofPred_eq,
    List.length_append, List.length_singleton]
  constructor
  case mp =>
      rintro (rfl | ⟨j, b, hj, rfl⟩)
      · exact .inr ⟨_, .inl rfl, rfl⟩
      · rcases Nat.lt_trichotomy j as.length with hlt | rfl | hgt
        · rw [List.getElem?_append_left hlt] at hj
          exact .inr ⟨_, .inr ⟨j, b, hj, rfl⟩, by omega⟩
        · obtain rfl : a = b := by simpa using hj
          exact .inl (by omega)
        · rw [List.getElem?_eq_none (by simp; omega)] at hj
          cases hj
  case mpr =>
      rintro (rfl | ⟨k', rfl | ⟨j, b, hj, rfl⟩, rfl⟩)
      · exact .inr ⟨as.length, k, by simp, by omega⟩
      · exact .inl rfl
      · have hlt : j < as.length := (List.getElem?_eq_some_iff.mp hj).1
        refine .inr ⟨j, b, ?_, by omega⟩
        rw [List.getElem?_append_left hlt, hj]

/-- Under a rising bound the counter is the least of what is allowed. -/
theorem chase_isLeast (h : as.Pairwise (· ≤ ·)) :
    IsLeast (Allowed as) (chase as) := by
  induction as using List.reverseRecOn with
  | nil => exact ⟨.inl rfl, fun k _ => Nat.zero_le k⟩
  | append_singleton as a ih =>
      obtain ⟨hsorted, -, hlast⟩ := List.pairwise_append.mp h
      obtain ⟨hmem, hleast⟩ := ih hsorted
      have hka : chase as ≤ a := chase_le fun x hx => hlast x hx a (by simp)
      rw [chase_concat, follow]
      constructor
      · rw [allowed_concat]
        split
        case isTrue => exact .inr ⟨_, hmem, rfl⟩
        case isFalse hge => exact .inl (by omega)
      · intro k hk
        rcases (allowed_concat as a k).mp hk with rfl | ⟨k', hk', rfl⟩
        · split <;> omega
        · have hle : chase as ≤ k' := hleast hk'
          split <;> omega

end Chase
