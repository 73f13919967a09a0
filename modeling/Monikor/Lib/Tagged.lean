/-
Numbers behind tags: the first place of a tag in a text of lines is in the
first entry the tag is that of, if each line has the tag exactly where it is
such an entry.
-/
import Mathlib.Data.List.Find
import Monikor.Lib.Numerals
import Monikor.Lib.Search

namespace Search

open Numerals

/-- A decimal number of less than 64 bits, as it is written. -/
structure Figure where
  digits : List UInt8
  numeral : IsNumeral 10 digits
  fits : value 10 digits < 2 ^ 64

def Figure.number (n : Figure) : Nat := value 10 n.digits

theorem Figure.digits_ne (n : Figure) : n.digits ≠ [] := n.numeral.1

/-- What is no digit is not among its digits. -/
theorem Figure.notMem {b : UInt8} (n : Figure) (hb : isDigitIn 10 b = false) :
    b ∉ n.digits := by
  intro h
  have hdigit := n.numeral.2 b h
  rw [hb] at hdigit
  cases hdigit

/-- A number is read to what is no digit. -/
theorem Figure.strtoull {d : UInt8} (n : Figure)
    (hd : isDigitIn 10 d = false) (rest : List UInt8) :
    strtoull 10 (n.digits ++ d :: rest) = (UInt64.ofNat n.number, d :: rest) := by
  have hstops : Stops 10 (d :: rest) := by
    intro b hb
    obtain rfl : d = b := Option.some.inj hb
    exact hd
  have hrun := strtoull_numeral [] (fun _ h => nomatch h) n.numeral n.fits hstops
  exact hrun

/-- The number behind the first place of a tag. -/
def numberBehind (tag text : List UInt8) : Option UInt64 := do
  let (_, place) ← strstr tag text
  return (Numerals.strtoull 10 (place.drop tag.length)).1

variable {β κ : Type*} {line : β → List UInt8} {lines : List β}
  {part : β → Option κ} {q : κ → Bool} {tag : List UInt8} {sep : UInt8}

/-- The first line with a tag is that of the first entry it is the tag of. -/
theorem find_tagged
    (htag : ∀ l ∈ lines, tag <:+: line l ↔ ∃ k ∈ part l, q k) :
    (lines.find? (tag <:+: line ·)).bind part
      = (lines.filterMap part).find? q := by
  rw [List.find?_filterMap]
  congr 1
  apply List.find?_congr
  intro l hl
  rw [Bool.eq_iff_iff, decide_eq_true_iff, htag l hl, Option.any_eq_true]
  rfl

/-- The number behind a tag is that of the first entry it is the tag of. -/
theorem numberBehind_lines (lines : List β) (part : β → Option κ)
    (q : κ → Bool) (figure : κ → Figure) (hsep : sep ∉ tag) (hne : tag ≠ [])
    (htag : ∀ l ∈ lines, tag <:+: line l ↔ ∃ k ∈ part l, q k)
    (hline : ∀ l ∈ lines, ∀ k ∈ part l, q k → ∃ front d after,
      isDigitIn 10 d = false ∧ strstr tag (line l)
        = some (front, tag ++ ((figure k).digits ++ d :: after))) :
    numberBehind tag (joined sep (lines.map line))
      = ((lines.filterMap part).find? q).map fun k =>
        UInt64.ofNat (figure k).number := by
  have hfind := find_tagged htag
  cases hfirst : lines.find? (tag <:+: line ·) with
  | none =>
      rw [hfirst, Option.bind_none] at hfind
      rw [numberBehind, strstr_lines_none hsep hne hfirst, ← hfind]
      rfl
  | some l =>
      rw [hfirst, Option.bind_some] at hfind
      have hin := List.mem_of_find?_eq_some hfirst
      have hhas : tag <:+: line l := by simpa using List.find?_some hfirst
      obtain ⟨k, hk, hq⟩ := (htag l hin).mp hhas
      obtain ⟨front, d, after, hd, hhere⟩ := hline l hin k hk hq
      obtain ⟨before, front', rest, later, hrun, htext⟩ :=
        strstr_lines hsep hfirst
      obtain ⟨rfl, rfl⟩ := Prod.mk.inj (Option.some.inj (hhere.symm.trans hrun))
      have hread := (figure k).strtoull hd (after ++ sep :: joined sep later)
      rw [numberBehind, htext, ← hfind, hk]
      simp only [List.append_assoc, List.cons_append, Option.bind_eq_bind,
        Option.bind_some, Option.pure_def, List.drop_left, hread,
        Option.map_some]

end Search
