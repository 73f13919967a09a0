/-
Binary floating-point formats: what a bit pattern stands for, and the
patterns nearest to a number.

A format has a sign bit, an exponent and a fraction; its finite patterns
stand for whole multiples of one smallest number. `RoundsTo r b` says that
no finite pattern is nearer to `r` than `b`, which is all that is asked of
an operation: how ties are broken is left open. From it come the two ways
a result is bounded. A number on one side of a pattern is rounded to that
side (`RoundsTo.le`, `RoundsTo.ge`), and in the range of the normal
numbers the error is a fraction of the number (`RoundsTo.near`).
-/
import Mathlib.Algebra.Order.Field.Rat
import Mathlib.Algebra.Order.Floor.Semiring
import Mathlib.Data.Finset.Max
import Mathlib.Data.Rat.Floor
import Mathlib.Tactic.FieldSimp
import Mathlib.Tactic.Linarith
import Mathlib.Tactic.NormNum
import Mathlib.Tactic.Positivity

namespace Ieee

/-- How many bits the exponent and the fraction have. -/
structure Format where
  expBits : Nat
  fracBits : Nat

def binary32 : Format := ⟨8, 23⟩

def binary64 : Format := ⟨11, 52⟩

namespace Format

variable (f : Format)

/-- The biased exponent of a pattern. -/
def exponent (b : Nat) : Nat := b / 2 ^ f.fracBits % 2 ^ f.expBits

def fraction (b : Nat) : Nat := b % 2 ^ f.fracBits

def negative (b : Nat) : Bool := 2 ^ (f.fracBits + f.expBits) ≤ b

/-- A pattern of the format that is no infinity and no NaN. -/
def IsFinite (b : Nat) : Prop :=
  b < 2 ^ (f.fracBits + f.expBits + 1) ∧ f.exponent b < 2 ^ f.expBits - 1

instance (b : Nat) : Decidable (f.IsFinite b) := instDecidableAnd

/-- The magnitude of a finite pattern, in multiples of the smallest one. -/
def units (b : Nat) : Nat :=
  if f.exponent b = 0 then f.fraction b
  else (2 ^ f.fracBits + f.fraction b) * 2 ^ (f.exponent b - 1)

/-- How many of the smallest numbers are one. -/
def scale : Nat := 2 ^ (2 ^ (f.expBits - 1) - 2 + f.fracBits)

/-- The number a finite pattern stands for. -/
def value (b : Nat) : ℚ :=
  (if f.negative b then -1 else 1) * f.units b / f.scale

/-- No finite pattern is nearer to `r`. -/
structure RoundsTo (r : ℚ) (b : Nat) : Prop where
  finite : f.IsFinite b
  nearest : ∀ c, f.IsFinite c → |f.value b - r| ≤ |f.value c - r|

-- ============================================================== patterns

theorem scale_pos : (0 : ℚ) < f.scale := by
  unfold scale
  positivity

theorem value_zero : f.value 0 = 0 := by
  have hunits : f.units 0 = 0 := by simp [units, exponent, fraction]
  simp [value, hunits]

theorem isFinite_zero (he : 2 ≤ f.expBits) : f.IsFinite 0 := by
  have hpow : 2 ^ 2 ≤ 2 ^ f.expBits := Nat.pow_le_pow_right (by decide) he
  refine ⟨by positivity, ?_⟩
  rw [exponent, Nat.zero_div, Nat.zero_mod]
  omega

/-- A number with as many digits as the fraction and the hidden bit, scaled
by a power of two in range, has a pattern. -/
theorem exists_pattern {m e : Nat} (hlow : 2 ^ f.fracBits ≤ m)
    (hhigh : m < 2 ^ (f.fracBits + 1)) (he : e + 1 < 2 ^ f.expBits - 1) :
    ∃ c, f.IsFinite c ∧ f.value c = m * 2 ^ e / f.scale := by
  obtain ⟨k, rfl⟩ := Nat.exists_eq_add_of_le hlow
  have hk : k < 2 ^ f.fracBits := by
    rw [Nat.pow_succ] at hhigh
    omega
  have hpos : 0 < 2 ^ f.fracBits := Nat.pow_pos (by decide)
  have hdiv : (k + 2 ^ f.fracBits * (e + 1)) / 2 ^ f.fracBits = e + 1 := by
    rw [Nat.add_mul_div_left _ _ hpos, Nat.div_eq_of_lt hk, Nat.zero_add]
  have hexp : f.exponent (k + 2 ^ f.fracBits * (e + 1)) = e + 1 := by
    rw [exponent, hdiv, Nat.mod_eq_of_lt (by omega)]
  have hfrac : f.fraction (k + 2 ^ f.fracBits * (e + 1)) = k := by
    rw [fraction, Nat.add_mul_mod_self_left, Nat.mod_eq_of_lt hk]
  have hlt : k + 2 ^ f.fracBits * (e + 1) < 2 ^ (f.fracBits + f.expBits) := by
    calc k + 2 ^ f.fracBits * (e + 1)
        < 2 ^ f.fracBits + 2 ^ f.fracBits * (e + 1) := by omega
      _ = 2 ^ f.fracBits * (e + 2) := by ring
      _ ≤ 2 ^ f.fracBits * 2 ^ f.expBits :=
          Nat.mul_le_mul_left _ (by omega)
      _ = 2 ^ (f.fracBits + f.expBits) := (Nat.pow_add ..).symm
  refine ⟨_, ⟨Nat.lt_trans hlt (Nat.pow_lt_pow_right (by decide)
    (Nat.lt_succ_self _)), by rw [hexp]; exact he⟩, ?_⟩
  have hsign : f.negative (k + 2 ^ f.fracBits * (e + 1)) = false := by
    unfold negative
    rw [decide_eq_false_iff_not]
    omega
  have hunits : f.units (k + 2 ^ f.fracBits * (e + 1))
      = (2 ^ f.fracBits + k) * 2 ^ e := by
    rw [units, hexp, hfrac, if_neg (Nat.succ_ne_zero e),
      Nat.add_sub_cancel]
  rw [value, hsign, hunits, if_neg Bool.false_ne_true, one_mul]
  push_cast
  ring

/-- A nearest pattern exists. -/
theorem exists_roundsTo (he : 2 ≤ f.expBits) (r : ℚ) :
    ∃ b, f.RoundsTo r b := by
  have hne : ((Finset.range (2 ^ (f.fracBits + f.expBits + 1))).filter
      f.IsFinite).Nonempty :=
    ⟨0, by simp [f.isFinite_zero he]⟩
  obtain ⟨b, hb, hmin⟩ :=
    Finset.exists_min_image _ (fun b => |f.value b - r|) hne
  refine ⟨b, (Finset.mem_filter.mp hb).2, fun c hc => hmin c ?_⟩
  exact Finset.mem_filter.mpr ⟨Finset.mem_range.mpr hc.1, hc⟩

-- ============================================================== rounding

variable {f : Format} {r : ℚ} {b c : Nat}

/-- What is not above a pattern is not rounded above it. -/
theorem RoundsTo.le (h : f.RoundsTo r b) (hc : f.IsFinite c)
    (hr : r ≤ f.value c) : f.value b ≤ f.value c := by
  by_contra hlt
  rw [not_le] at hlt
  have hnear := h.nearest c hc
  rw [abs_of_nonneg (by linarith), abs_of_nonneg (by linarith)] at hnear
  linarith

/-- What is not below a pattern is not rounded below it. -/
theorem RoundsTo.ge (h : f.RoundsTo r b) (hc : f.IsFinite c)
    (hr : f.value c ≤ r) : f.value c ≤ f.value b := by
  by_contra hlt
  rw [not_le] at hlt
  have hnear := h.nearest c hc
  rw [abs_of_nonpos (by linarith), abs_of_nonpos (by linarith)] at hnear
  linarith

/-- In the normal range the error is a fraction of the number: the digits
cut off are behind as many as the fraction has. -/
theorem RoundsTo.near (h : f.RoundsTo r b)
    (hlow : 2 ^ f.fracBits ≤ r * f.scale)
    (hhigh : r * f.scale < 2 ^ (f.fracBits + 1) * 2 ^ (2 ^ f.expBits - 3))
    (he : 2 ≤ f.expBits) :
    |f.value b - r| ≤ r / 2 ^ f.fracBits := by
  have hscale := f.scale_pos
  -- the number in units, cut to a whole one
  have hfloor : 2 ^ f.fracBits ≤ ⌊r * f.scale⌋₊ := by
    apply Nat.le_floor
    exact_mod_cast hlow
  have hnonneg : 0 ≤ r * f.scale := le_trans (by positivity) hlow
  have hle : (⌊r * f.scale⌋₊ : ℚ) ≤ r * f.scale := Nat.floor_le hnonneg
  have hlt : r * f.scale < ⌊r * f.scale⌋₊ + 1 := Nat.lt_floor_add_one _
  generalize ⌊r * f.scale⌋₊ = n at hfloor hle hlt
  -- its first digits, and how many are behind them
  have hn : n ≠ 0 := Nat.ne_of_gt (Nat.lt_of_lt_of_le (by positivity) hfloor)
  obtain ⟨e, hlog⟩ := Nat.exists_eq_add_of_le ((Nat.le_log2 hn).mpr hfloor)
  have hlead : 2 ^ f.fracBits * 2 ^ e ≤ n := by
    rw [← Nat.pow_add, ← hlog]
    exact Nat.log2_self_le hn
  have htop : n < 2 ^ (f.fracBits + 1) * 2 ^ e := by
    have hself := Nat.lt_log2_self (n := n)
    rw [hlog] at hself
    calc n < 2 ^ (f.fracBits + e + 1) := hself
      _ = 2 ^ (f.fracBits + 1) * 2 ^ e := by ring
  have hexp : e + 1 < 2 ^ f.expBits - 1 := by
    have hpow : 2 ^ 2 ≤ 2 ^ f.expBits := Nat.pow_le_pow_right (by decide) he
    have hbound : 2 ^ f.fracBits * 2 ^ e
        < 2 ^ (f.fracBits + 1) * 2 ^ (2 ^ f.expBits - 3) := by
      have hcast : ((2 ^ f.fracBits * 2 ^ e : Nat) : ℚ)
          < (2 ^ (f.fracBits + 1) * 2 ^ (2 ^ f.expBits - 3) : Nat) := by
        push_cast
        calc ((2 : ℚ) ^ f.fracBits * 2 ^ e) ≤ n := by exact_mod_cast hlead
          _ ≤ r * f.scale := hle
          _ < _ := hhigh
      exact_mod_cast hcast
    rw [← Nat.pow_add, ← Nat.pow_add] at hbound
    have := (Nat.pow_lt_pow_iff_right (by decide)).mp hbound
    omega
  have hpos : 0 < 2 ^ e := Nat.pow_pos (by decide)
  obtain ⟨c, hc, hvalue⟩ := f.exists_pattern (m := n / 2 ^ e)
    ((Nat.le_div_iff_mul_le hpos).mpr hlead)
    ((Nat.div_lt_iff_lt_mul hpos).mpr htop) hexp
  have hcut : ((n / 2 ^ e : Nat) : ℚ) * 2 ^ e ≤ r * f.scale := by
    have hnat : n / 2 ^ e * 2 ^ e ≤ n := Nat.div_mul_le_self n _
    have hcast : ((n / 2 ^ e : Nat) : ℚ) * 2 ^ e ≤ n := by exact_mod_cast hnat
    exact hcast.trans hle
  have hback : r * f.scale < ((n / 2 ^ e : Nat) : ℚ) * 2 ^ e + 2 ^ e := by
    have hnat : n + 1 ≤ n / 2 ^ e * 2 ^ e + 2 ^ e := by
      have := Nat.lt_div_mul_add (a := n) hpos
      omega
    have hcast : (n : ℚ) + 1 ≤ ((n / 2 ^ e : Nat) : ℚ) * 2 ^ e + 2 ^ e := by
      exact_mod_cast hnat
    linarith
  have hulp : (2 : ℚ) ^ e ≤ r * f.scale / 2 ^ f.fracBits := by
    rw [le_div_iff₀ (by positivity)]
    have hcast : (2 : ℚ) ^ f.fracBits * 2 ^ e ≤ n := by exact_mod_cast hlead
    linarith
  calc |f.value b - r| ≤ |f.value c - r| := h.nearest c hc
    _ = (r * f.scale - ((n / 2 ^ e : Nat) : ℚ) * 2 ^ e) / f.scale := by
        rw [hvalue, abs_of_nonpos]
        · field_simp
          ring
        · rw [sub_nonpos, div_le_iff₀ hscale]
          exact hcut
    _ ≤ 2 ^ e / f.scale := by
        apply div_le_div_of_nonneg_right _ hscale.le
        linarith
    _ ≤ r * f.scale / 2 ^ f.fracBits / f.scale :=
        div_le_div_of_nonneg_right hulp hscale.le
    _ = r / 2 ^ f.fracBits := by field_simp

end Format

end Ieee
