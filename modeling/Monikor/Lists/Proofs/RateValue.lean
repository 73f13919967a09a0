/-
The number a rate is: what the interval and the quotient of
metric_compute.c come to in single precision.

`FloatOps.Ieee` is what the operations promise: a result in range is
rounded to the nearest `float`. An interval that is positive in exact
integers, and computed without overflow, is then divided by as a positive
number not far below it (`computeMetricsInterval_ge`), and a rate that is
not near the largest `float` is a number that is not negative
(`computeDelta_right`).
-/
import Monikor.Lib.Ieee
import Monikor.Metric

namespace Monikor

open Ieee

-- ============================================================ the numbers

/-- The bits of a `float` that is no infinity and no NaN. -/
def IsNumber (bits : UInt32) : Prop := binary32.IsFinite bits.toNat

instance (bits : UInt32) : Decidable (IsNumber bits) :=
  inferInstanceAs (Decidable (binary32.IsFinite bits.toNat))

/-- The number it is. -/
def floatValue (bits : UInt32) : ℚ := binary32.value bits.toNat

/-- `FLT_MAX`. -/
def floatMax : ℚ := (2 ^ 24 - 1) * 2 ^ 104

/-- The same but for a millionth, which four roundings do not make up. -/
def rateMax : ℚ := 2 ^ 128 - 2 ^ 108

/-- IEEE 754: comparisons are exact, and an operation whose result is not
beyond the largest `float` rounds it to a nearest one. The quotient of
`perMillion` is rounded twice, first as a `double`. -/
structure FloatOps.Ieee (F : FloatOps) : Prop where
  lt : ∀ x y, IsNumber x → IsNumber y →
    (F.lt x y = true ↔ floatValue x < floatValue y)
  sub : ∀ x y, IsNumber x → IsNumber y →
    |floatValue x - floatValue y| ≤ floatMax →
    binary32.RoundsTo (floatValue x - floatValue y) (F.sub x y).toNat
  div : ∀ x y, IsNumber x → IsNumber y → floatValue y ≠ 0 →
    |floatValue x / floatValue y| ≤ floatMax →
    binary32.RoundsTo (floatValue x / floatValue y) (F.div x y).toNat
  ofUInt64 : ∀ n : UInt64, binary32.RoundsTo n.toNat (F.ofUInt64 n).toNat
  ofInt64 : ∀ n : Int64, binary32.RoundsTo n.toInt (F.ofInt64 n).toNat
  perMillion : ∀ x, IsNumber x →
    ∃ q, binary64.RoundsTo (floatValue x / 1000000) q
      ∧ binary32.RoundsTo (binary64.value q) (F.perMillion x).toNat

/-- `_compute_metrics_interval` in exact integers, in microseconds. -/
def exactInterval (a b : Metric) : Int :=
  1000000 * (b.clock.sec.toInt - a.clock.sec.toInt)
    + (b.clock.usec.toInt - a.clock.usec.toInt)

/-- A number that 64 signed bits hold. -/
def InInt64 (n : Int) : Prop := -2 ^ 63 ≤ n ∧ n < 2 ^ 63

instance (n : Int) : Decidable (InInt64 n) := instDecidableAnd

/-- No step of `_compute_metrics_interval` overflows. -/
structure IntervalFits (a b : Metric) : Prop where
  sec : InInt64 (b.clock.sec.toInt - a.clock.sec.toInt)
  micros : InInt64 (1000000 * (b.clock.sec.toInt - a.clock.sec.toInt))
  usec : InInt64 (b.clock.usec.toInt - a.clock.usec.toInt)
  total : InInt64 (exactInterval a b)

instance (a b : Metric) : Decidable (IntervalFits a b) :=
  decidable_of_iff (InInt64 (b.clock.sec.toInt - a.clock.sec.toInt)
      ∧ InInt64 (1000000 * (b.clock.sec.toInt - a.clock.sec.toInt))
      ∧ InInt64 (b.clock.usec.toInt - a.clock.usec.toInt)
      ∧ InInt64 (exactInterval a b))
    ⟨fun h => ⟨h.1, h.2.1, h.2.2.1, h.2.2.2⟩,
      fun h => ⟨h.sec, h.micros, h.usec, h.total⟩⟩

/-- Two `float`s, with a difference and a rate over `interval`
microseconds that a `float` can be. -/
structure FloatsFit (x y : UInt32) (interval : Int) : Prop where
  old : IsNumber x
  new : IsNumber y
  difference : floatValue y - floatValue x ≤ floatMax
  rate : (floatValue y - floatValue x) * 1000000 ≤ rateMax * interval

instance (x y : UInt32) (interval : Int) :
    Decidable (FloatsFit x y interval) :=
  decidable_of_iff (IsNumber x ∧ IsNumber y
      ∧ floatValue y - floatValue x ≤ floatMax
      ∧ (floatValue y - floatValue x) * 1000000 ≤ rateMax * interval)
    ⟨fun h => ⟨h.1, h.2.1, h.2.2.1, h.2.2.2⟩,
      fun h => ⟨h.old, h.new, h.difference, h.rate⟩⟩

/-- Integers always have a rate that a `float` can be. -/
def ValuesFit : MetricValue → MetricValue → Int → Prop
  | .float x, .float y, interval => FloatsFit x y interval
  | _, _, _ => True

instance (v w : MetricValue) (interval : Int) :
    Decidable (ValuesFit v w interval) :=
  match v, w with
  | .float x, .float y => inferInstanceAs (Decidable (FloatsFit x y interval))
  | .float _, .int _ => .isTrue trivial
  | .float _, .string _ => .isTrue trivial
  | .int _, _ => .isTrue trivial
  | .string _, _ => .isTrue trivial

/-- Both values are numbers of one type, the second not below the first:
no counter reset. -/
def NotBelow (F : FloatOps) : MetricValue → MetricValue → Bool
  | .int x, .int y => decide (x ≤ y)
  | .float x, .float y => !F.lt y x
  | _, _ => false

/-- The rate of `b` over `a`: it is divided by a positive interval, and is
a number that is not negative. -/
structure RateRight (F : FloatOps) (a b : Metric) : Prop where
  interval : 0 < exactInterval a b
  divisor : IsNumber (computeMetricsInterval F a b)
    ∧ 0 < floatValue (computeMetricsInterval F a b)
  rate : ∃ r v, metricComputeDelta F a b = some r ∧ r.value = .float v
    ∧ IsNumber v ∧ 0 ≤ floatValue v

variable {F : FloatOps} {a b : Metric} {r : ℚ} {n : Nat}

-- ========================================================= the two formats

theorem isNumber_zero : IsNumber 0 := by decide

theorem floatValue_zero : floatValue 0 = 0 := binary32.value_zero

/-- The pattern of 1. -/
theorem isNumber_one : IsNumber 0x3F800000 ∧ floatValue 0x3F800000 = 1 := by
  refine ⟨by decide, ?_⟩
  have hunits : binary32.units 0x3F800000 = 2 ^ 149 := by decide +kernel
  have hscale : binary32.scale = 2 ^ 149 := rfl
  have hsign : binary32.negative 0x3F800000 = false := by decide
  show binary32.value 0x3F800000 = 1
  rw [Format.value, hsign, hunits, hscale]
  norm_num

/-- The error of a `float` that is not tiny. -/
theorem near32 (h : binary32.RoundsTo r n) (hlow : 1 / 10 ^ 7 ≤ r)
    (hhigh : r < 2 ^ 128) : |binary32.value n - r| ≤ r / 2 ^ 23 := by
  have hscale : ((binary32.scale : Nat) : ℚ) = 2 ^ 149 := by
    rw [show binary32.scale = 2 ^ 149 from rfl, Nat.cast_pow, Nat.cast_ofNat]
  refine h.near ?_ ?_ (by decide)
  · show (2 : ℚ) ^ 23 ≤ r * _
    rw [hscale]
    linarith
  · show r * _ < (2 : ℚ) ^ 24 * 2 ^ 253
    rw [hscale]
    linarith

/-- The error of a `double` that is not tiny. -/
theorem near64 (h : binary64.RoundsTo r n) (hlow : 1 / 10 ^ 7 ≤ r)
    (hhigh : r < 2 ^ 128) : |binary64.value n - r| ≤ r / 2 ^ 52 := by
  have hscale : ((binary64.scale : Nat) : ℚ) = 2 ^ 1074 := by
    have hexp : 2 ^ (binary64.expBits - 1) - 2 + binary64.fracBits = 1074 := rfl
    rw [Format.scale, hexp, Nat.cast_pow, Nat.cast_ofNat]
  refine h.near ?_ ?_ (by decide)
  · have hroom : (10 : ℚ) ^ 7 ≤ 2 ^ 1022 :=
      calc (10 : ℚ) ^ 7 ≤ 2 ^ 24 := by norm_num
        _ ≤ 2 ^ 1022 := pow_le_pow_right₀ (by norm_num) (by decide)
    have hunit : 1 ≤ r * 2 ^ 1022 :=
      calc (1 : ℚ) = 1 / 10 ^ 7 * 10 ^ 7 := by norm_num
        _ ≤ r * 2 ^ 1022 :=
            mul_le_mul hlow hroom (by positivity) (le_trans (by norm_num) hlow)
    show (2 : ℚ) ^ 52 ≤ r * _
    rw [hscale]
    calc (2 : ℚ) ^ 52 ≤ r * 2 ^ 1022 * 2 ^ 52 :=
          le_mul_of_one_le_left (by positivity) hunit
      _ = r * 2 ^ 1074 := by rw [mul_assoc, ← pow_add]
  · show r * _ < (2 : ℚ) ^ 53 * 2 ^ 2045
    rw [hscale]
    calc r * 2 ^ 1074 < 2 ^ 128 * 2 ^ 1074 :=
          mul_lt_mul_of_pos_right hhigh (by positivity)
      _ = 2 ^ (128 + 1074) := (pow_add ..).symm
      _ ≤ 2 ^ (53 + 2045) := pow_le_pow_right₀ (by norm_num) (by decide)
      _ = 2 ^ 53 * 2 ^ 2045 := pow_add ..

-- ============================================================ the interval

/-- Without overflow the 64-bit interval is the exact one. -/
theorem interval_toInt (h : IntervalFits a b) :
    (1000000 * (b.clock.sec - a.clock.sec)
      + (b.clock.usec - a.clock.usec)).toInt = exactInterval a b := by
  have hbmod : ∀ n, InInt64 n → n.bmod (2 ^ 64) = n := by
    intro n hn
    unfold InInt64 at hn
    apply Int.bmod_eq_of_le <;> omega
  rw [Int64.toInt_add, Int64.toInt_mul, Int64.toInt_sub, Int64.toInt_sub,
    hbmod _ h.sec, hbmod _ h.usec,
    show (1000000 : Int64).toInt = 1000000 from rfl, hbmod _ h.micros]
  exact hbmod _ h.total

/-- The interval that is divided by is the exact one, rounded three
times. -/
theorem computeMetricsInterval_rounds (hF : F.Ieee) (h : IntervalFits a b) :
    ∃ d q, binary32.RoundsTo (exactInterval a b) d
      ∧ binary64.RoundsTo (binary32.value d / 1000000) q
      ∧ binary32.RoundsTo (binary64.value q)
        (computeMetricsInterval F a b).toNat := by
  have hd := hF.ofInt64 (1000000 * (b.clock.sec - a.clock.sec)
    + (b.clock.usec - a.clock.usec))
  rw [interval_toInt h] at hd
  obtain ⟨q, hq, hv⟩ := hF.perMillion _ hd.finite
  exact ⟨_, q, hd, hq, hv⟩

/-- A positive interval is divided by as a number not far below it. -/
theorem computeMetricsInterval_ge (hF : F.Ieee) (h : IntervalFits a b)
    (hpos : 0 < exactInterval a b) :
    IsNumber (computeMetricsInterval F a b)
      ∧ (1 - 1 / 2 ^ 21) * (exactInterval a b / 1000000 : ℚ)
        ≤ floatValue (computeMetricsInterval F a b) := by
  obtain ⟨d, q, hd, hq, hv⟩ := computeMetricsInterval_rounds hF h
  have hone : (1 : ℚ) ≤ exactInterval a b := by exact_mod_cast hpos
  have hmax : (exactInterval a b : ℚ) < 2 ^ 63 := by
    exact_mod_cast h.total.2
  obtain ⟨hd₁, hd₂⟩ := abs_le.mp (near32 hd (by linarith) (by linarith))
  obtain ⟨hq₁, hq₂⟩ := abs_le.mp (near64 hq (by linarith) (by linarith))
  obtain ⟨hv₁, -⟩ := abs_le.mp (near32 hv (by linarith) (by linarith))
  refine ⟨hv.finite, ?_⟩
  unfold floatValue
  linarith

-- =============================================================== the rate

/-- A rounded difference, divided by the interval. -/
theorem div_interval (hF : F.Ieee) (h : IntervalFits a b)
    (hpos : 0 < exactInterval a b) {x : UInt32}
    (hx : binary32.RoundsTo r x.toNat) (h0 : 0 ≤ r) (hmax : r ≤ floatMax)
    (hrate : r * 1000000 ≤ rateMax * exactInterval a b) :
    IsNumber (F.div x (computeMetricsInterval F a b))
      ∧ 0 ≤ floatValue (F.div x (computeMetricsInterval F a b)) := by
  obtain ⟨hnumber, hge⟩ := computeMetricsInterval_ge hF h hpos
  have hone : (1 : ℚ) ≤ exactInterval a b := by exact_mod_cast hpos
  have hdivisor : 0 < floatValue (computeMetricsInterval F a b) := by linarith
  have hx0 : 0 ≤ floatValue x := by
    have hz := hx.ge isNumber_zero (by
      rw [← floatValue, floatValue_zero]
      exact h0)
    rwa [← floatValue, floatValue_zero] at hz
  have hbound : floatValue x
      ≤ floatMax * floatValue (computeMetricsInterval F a b) := by
    have hstep : floatMax * ((1 - 1 / 2 ^ 21) * (exactInterval a b / 1000000))
        ≤ floatMax * floatValue (computeMetricsInterval F a b) :=
      mul_le_mul_of_nonneg_left hge (by unfold floatMax; norm_num)
    refine le_trans ?_ hstep
    unfold rateMax at hrate
    unfold floatMax at hmax ⊢
    by_cases hsmall : r ≤ 1
    · have hle : floatValue x ≤ 1 := by
        have hup := hx.le isNumber_one.1
          (by rw [← floatValue, isNumber_one.2]; exact hsmall)
        rwa [← floatValue, ← floatValue, isNumber_one.2] at hup
      linarith
    · rw [not_le] at hsmall
      obtain ⟨-, hup⟩ := abs_le.mp (near32 hx (by linarith) (by linarith))
      unfold floatValue
      linarith
  have hquot : |floatValue x / floatValue (computeMetricsInterval F a b)|
      ≤ floatMax := by
    rw [abs_of_nonneg (div_nonneg hx0 hdivisor.le), div_le_iff₀ hdivisor]
    exact hbound
  have hround := hF.div x _ hx.finite hnumber hdivisor.ne' hquot
  refine ⟨hround.finite, ?_⟩
  have hz := hround.ge isNumber_zero
    (by rw [← floatValue, floatValue_zero]; exact div_nonneg hx0 hdivisor.le)
  rwa [← floatValue, floatValue_zero] at hz

/-- A rate over a positive interval, in range, is a number that is not
negative. -/
theorem computeDelta_right (hF : F.Ieee) (ha : a.isTimedelta = true)
    (hup : NotBelow F a.value b.value = true) (h : IntervalFits a b)
    (hvalues : ValuesFit a.value b.value (exactInterval a b))
    (hpos : 0 < exactInterval a b) : RateRight F a b := by
  obtain ⟨hnumber, hge⟩ := computeMetricsInterval_ge hF h hpos
  have hone : (1 : ℚ) ≤ exactInterval a b := by exact_mod_cast hpos
  refine ⟨hpos, ⟨hnumber, by linarith⟩, ?_⟩
  unfold metricComputeDelta
  cases hva : a.value with
  | string s => simp [hva, NotBelow] at hup
  | int x =>
      cases hvb : b.value with
      | string s => simp [hva, hvb, NotBelow] at hup
      | float y => simp [hva, hvb, NotBelow] at hup
      | int y =>
          rw [hva, hvb] at hup
          have hxy : ¬ y < x := by
            rw [UInt64.not_lt]
            exact of_decide_eq_true hup
          have hlt : (((y - x).toNat : Nat) : ℚ) < 2 ^ 64 := by
            exact_mod_cast (y - x).toNat_lt
          have hdiv := div_interval hF h hpos (hF.ofUInt64 (y - x))
            (Nat.cast_nonneg _) (by unfold floatMax; linarith)
            (by unfold rateMax; linarith)
          exact ⟨_, _, rfl, by simp only [computeIntDelta, ha, if_pos, hxy,
            if_false], hdiv⟩
  | float x =>
      cases hvb : b.value with
      | string s => simp [hva, hvb, NotBelow] at hup
      | int y => simp [hva, hvb, NotBelow] at hup
      | float y =>
          rw [hva, hvb] at hup hvalues
          obtain ⟨hx, hy, hdiff, hrate⟩ := hvalues
          have hxy : ¬ F.lt y x = true := by
            unfold NotBelow at hup
            rwa [Bool.not_eq_true', ← Bool.not_eq_true] at hup
          have hle : floatValue x ≤ floatValue y := by
            rw [hF.lt y x hy hx, not_lt] at hxy
            exact hxy
          have hsub := hF.sub y x hy hx
            (by rw [abs_of_nonneg (by linarith)]; exact hdiff)
          have hdiv := div_interval hF h hpos hsub (by linarith) hdiff hrate
          exact ⟨_, _, rfl, by simp only [computeFloatDelta, ha, if_pos, hxy,
            if_false, Bool.false_eq_true], hdiv⟩

-- ============================================== operations that round so

/-- A `float` nearest to a number. -/
noncomputable def nearest32 (r : ℚ) : UInt32 :=
  UInt32.ofNat (binary32.exists_roundsTo (by decide) r).choose

theorem nearest32_rounds (r : ℚ) : binary32.RoundsTo r (nearest32 r).toNat := by
  have hspec := (binary32.exists_roundsTo (by decide) r).choose_spec
  unfold nearest32
  rwa [UInt32.toNat_ofNat_of_lt' hspec.finite.1]

/-- A `double` nearest to a number. -/
noncomputable def nearest64 (r : ℚ) : Nat :=
  (binary64.exists_roundsTo (by decide) r).choose

theorem nearest64_rounds (r : ℚ) : binary64.RoundsTo r (nearest64 r) :=
  (binary64.exists_roundsTo (by decide) r).choose_spec

/-- Operations that round to a nearest number. -/
noncomputable def nearestFloat : FloatOps where
  add x y := nearest32 (floatValue x + floatValue y)
  sub x y := nearest32 (floatValue x - floatValue y)
  div x y := nearest32 (floatValue x / floatValue y)
  lt x y := decide (floatValue x < floatValue y)
  ofUInt64 n := nearest32 n.toNat
  ofInt64 n := nearest32 n.toInt
  perMillion x := nearest32 (binary64.value (nearest64 (floatValue x / 1000000)))

theorem nearestFloat_ieee : nearestFloat.Ieee where
  lt _ _ _ _ := decide_eq_true_iff
  sub _ _ _ _ _ := nearest32_rounds _
  div _ _ _ _ _ _ := nearest32_rounds _
  ofUInt64 _ := nearest32_rounds _
  ofInt64 _ := nearest32_rounds _
  perMillion _ _ := ⟨_, nearest64_rounds _, nearest32_rounds _⟩

end Monikor
