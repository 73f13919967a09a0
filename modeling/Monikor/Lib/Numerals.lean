/-
Numbers written in digits, and the functions of stdlib.h that read them.

A numeral is a list of bytes that are digits of a base, most significant
first (`value`). `scan` is what `strtol` and `strtoull` share: blanks, a
sign, the prefix of a base, digits, and what is behind them. A text is the
bytes up to its terminator, so its end is the empty list.
-/
import Mathlib.Data.List.Basic
import Mathlib.Data.List.Induction
import Mathlib.Data.List.TakeWhile
import Mathlib.Tactic.Ring
import Mathlib.Tactic.SplitIfs

namespace Numerals

-- ================================================================= digits

/-- `isspace`: a blank, or one of tab, newline and the three behind them. -/
def isSpace (b : UInt8) : Bool := b == 32 || (9 ≤ b && b ≤ 13)

theorem isSpace_of_blank {b : UInt8} (h : b = 32 ∨ b = 9) :
    isSpace b = true := by
  rcases h with rfl | rfl
  · rfl
  · rfl

/-- The value of a digit or letter; 36 is no digit in any base. -/
def digitValue (b : UInt8) : Nat :=
  if 48 ≤ b ∧ b ≤ 57 then b.toNat - 48
  else if 97 ≤ b ∧ b ≤ 122 then b.toNat - 87
  else if 65 ≤ b ∧ b ≤ 90 then b.toNat - 55
  else 36

def isDigitIn (base : Nat) (b : UInt8) : Bool := digitValue b < base

/-- The number that digits stand for. -/
def value (base : Nat) (ds : List UInt8) : Nat :=
  ds.foldl (fun v b => base * v + digitValue b) 0

/-- A list of digits, and not the empty one. -/
def IsNumeral (base : Nat) (ds : List UInt8) : Prop :=
  ds ≠ [] ∧ ∀ b ∈ ds, isDigitIn base b = true

instance (base : Nat) (ds : List UInt8) : Decidable (IsNumeral base ds) :=
  decidable_of_iff (ds ≠ [] ∧ ds.all (isDigitIn base) = true)
    (and_congr_right fun _ => List.all_eq_true)

/-- No digit follows. -/
def Stops (base : Nat) (rest : List UInt8) : Prop :=
  ∀ b ∈ rest.head?, isDigitIn base b = false

instance (base : Nat) (rest : List UInt8) : Decidable (Stops base rest) :=
  inferInstanceAs (Decidable (∀ b ∈ rest.head?, _))

variable {base base' : Nat} {ds rest : List UInt8} {b : UInt8}

@[simp] theorem value_nil : value base [] = 0 := rfl

theorem value_concat (ds : List UInt8) (b : UInt8) :
    value base (ds ++ [b]) = base * value base ds + digitValue b := by
  simp [value]

theorem value_append (as bs : List UInt8) :
    value base (as ++ bs) = base ^ bs.length * value base as + value base bs := by
  induction bs using List.reverseRecOn with
  | nil => simp
  | append_singleton bs b ih =>
      rw [← List.append_assoc, value_concat, value_concat, ih, List.length_append,
        List.length_singleton, Nat.pow_succ]
      ring

/-- More digits are no smaller a number. -/
theorem value_le_append (hbase : 0 < base) (as bs : List UInt8) :
    value base as ≤ value base (as ++ bs) := by
  rw [value_append]
  calc value base as
      ≤ base ^ bs.length * value base as :=
        Nat.le_mul_of_pos_left _ (Nat.pow_pos hbase)
    _ ≤ base ^ bs.length * value base as + value base bs := Nat.le_add_right _ _

/-- In a smaller base, digits are no larger a number. -/
theorem value_mono (h : base ≤ base') (ds : List UInt8) :
    value base ds ≤ value base' ds := by
  induction ds using List.reverseRecOn with
  | nil => exact Nat.le_refl 0
  | append_singleton ds b ih =>
      rw [value_concat, value_concat]
      exact Nat.add_le_add_right (Nat.mul_le_mul h ih) _

theorem value_lt_pow (hd : ∀ b ∈ ds, isDigitIn base b = true) :
    value base ds < base ^ ds.length := by
  induction ds using List.reverseRecOn with
  | nil => simp
  | append_singleton ds b ih =>
      have hfront := ih fun c hc => hd c (by simp [hc])
      have hb : digitValue b < base := by
        simpa [isDigitIn] using hd b (by simp)
      rw [value_concat, List.length_append, List.length_singleton, Nat.pow_succ]
      calc base * value base ds + digitValue b
          < base * value base ds + base := Nat.add_lt_add_left hb _
        _ = base * (value base ds + 1) := by ring
        _ ≤ base * base ^ ds.length := Nat.mul_le_mul_left _ hfront
        _ = base ^ ds.length * base := Nat.mul_comm ..

/-- The digits but for the last `n` are the number without them. -/
theorem value_split (hd : ∀ b ∈ ds, isDigitIn base b = true) (n : Nat)
    (hn : n ≤ ds.length) :
    ∃ front back, ds = front ++ back
      ∧ value base front = value base ds / base ^ n := by
  obtain ⟨front, back, rfl, hlen⟩ :
      ∃ front back, ds = front ++ back ∧ back.length = n :=
    ⟨ds.take (ds.length - n), ds.drop (ds.length - n), by simp, by simp; omega⟩
  have hback : value base back < base ^ back.length :=
    value_lt_pow fun b hb => hd b (by simp [hb])
  refine ⟨front, back, rfl, ?_⟩
  rw [value_append, ← hlen, Nat.mul_add_div (Nat.zero_lt_of_lt hback),
    Nat.div_eq_of_lt hback, Nat.add_zero]

theorem stops_nil : Stops base [] := by
  intro b hb
  cases hb

theorem takeWhile_stops (ds : List UInt8) (hr : Stops base rest) :
    (ds ++ rest).takeWhile (isDigitIn base) = ds.takeWhile (isDigitIn base) := by
  have hnil : rest.takeWhile (isDigitIn base) = [] := by
    cases rest with
    | nil => rfl
    | cons b rest =>
        have hb : isDigitIn base b = false := hr b rfl
        rw [List.takeWhile_cons_of_neg (by simp [hb])]
  rw [List.takeWhile_append, hnil, List.append_nil]
  split
  case isTrue h => exact ((List.takeWhile_prefix _).eq_of_length h).symm
  case isFalse => rfl

/-- The digits of a numeral are what is in front of a byte that is none. -/
theorem takeWhile_numeral (hd : ∀ b ∈ ds, isDigitIn base b = true)
    (hr : Stops base rest) :
    (ds ++ rest).takeWhile (isDigitIn base) = ds
      ∧ (ds ++ rest).dropWhile (isDigitIn base) = rest := by
  rw [List.takeWhile_append_of_pos hd, List.dropWhile_append_of_pos hd]
  cases rest with
  | nil => simp
  | cons b rest =>
      have hb : isDigitIn base b = false := hr b rfl
      simp [hb]

/-- The decimal digits are the bytes from 0 to 9. -/
theorem isDigitIn_ten : isDigitIn 10 b = true ↔ 48 ≤ b ∧ b ≤ 57 := by
  unfold isDigitIn digitValue
  simp only [UInt8.le_iff_toNat_le, UInt8.reduceToNat, decide_eq_true_eq]
  split_ifs <;> omega

/-- A decimal digit is neither a blank nor a sign. -/
theorem digit_plain (h : isDigitIn 10 b = true) :
    isSpace b = false ∧ b ≠ 43 ∧ b ≠ 45 := by
  obtain ⟨hlow, -⟩ := isDigitIn_ten.mp h
  refine ⟨?_, ?_, ?_⟩
  · have hne : b ≠ 32 := by
      rintro rfl
      exact absurd hlow (by decide)
    have hbig : ¬ b ≤ 13 := by
      rw [UInt8.le_iff_toNat_le] at hlow ⊢
      simp only [UInt8.reduceToNat] at hlow ⊢
      omega
    simp [isSpace, hne, hbig]
  · rintro rfl
    exact absurd hlow (by decide)
  · rintro rfl
    exact absurd hlow (by decide)

-- =============================================================== stdlib.h

/-- The base of the digits, and the text from them on: base 0 is 16, 8 or 10
by the prefix, and `0x` in front of a digit is one of base 16. -/
def radix (base : Nat) (s : List UInt8) : Nat × List UInt8 :=
  match s with
  | 48 :: x :: d :: s' =>
      if (base = 0 ∨ base = 16) ∧ (x = 120 ∨ x = 88) ∧ isDigitIn 16 d then
        (16, d :: s')
      else (if base = 0 then 8 else base, s)
  | 48 :: _ => (if base = 0 then 8 else base, s)
  | _ => (if base = 0 then 10 else base, s)

/-- A number at the front of a text. -/
structure Scan where
  negative : Bool
  magnitude : Nat
  rest : List UInt8
deriving DecidableEq

/-- The text behind a sign, and whether it is a minus. -/
def sign : List UInt8 → Bool × List UInt8
  | 45 :: s => (true, s)
  | 43 :: s => (false, s)
  | s => (false, s)

/-- The number at the front of a text, if there is one. -/
def scan (base : Nat) (s : List UInt8) : Option Scan :=
  let (negative, s) := sign (s.dropWhile isSpace)
  let (base, s) := radix base s
  let digits := s.takeWhile (isDigitIn base)
  if digits = [] then none
  else some ⟨negative, value base digits, s.dropWhile (isDigitIn base)⟩

/-- A number as an integer. -/
def Scan.toInt (n : Scan) : Int :=
  if n.negative then -n.magnitude else n.magnitude

/-- The nearest `long`. -/
def clampLong (v : Int) : Int := max (-2 ^ 63) (min (2 ^ 63 - 1) v)

/-- `strtol`: the number, and where `*endptr` points. -/
def strtol (base : Nat) (s : List UInt8) : Int × List UInt8 :=
  match scan base s with
  | some n => (clampLong n.toInt, n.rest)
  | none => (0, s)

/-- `strtoull`: a minus negates modulo 2^64. -/
def strtoull (base : Nat) (s : List UInt8) : UInt64 × List UInt8 :=
  match scan base s with
  | some n =>
      (if 2 ^ 64 ≤ n.magnitude then 18446744073709551615
        else if n.negative then -UInt64.ofNat n.magnitude
        else UInt64.ofNat n.magnitude,
       n.rest)
  | none => (0, s)

theorem strtol_some {s : List UInt8} {n : Scan} (h : scan base s = some n) :
    strtol base s = (clampLong n.toInt, n.rest) := by
  simp [strtol, h]

theorem strtol_none {s : List UInt8} (h : scan base s = none) :
    strtol base s = (0, s) := by
  simp [strtol, h]

theorem radix_length_le (s : List UInt8) :
    (radix base s).2.length ≤ s.length := by
  unfold radix
  split
  · split
    · simp
    · exact Nat.le_refl _
  · exact Nat.le_refl _
  · exact Nat.le_refl _

theorem sign_length_le (s : List UInt8) : (sign s).2.length ≤ s.length := by
  unfold sign
  split
  · exact Nat.le_succ _
  · exact Nat.le_succ _
  · exact Nat.le_refl _

/-- A number has a digit at least. -/
theorem scan_rest_lt {s : List UInt8} {n : Scan} (h : scan base s = some n) :
    n.rest.length < s.length := by
  obtain ⟨base', s', hradix⟩ :
      ∃ base' s', radix base (sign (s.dropWhile isSpace)).2 = (base', s') :=
    ⟨_, _, rfl⟩
  have hle : s'.length ≤ s.length :=
    calc s'.length
        = (radix base (sign (s.dropWhile isSpace)).2).2.length := by rw [hradix]
      _ ≤ (sign (s.dropWhile isSpace)).2.length := radix_length_le _
      _ ≤ (s.dropWhile isSpace).length := sign_length_le _
      _ ≤ s.length := (List.dropWhile_sublist _).length_le
  simp only [scan, hradix] at h
  by_cases hnone : s'.takeWhile (isDigitIn base') = []
  case pos =>
      rw [if_pos hnone] at h
      cases h
  case neg =>
      rw [if_neg hnone] at h
      obtain rfl := Option.some.inj h
      have hsplit : (s'.takeWhile (isDigitIn base')
          ++ s'.dropWhile (isDigitIn base')).length = s'.length := by
        rw [List.takeWhile_append_dropWhile]
      have hpos := List.length_pos_of_ne_nil hnone
      rw [List.length_append] at hsplit
      show (s'.dropWhile (isDigitIn base')).length < s.length
      omega

/-- `*endptr` is where the text starts exactly if there is no number. -/
theorem strtoull_end (s : List UInt8) :
    s = (strtoull base s).2 ↔ scan base s = none := by
  unfold strtoull
  cases hscan : scan base s with
  | none => exact iff_of_true rfl rfl
  | some n =>
      have hlt := scan_rest_lt hscan
      apply iff_of_false
      · intro h
        exact absurd (congrArg List.length h) (by dsimp only; omega)
      · exact Option.some_ne_none n

/-- In base 10 there is no prefix. -/
theorem radix_ten (s : List UInt8) : radix 10 s = (10, s) := by
  unfold radix
  split <;> simp

theorem sign_digit (h : isDigitIn 10 b = true) (s : List UInt8) :
    sign (b :: s) = (false, b :: s) := by
  obtain ⟨-, hplus, hminus⟩ := digit_plain h
  unfold sign
  split
  · simp_all
  · simp_all
  · rfl

/-- A digit behind blanks starts a number. -/
theorem scan_digit (blanks : List UInt8) (hb : ∀ b ∈ blanks, isSpace b = true)
    (hd : isDigitIn 10 b = true) {s : List UInt8}
    (hradix : radix base (b :: s) = (base', b :: s))
    (hin : isDigitIn base' b = true) :
    scan base (blanks ++ b :: s)
      = some ⟨false, value base' ((b :: s).takeWhile (isDigitIn base')),
          (b :: s).dropWhile (isDigitIn base')⟩ := by
  have hfront : (blanks ++ b :: s).dropWhile isSpace = b :: s := by
    rw [List.dropWhile_append_of_pos hb]
    simp [(digit_plain hd).1]
  simp only [scan, hfront, sign_digit hd, hradix]
  simp [hin]

/-- A numeral behind blanks is read to its end. -/
theorem scan_numeral (blanks : List UInt8)
    (hb : ∀ b ∈ blanks, isSpace b = true) (hd : IsNumeral 10 ds)
    (hr : Stops 10 rest) :
    scan 10 (blanks ++ ds ++ rest) = some ⟨false, value 10 ds, rest⟩ := by
  obtain ⟨htake, hdrop⟩ := takeWhile_numeral hd.2 hr
  obtain ⟨d, ds', rfl⟩ := List.exists_cons_of_ne_nil hd.1
  have hdigit : isDigitIn 10 d = true := hd.2 d (by simp)
  rw [List.cons_append] at htake hdrop
  rw [List.append_assoc, List.cons_append,
    scan_digit blanks hb hdigit (radix_ten _) hdigit, htake, hdrop]

/-- A numeral of less than 64 bits is read as the number it stands for. -/
theorem strtoull_numeral (blanks : List UInt8)
    (hb : ∀ b ∈ blanks, isSpace b = true) (hd : IsNumeral 10 ds)
    (hfits : value 10 ds < 2 ^ 64) (hr : Stops 10 rest) :
    strtoull 10 (blanks ++ ds ++ rest) = (UInt64.ofNat (value 10 ds), rest) := by
  unfold strtoull
  rw [scan_numeral blanks hb hd hr]
  dsimp only
  rw [if_neg (Nat.not_le.mpr hfits), if_neg Bool.false_ne_true]

/-- What is read at the front of a word is read in front of more text. -/
theorem strtoull_word {w : List UInt8} (hne : w ≠ [])
    (hw : ∀ b ∈ w, isSpace b = false) (hr : Stops 10 rest) :
    (strtoull 10 (w ++ rest)).1 = (strtoull 10 w).1 := by
  obtain ⟨b, w, rfl⟩ := List.exists_cons_of_ne_nil hne
  have hb : isSpace b = false := hw b (by simp)
  have hshort : (b :: w).dropWhile isSpace = b :: w := by simp [hb]
  have hlong : (b :: w ++ rest).dropWhile isSpace = b :: w ++ rest := by
    simp [hb]
  obtain ⟨hneg, hbehind⟩ : (sign (b :: w ++ rest)).1 = (sign (b :: w)).1
      ∧ (sign (b :: w ++ rest)).2 = (sign (b :: w)).2 ++ rest := by
    unfold sign
    rw [List.cons_append]
    split <;> simp_all
  simp only [strtoull, scan, hshort, hlong, radix_ten, hneg, hbehind,
    takeWhile_stops _ hr]
  by_cases hnone : (sign (b :: w)).2.takeWhile (isDigitIn 10) = []
  · rw [if_pos hnone, if_pos hnone]
  · rw [if_neg hnone, if_neg hnone]

-- =================================================================== base 0

/-- The number that base 0 reads in digits behind a zero. -/
def octal (ds : List UInt8) : Nat := value 8 (ds.takeWhile (isDigitIn 8))

/-- A digit that is not octal ends the number. -/
theorem octal_le (front : List UInt8) (hb : isDigitIn 8 b = false)
    (rest : List UInt8) :
    octal (front ++ b :: rest) ≤ value 10 front := by
  have hcut : (front ++ b :: rest).takeWhile (isDigitIn 8)
      = front.takeWhile (isDigitIn 8) := by
    rw [List.takeWhile_append, List.takeWhile_cons_of_neg (by simp [hb])]
    split
    case isTrue h => simpa using ((List.takeWhile_prefix _).eq_of_length h).symm
    case isFalse => rfl
  calc octal (front ++ b :: rest)
      = value 8 (front.takeWhile (isDigitIn 8)) := congrArg (value 8) hcut
    _ ≤ value 10 (front.takeWhile (isDigitIn 8)) := value_mono (by omega) _
    _ ≤ value 10 (front.takeWhile (isDigitIn 8)
          ++ front.dropWhile (isDigitIn 8)) :=
        value_le_append (by omega) _ _
    _ = value 10 front := by rw [List.takeWhile_append_dropWhile]

/-- From eight on, the number that base 8 reads is a smaller one. -/
theorem octal_lt (h : 8 ≤ value 10 ds) : octal ds < value 10 ds := by
  by_cases hall : ∀ b ∈ ds, isDigitIn 8 b = true
  case pos =>
      rw [octal, List.takeWhile_eq_self_iff.mpr hall]
      rcases List.eq_nil_or_concat' ds with rfl | ⟨front, b, rfl⟩
      · exact absurd h (by decide)
      · have hb : digitValue b < 8 := by simpa [isDigitIn] using hall b (by simp)
        have hmono := value_mono (show 8 ≤ 10 by omega) front
        rw [value_concat] at h ⊢
        rw [value_concat]
        omega
  case neg =>
      obtain ⟨b, hmem, hb⟩ : ∃ b ∈ ds, isDigitIn 8 b = false := by
        simpa using hall
      obtain ⟨front, rest, rfl⟩ := List.append_of_mem hmem
      have hdigit : 8 ≤ digitValue b := by simpa [isDigitIn] using hb
      calc octal (front ++ b :: rest)
          ≤ value 10 front := octal_le front hb rest
        _ < value 10 (front ++ [b]) := by
            rw [value_concat]
            omega
        _ ≤ value 10 (front ++ [b] ++ rest) := value_le_append (by omega) _ _
        _ = value 10 (front ++ b :: rest) := by rw [← List.append_cons]

/-- Below eight the bases agree. -/
theorem octal_eq (h : value 10 ds < 8) : octal ds = value 10 ds := by
  have hall : ∀ b ∈ ds, isDigitIn 8 b = true := by
    intro b hb
    obtain ⟨front, rest, rfl⟩ := List.append_of_mem hb
    have hle : value 10 (front ++ [b]) ≤ value 10 (front ++ [b] ++ rest) :=
      value_le_append (by omega) _ _
    rw [value_concat, ← List.append_cons] at hle
    have hlt : digitValue b < 8 := by omega
    simpa [isDigitIn] using hlt
  rw [octal, List.takeWhile_eq_self_iff.mpr hall]
  rcases List.eq_nil_or_concat' ds with rfl | ⟨front, b, rfl⟩
  · rfl
  · have hmono := value_mono (show 8 ≤ 10 by omega) front
    rw [value_concat] at h ⊢
    rw [value_concat]
    omega

/-- What base 0 reads in decimal digits. -/
def prefixed (ds : List UInt8) : Nat :=
  if ds.head? = some 48 then octal ds else value 10 ds

theorem prefixed_le (ds : List UInt8) : prefixed ds ≤ value 10 ds := by
  unfold prefixed
  split
  case isTrue =>
      rcases Nat.lt_or_ge (value 10 ds) 8 with h | h
      · exact Nat.le_of_eq (octal_eq h)
      · exact Nat.le_of_lt (octal_lt h)
  case isFalse => exact Nat.le_refl _

/-- Base 0 reads no leading zero but that of zero to seven right. -/
theorem prefixed_eq_iff :
    prefixed ds = value 10 ds ↔ ds.head? ≠ some 48 ∨ value 10 ds < 8 := by
  unfold prefixed
  split
  case isTrue h =>
      constructor
      · intro heq
        by_contra hno
        have hlt : octal ds < value 10 ds := octal_lt (by omega)
        omega
      · rintro (hne | hlt)
        · exact absurd h hne
        · exact octal_eq hlt
  case isFalse h => exact iff_of_true rfl (.inl h)

/-- A blank is no digit. -/
theorem stops_space (h : ∀ b ∈ rest.head?, isSpace b = true) :
    Stops 10 rest := by
  intro b hb
  by_contra hdigit
  rw [Bool.not_eq_false] at hdigit
  have hno := (digit_plain hdigit).1
  rw [h b hb] at hno
  cases hno

theorem stops_space_cons (hb : isSpace b = true) (rest : List UInt8) :
    Stops 10 (b :: rest) := by
  apply stops_space
  intro c hc
  obtain rfl : b = c := Option.some.inj hc
  exact hb

/-- What is no decimal digit is no octal one. -/
theorem Stops.octal (h : Stops 10 rest) : Stops 8 rest := by
  intro b hb
  have hdigit : 10 ≤ digitValue b := by simpa [isDigitIn] using h b hb
  have hlarge : ¬ digitValue b < 8 := by omega
  simpa [isDigitIn] using hlarge

/-- Digits that start with no zero are decimal. -/
theorem radix_decimal (hb : b ≠ 48) (s : List UInt8) :
    radix 0 (b :: s) = (10, b :: s) := by
  unfold radix
  split
  · simp_all
  · simp_all
  · rfl

/-- A zero with no `x` behind it is the prefix of base 8. -/
theorem radix_octal {s : List UInt8} (hs : ∀ b ∈ s.head?, b ≠ 120 ∧ b ≠ 88) :
    radix 0 (48 :: s) = (8, 48 :: s) := by
  match s with
  | [] => rfl
  | [b] => rfl
  | b :: d :: s =>
      obtain ⟨hsmall, hlarge⟩ := hs b rfl
      simp [radix, hsmall, hlarge]

/-- Base 0 reads digits that start with a zero as octal. -/
theorem strtoull_prefixed (blanks : List UInt8)
    (hb : ∀ b ∈ blanks, isSpace b = true) (hd : IsNumeral 10 ds)
    (hfits : value 10 ds < 2 ^ 64) (hstops : Stops 10 rest)
    (hx : ∀ b ∈ rest.head?, b ≠ 120 ∧ b ≠ 88) :
    (strtoull 0 (blanks ++ (ds ++ rest))).1 = UInt64.ofNat (prefixed ds) := by
  obtain ⟨rest', hscan⟩ : ∃ rest', scan 0 (blanks ++ (ds ++ rest))
      = some ⟨false, prefixed ds, rest'⟩ := by
    obtain ⟨d, ds', rfl⟩ := List.exists_cons_of_ne_nil hd.1
    have hdigit : isDigitIn 10 d = true := hd.2 d (by simp)
    by_cases hzero : d = 48
    case pos =>
        subst hzero
        have hradix : radix 0 (48 :: (ds' ++ rest))
            = (8, 48 :: (ds' ++ rest)) := by
          apply radix_octal
          intro b hb
          cases ds' with
          | nil => exact hx b hb
          | cons c ds' =>
              obtain rfl : c = b := Option.some.inj hb
              have hplain : isDigitIn 10 c = true := hd.2 c (by simp)
              constructor
              · rintro rfl
                exact absurd hplain (by decide)
              · rintro rfl
                exact absurd hplain (by decide)
        have hrun := scan_digit blanks hb hdigit hradix (by decide)
        rw [← List.cons_append, takeWhile_stops _ hstops.octal] at hrun
        exact ⟨_, hrun⟩
    case neg =>
        have hrun := scan_digit blanks hb hdigit
          (radix_decimal hzero (ds' ++ rest)) hdigit
        rw [← List.cons_append, (takeWhile_numeral hd.2 hstops).1] at hrun
        have hprefixed : prefixed (d :: ds') = value 10 (d :: ds') :=
          if_neg fun h => hzero (Option.some.inj h)
        rw [hprefixed]
        exact ⟨_, hrun⟩
  have hle := prefixed_le ds
  unfold strtoull
  rw [hscan]
  dsimp only
  rw [if_neg (by omega), if_neg Bool.false_ne_true]

theorem strtoull_zero (blanks : List UInt8)
    (hb : ∀ b ∈ blanks, isSpace b = true) (hd : IsNumeral 10 ds)
    (hfits : value 10 ds < 2 ^ 64) (hr : ∀ b ∈ rest.head?, isSpace b = true) :
    (strtoull 0 (blanks ++ (ds ++ rest))).1 = UInt64.ofNat (prefixed ds) := by
  apply strtoull_prefixed blanks hb hd hfits (stops_space hr)
  intro b hin
  have hblank : isSpace b = true := hr b hin
  constructor
  · rintro rfl
    exact absurd hblank (by decide)
  · rintro rfl
    exact absurd hblank (by decide)

end Numerals
