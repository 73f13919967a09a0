/-
Which counters of varnishstat reach the metrics as the numbers of their fields.

A counter is looked for by the first place where the name of its field is, and
its number is read as many bytes behind it as the name of the metric has, which
is longer than that of the field. That place is in the blanks in front of the
number only if they are wide enough (`StatLine.Aligned`); elsewhere it is
somewhere in the digits, in the description or in the lines behind, and a
number that stands there is pushed (`VarnishMetric.poll_found`).
-/
import Mathlib.Data.Bool.AllAny
import Mathlib.Data.List.Nodup
import Monikor.Modules.VarnishStat

namespace Monikor

open Numerals Search

-- ====================================================================== output

/-- A line of `varnishstat -1`: a field, behind a dotted prefix or none, blanks,
a number, and the rate and the description behind a blank. -/
structure StatLine where
  dotted : List UInt8
  field : List UInt8
  gap : List UInt8
  digits : List UInt8
  behind : List UInt8
  ends_dotted : dotted = [] ∨ dotted.getLast? = some 46
  undotted : 46 ∉ field
  plain : ∀ b ∈ dotted ++ field, isSpace b = false
  blank : gap ≠ [] ∧ ∀ b ∈ gap, b = 32 ∨ b = 9
  numeral : IsNumeral 10 digits
  fits : value 10 digits < 2 ^ 64
  spaced : ∀ b ∈ behind.head?, b = 32 ∨ b = 9
  one_line : 10 ∉ behind

/-- The full name of the field. -/
def StatLine.name (l : StatLine) : List UInt8 := l.dotted ++ l.field

def StatLine.number (l : StatLine) : UInt64 := UInt64.ofNat (value 10 l.digits)

def StatLine.line (l : StatLine) : List UInt8 :=
  l.name ++ l.gap ++ l.digits ++ l.behind

/-- The output of `varnishstat -1`. -/
structure VarnishStat where
  lines : List StatLine
  distinct : (lines.map StatLine.name).Nodup

def VarnishStat.text (t : VarnishStat) : List UInt8 :=
  joined 10 (t.lines.map StatLine.line)

/-- A number is that of a line with the field of an entry. -/
def VarnishStat.Counts (t : VarnishStat) (e : VarnishMetric) (v : UInt64) :
    Prop :=
  ∃ l ∈ t.lines, l.field = e.varnishName.bytes ∧ v = l.number

/-- The output is read, and each metric that is pushed is that of an entry,
with the number of its field. -/
def VarnishFetched (clock : Timeval) (inst : Option VarnishInstance)
    (t : VarnishStat) : Prop :=
  ∃ metrics, varnishFetchMetrics clock inst t.text = some metrics
    ∧ ∀ m ∈ metrics, ∃ e ∈ varnishMetrics, ∃ v, t.Counts e v
      ∧ m = metricInteger (e.metricName inst) clock v e.flags

-- =================================================================== condition

/-- The name of a metric is as long as what is between the first place of the
name of its field and the number, but for blanks. -/
def StatLine.Aligned (l : StatLine) (e : VarnishMetric) : Prop :=
  ∃ front back, strstr e.varnishName.bytes l.name = some (front, back)
    ∧ back.length ≤ e.name.strlen ∧ e.name.strlen ≤ (back ++ l.gap).length

/-- The name of a metric leads behind the first digit of the number, to a later
one. -/
def StatLine.Cut (l : StatLine) (e : VarnishMetric) : Prop :=
  ∃ front back, strstr e.varnishName.bytes l.name = some (front, back)
    ∧ (back ++ l.gap).length < e.name.strlen
    ∧ e.name.strlen < (back ++ l.gap).length + l.digits.length

/-- The first place of a field in a line is behind the name of the transient
storage, which is left out. -/
def StatLine.Transient (l : StatLine) (e : VarnishMetric) : Prop :=
  ∃ front back, strstr e.varnishName.bytes l.line = some (front, back)
    ∧ varnishSmaTransient <:+ front

/-- The first line that holds the field of an entry. -/
def VarnishStat.first (t : VarnishStat) (e : VarnishMetric) : Option StatLine :=
  t.lines.find? (e.varnishName.bytes <:+: ·.line)

/-- The first line that holds the field of an entry is that of the field, and
padded as wide as the name of the metric asks for; or it is left out. -/
def VarnishStat.Right (t : VarnishStat) : Prop :=
  ∀ e ∈ varnishMetrics, ∀ l, t.first e = some l →
    l.Transient e ∨ l.field = e.varnishName.bytes ∧ l.Aligned e

/-- The number at the front of a text, if there is one. -/
def numberAt (s : List UInt8) : Option UInt64 :=
  (scan 10 s).map fun _ => (strtoull 10 s).1

-- ====================================================================== table

variable {clock : Timeval} {inst : Option VarnishInstance} {t : VarnishStat}
  {e : VarnishMetric} {l : StatLine} {front found : List UInt8}

/-- The metrics are told apart by their names. -/
theorem metricName_inj : ∀ e ∈ varnishMetrics, ∀ e' ∈ varnishMetrics,
    e.metricName inst = e'.metricName inst → e = e' := by
  -- the names as numbers, which are faster to compare
  have hkeys : (varnishMetrics.map fun e => value 37 e.name.bytes).Nodup := by
    decide +kernel
  intro e he e' he' h
  apply List.inj_on_of_nodup_map hkeys he he'
  apply congrArg (value 37)
  cases inst with
  | none => exact congrArg CString.bytes h
  | some i =>
      have hbytes : (e.name ++ CString.ofString "." ++ i.name).bytes
          = (e'.name ++ CString.ofString "." ++ i.name).bytes :=
        congrArg CString.bytes h
      simp only [CString.append_bytes, List.append_assoc] at hbytes
      exact List.append_cancel_right hbytes

/-- The field of an entry is a word in one line. -/
theorem varnishName_plain (he : e ∈ varnishMetrics) :
    10 ∉ e.varnishName.bytes ∧ e.varnishName.bytes ≠ [] := by
  have htable : ∀ e ∈ varnishMetrics,
      10 ∉ e.varnishName.bytes ∧ e.varnishName.bytes ≠ [] := by
    decide
  exact htable e he

theorem isTransient_iff :
    isTransient front = true ↔ varnishSmaTransient <:+ front := by
  rw [List.suffix_iff_eq_drop]
  unfold isTransient
  simp only [Bool.not_eq_true', Bool.or_eq_false_iff, decide_eq_false_iff_not,
    bne_eq_false_iff_eq]
  constructor
  · rintro ⟨-, h⟩
    exact h.symm
  · intro h
    refine ⟨?_, h.symm⟩
    have hlen := congrArg List.length h
    rw [List.length_drop] at hlen
    omega

-- ======================================================================= polls

/-- What is pushed for an entry is the number of its field. -/
def PollRight (clock : Timeval) (inst : Option VarnishInstance)
    (t : VarnishStat) (e : VarnishMetric) : Prop :=
  ∃ pushed, e.poll clock inst t.text = some pushed
    ∧ ∀ m ∈ pushed, ∃ v, t.Counts e v
      ∧ m = metricInteger (e.metricName inst) clock v e.flags

/-- One round, by what stands at the place it reads. -/
theorem VarnishMetric.poll_found {output : List UInt8}
    (hfind : strstr e.varnishName.bytes output = some (front, found)) :
    e.poll clock inst output =
      if isTransient front then some none
      else if found.length < e.name.strlen then none
      else some ((numberAt (found.drop e.name.strlen)).map fun v =>
        metricInteger (e.metricName inst) clock v e.flags) := by
  unfold VarnishMetric.poll numberAt
  rw [hfind]
  dsimp only
  cases hscan : scan 10 (found.drop e.name.strlen) with
  | none => rw [if_pos (strtoull_end _ |>.mpr hscan)]; rfl
  | some n =>
      have hend : ¬ found.drop e.name.strlen
          = (strtoull 10 (found.drop e.name.strlen)).2 := by
        rw [strtoull_end, hscan]
        exact Option.some_ne_none n
      rw [if_neg hend]
      rfl

theorem VarnishMetric.poll_name {output : List UInt8} {m : Metric}
    (hpoll : e.poll clock inst output = some (some m)) :
    m.name = e.metricName inst := by
  cases hfind : strstr e.varnishName.bytes output with
  | none =>
      rw [VarnishMetric.poll, hfind] at hpoll
      cases hpoll
  | some place =>
      obtain ⟨front, found⟩ := place
      rw [e.poll_found hfind] at hpoll
      split at hpoll
      case isTrue => cases hpoll
      case isFalse =>
          split at hpoll
          case isTrue => cases hpoll
          case isFalse =>
              obtain ⟨v, -, rfl⟩ :=
                Option.map_eq_some_iff.mp (Option.some.inj hpoll)
              rfl

/-- What is pushed is right where nothing is read, or the place is in the text
and what stands there is the number of the field. -/
theorem pollRight_found
    (hfind : strstr e.varnishName.bytes t.text = some (front, found)) :
    PollRight clock inst t e
      ↔ varnishSmaTransient <:+ front ∨ e.name.strlen ≤ found.length
        ∧ ∀ v, numberAt (found.drop e.name.strlen) = some v
          → t.Counts e v := by
  unfold PollRight
  rw [e.poll_found hfind]
  by_cases htransient : varnishSmaTransient <:+ front
  case pos =>
      rw [if_pos (isTransient_iff.mpr htransient)]
      apply iff_of_true
      · exact ⟨none, rfl, by simp⟩
      · exact .inl htransient
  case neg =>
      rw [if_neg (isTransient_iff.not.mpr htransient), or_iff_right htransient]
      by_cases hlen : found.length < e.name.strlen
      case pos =>
          rw [if_pos hlen]
          apply iff_of_false
          · rintro ⟨pushed, hpoll, -⟩
            cases hpoll
          · rintro ⟨hinside, -⟩
            omega
      case neg =>
          rw [if_neg hlen, and_iff_right (Nat.not_lt.mp hlen)]
          constructor
          · rintro ⟨pushed, hpoll, hpushed⟩ v hv
            rw [hv] at hpoll
            obtain rfl := Option.some.inj hpoll
            obtain ⟨v', hcounts, heq⟩ := hpushed _ rfl
            obtain rfl : v = v' := by
              simpa [metricInteger] using heq
            exact hcounts
          · intro h
            refine ⟨_, rfl, ?_⟩
            intro m hm
            obtain ⟨v, hv, rfl⟩ := Option.map_eq_some_iff.mp hm
            exact ⟨v, h v hv, rfl⟩

/-- In the blanks in front of a number, and among its digits, a number stands. -/
theorem numberAt_digits (l : StatLine) {blanks ds : List UInt8}
    (hblanks : ∀ b ∈ blanks, isSpace b = true) (hds : IsNumeral 10 ds)
    (hfits : value 10 ds < 2 ^ 64) (rest : List UInt8) :
    numberAt (blanks ++ ds ++ (l.behind ++ 10 :: rest))
      = some (UInt64.ofNat (value 10 ds)) := by
  have hstops : Stops 10 (l.behind ++ 10 :: rest) := by
    cases hbehind : l.behind with
    | nil => exact stops_space_cons rfl rest
    | cons c behind =>
        apply stops_space_cons
        exact isSpace_of_blank (l.spaced c (by simp [hbehind]))
  unfold numberAt
  rw [scan_numeral _ hblanks hds hstops,
    strtoull_numeral _ hblanks hds hfits hstops]
  rfl

/-- What is found for an entry, if it is in the name of the first line that
holds its field. -/
theorem VarnishStat.found_name (he : e ∈ varnishMetrics)
    (hfirst : t.first e = some l) {front' back : List UInt8}
    (hname : strstr e.varnishName.bytes l.name = some (front', back)) :
    ∃ front after, strstr e.varnishName.bytes t.text = some (front, back
      ++ (l.gap ++ (l.digits ++ (l.behind ++ 10 :: joined 10 after)))) := by
  obtain ⟨before, front'', rest, after, hline, hrun⟩ :=
    strstr_lines (varnishName_plain he).1 hfirst
  have hlater := strstr_append_right hname (l.gap ++ l.digits ++ l.behind)
  rw [← List.append_assoc, ← List.append_assoc, ← StatLine.line, hline] at hlater
  obtain ⟨-, rfl⟩ := Prod.mk.inj (Option.some.inj hlater)
  have hbehind : back ++ (l.gap ++ l.digits ++ l.behind) ++ 10 :: joined 10 after
      = back ++ (l.gap ++ (l.digits ++ (l.behind ++ 10 :: joined 10 after))) := by
    simp
  rw [hbehind] at hrun
  exact ⟨_, after, hrun⟩

/-- In an aligned line its number is read. -/
theorem StatLine.Aligned.number_read (h : l.Aligned e)
    (he : e ∈ varnishMetrics) (hfirst : t.first e = some l) :
    ∃ front found, strstr e.varnishName.bytes t.text = some (front, found)
      ∧ e.name.strlen ≤ found.length
      ∧ numberAt (found.drop e.name.strlen) = some l.number := by
  obtain ⟨front', back, hname, hshort, hlong⟩ := h
  obtain ⟨front, after, hfind⟩ := t.found_name he hfirst hname
  rw [List.length_append] at hlong
  have hplace : (back ++ (l.gap ++ (l.digits
        ++ (l.behind ++ 10 :: joined 10 after)))).drop e.name.strlen
      = l.gap.drop (e.name.strlen - back.length) ++ l.digits
        ++ (l.behind ++ 10 :: joined 10 after) := by
    have hgap : e.name.strlen - back.length ≤ l.gap.length := by omega
    rw [List.drop_append, List.drop_eq_nil_of_le hshort,
      List.nil_append, List.drop_append_of_le_length hgap, List.append_assoc]
  refine ⟨front, _, hfind, ?_, ?_⟩
  · rw [List.length_append, List.length_append]
    omega
  · rw [hplace]
    apply numberAt_digits _ _ l.numeral l.fits
    intro b hb
    exact isSpace_of_blank (l.blank.2 b (List.mem_of_mem_drop hb))

/-- A number without its first digits is another one, if it has no zero in
front. -/
theorem value_drop_lt {ds : List UInt8} (hds : IsNumeral 10 ds)
    (hzero : ds.head? ≠ some 48) {k : Nat} (hk : 0 < k) :
    value 10 (ds.drop k) < value 10 ds := by
  obtain ⟨d, ds, rfl⟩ := List.exists_cons_of_ne_nil hds.1
  obtain ⟨k, rfl⟩ := Nat.exists_eq_succ_of_ne_zero (Nat.ne_of_gt hk)
  have hd : isDigitIn 10 d = true := hds.2 d (by simp)
  have hpos : 0 < value 10 (d :: ds.take k) := by
    have hfirst : 0 < value 10 [d] := by
      have hrange := isDigitIn_ten.mp hd
      have hne : d.toNat ≠ 48 :=
        fun h => hzero (by rw [show d = 48 from UInt8.toNat_inj.mp h]; rfl)
      have hlow : 48 ≤ d.toNat := UInt8.le_iff_toNat_le.mp hrange.1
      have hvalue : value 10 [d] = d.toNat - 48 := by
        simp [value, digitValue, hrange]
      omega
    have hle : value 10 [d] ≤ value 10 ([d] ++ ds.take k) :=
      value_le_append (by decide) _ _
    exact Nat.lt_of_lt_of_le hfirst hle
  have hrest : value 10 (ds.drop k) < 10 ^ (ds.drop k).length := by
    apply value_lt_pow
    intro b hb
    exact hds.2 b (List.mem_cons_of_mem _ (List.mem_of_mem_drop hb))
  calc value 10 ((d :: ds).drop (k + 1))
      = value 10 (ds.drop k) := rfl
    _ < 10 ^ (ds.drop k).length := hrest
    _ ≤ 10 ^ (ds.drop k).length * value 10 (d :: ds.take k) :=
        Nat.le_mul_of_pos_right _ hpos
    _ ≤ value 10 (d :: ds.take k ++ ds.drop k) := by
        rw [value_append]
        exact Nat.le_add_right ..
    _ = value 10 (d :: ds) := by rw [List.cons_append, List.take_append_drop]

/-- In a line that is cut, another number is read. -/
theorem StatLine.Cut.number_read (h : l.Cut e) (he : e ∈ varnishMetrics)
    (hfirst : t.first e = some l) (hzero : l.digits.head? ≠ some 48) :
    ∃ front found v, strstr e.varnishName.bytes t.text = some (front, found)
      ∧ e.name.strlen ≤ found.length
      ∧ numberAt (found.drop e.name.strlen) = some v ∧ v ≠ l.number := by
  obtain ⟨front', back, hname, hlong, hshort⟩ := h
  obtain ⟨front, after, hfind⟩ := t.found_name he hfirst hname
  obtain ⟨k, hk⟩ := Nat.exists_eq_add_of_lt hlong
  have hdigits : k + 1 < l.digits.length := by omega
  have hplace : (back ++ (l.gap ++ (l.digits
        ++ (l.behind ++ 10 :: joined 10 after)))).drop e.name.strlen
      = l.digits.drop (k + 1) ++ (l.behind ++ 10 :: joined 10 after) := by
    rw [hk, ← List.append_assoc, Nat.add_assoc, List.drop_length_add_append,
      List.drop_append_of_le_length (Nat.le_of_lt hdigits)]
  have hnumeral : IsNumeral 10 (l.digits.drop (k + 1)) := by
    refine ⟨fun h => ?_, fun b hb => l.numeral.2 b (List.mem_of_mem_drop hb)⟩
    have hlen := congrArg List.length h
    rw [List.length_drop, List.length_nil] at hlen
    omega
  have hlt : value 10 (l.digits.drop (k + 1)) < value 10 l.digits :=
    value_drop_lt l.numeral hzero (Nat.succ_pos k)
  have hfits : value 10 (l.digits.drop (k + 1)) < 2 ^ 64 :=
    Nat.lt_trans hlt l.fits
  have hnone : ∀ b ∈ ([] : List UInt8), isSpace b = true := by simp
  have hread := numberAt_digits l hnone hnumeral hfits (joined 10 after)
  refine ⟨front, _, UInt64.ofNat (value 10 (l.digits.drop (k + 1))), hfind, ?_,
    ?_, ?_⟩
  · simp only [List.length_append] at hlong hshort ⊢
    omega
  · rw [hplace]
    exact hread
  · intro heq
    have hnat := congrArg UInt64.toNat heq
    rw [StatLine.number, UInt64.toNat_ofNat_of_lt' hfits,
      UInt64.toNat_ofNat_of_lt' l.fits] at hnat
    omega

/-- What is in front of a match in the output ends with the name of the
transient storage exactly if what is in front of it in its line does. -/
theorem transient_iff (he : e ∈ varnishMetrics) (hfirst : t.first e = some l)
    (hfind : strstr e.varnishName.bytes t.text = some (front, found)) :
    varnishSmaTransient <:+ front ↔ l.Transient e := by
  obtain ⟨before, front', rest, after, hline, hrun⟩ :=
    strstr_lines (varnishName_plain he).1 hfirst
  obtain ⟨rfl, -⟩ := Prod.mk.inj (Option.some.inj (hfind.symm.trans hrun))
  constructor
  · intro h
    -- the newline in front of the line is not in the name
    exact ⟨front', rest, hline, suffix_joined (by decide) before h⟩
  · rintro ⟨front'', back, hline', h⟩
    rw [hline] at hline'
    obtain ⟨rfl, -⟩ := Prod.mk.inj (Option.some.inj hline')
    exact h.trans (List.suffix_append ..)

/-- The loop pushes what its rounds push. -/
theorem varnishFetchLoop_iff {output : List UInt8} {Q : Metric → Prop}
    (ms : List VarnishMetric) :
    (∃ metrics, varnishFetchLoop clock inst output ms = some metrics
        ∧ ∀ m ∈ metrics, Q m)
      ↔ ∀ e ∈ ms, ∃ pushed, e.poll clock inst output = some pushed
        ∧ ∀ m ∈ pushed, Q m := by
  induction ms with
  | nil => simp [varnishFetchLoop]
  | cons e ms ih =>
      have hloop : varnishFetchLoop clock inst output (e :: ms)
          = (e.poll clock inst output).bind fun pushed =>
            (varnishFetchLoop clock inst output ms).bind fun later =>
              some (pushed.toList ++ later) := rfl
      rw [List.forall_mem_cons, ← ih, hloop]
      constructor
      case mp =>
          rintro ⟨metrics, hrun, hQ⟩
          obtain ⟨pushed, hpoll, hrun⟩ := Option.bind_eq_some_iff.mp hrun
          obtain ⟨later, hloop, hrun⟩ := Option.bind_eq_some_iff.mp hrun
          obtain rfl := Option.some.inj hrun
          refine ⟨⟨pushed, hpoll, ?_⟩, ⟨later, hloop, ?_⟩⟩
          · intro m hm
            exact hQ m (List.mem_append_left _ (Option.mem_toList.mpr hm))
          · intro m hm
            exact hQ m (List.mem_append_right _ hm)
      case mpr =>
          rintro ⟨⟨pushed, hpoll, hpushed⟩, ⟨later, hloop, hlater⟩⟩
          refine ⟨pushed.toList ++ later, by simp [hpoll, hloop], ?_⟩
          intro m hm
          rcases List.mem_append.mp hm with hm | hm
          · exact hpushed m (Option.mem_toList.mp hm)
          · exact hlater m hm

/-- A metric of the table is pushed under its own name. -/
theorem varnishFetched_iff_polls :
    VarnishFetched clock inst t
      ↔ ∀ e ∈ varnishMetrics, PollRight clock inst t e := by
  unfold VarnishFetched varnishFetchMetrics
  rw [varnishFetchLoop_iff]
  apply forall₂_congr
  intro e he
  apply exists_congr
  intro pushed
  apply and_congr_right
  intro hpoll
  apply forall₂_congr
  intro m hm
  constructor
  · rintro ⟨e', he', v, hcounts, rfl⟩
    have hname := e.poll_name (hpoll.trans (congrArg some hm))
    obtain rfl := metricName_inj e' he' e he hname
    exact ⟨v, hcounts, rfl⟩
  · rintro ⟨v, hcounts, rfl⟩
    exact ⟨e, he, v, hcounts, rfl⟩

/-- A round is right in a line that is left out or aligned. -/
theorem pollRight_of (he : e ∈ varnishMetrics)
    (h : ∀ l, t.first e = some l →
      l.Transient e ∨ l.field = e.varnishName.bytes ∧ l.Aligned e) :
    PollRight clock inst t e := by
  obtain ⟨hsep, hne⟩ := varnishName_plain he
  cases hfirst : t.first e with
  | none =>
      have hnone : strstr e.varnishName.bytes t.text = none :=
        strstr_lines_none hsep hne hfirst
      refine ⟨none, ?_, by simp⟩
      rw [VarnishMetric.poll, hnone]
  | some l =>
      rcases h l hfirst with htransient | ⟨hown, halign⟩
      · obtain ⟨before, front, rest, after, -, hrun⟩ := strstr_lines hsep hfirst
        have hfind : strstr e.varnishName.bytes t.text = some _ := hrun
        rw [pollRight_found hfind]
        exact .inl ((transient_iff he hfirst hfind).mpr htransient)
      · obtain ⟨front, found, hfind, hinside, hread⟩ :=
          halign.number_read he hfirst
        rw [pollRight_found hfind]
        refine .inr ⟨hinside, fun v hv => ?_⟩
        rw [hread] at hv
        obtain rfl := Option.some.inj hv
        exact ⟨l, List.mem_of_find?_eq_some hfirst, hown, rfl⟩

/-- The metrics of varnish have the numbers of their fields where each is read
in the padding of its own line. Where it is read behind the first digit of the
number, and no other line is of the field, one of them has not. -/
theorem varnishFetched_of_right (clock : Timeval)
    (inst : Option VarnishInstance) (t : VarnishStat) :
    (t.Right → VarnishFetched clock inst t)
      ∧ ∀ e ∈ varnishMetrics, ∀ l, t.first e = some l → l.Cut e →
        ¬ l.Transient e → l.digits.head? ≠ some 48 →
        (∀ k ∈ t.lines, k.field = e.varnishName.bytes → k = l) →
        ¬ VarnishFetched clock inst t := by
  rw [varnishFetched_iff_polls]
  constructor
  · intro h e he
    exact pollRight_of he (h e he)
  · intro e he l hfirst hcut htransient hzero halone h
    obtain ⟨front, found, v, hfind, hinside, hread, hne⟩ :=
      hcut.number_read he hfirst hzero
    rcases (pollRight_found hfind).mp (h e he) with hno | ⟨-, hcounts⟩
    · exact htransient ((transient_iff he hfirst hfind).mp hno)
    · obtain ⟨k, hk, hfield, rfl⟩ := hcounts v hread
      rw [halone k hk hfield] at hne
      exact hne rfl

/-- A line as varnishstat pads it: the field to 16 bytes, the number to 12. -/
def clientReqLine : StatLine where
  dotted := []
  field := (CString.ofString "client_req").bytes
  gap := List.replicate 16 32
  digits := [49, 50, 51]
  behind := (CString.ofString
    "         0.10 Client requests received").bytes
  ends_dotted := .inl rfl
  undotted := by decide
  plain := List.all_iff_forall_prop.mp (by decide)
  blank := ⟨by decide, fun _ hb => .inl (List.eq_of_mem_replicate hb)⟩
  numeral := by decide
  fits := by decide
  spaced := by
    intro b hb
    exact .inl (Option.some.inj hb).symm
  one_line := by decide

/-- The same with the number padded as wide as the name of the metric asks for,
and the field behind a prefix. -/
def clientReqWide : StatLine :=
  { clientReqLine with
    dotted := (CString.ofString "MAIN.").bytes
    gap := List.replicate 17 32
    ends_dotted := .inr (by decide)
    plain := List.all_iff_forall_prop.mp (by decide)
    blank := ⟨by decide, fun _ hb => .inl (List.eq_of_mem_replicate hb)⟩ }

/-- All 123 requests are pushed. -/
theorem varnishFetched_wide :
    VarnishFetched ⟨0, 0⟩ none ⟨[clientReqWide], List.nodup_singleton _⟩ := by
  refine (varnishFetched_of_right ⟨0, 0⟩ none _).1 ?_
  have htable : ∀ e ∈ varnishMetrics,
      ¬ e.varnishName.bytes <:+: clientReqWide.line
        ∨ e.varnishName.bytes = clientReqWide.field ∧ e.name.strlen = 27 := by
    decide +kernel
  have hname : strstr clientReqWide.field clientReqWide.name
      = some (clientReqWide.dotted, clientReqWide.field) := by
    decide
  intro e he l hfirst
  have hhas : e.varnishName.bytes <:+: l.line := by
    simpa using List.find?_some hfirst
  obtain rfl := List.mem_singleton.mp (List.mem_of_find?_eq_some hfirst)
  rcases htable e he with hno | ⟨hfield, hlen⟩
  · exact absurd hhas hno
  · refine .inr ⟨hfield.symm, clientReqWide.dotted, clientReqWide.field, ?_, ?_,
      ?_⟩
    · rw [hfield]
      exact hname
    · rw [hlen]
      decide
    · rw [hlen]
      decide

/-- Of 123 requests, 23 are pushed. -/
theorem not_varnishFetched :
    ¬ VarnishFetched ⟨0, 0⟩ none ⟨[clientReqLine], List.nodup_singleton _⟩ := by
  have he : ⟨.ofString "client_req", .ofString "varnish.requests_per_second",
      metricTimedelta⟩ ∈ varnishMetrics := by decide
  rw [varnishFetched_iff_polls]
  intro h
  have hfind : strstr (CString.ofString "client_req").bytes
      (VarnishStat.text ⟨[clientReqLine], List.nodup_singleton _⟩)
      = some ([], clientReqLine.line ++ [10]) := by
    decide
  rcases (pollRight_found hfind).mp (h _ he) with hno | ⟨-, hcounts⟩
  · exact absurd hno (by decide)
  · obtain ⟨l, hl, -, hnumber⟩ := hcounts 23 (by decide)
    obtain rfl := List.mem_singleton.mp hl
    exact absurd hnumber (by decide)

end Monikor
