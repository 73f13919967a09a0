/-
Which counters of TCP reach the metrics as the numbers of their columns.

The two lines are found by the first two places of the tag, and these are
their own wherever no line in front of them or between them holds it and no
name of a column does. The column is found by counting blanks, and that count
is right. The number then passes through an `int` and
is read in base 0, so what survives is a number of less than 31 bits, or one
that an `int` below zero extends to, and it must have no zero in front.
-/
import Mathlib.Data.Bool.AllAny
import Monikor.Modules.Tcp

namespace Monikor

open Numerals Search

-- ====================================================================== texts

/-- A value of a column: −1, or a number of 64 bits. -/
inductive SnmpValue where
  | minusOne
  | number (digits : List UInt8) (numeral : IsNumeral 10 digits)
      (fits : value 10 digits < 2 ^ 64)

def SnmpValue.text : SnmpValue → List UInt8
  | .minusOne => [45, 49]
  | .number digits _ _ => digits

/-- The value in 64 bits. -/
def SnmpValue.word : SnmpValue → UInt64
  | .minusOne => -1
  | .number digits _ _ => UInt64.ofNat (value 10 digits)

/-- A column of the two lines. -/
structure SnmpColumn where
  name : List UInt8
  plain : ∀ b ∈ name, isSpace b = false
  value : SnmpValue

/-- A column with the name of a literal. -/
def SnmpColumn.ofString (s : String)
    (h : (CString.ofString s).bytes.all (isSpace · = false) = true)
    (value : SnmpValue) : SnmpColumn where
  name := (CString.ofString s).bytes
  plain := List.all_iff_forall_prop.mp h
  value := value

/-- The text of /proc/net/snmp: the tag starts a line of names and, behind it,
one of values, among other lines. -/
structure SnmpText where
  before : List (List UInt8)
  columns : List SnmpColumn
  between : List (List UInt8)
  after : List UInt8
  distinct : (columns.map SnmpColumn.name).Nodup
  alone : ∀ c ∈ columns, ∀ m ∈ tcpMetrics,
    m.column.bytes <:+: c.name → c.name = m.column.bytes

def SnmpText.names (t : SnmpText) : List UInt8 :=
  tcpTag ++ (t.columns.map SnmpColumn.name).flatMap (32 :: ·)

def SnmpText.values (t : SnmpText) : List UInt8 :=
  tcpTag ++ (t.columns.map fun c => c.value.text).flatMap (32 :: ·)

/-- What is behind the line of names. -/
def SnmpText.behind (t : SnmpText) : List UInt8 :=
  joined 10 t.between ++ (t.values ++ 10 :: t.after)

def SnmpText.text (t : SnmpText) : List UInt8 :=
  joined 10 t.before ++ (t.names ++ 10 :: t.behind)

/-- The metric of a column is pushed once, and with the number of the
column. -/
def PushesColumn (clock : Timeval) (t : SnmpText) (m : TcpMetric)
    (c : SnmpColumn) : Prop :=
  ∃ metrics, pollTcpMetrics clock (some t.text) = some metrics
    ∧ metrics.filter (·.name = m.metric)
      = [metricInteger m.metric clock c.value.word m.flags]

/-- No line in front of the line of names, and none between it and the line of
values, holds the tag. -/
structure SnmpText.Unstrayed (t : SnmpText) : Prop where
  first : ∀ line ∈ t.before, ¬ tcpTag <:+: line
  next : ∀ line ∈ t.between, ¬ tcpTag <:+: line

/-- No name holds the tag. -/
def SnmpText.Untagged (t : SnmpText) : Prop :=
  ∀ c ∈ t.columns, ¬ tcpTag <:+: c.name

/-- A number that base 0 and an `int` leave as it is. -/
def SnmpValue.Survives : SnmpValue → Prop
  | .minusOne => True
  | .number digits _ _ =>
      (value 10 digits < 2 ^ 31 ∨ 2 ^ 64 - 2 ^ 31 ≤ value 10 digits)
        ∧ (digits.head? ≠ some 48 ∨ value 10 digits < 8)

-- ==================================================================== numbers

variable {ds rest : List UInt8} {clock : Timeval} {t : SnmpText} {m : TcpMetric}
  {c : SnmpColumn}

/-- A value that passes through an `int` is extended by its sign. -/
theorem unsignedOfInt_toNat (v : UInt64) :
    (unsignedOfInt (intOfUnsigned v)).toNat
      = if v.toNat % 2 ^ 32 < 2 ^ 31 then v.toNat % 2 ^ 32
        else 2 ^ 64 - 2 ^ 32 + v.toNat % 2 ^ 32 := by
  have hbits : (unsignedOfInt (intOfUnsigned v)).toBitVec
      = (v.toBitVec.setWidth 32).signExtend 64 := rfl
  rw [← UInt64.toNat_toBitVec, hbits, BitVec.toNat_signExtend,
    BitVec.msb_eq_decide]
  simp only [BitVec.toNat_setWidth, UInt64.toNat_toBitVec, decide_eq_true_eq]
  split
  case isTrue =>
      split
      · omega
      · omega
  case isFalse =>
      split
      · omega
      · omega

/-- A number that only an `int` below zero extends to has its second digit an
8, and base 8 does not get past it. -/
theorem octal_top (hd : ∀ b ∈ ds, isDigitIn 10 b = true)
    (htop : 2 ^ 64 - 2 ^ 31 ≤ value 10 ds) (hfits : value 10 ds < 2 ^ 64) :
    octal ds ≤ 1 := by
  have hlen : 18 ≤ ds.length := by
    by_contra hshort
    have hlt := value_lt_pow hd
    have hpow : 10 ^ ds.length ≤ 10 ^ 18 :=
      Nat.pow_le_pow_right (by omega) (by omega)
    omega
  obtain ⟨front, back, rfl, hfront⟩ := value_split hd 18 hlen
  have h18 : value 10 front = 18 := by
    rw [hfront]
    omega
  rcases List.eq_nil_or_concat' front with rfl | ⟨before, b, rfl⟩
  · exact absurd h18 (by decide)
  · have hb : digitValue b < 10 := by
      simpa [isDigitIn] using hd b (by simp)
    rw [value_concat] at h18
    have hdigit : isDigitIn 8 b = false := by
      have height : ¬ digitValue b < 8 := by omega
      simpa [isDigitIn] using height
    have hle := octal_le before hdigit back
    rw [List.append_cons] at hle
    omega

/-- What the two conversions make of a value. -/
def SnmpValue.pushed : SnmpValue → UInt64
  | .minusOne => -1
  | .number digits _ _ =>
      unsignedOfInt (intOfUnsigned (UInt64.ofNat (prefixed digits)))

theorem SnmpValue.read_text (v : SnmpValue)
    (hr : ∀ b ∈ rest.head?, isSpace b = true) :
    unsignedOfInt (intOfUnsigned (strtoull 0 (32 :: (v.text ++ rest))).1)
      = v.pushed := by
  cases v with
  | minusOne =>
      have hone : IsNumeral 10 [49] := by decide
      obtain ⟨htake, hdrop⟩ :
          (49 :: rest).takeWhile (isDigitIn 10) = [49]
            ∧ (49 :: rest).dropWhile (isDigitIn 10) = rest :=
        takeWhile_numeral hone.2 (stops_space hr)
      have hfront : (32 :: 45 :: 49 :: rest).dropWhile isSpace
          = 45 :: 49 :: rest := by
        simp [isSpace]
      have hradix : radix 0 (49 :: rest) = (10, 49 :: rest) :=
        radix_decimal (by decide) rest
      have hscan : scan 0 (32 :: 45 :: 49 :: rest) = some ⟨true, 1, rest⟩ := by
        simp only [scan, hfront, sign, hradix, htake, hdrop]
        rfl
      show unsignedOfInt
        (intOfUnsigned (strtoull 0 (32 :: 45 :: 49 :: rest)).1) = -1
      rw [strtoull, hscan]
      dsimp only
      rw [if_neg (by decide), if_pos rfl]
      rfl
  | number digits numeral fits =>
      have hread := strtoull_zero [32] (List.all_eq_true.mp (by decide)) numeral
        fits hr
      rw [List.singleton_append] at hread
      rw [SnmpValue.text, hread, SnmpValue.pushed]

/-- What is pushed is the value exactly if it survives. -/
theorem SnmpValue.pushed_eq_iff (v : SnmpValue) :
    v.pushed = v.word ↔ v.Survives := by
  cases v with
  | minusOne => exact iff_of_true rfl trivial
  | number digits numeral fits =>
      have hle := prefixed_le digits
      have hread : (UInt64.ofNat (prefixed digits)).toNat = prefixed digits :=
        UInt64.toNat_ofNat_of_lt' (Nat.lt_of_le_of_lt hle fits)
      have hword : (UInt64.ofNat (value 10 digits)).toNat = value 10 digits :=
        UInt64.toNat_ofNat_of_lt' fits
      have hext := unsignedOfInt_toNat (UInt64.ofNat (prefixed digits))
      rw [hread] at hext
      simp only [SnmpValue.pushed, SnmpValue.word, SnmpValue.Survives]
      rw [← prefixed_eq_iff, ← UInt64.toNat_inj, hext, hword]
      constructor
      case mpr =>
          rintro ⟨hrange, heq⟩
          rw [heq]
          split
          · omega
          · omega
      case mp =>
          intro heq
          have hrange : value 10 digits < 2 ^ 31
              ∨ 2 ^ 64 - 2 ^ 31 ≤ value 10 digits := by
            split at heq
            · omega
            · omega
          refine ⟨hrange, ?_⟩
          rcases hrange with hlow | htop
          · split at heq
            · omega
            · omega
          · -- a zero in front would leave at most one
            by_cases hzero : digits.head? = some 48
            · have hone := octal_top numeral.2 htop fits
              rw [prefixed, if_pos hzero, if_pos (by omega)] at heq
              omega
            · exact if_neg hzero

-- ==================================================================== columns

/-- The blanks in front of a word are as many as the words in front of it. -/
theorem countP_joined {words : List (List UInt8)}
    (hplain : ∀ w ∈ words, ∀ b ∈ w, isSpace b = false) :
    (joined 32 words).countP isSpace = words.length := by
  induction words with
  | nil => rfl
  | cons w words ih =>
      have hw : w.countP isSpace = 0 := by
        rw [List.countP_eq_zero]
        intro b hb
        simp [hplain w (by simp) b hb]
      have htail := ih fun v hv => hplain v (by simp [hv])
      rw [joined_cons, List.countP_append, List.countP_cons, hw, htail,
        List.length_cons]
      simp [isSpace]

theorem findIndex_line {words : List (List UInt8)} {name : List UInt8}
    (hsep : 32 ∉ name) (hplain : ∀ w ∈ words, ∀ b ∈ w, isSpace b = false)
    (hwords : ∀ w ∈ words, ¬ name <:+: w) (hname : name <+: rest) :
    findIndex (joined 32 words ++ rest) name = words.length := by
  unfold findIndex
  rw [strstr_joined hsep words hwords hname]
  exact countP_joined hplain

/-- The loop passes what has no blank. -/
theorem getIndexValueLoop_word {index space : Nat} {w : List UInt8}
    (hindex : space ≠ index) (hw : 32 ∉ w) (rest : List UInt8) :
    getIndexValueLoop index space (w ++ rest)
      = getIndexValueLoop index space rest := by
  induction w with
  | nil => rfl
  | cons b w ih =>
      have hb : b ≠ 32 := fun e => hw (by simp [e])
      have htail : 32 ∉ w := fun h => hw (by simp [h])
      rw [List.cons_append, getIndexValueLoop, if_neg hb, if_neg hindex]
      exact ih htail

/-- The loop reads behind as many words as it is told to. -/
theorem getIndexValueLoop_line (w : List UInt8) (words : List (List UInt8))
    (hwords : ∀ v ∈ w :: words, 32 ∉ v) (rest : List UInt8) (space : Nat) :
    getIndexValueLoop (space + (words.length + 1)) space
        (joined 32 (w :: words) ++ rest)
      = intOfUnsigned (strtoull 0 (32 :: rest)).1 := by
  induction words generalizing w space with
  | nil =>
      rw [joined_cons, joined_nil, List.append_assoc,
        getIndexValueLoop_word (by omega) (hwords w (by simp))]
      exact if_pos rfl
  | cons v words ih =>
      have hindex : space + ((v :: words).length + 1)
          = (space + 1) + (words.length + 1) := by
        rw [List.length_cons]
        omega
      have hne : space + 1 ≠ (space + 1) + (words.length + 1) := by omega
      rw [hindex, joined_cons, List.append_assoc,
        getIndexValueLoop_word (by omega) (hwords w (by simp)),
        List.cons_append, getIndexValueLoop, if_pos rfl, if_neg hne]
      exact ih v (fun u hu => hwords u (by simp [hu])) (space + 1)

theorem getIndexValue_line (w : List UInt8) (words : List (List UInt8))
    (hwords : ∀ v ∈ w :: words, 32 ∉ v) (rest : List UInt8) :
    getIndexValue (joined 32 (w :: words) ++ rest) (words.length + 1)
      = intOfUnsigned (strtoull 0 (32 :: rest)).1 := by
  have hloop := getIndexValueLoop_line w words hwords rest 0
  rw [Nat.zero_add] at hloop
  rw [getIndexValue, if_neg (Nat.succ_ne_zero _), hloop]

/-- A value holds no blank. -/
theorem SnmpValue.text_plain (v : SnmpValue) :
    ∀ b ∈ v.text, isSpace b = false := by
  cases v with
  | minusOne => exact List.all_iff_forall_prop.mp (by decide)
  | number digits numeral fits =>
      intro b hb
      exact (digit_plain (numeral.2 b hb)).1

/-- The tag holds no blank. -/
theorem tcpTag_plain : ∀ b ∈ tcpTag, isSpace b = false :=
  List.all_iff_forall_prop.mp (by decide)

/-- A blank is in no word that has none. -/
theorem blank_not_mem {w : List UInt8} (h : ∀ b ∈ w, isSpace b = false) :
    32 ∉ w ∧ 10 ∉ w := by
  constructor
  · intro hmem
    exact absurd (h 32 hmem) (by decide)
  · intro hmem
    exact absurd (h 10 hmem) (by decide)

/-- No name of a column is in the tag. -/
theorem column_not_tag : ∀ m ∈ tcpMetrics, ¬ m.column.bytes <:+: tcpTag := by
  decide

/-- A metric is pushed with what the conversions make of its column. -/
theorem SnmpText.poll_column (hm : m ∈ tcpMetrics) (hc : c ∈ t.columns)
    (hname : c.name = m.column.bytes) :
    m.poll clock t.names t.values
      = metricInteger m.metric clock c.value.pushed m.flags := by
  obtain ⟨front, back, hcolumns⟩ := List.append_of_mem hc
  -- the names in front hold no other name of a metric
  have hfront : ∀ w ∈ front.map SnmpColumn.name, ¬ m.column.bytes <:+: w := by
    intro w hw hinfix
    obtain ⟨d, hd, rfl⟩ := List.mem_map.mp hw
    have hsame := t.alone d (by simp [hcolumns, hd]) m hm hinfix
    have hdistinct := t.distinct
    rw [hcolumns, List.map_append, List.map_cons,
      List.nodup_append] at hdistinct
    exact hdistinct.2.2 d.name hw c.name (by simp) (hsame.trans hname.symm)
  have hnames : t.names = joined 32 (tcpTag :: front.map SnmpColumn.name)
      ++ (c.name ++ (back.map SnmpColumn.name).flatMap (32 :: ·)) := by
    rw [SnmpText.names, hcolumns, List.map_append, List.map_cons, line_split]
  have hindex : findIndex t.names m.column.bytes = front.length + 1 := by
    rw [hnames, findIndex_line]
    · simp
    · rw [← hname]
      exact (blank_not_mem c.plain).1
    · intro w hw
      rcases List.mem_cons.mp hw with rfl | hw
      · exact tcpTag_plain
      · obtain ⟨d, -, rfl⟩ := List.mem_map.mp hw
        exact d.plain
    · intro w hw
      rcases List.mem_cons.mp hw with rfl | hw
      · exact column_not_tag m hm
      · exact hfront w hw
    · rw [← hname]
      exact List.prefix_append ..
  have hvalues : t.values
      = joined 32 (tcpTag :: front.map fun d => d.value.text)
        ++ (c.value.text
          ++ (back.map fun d => d.value.text).flatMap (32 :: ·)) := by
    rw [SnmpText.values, hcolumns, List.map_append, List.map_cons, line_split]
  have hread := getIndexValue_line tcpTag (front.map fun d => d.value.text)
    (fun w hw => by
      rcases List.mem_cons.mp hw with rfl | hw
      · decide
      · obtain ⟨d, -, rfl⟩ := List.mem_map.mp hw
        exact (blank_not_mem d.value.text_plain).1)
    (c.value.text ++ (back.map fun d => d.value.text).flatMap (32 :: ·))
  rw [← hvalues, List.length_map] at hread
  rw [TcpMetric.poll, hindex, hread, SnmpValue.read_text]
  intro b hb
  cases back with
  | nil => cases hb
  | cons d back =>
      obtain rfl : 32 = b := Option.some.inj hb
      rfl

-- =================================================================== the lines

/-- The tag and words of a line end at its newline. -/
theorem strchr_line {words : List (List UInt8)}
    (hwords : ∀ w ∈ words, ∀ b ∈ w, isSpace b = false) (rest : List UInt8) :
    strchr 10 (tcpTag ++ words.flatMap (32 :: ·) ++ 10 :: rest)
      = some (tcpTag ++ words.flatMap (32 :: ·), rest) := by
  apply strchr_append
  intro hmem
  rcases List.mem_append.mp hmem with h | h
  · exact absurd h (by decide)
  · obtain ⟨w, hw, hb⟩ := List.mem_flatMap.mp h
    rcases List.mem_cons.mp hb with hb | hb
    · exact absurd hb (by decide)
    · exact (blank_not_mem (hwords w hw)).2 hb

/-- The line of names is found. -/
theorem SnmpText.strstr_text (ht : t.Unstrayed) :
    strstr tcpTag t.text
      = some (joined 10 t.before, t.names ++ 10 :: t.behind) := by
  apply strstr_joined
  · decide
  · exact ht.first
  · rw [SnmpText.names, List.append_assoc]
    exact List.prefix_append ..

theorem SnmpText.strchr_names (t : SnmpText) (rest : List UInt8) :
    strchr 10 (t.names ++ 10 :: rest) = some (t.names, rest) := by
  apply strchr_line
  intro w hw
  obtain ⟨c, -, rfl⟩ := List.mem_map.mp hw
  exact c.plain

theorem SnmpText.strchr_values (t : SnmpText) (rest : List UInt8) :
    strchr 10 (t.values ++ 10 :: rest) = some (t.values, rest) := by
  apply strchr_line
  intro w hw
  obtain ⟨c, -, rfl⟩ := List.mem_map.mp hw
  exact c.value.text_plain

/-- The search for the line of values starts behind the first byte of the
tag. -/
theorem SnmpText.tail_names (t : SnmpText) (rest : List UInt8) :
    (t.names ++ rest).tail = t.names.tail ++ rest :=
  rfl

/-- Where no name and no other line holds the tag, the two lines are found. -/
theorem pollTcpMetrics_untagged (clock : Timeval) (ht : t.Unstrayed)
    (h : t.Untagged) :
    pollTcpMetrics clock (some t.text)
      = some (tcpMetrics.map fun m => m.poll clock t.names t.values) := by
  have htail : ¬ tcpTag <:+: t.names.tail := by
    apply not_infix_line (a := [99, 112, 58])
    · decide
    · decide
    · intro w hw
      obtain ⟨c, hc, rfl⟩ := List.mem_map.mp hw
      exact h c hc
  have hsecond : strstr tcpTag (t.names ++ 10 :: t.behind).tail
      = some (joined 10 (t.names.tail :: t.between),
        t.values ++ 10 :: t.after) := by
    rw [t.tail_names, SnmpText.behind, ← List.cons_append, ← List.append_assoc,
      ← joined_cons]
    apply strstr_joined
    · decide
    · intro w hw
      rcases List.mem_cons.mp hw with rfl | hw
      · exact htail
      · exact ht.next w hw
    · rw [SnmpText.values, List.append_assoc]
      exact List.prefix_append ..
  have hlen : ¬ (joined 10 (t.names.tail :: t.between)).length
      < t.names.length := by
    rw [joined_cons, List.length_append, List.length_cons, List.length_tail]
    omega
  simp only [pollTcpMetrics, SnmpText.strstr_text ht, t.strchr_names, hsecond, hlen,
    t.strchr_values, Option.bind_eq_bind, Option.bind_some, if_false]
  rfl

/-- Where a name holds the tag, the line of values is looked for in the line of
names, and nothing is pushed. -/
theorem pollTcpMetrics_tagged (clock : Timeval) (ht : t.Unstrayed)
    (h : ¬ t.Untagged) :
    pollTcpMetrics clock (some t.text) = some [] := by
  obtain ⟨c, hc, htag⟩ : ∃ c ∈ t.columns, tcpTag <:+: c.name := by
    simpa [SnmpText.Untagged] using h
  obtain ⟨front, back, hfront⟩ : tcpTag <:+: t.names.tail := by
    have hname :
        c.name <:+: (t.columns.map SnmpColumn.name).flatMap (32 :: ·) := by
      obtain ⟨before, after, hcolumns⟩ := List.append_of_mem hc
      refine ⟨(before.map SnmpColumn.name).flatMap (32 :: ·) ++ [32],
        (after.map SnmpColumn.name).flatMap (32 :: ·), ?_⟩
      simp [hcolumns]
    exact htag.trans (hname.trans (List.suffix_append [99, 112, 58] _).isInfix)
  have hlen : front.length < t.names.length := by
    have hcount := congrArg List.length hfront
    rw [List.length_append, List.length_append, List.length_tail] at hcount
    have htag : tcpTag.length = 4 := rfl
    omega
  have hmatch : tcpTag
      <+: (t.names ++ 10 :: t.behind).tail.drop front.length := by
    rw [t.tail_names, ← hfront, List.append_assoc, List.append_assoc,
      List.drop_left]
    exact List.prefix_append ..
  obtain ⟨skipped, value, hrun, hle⟩ := strstr_le _ hmatch
  have hcut : skipped.length < t.names.length := Nat.lt_of_le_of_lt hle hlen
  simp only [pollTcpMetrics, SnmpText.strstr_text ht, t.strchr_names, hrun, hcut,
    Option.bind_eq_bind, Option.bind_some, if_true]

/-- Where no name and no other line holds the tag, a metric is pushed with what
the conversions make of its column. -/
theorem pushesColumn_untagged (clock : Timeval) (ht : t.Unstrayed)
    (h : t.Untagged) (hm : m ∈ tcpMetrics) (hc : c ∈ t.columns)
    (hname : c.name = m.column.bytes) :
    PushesColumn clock t m c ↔ c.value.pushed = c.value.word := by
  have hone : ∀ m ∈ tcpMetrics,
      tcpMetrics.filter (·.metric = m.metric) = [m] := by
    decide
  have hfilter : (tcpMetrics.map fun m => m.poll clock t.names t.values).filter
      (·.name = m.metric) = [m.poll clock t.names t.values] := by
    have hmap := congrArg (List.map fun m => m.poll clock t.names t.values)
      (hone m hm)
    rw [List.filter_map]
    exact hmap
  simp only [PushesColumn, pollTcpMetrics_untagged clock ht h, Option.some.injEq,
    exists_eq_left', hfilter, t.poll_column hm hc hname]
  simp [metricInteger]

/-- The metric of a column has its number if no name and no other line in
front of the line of values holds the tag and the number survives; and where no
other line holds the tag, exactly then. -/
theorem pushesColumn_iff (clock : Timeval) (t : SnmpText) (m : TcpMetric)
    (c : SnmpColumn) (hm : m ∈ tcpMetrics) (hc : c ∈ t.columns)
    (hname : c.name = m.column.bytes) :
    (t.Unstrayed ∧ t.Untagged ∧ c.value.Survives → PushesColumn clock t m c)
      ∧ (t.Unstrayed → PushesColumn clock t m c →
        t.Untagged ∧ c.value.Survives) := by
  constructor
  · intro hok
    obtain ⟨ht, htag, hsurvives⟩ := hok
    rw [pushesColumn_untagged clock ht htag hm hc hname, c.value.pushed_eq_iff]
    exact hsurvives
  · intro ht hpushes
    by_cases htag : t.Untagged
    case pos =>
        rw [pushesColumn_untagged clock ht htag hm hc hname,
          c.value.pushed_eq_iff] at hpushes
        exact ⟨htag, hpushes⟩
    case neg =>
        unfold PushesColumn at hpushes
        rw [pollTcpMetrics_tagged clock ht htag] at hpushes
        simp at hpushes

/-- A counter of two digits is pushed, behind a line of another tag. -/
theorem pushesColumn_small :
    let value : SnmpValue := .number [49, 55] (by decide) (by decide)
    PushesColumn ⟨0, 0⟩
      ⟨[[85, 100, 112, 58, 32, 49]],
        [.ofString "ActiveOpens" (by decide) value,
          .ofString "PassiveOpens" (by decide) value,
          .ofString "AttemptFails" (by decide) value,
          .ofString "EstabResets" (by decide) value,
          .ofString "CurrEstab" (by decide) value], [], [], by decide,
        by decide⟩
      ⟨.ofString "network.tcp.current", .ofString "CurrEstab", 0⟩
      (.ofString "CurrEstab" (by decide) value) := by
  intro value
  refine (pushesColumn_iff ⟨0, 0⟩ _ _ _ (by decide) ?_ rfl).1 ⟨⟨?_, ?_⟩, ?_, ?_⟩
  · simp
  · decide
  · decide
  · unfold SnmpText.Untagged
    decide
  · exact ⟨.inl (by decide), .inl (by decide)⟩

/-- 2147483648 is pushed as what an `int` below zero extends to. -/
theorem column_not_pushed :
    let value : SnmpValue := .number [50, 49, 52, 55, 52, 56, 51, 54, 52, 56]
      (by decide) (by decide)
    ¬ PushesColumn ⟨0, 0⟩
      ⟨[], [.ofString "ActiveOpens" (by decide) value,
          .ofString "PassiveOpens" (by decide) value,
          .ofString "AttemptFails" (by decide) value,
          .ofString "EstabResets" (by decide) value,
          .ofString "CurrEstab" (by decide) value], [], [], by decide,
        by decide⟩
      ⟨.ofString "network.tcp.active", .ofString "ActiveOpens", metricTimedelta⟩
      (.ofString "ActiveOpens" (by decide) value) := by
  intro value h
  rw [pushesColumn_untagged _ ⟨by decide, by decide⟩ _ (by decide) _ rfl,
    SnmpValue.pushed_eq_iff] at h
  · exact absurd h.1 (by decide)
  · unfold SnmpText.Untagged
    decide
  · simp

end Monikor
