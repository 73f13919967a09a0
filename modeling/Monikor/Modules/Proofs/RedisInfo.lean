/-
Every counter of redis that is in its answer is pushed, with its number, and
so is the sum of the keys of its databases, if it has a section of them.

A line has one colon, that of a counter behind its field and that of a
database in front of its keys; so a tag that ends with a colon is in it
exactly if its field is what the first part ends with.
-/
import Monikor.Modules.RedisInfo

namespace Monikor

open Numerals Search

-- ======================================================================= texts

/-- The line of a counter: its field, a colon and its number. -/
structure InfoEntry where
  field : List UInt8
  plain : 10 ∉ field ∧ 35 ∉ field ∧ 58 ∉ field
  figure : Figure

def InfoEntry.line (e : InfoEntry) : List UInt8 :=
  e.field ++ 58 :: (e.figure.digits ++ [13])

/-- The field of a counter ends with one of the table. -/
def InfoEntry.has (field : CString) (e : InfoEntry) : Bool :=
  field.bytes <:+ e.field

/-- The line of a database: "db", its index, the number of its keys, and what
comes behind a comma. -/
structure InfoDatabase where
  index : List UInt8
  numeral : IsNumeral 10 index
  keys : Figure
  unpadded : keys.digits.head? ≠ some 48 ∨ keys.number < 8
  more : List UInt8
  plain : 10 ∉ more ∧ 35 ∉ more ∧ 58 ∉ more

def InfoDatabase.name (d : InfoDatabase) : List UInt8 := 100 :: 98 :: d.index

def InfoDatabase.line (d : InfoDatabase) : List UInt8 :=
  d.name ++ keysTag ++ (d.keys.digits ++ 44 :: d.more)

/-- A line of an answer. -/
inductive InfoLine where
  | entry (e : InfoEntry)
  | keyspace
  | database (d : InfoDatabase)
  | text (bytes : List UInt8)

def InfoLine.line : InfoLine → List UInt8
  | .entry e => e.line
  | .keyspace => keyspaceTag ++ [13]
  | .database d => d.line
  | .text bytes => bytes

def InfoLine.asEntry : InfoLine → Option InfoEntry
  | .entry e => some e
  | _ => none

def InfoLine.isKeyspace : InfoLine → Bool
  | .keyspace => true
  | _ => false

def InfoLine.keys : InfoLine → Nat
  | .database d => d.keys.number
  | _ => 0

/-- No tag is in a line. -/
structure Untagged (bytes : List UInt8) : Prop where
  newline : 10 ∉ bytes
  entries : ∀ m ∈ redisMetrics, ¬ infoTag m.field.bytes <:+: bytes
  keyspace : ¬ keyspaceTag <:+: bytes
  keys : ¬ keysTag <:+: bytes

/-- An answer: its other lines have no tag. -/
structure InfoReply where
  lines : List InfoLine
  plain : ∀ bytes, .text bytes ∈ lines → Untagged bytes

def InfoReply.text (t : InfoReply) : List UInt8 :=
  joined 10 (t.lines.map InfoLine.line)

/-- The number of the first counter whose field ends with one of the table. -/
def InfoReply.number (t : InfoReply) (field : CString) : Option Nat :=
  ((t.lines.filterMap InfoLine.asEntry).find? (InfoEntry.has field)).map
    fun e => e.figure.number

/-- The keys of all the databases behind the heading of their section. -/
def InfoReply.keys (t : InfoReply) : Option Nat :=
  match t.lines.dropWhile (!·.isKeyspace) with
  | [] => none
  | section_ => some (section_.map InfoLine.keys).sum

-- ======================================================================== tags

variable {t : InfoReply} {m : RedisMetric} {l : InfoLine} {e : InfoEntry}
  {d : InfoDatabase}

/-- A field ends with what is no digit. -/
theorem redisMetrics_plain (hm : m ∈ redisMetrics) :
    10 ∉ m.field.bytes ∧ ∃ init b, m.field.bytes = init ++ [b]
      ∧ isDigitIn 10 b = false := by
  have htable : ∀ m ∈ redisMetrics, 10 ∉ m.field.bytes
      ∧ ∃ b, m.field.bytes.getLast? = some b ∧ isDigitIn 10 b = false := by
    decide +kernel
  obtain ⟨hplain, b, hlast, hb⟩ := htable m hm
  obtain ⟨init, hinit⟩ := List.getLast?_eq_some_iff.mp hlast
  exact ⟨hplain, init, b, hinit, hb⟩

theorem notMem_plain {b : UInt8} {back : List UInt8} (n : Figure)
    (hdigit : isDigitIn 10 b = false) (hback : b ∉ back) :
    b ∉ n.digits ++ back := by
  rw [List.mem_append]
  rintro (h | h)
  · exact n.notMem hdigit h
  · exact hback h

theorem InfoEntry.infix_iff (field : CString) :
    infoTag field.bytes <:+: e.line ↔ e.has field = true := by
  have hback : 58 ∉ e.figure.digits ++ [13] :=
    notMem_plain e.figure (by decide) (by decide)
  rw [InfoEntry.line, infoTag, infix_mark e.plain.2.2 hback,
    List.suffix_append_self_iff, InfoEntry.has, decide_eq_true_iff]

theorem InfoDatabase.plain_name (d : InfoDatabase) :
    10 ∉ d.name ∧ 35 ∉ d.name ∧ 58 ∉ d.name := by
  have hindex : ∀ b, isDigitIn 10 b = false → b ∉ d.index := by
    intro b hb hin
    have hdigit := d.numeral.2 b hin
    rw [hb] at hdigit
    cases hdigit
  simp [InfoDatabase.name, hindex 10 rfl, hindex 35 rfl, hindex 58 rfl]

/-- The name of a database ends with a digit. -/
theorem InfoDatabase.not_infix (d : InfoDatabase) (hm : m ∈ redisMetrics) :
    ¬ infoTag m.field.bytes <:+: d.line := by
  obtain ⟨-, init, b, hinit, hb⟩ := redisMetrics_plain hm
  have hback : 58 ∉ [107, 101, 121, 115, 61]
      ++ (d.keys.digits ++ 44 :: d.more) := by
    have hmore : 58 ∉ (44 : UInt8) :: d.more := by simp [d.plain.2.2]
    have hrest := notMem_plain d.keys (b := 58) (by decide) hmore
    simpa using hrest
  have hline : d.line
      = d.name ++ 58 :: ([107, 101, 121, 115, 61]
        ++ (d.keys.digits ++ 44 :: d.more)) := by
    simp [InfoDatabase.line, keysTag]
  rw [hline, infoTag, infix_mark d.plain_name.2.2 hback,
    List.suffix_append_self_iff, hinit]
  rintro ⟨front, heq⟩
  obtain ⟨digits, c, hindex⟩ := List.eq_nil_or_concat d.index |>.resolve_left
    d.numeral.1
  rw [List.concat_eq_append] at hindex
  rw [InfoDatabase.name, hindex, ← List.append_assoc,
    ← List.cons_append, ← List.cons_append] at heq
  obtain ⟨-, hlast⟩ := List.append_inj' heq rfl
  have hdigit := d.numeral.2 c (by simp [hindex])
  rw [← List.singleton_inj.mp hlast, hb] at hdigit
  cases hdigit

/-- The tag of a field is in the lines of the counters that have it. -/
theorem InfoLine.infix_iff (hl : l ∈ t.lines) (hm : m ∈ redisMetrics) :
    infoTag m.field.bytes <:+: l.line
      ↔ ∃ e ∈ l.asEntry, e.has m.field := by
  cases l with
  | entry e => simp [InfoLine.line, InfoLine.asEntry, InfoEntry.infix_iff]
  | keyspace =>
      have hcolon : 58 ∉ keyspaceTag ++ [13] := by decide
      have hno : ¬ infoTag m.field.bytes <:+: keyspaceTag ++ [13] :=
        fun h => hcolon (h.subset (by simp [infoTag]))
      simp [InfoLine.line, InfoLine.asEntry, hno]
  | database d =>
      simp [InfoLine.line, InfoLine.asEntry, d.not_infix hm]
  | text bytes =>
      simp [InfoLine.line, InfoLine.asEntry, (t.plain bytes hl).entries m hm]

theorem InfoReply.base (t : InfoReply) (hm : m ∈ redisMetrics) :
    numberBehind (infoTag m.field.bytes) t.text
      = (t.number m.field).map UInt64.ofNat := by
  have hsep : 10 ∉ infoTag m.field.bytes := by
    simp [infoTag, (redisMetrics_plain hm).1]
  have hne : infoTag m.field.bytes ≠ [] := by simp [infoTag]
  have hread := numberBehind_lines t.lines InfoLine.asEntry
    (InfoEntry.has m.field) InfoEntry.figure hsep hne
    (fun l hl => InfoLine.infix_iff hl hm) ?_
  · rw [InfoReply.text, hread, InfoReply.number, Option.map_map]
    rfl
  · intro l hl e he hq
    cases l with
    | entry e' =>
        obtain rfl : e' = e := Option.some.inj he
        have hback : 58 ∉ e'.figure.digits ++ [13] :=
          notMem_plain e'.figure (by decide) (by decide)
        obtain ⟨front, rest, hrun⟩ :=
          exists_strstr ((InfoEntry.infix_iff m.field).mpr hq)
        obtain ⟨-, rfl⟩ := strstr_mark e'.plain.2.2 hback hrun
        refine ⟨front, 13, [], by decide, ?_⟩
        simpa [InfoLine.line, infoTag] using hrun
    | keyspace => cases he
    | database d => cases he
    | text bytes => cases he

-- ======================================================================== keys

theorem keysLoop_none {s : List UInt8} (h : strstr keysTag s = none)
    (count : UInt64) : keysLoop s count = count := by
  rw [keysLoop]
  split
  case h_1 => rfl
  case h_2 hrun =>
      rw [h] at hrun
      cases hrun

theorem keysLoop_some {s front rest : List UInt8}
    (h : strstr keysTag s = some (front, keysTag ++ rest)) (count : UInt64) :
    keysLoop s count = keysLoop rest (count + (strtoull 0 rest).1) := by
  rw [keysLoop]
  split
  case h_1 hrun =>
      rw [h] at hrun
      cases hrun
  case h_2 hrun =>
      obtain ⟨rfl, rfl⟩ := Prod.mk.inj (Option.some.inj (h.symm.trans hrun))
      rw [List.drop_left]

/-- Behind the colon of a counter there is a digit. -/
theorem InfoEntry.not_keys (e : InfoEntry) : ¬ keysTag <:+: e.line := by
  rintro ⟨front, back, heq⟩
  have hcolon : 58 ∉ e.figure.digits ++ [13] :=
    notMem_plain e.figure (by decide) (by decide)
  have heq : front ++ 58 :: ([107, 101, 121, 115, 61] ++ back)
      = e.field ++ 58 :: (e.figure.digits ++ [13]) := by
    rw [← InfoEntry.line, ← heq]
    simp [keysTag]
  obtain ⟨-, -, hkeys⟩ :=
    (List.append_cons_inj_of_notMem e.plain.2.2 hcolon).mp heq.symm
  obtain ⟨b, ds, hb⟩ := List.exists_cons_of_ne_nil e.figure.digits_ne
  have hdigit := e.figure.numeral.2 b (by simp [hb])
  rw [hb] at hkeys
  obtain ⟨rfl, -⟩ := List.cons.inj hkeys
  exact absurd hdigit (by decide)

/-- A line without the tag is gone past. -/
theorem keysLoop_line {w : List UInt8} (hw : ¬ keysTag <:+: w)
    (s : List UInt8) (count : UInt64) :
    keysLoop (w ++ 10 :: s) count = keysLoop s count := by
  have hsep : (10 : UInt8) ∉ keysTag := by decide
  have hword := strstr_word hsep hw s
  cases hs : strstr keysTag s with
  | none =>
      rw [hs, Option.map_none] at hword
      rw [keysLoop_none hword, keysLoop_none hs]
  | some found =>
      obtain ⟨front, place⟩ := found
      obtain ⟨-, rest, rfl⟩ := strstr_some hs
      rw [hs, Option.map_some] at hword
      rw [keysLoop_some hword, keysLoop_some hs]

/-- The number of the keys is behind the colon. -/
theorem keysLoop_database (d : InfoDatabase) (s : List UInt8) (count : Nat) :
    keysLoop (d.line ++ 10 :: s) (UInt64.ofNat count)
      = keysLoop s (UInt64.ofNat (count + d.keys.number)) := by
  have hname : ¬ keysTag <:+: d.name :=
    fun h => d.plain_name.2.2 (h.subset (by decide))
  have hmore : 58 ∉ (44 : UInt8) :: d.more := by simp [d.plain.2.2]
  have hrest : ¬ keysTag <:+: d.keys.digits ++ 44 :: d.more :=
    fun h => notMem_plain d.keys (by decide) hmore (h.subset (by decide))
  have hfound : strstr keysTag (d.line ++ 10 :: s)
      = some (d.name, keysTag ++ (d.keys.digits ++ 44 :: d.more ++ 10 :: s)) := by
    have hrun : strstr ((58 : UInt8) :: [107, 101, 121, 115, 61]) _ = _ :=
      strstr_marked (by decide) hname (d.keys.digits ++ 44 :: d.more ++ 10 :: s)
    simpa [InfoDatabase.line, keysTag] using hrun
  have hvalue : prefixed d.keys.digits = d.keys.number :=
    prefixed_eq_iff.mpr d.unpadded
  have hstops : Stops 10 (44 :: (d.more ++ 10 :: s)) := by
    intro b hb
    obtain rfl : 44 = b := Option.some.inj hb
    decide
  have hread := strtoull_prefixed [] (fun _ h => nomatch h) d.keys.numeral
    d.keys.fits hstops (fun b hb => by
      obtain rfl : 44 = b := Option.some.inj hb
      decide)
  rw [hvalue] at hread
  have hread : (strtoull 0 (d.keys.digits ++ 44 :: d.more ++ 10 :: s)).1
      = UInt64.ofNat d.keys.number := by simpa using hread
  rw [keysLoop_some hfound, hread, ← UInt64.ofNat_add, keysLoop_line hrest]

/-- The loop goes from line to line. -/
theorem keysLoop_lines (lines : List InfoLine)
    (hplain : ∀ bytes, .text bytes ∈ lines → ¬ keysTag <:+: bytes)
    (count : Nat) :
    keysLoop (joined 10 (lines.map InfoLine.line)) (UInt64.ofNat count)
      = UInt64.ofNat (count + (lines.map InfoLine.keys).sum) := by
  induction lines generalizing count with
  | nil => exact keysLoop_none rfl _
  | cons l lines ih =>
      have htail := ih fun bytes hb => hplain bytes (List.mem_cons_of_mem _ hb)
      rw [List.map_cons, joined_cons, List.map_cons, List.sum_cons]
      cases l with
      | entry e =>
          simp only [InfoLine.line, InfoLine.keys, Nat.zero_add,
            keysLoop_line e.not_keys, htail]
      | keyspace =>
          have hline : ¬ keysTag <:+: keyspaceTag ++ [13] := by decide
          simp only [InfoLine.line, InfoLine.keys, Nat.zero_add,
            keysLoop_line hline, htail]
      | database d =>
          simp only [InfoLine.line, InfoLine.keys, keysLoop_database, htail,
            Nat.add_assoc]
      | text bytes =>
          have hline := hplain bytes (List.mem_cons_self ..)
          simp only [InfoLine.line, InfoLine.keys, Nat.zero_add,
            keysLoop_line hline, htail]

/-- Only the heading of the section has its tag. -/
theorem InfoLine.not_keyspace (hl : l ∈ t.lines) (hno : l.isKeyspace = false) :
    ¬ keyspaceTag <:+: l.line := by
  have hhash : (35 : UInt8) ∈ keyspaceTag := by decide
  cases l with
  | entry e =>
      have hback : 35 ∉ e.figure.digits ++ [13] :=
        notMem_plain e.figure (by decide) (by decide)
      refine fun h => absurd (h.subset hhash) ?_
      rw [InfoLine.line, InfoEntry.line, List.mem_append, List.mem_cons]
      rintro (h | h | h)
      · exact e.plain.2.1 h
      · exact absurd h (by decide)
      · exact hback h
  | keyspace => cases hno
  | database d =>
      have hmore : 35 ∉ (44 : UInt8) :: d.more := by simp [d.plain.2.1]
      have hback := notMem_plain d.keys (b := 35) (by decide) hmore
      refine fun h => absurd (h.subset hhash) ?_
      rw [InfoLine.line, InfoDatabase.line, List.append_assoc, List.mem_append,
        List.mem_append]
      rintro (h | h | h)
      · exact d.plain_name.2.1 h
      · exact absurd h (by decide)
      · exact hback h
  | text bytes => exact (t.plain bytes hl).keyspace

theorem InfoReply.pollKeys (clock : Timeval) (inst : Option RedisInstance)
    (t : InfoReply) :
    pollKeysMetrics clock inst t.text = (t.keys.map fun n =>
      metricInteger (redisName inst (.ofString "keyspace.keys")) clock
        (UInt64.ofNat n) 0).toList := by
  have hlines := List.takeWhile_append_dropWhile (p := (!·.isKeyspace))
    (l := t.lines)
  have hbefore : ∀ w ∈ (t.lines.takeWhile (!·.isKeyspace)).map InfoLine.line,
      ¬ keyspaceTag <:+: w := by
    intro w hw
    obtain ⟨l, hl, rfl⟩ := List.mem_map.mp hw
    have hno : (!l.isKeyspace) = true :=
      List.mem_takeWhile_imp (p := fun l : InfoLine => !l.isKeyspace) hl
    have hin := (List.takeWhile_sublist _).subset hl
    exact InfoLine.not_keyspace hin (by simpa using hno)
  unfold pollKeysMetrics InfoReply.keys
  cases hrest : t.lines.dropWhile (!·.isKeyspace) with
  | nil =>
      rw [hrest, List.append_nil] at hlines
      have hnone : strstr keyspaceTag t.text = none := by
        rw [InfoReply.text, ← hlines]
        exact strstr_joined_none (by decide) (by decide) hbefore
      rw [hnone]
      rfl
  | cons l after =>
      have hl : l = .keyspace := by
        have hhead := List.head?_dropWhile_not (!·.isKeyspace) t.lines
        rw [hrest] at hhead
        cases l <;> simp_all [InfoLine.isKeyspace]
      subst hl
      have hsome : strstr keyspaceTag t.text = some
          (joined 10 ((t.lines.takeWhile (!·.isKeyspace)).map InfoLine.line),
            joined 10 ((InfoLine.keyspace :: after).map InfoLine.line)) := by
        have hhere : keyspaceTag <+: joined 10
            ((InfoLine.keyspace :: after).map InfoLine.line) :=
          List.prefix_append_of_prefix ⟨[13, 10], rfl⟩
        have hsep : (10 : UInt8) ∉ keyspaceTag := by decide
        have hrun := strstr_joined hsep _ hbefore hhere
        rw [← joined_append, ← List.map_append, ← hrest, hlines, hrest] at hrun
        exact hrun
      have hplain : ∀ bytes, .text bytes ∈ InfoLine.keyspace :: after →
          ¬ keysTag <:+: bytes := by
        intro bytes hb
        rw [← hrest] at hb
        exact (t.plain bytes ((List.dropWhile_sublist _).subset hb)).keys
      have hcount := keysLoop_lines _ hplain 0
      rw [Nat.zero_add] at hcount
      rw [hsome]
      show [metricInteger _ clock (keysLoop _ (UInt64.ofNat 0)) 0] = _
      rw [hcount]
      rfl

/-- The answer of redis: each counter of the table that is in it is pushed with
its number, and the keys of its databases, if it has their section, with their
sum. -/
theorem redis_pushed (clock : Timeval) (inst : Option RedisInstance)
    (t : InfoReply) :
    redisPollMetrics clock inst t.text
      = (redisMetrics.filterMap fun m => (t.number m.field).map fun n =>
          metricInteger (redisName inst m.name) clock (UInt64.ofNat n) m.flags)
        ++ (t.keys.map fun n =>
          metricInteger (redisName inst (.ofString "keyspace.keys")) clock
            (UInt64.ofNat n) 0).toList := by
  rw [redisPollMetrics, t.pollKeys, pollBaseMetrics]
  congr 1
  apply List.filterMap_congr
  intro m hm
  rw [RedisMetric.poll, t.base hm, Option.map_map]
  rfl

end Monikor
