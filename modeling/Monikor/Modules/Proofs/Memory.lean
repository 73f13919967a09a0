/-
Which numbers of /proc/meminfo and /proc/vmstat reach the metrics.

One scanner reads both files: it takes the first place where the name of a
field is, and makes bytes of what it reads behind it. In a line of
/proc/meminfo the name and its colon can only be at the end of a field, so a
wrong line is one of a longer field (`MeminfoText.fetch_eq`). In a line of
/proc/vmstat the name is anywhere in the field, and the number is no number
of kB, so what is pushed from the right line is right only if it is zero.
-/
import Mathlib.Data.Bool.AllAny
import Mathlib.Data.List.Nodup
import Monikor.Modules.Memory

namespace Monikor

open Numerals Search

-- ======================================================================= texts

/-- A line of /proc/meminfo: a field, its colon, blanks, and a number of kB
that fits 64 bits as a number of bytes. -/
structure MeminfoLine where
  field : List UInt8
  blanks : List UInt8
  digits : List UInt8
  plain : 58 ∉ field ∧ 10 ∉ field
  blank : ∀ b ∈ blanks, b = 32 ∨ b = 9
  numeral : IsNumeral 10 digits
  fits : value 10 digits * 1024 < 2 ^ 64

/-- The field with its colon, as the table has it. -/
def MeminfoLine.tag (l : MeminfoLine) : List UInt8 := l.field ++ [58]

def MeminfoLine.number (l : MeminfoLine) : Nat := value 10 l.digits

/-- The line, with the string " kB" at its end. -/
def MeminfoLine.line (l : MeminfoLine) : List UInt8 :=
  l.field ++ 58 :: (l.blanks ++ l.digits ++ [32, 107, 66])

structure MeminfoText where
  lines : List MeminfoLine
  distinct : (lines.map MeminfoLine.field).Nodup

def MeminfoText.text (t : MeminfoText) : List UInt8 :=
  joined 10 (t.lines.map MeminfoLine.line)

/-- A line of /proc/vmstat: a field, a blank, and a number of 64 bits. -/
structure VmstatLine where
  field : List UInt8
  digits : List UInt8
  plain : ∀ b ∈ field, isSpace b = false
  numeral : IsNumeral 10 digits
  fits : value 10 digits < 2 ^ 64

def VmstatLine.number (l : VmstatLine) : Nat := value 10 l.digits

def VmstatLine.line (l : VmstatLine) : List UInt8 :=
  l.field ++ 32 :: l.digits

structure VmstatText where
  lines : List VmstatLine
  distinct : (lines.map VmstatLine.field).Nodup

def VmstatText.text (t : VmstatText) : List UInt8 :=
  joined 10 (t.lines.map VmstatLine.line)

/-- An entry of the tables is read in the line whose field is that of the entry,
and has the value of that line: its bytes, or its pages. -/
inductive MemoryValue (mem : MeminfoText) (vm : VmstatText) (e : MemoryMetric) :
    UInt64 → Prop
  | bytes (i : Nat) (l : MeminfoLine) (entry : e ∈ meminfoMetrics)
      (line : mem.lines[i]? = some l) (own : l.tag = e.fieldName.bytes)
      (read : MatchIn e.fieldName.bytes 10 (mem.lines.map MeminfoLine.line) i) :
      MemoryValue mem vm e (UInt64.ofNat (l.number * 1024))
  | pages (i : Nat) (l : VmstatLine) (entry : e ∈ vmstatMetrics)
      (line : vm.lines[i]? = some l) (own : l.field = e.fieldName.bytes)
      (read : MatchIn e.fieldName.bytes 10 (vm.lines.map VmstatLine.line) i) :
      MemoryValue mem vm e (UInt64.ofNat l.number)

/-- Each metric that is pushed is that of an entry, read in the entry's line and
with its value. -/
def MemoryPolled (clock : Timeval) (mem : MeminfoText) (vm : VmstatText) :
    Prop :=
  ∀ m ∈ memoryPollMetrics clock (some mem.text) (some vm.text),
    ∃ e v, MemoryValue mem vm e v ∧ m = metricInteger e.name clock v e.flags

-- =================================================================== condition

/-- The first line whose field ends with that of an entry. -/
def MeminfoText.first (t : MeminfoText) (e : MemoryMetric) :
    Option MeminfoLine :=
  t.lines.find? (e.fieldName.bytes <:+ ·.tag)

/-- The first line whose field holds that of an entry. -/
def VmstatText.first (t : VmstatText) (e : MemoryMetric) : Option VmstatLine :=
  t.lines.find? (e.fieldName.bytes <:+: ·.field)

/-- No line of a longer field is in front of that of an entry, and the pages
that were swapped are none: bytes are made of them. -/
structure MemoryRight (mem : MeminfoText) (vm : VmstatText) : Prop where
  meminfo : ∀ e ∈ meminfoMetrics, ∀ l, mem.first e = some l →
    l.tag = e.fieldName.bytes
  vmstat : ∀ e ∈ vmstatMetrics, ∀ l, vm.first e = some l →
    l.field = e.fieldName.bytes ∧ l.number = 0

-- ====================================================================== tables

variable {clock : Timeval} {mem : MeminfoText} {vm : VmstatText}
  {e : MemoryMetric} {v : UInt64}

theorem memoryMetrics_name : ∀ e ∈ meminfoMetrics ++ vmstatMetrics,
    ∀ e' ∈ meminfoMetrics ++ vmstatMetrics, e.name = e'.name → e = e' := by
  decide

theorem not_mem_vmstatMetrics : ∀ e ∈ meminfoMetrics, e ∉ vmstatMetrics := by
  decide

/-- A field of the first table is a text and a colon. -/
theorem meminfo_fieldName (he : e ∈ meminfoMetrics) :
    ∃ name, e.fieldName.bytes = name ++ [58] ∧ 10 ∉ e.fieldName.bytes := by
  have htable : ∀ e ∈ meminfoMetrics,
      e.fieldName.bytes.getLast? = some 58 ∧ 10 ∉ e.fieldName.bytes := by
    decide
  obtain ⟨hlast, hline⟩ := htable e he
  obtain ⟨name, hname⟩ := List.getLast?_eq_some_iff.mp hlast
  exact ⟨name, hname, hline⟩

/-- A field of the second table is a word that starts with no digit. -/
theorem vmstat_fieldName (he : e ∈ vmstatMetrics) :
    e.fieldName.bytes ≠ [] ∧ 10 ∉ e.fieldName.bytes ∧ 32 ∉ e.fieldName.bytes
      ∧ ∃ b ∈ e.fieldName.bytes, isDigitIn 10 b = false := by
  have htable : ∀ e ∈ vmstatMetrics,
      e.fieldName.bytes ≠ [] ∧ 10 ∉ e.fieldName.bytes ∧ 32 ∉ e.fieldName.bytes
        ∧ ∃ b ∈ e.fieldName.bytes, isDigitIn 10 b = false := by
    decide
  exact htable e he

-- ===================================================================== scanner

/-- Nothing behind the field of a line is a colon. -/
theorem MeminfoLine.colon_not_mem (l : MeminfoLine) :
    58 ∉ l.blanks ++ l.digits ++ [32, 107, 66] := by
  intro hmem
  simp only [List.mem_append] at hmem
  rcases hmem with (hmem | hmem) | hmem
  · rcases l.blank 58 hmem with h | h
    · exact absurd h (by decide)
    · exact absurd h (by decide)
  · exact absurd (l.numeral.2 58 hmem) (by decide)
  · exact absurd hmem (by decide)

/-- The number of a line is read behind its colon. -/
theorem MeminfoLine.read_number (l : MeminfoLine) (rest : List UInt8) :
    (strtoull 10 (l.blanks ++ l.digits ++ ([32, 107, 66] ++ rest))).1 * 1024
      = UInt64.ofNat (l.number * 1024) := by
  have hblanks : ∀ b ∈ l.blanks, isSpace b = true :=
    fun b hb => isSpace_of_blank (l.blank b hb)
  have hfits : value 10 l.digits < 2 ^ 64 := by
    have hbytes := l.fits
    omega
  have hstops : Stops 10 ([32, 107, 66] ++ rest) := stops_space_cons rfl _
  rw [strtoull_numeral l.blanks hblanks l.numeral hfits hstops,
    UInt64.ofNat_mul]
  rfl

/-- The first line whose field ends with that of an entry is the first that
holds it. -/
theorem MeminfoText.first_eq (mem : MeminfoText) (he : e ∈ meminfoMetrics) :
    mem.first e = mem.lines.find? (e.fieldName.bytes <:+: ·.line) := by
  obtain ⟨name, hname, -⟩ := meminfo_fieldName he
  unfold MeminfoText.first
  congr 1
  funext l
  rw [hname, decide_eq_decide]
  exact (infix_mark l.plain.1 l.colon_not_mem).symm

/-- A field of /proc/meminfo is found in the first line that ends with it, and
the number of that line is read. -/
theorem MeminfoText.fetch_eq (mem : MeminfoText) (he : e ∈ meminfoMetrics) :
    memoryFetchMetric mem.text e.fieldName.bytes
      = (mem.first e).map fun l => UInt64.ofNat (l.number * 1024) := by
  obtain ⟨name, hname, hsep⟩ := meminfo_fieldName he
  have hne : e.fieldName.bytes ≠ [] := by simp [hname]
  rw [mem.first_eq he]
  cases hfind : mem.lines.find? (e.fieldName.bytes <:+: ·.line) with
  | none =>
      have hnone := strstr_lines_none hsep hne hfind
      rw [memoryFetchMetric, MeminfoText.text, hnone]
      rfl
  | some l =>
      obtain ⟨before, front, rest, after, hline, hrun⟩ :=
        strstr_lines hsep hfind
      have hrest : rest = e.fieldName.bytes
          ++ (l.blanks ++ l.digits ++ [32, 107, 66]) := by
        rw [hname] at hline
        obtain ⟨-, rfl⟩ := strstr_mark l.plain.1 l.colon_not_mem hline
        simp [hname]
      rw [memoryFetchMetric, MeminfoText.text, hrun, hrest]
      dsimp only
      rw [List.append_assoc, List.drop_left, List.append_assoc _ [32, 107, 66],
        l.read_number]
      rfl

/-- A field of /proc/vmstat is in a line where it is in the field of it. -/
theorem VmstatLine.infix_line (l : VmstatLine) (he : e ∈ vmstatMetrics) :
    e.fieldName.bytes <:+: l.field ↔ e.fieldName.bytes <:+: l.line := by
  obtain ⟨-, -, hblank, b, hb, hdigit⟩ := vmstat_fieldName he
  constructor
  case mp =>
      intro h
      exact h.trans (List.prefix_append ..).isInfix
  case mpr =>
      intro h
      rcases infix_sep hblank h with h | h
      · exact h
      · have hno := l.numeral.2 b (h.subset hb)
        rw [hdigit] at hno
        cases hno

/-- The number behind a name in a line: that of the line, or one at the front
of what is behind the name in the field. -/
def VmstatLine.behind (name : List UInt8) (l : VmstatLine) : Nat :=
  match strstr name l.field with
  | none => 0
  | some (_, rest) =>
      if rest = name then l.number
      else (strtoull 10 (rest.drop name.length)).1.toNat

/-- What is read behind a name in a line. -/
theorem VmstatLine.read_behind (l : VmstatLine) {name front back : List UInt8}
    (hfind : strstr name l.field = some (front, name ++ back))
    (rest : List UInt8) :
    (strtoull 10 (back ++ 32 :: (l.digits ++ 10 :: rest))).1
      = UInt64.ofNat (l.behind name) := by
  have hstops : Stops 10 (10 :: rest) := stops_space_cons rfl rest
  have hblank : Stops 10 (32 :: (l.digits ++ 10 :: rest)) :=
    stops_space_cons rfl _
  unfold VmstatLine.behind
  rw [hfind]
  dsimp only
  split
  case isTrue hend =>
      obtain rfl : back = [] := List.append_right_eq_self.mp hend
      have hread := strtoull_numeral [32] (List.all_eq_true.mp (by decide))
        l.numeral l.fits hstops
      rw [List.append_assoc, List.singleton_append] at hread
      rw [List.nil_append, hread]
      rfl
  case isFalse hend =>
      have hne : back ≠ [] := fun h => hend (by simp [h])
      have hplain : ∀ b ∈ back, isSpace b = false := by
        intro b hb
        obtain ⟨hfield, -⟩ := strstr_some hfind
        exact l.plain b (by simp [hfield, hb])
      rw [strtoull_word hne hplain hblank, List.drop_left, UInt64.ofNat_toNat]

/-- The first line whose field holds that of an entry is the first that holds
it at all. -/
theorem VmstatText.first_eq (vm : VmstatText) (he : e ∈ vmstatMetrics) :
    vm.first e = vm.lines.find? (e.fieldName.bytes <:+: ·.line) := by
  unfold VmstatText.first
  congr 1
  funext l
  rw [decide_eq_decide]
  exact l.infix_line he

/-- A field of /proc/vmstat is found in the first line that holds it, and what
is read there is taken for a number of kB. -/
theorem VmstatText.fetch_eq (vm : VmstatText) (he : e ∈ vmstatMetrics) :
    memoryFetchMetric vm.text e.fieldName.bytes = (vm.first e).map fun l =>
      UInt64.ofNat (l.behind e.fieldName.bytes * 1024) := by
  obtain ⟨hne, hsep, -, -⟩ := vmstat_fieldName he
  have hfirst := vm.first_eq he
  cases hfind : vm.first e with
  | none =>
      rw [hfirst] at hfind
      have hnone := strstr_lines_none hsep hne hfind
      rw [memoryFetchMetric, VmstatText.text, hnone]
      rfl
  | some l =>
      have hin : e.fieldName.bytes <:+: l.field := by
        simpa using List.find?_some hfind
      rw [hfirst] at hfind
      obtain ⟨before, front, rest, after, hline, hrun⟩ :=
        strstr_lines hsep hfind
      obtain ⟨front', rest', hfield⟩ := exists_strstr hin
      obtain ⟨-, back, rfl⟩ := strstr_some hfield
      have hrest : rest = e.fieldName.bytes ++ back ++ 32 :: l.digits := by
        have hsame := strstr_append_right hfield (32 :: l.digits)
        rw [← VmstatLine.line, hline] at hsame
        exact (Prod.mk.inj (Option.some.inj hsame)).2
      have hread := l.read_behind hfield (joined 10 after)
      rw [memoryFetchMetric, VmstatText.text, hrun, hrest]
      dsimp only
      rw [List.append_assoc, List.append_assoc, List.drop_left,
        List.cons_append, hread, Option.map_some, UInt64.ofNat_mul]
      rfl

-- ======================================================================= polls

/-- What is fetched for an entry. -/
inductive MemoryFetched (mem : MeminfoText) (vm : VmstatText)
    (e : MemoryMetric) : UInt64 → Prop
  | bytes (l : MeminfoLine) (entry : e ∈ meminfoMetrics)
      (first : mem.first e = some l) :
      MemoryFetched mem vm e (UInt64.ofNat (l.number * 1024))
  | pages (l : VmstatLine) (entry : e ∈ vmstatMetrics)
      (first : vm.first e = some l) :
      MemoryFetched mem vm e
        (UInt64.ofNat (l.behind e.fieldName.bytes * 1024))

/-- The metrics that are pushed are those of what is fetched. -/
theorem mem_memoryPollMetrics {m : Metric} :
    m ∈ memoryPollMetrics clock (some mem.text) (some vm.text)
      ↔ ∃ e v, MemoryFetched mem vm e v
        ∧ m = metricInteger e.name clock v e.flags := by
  simp only [memoryPollMetrics, fetchMetricsFromFile, List.mem_append,
    List.mem_filterMap, MemoryMetric.poll]
  constructor
  · rintro (⟨e, he, hpoll⟩ | ⟨e, he, hpoll⟩)
    · rw [mem.fetch_eq he, Option.map_map, Option.map_eq_some_iff] at hpoll
      obtain ⟨l, hl, rfl⟩ := hpoll
      exact ⟨e, _, .bytes l he hl, rfl⟩
    · rw [vm.fetch_eq he, Option.map_map, Option.map_eq_some_iff] at hpoll
      obtain ⟨l, hl, rfl⟩ := hpoll
      exact ⟨e, _, .pages l he hl, rfl⟩
  · rintro ⟨e, v, hfetched, rfl⟩
    cases hfetched with
    | bytes l he hl =>
        refine .inl ⟨e, he, ?_⟩
        rw [mem.fetch_eq he, hl]
        rfl
    | pages l he hl =>
        refine .inr ⟨e, he, ?_⟩
        rw [vm.fetch_eq he, hl]
        rfl

theorem MemoryFetched.entry (h : MemoryFetched mem vm e v) :
    e ∈ meminfoMetrics ++ vmstatMetrics := by
  cases h with
  | bytes l he hl => exact List.mem_append_left _ he
  | pages l he hl => exact List.mem_append_right _ he

theorem MemoryValue.entry (h : MemoryValue mem vm e v) :
    e ∈ meminfoMetrics ++ vmstatMetrics := by
  cases h with
  | bytes i l he hl hown hread => exact List.mem_append_left _ he
  | pages i l he hl hown hread => exact List.mem_append_right _ he

/-- The metrics are told apart by their names, so what is fetched for an entry
must be its value. -/
theorem memoryPolled_iff_fetched :
    MemoryPolled clock mem vm
      ↔ ∀ e v, MemoryFetched mem vm e v → MemoryValue mem vm e v := by
  constructor
  · intro h e v hfetched
    obtain ⟨e', v', hvalue, heq⟩ :=
      h _ (mem_memoryPollMetrics.mpr ⟨e, v, hfetched, rfl⟩)
    obtain ⟨hname, hv⟩ : e.name = e'.name ∧ v = v' := by
      simp only [metricInteger, Metric.mk.injEq, MetricValue.int.injEq] at heq
      exact ⟨heq.1, heq.2.2.2.1⟩
    obtain rfl := memoryMetrics_name e hfetched.entry e' hvalue.entry hname
    rw [hv]
    exact hvalue
  · intro h m hm
    obtain ⟨e, v, hfetched, rfl⟩ := mem_memoryPollMetrics.mp hm
    exact ⟨e, v, h e v hfetched, rfl⟩

/-- What is pushed of /proc/meminfo is the value of the first line whose field
ends with that of the entry, so this must be the entry's own. -/
theorem memoryValue_meminfo (he : e ∈ meminfoMetrics) {l : MeminfoLine}
    (hl : mem.first e = some l) :
    MemoryValue mem vm e (UInt64.ofNat (l.number * 1024))
      ↔ l.tag = e.fieldName.bytes := by
  obtain ⟨-, -, hsep⟩ := meminfo_fieldName he
  obtain ⟨i, hline, hread⟩ := matchIn_first hsep (mem.first_eq he ▸ hl)
  constructor
  · intro h
    generalize hv : UInt64.ofNat (l.number * 1024) = v at h
    cases h with
    | bytes j own _ hown htag hread' =>
        obtain rfl := hread.unique hread'
        rw [hline] at hown
        obtain rfl := Option.some.inj hown
        exact htag
    | pages j own hno _ _ _ => exact absurd hno (not_mem_vmstatMetrics e he)
  · intro htag
    exact .bytes i l he hline htag hread

/-- In a line of the name alone, the number of the line is behind it. -/
theorem VmstatLine.behind_self (l : VmstatLine) :
    l.behind l.field = l.number := by
  have hfind : strstr l.field l.field = some ([], l.field) :=
    strstr_append [] List.prefix_rfl (by simp)
  rw [VmstatLine.behind, hfind]
  exact if_pos rfl

/-- Bytes made of a number of pages are that number only if it is zero. -/
theorem pages_eq_iff (l : VmstatLine) :
    UInt64.ofNat (l.number * 1024) = UInt64.ofNat l.number ↔ l.number = 0 := by
  have hfits : l.number < 2 ^ 64 := l.fits
  rw [← UInt64.toNat_inj, UInt64.toNat_ofNat', UInt64.toNat_ofNat_of_lt' hfits]
  omega

/-- What is pushed of /proc/vmstat is made of the first line whose field holds
that of the entry, so this must be the entry's own, and its number zero. -/
theorem memoryValue_vmstat (he : e ∈ vmstatMetrics) {l : VmstatLine}
    (hl : vm.first e = some l) :
    MemoryValue mem vm e (UInt64.ofNat (l.behind e.fieldName.bytes * 1024))
      ↔ l.field = e.fieldName.bytes ∧ l.number = 0 := by
  obtain ⟨-, hsep, -, -⟩ := vmstat_fieldName he
  obtain ⟨i, hline, hread⟩ := matchIn_first hsep (vm.first_eq he ▸ hl)
  constructor
  · intro h
    generalize hv : UInt64.ofNat (l.behind e.fieldName.bytes * 1024) = v at h
    cases h with
    | bytes j own hno _ _ _ => exact absurd he (not_mem_vmstatMetrics e hno)
    | pages j own _ hown hfield hread' =>
        obtain rfl := hread.unique hread'
        rw [hline] at hown
        obtain rfl := Option.some.inj hown
        rw [← hfield, l.behind_self, pages_eq_iff] at hv
        exact ⟨hfield, hv⟩
  · rintro ⟨hfield, hzero⟩
    have hsame : UInt64.ofNat (l.behind e.fieldName.bytes * 1024)
        = UInt64.ofNat l.number := by
      rw [← hfield, l.behind_self, pages_eq_iff]
      exact hzero
    rw [hsame]
    exact .pages i l he hline hfield hread

/-- Each metric of the memory is read in the line of its entry and has the
number of it, in its unit, exactly where no line of a longer field comes first
and no pages were swapped. -/
theorem memoryPolled_iff (clock : Timeval) (mem : MeminfoText)
    (vm : VmstatText) : MemoryPolled clock mem vm ↔ MemoryRight mem vm := by
  rw [memoryPolled_iff_fetched]
  constructor
  case mp =>
      intro h
      exact ⟨fun e he l hl => (memoryValue_meminfo he hl).mp
          (h e _ (.bytes l he hl)),
        fun e he l hl => (memoryValue_vmstat he hl).mp
          (h e _ (.pages l he hl))⟩
  case mpr =>
      intro h e v hfetched
      cases hfetched with
      | bytes l he hl =>
          exact (memoryValue_meminfo he hl).mpr (h.meminfo e he l hl)
      | pages l he hl =>
          exact (memoryValue_vmstat he hl).mpr (h.vmstat e he l hl)

/-- One page that was swapped in is pushed as 1024. -/
theorem not_memoryPolled :
    ¬ MemoryPolled ⟨0, 0⟩ ⟨[], List.nodup_nil⟩
      ⟨[⟨(CString.ofString "pswpin").bytes, [49],
          List.all_iff_forall_prop.mp (by decide), by decide, by decide⟩],
        List.nodup_singleton _⟩ := by
  have he : ⟨.ofString "swap.activity.pages_in", .ofString "pswpin",
      metricTimedelta⟩ ∈ vmstatMetrics := by decide
  rw [memoryPolled_iff_fetched]
  intro h
  have hvalue := (memoryValue_vmstat he rfl).mp (h _ _ (.pages _ he rfl))
  exact absurd hvalue.2 (by decide)

end Monikor
