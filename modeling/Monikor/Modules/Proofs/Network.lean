/-
Which devices a table has, and which `next_device_info` finds.

`next_device_info` goes backwards from the colon of a device to a blank, a
newline or the start of the text that is left, and takes the next byte for
the first one of the name unless it stands at the start. So a single byte in
front of a name is taken for a part of it (`seenName`), which is what the
table has there when it pads a name of five characters.
-/
import Mathlib.Data.Bool.AllAny
import Monikor.Modules.Network

namespace Monikor

open Numerals Search

-- ==================================================================== tables

/-- A number of a table, behind blanks. -/
structure Column where
  gap : Nat
  digits : List UInt8
  numeral : IsNumeral 10 digits
  fits : value 10 digits < 2 ^ 64

def Column.text (c : Column) : List UInt8 :=
  List.replicate c.gap 32 ++ c.digits

def Column.number (c : Column) : UInt64 := UInt64.ofNat (value 10 c.digits)

/-- The line of an interface: blanks, its name, a colon and the numbers. -/
structure DevLine where
  lead : Nat
  name : CString
  named : name.bytes ≠ []
  plain : ∀ b ∈ name.bytes, b ≠ 32 ∧ b ≠ 10 ∧ b ≠ 58
  columns : Fin 16 → Column
  apart : ∀ i, i ≠ 0 → 0 < (columns i).gap

def DevLine.info (l : DevLine) : List UInt8 :=
  (List.ofFn l.columns).flatMap Column.text

def DevLine.text (l : DevLine) : List UInt8 :=
  List.replicate l.lead 32 ++ l.name.bytes ++ 58 :: (l.info ++ [10])

/-- A line of the header. -/
structure HeaderLine where
  bytes : List UInt8
  plain : ∀ b ∈ bytes, b ≠ 58 ∧ b ≠ 10 ∧ b ≠ 0

def HeaderLine.text (h : HeaderLine) : List UInt8 := h.bytes ++ [10]

/-- The text of /proc/net/dev. -/
def devTable (headers : List HeaderLine) (lines : List DevLine) : List UInt8 :=
  headers.flatMap HeaderLine.text ++ lines.flatMap DevLine.text

/-- The columns of a metric of an interface, and the ends of their names. -/
def devColumns : List (Fin 16 × String) :=
  [(0, "rx.bytes"), (1, "rx.packets"), (2, "rx.errors"), (3, "rx.dropped"),
    (8, "tx.bytes"), (9, "tx.packets"), (10, "tx.errors"), (11, "tx.dropped")]

/-- The metrics of an interface. -/
def DevLine.metrics (l : DevLine) (clock : Timeval) : List Metric :=
  devColumns.map fun (i, column) =>
    metricInteger (metricBase l.name ++ .ofString column) clock
      (l.columns i).number metricTimedelta

/-- The next `n` numbers of a text, as `strtoull` reads them. -/
def numbers : Nat → List UInt8 → List UInt64
  | 0, _ => []
  | n + 1, s => (strtoull 10 s).1 :: numbers n (strtoull 10 s).2

/-- The calls of `next_device_info` find the interfaces of the table, with
their names and numbers. -/
def DevicesFound (headers : List HeaderLine) (lines : List DevLine) : Prop :=
  (devices (devTable headers lines)).map
      (fun (dev, info) => (dev, numbers 16 info))
    = lines.map fun l =>
      (l.name.bytes, List.ofFn fun i => (l.columns i).number)

/-- The interfaces are found, and the metrics of those that are valid are
pushed, by their names. -/
structure TableRead (clock : Timeval) (ifaces : Option (List CString))
    (headers : List HeaderLine) (lines : List DevLine) : Prop where
  found : DevicesFound headers lines
  pushed : pollNetworkMetrics clock ifaces (some (devTable headers lines))
    = lines.flatMap fun l =>
      if isValidDevice ifaces l.name then l.metrics clock else []

/-- No name has a single byte in front of it, counting the header in front of
the first one. -/
def NoSingleLead (headers : List HeaderLine) : List DevLine → Prop
  | [] => True
  | l :: lines =>
      (headers.flatMap HeaderLine.text).length + l.lead ≠ 1
        ∧ ∀ l ∈ lines, l.lead ≠ 1

-- ===================================================================== names

variable {front name info rest : List UInt8} {clock : Timeval}

/-- What is taken for the name behind `front`. -/
def seenName (front name : List UInt8) : List UInt8 :=
  if front.length = 1 then front ++ name else name

theorem seenName_eq_iff : seenName front name = name ↔ front.length ≠ 1 := by
  unfold seenName
  split
  case isTrue h =>
      refine iff_of_false (fun heq => ?_) (fun hne => hne h)
      have hlen := congrArg List.length heq
      rw [List.length_append] at hlen
      omega
  case isFalse h => exact iff_of_true rfl h

/-- Going backwards, the loop passes a name. -/
theorem devnameLoop_name (front : List UInt8)
    (hname : ∀ b ∈ name, b ≠ 32 ∧ b ≠ 10) (rest : List UInt8) :
    ∀ k ≤ name.length,
      devnameLoop (front ++ (name ++ 58 :: rest)) (front.length + k)
        = devnameLoop (front ++ (name ++ 58 :: rest)) (front.length - 1) := by
  have hpass : ∀ p b, (front ++ (name ++ 58 :: rest))[p + 1]? = some b →
      b ≠ 32 ∧ b ≠ 10 →
      devnameLoop (front ++ (name ++ 58 :: rest)) (p + 1)
        = devnameLoop (front ++ (name ++ 58 :: rest)) p := by
    intro p b hb hplain
    rw [devnameLoop, hb]
    exact if_neg fun h => h.elim hplain.1 hplain.2
  have hbyte : ∀ k ≤ name.length, ∃ b,
      (front ++ (name ++ 58 :: rest))[front.length + k]? = some b
        ∧ b ≠ 32 ∧ b ≠ 10 := by
    intro k hk
    rw [List.getElem?_append_right (Nat.le_add_right ..),
      Nat.add_sub_cancel_left]
    rcases Nat.lt_or_eq_of_le hk with hlt | rfl
    · rw [List.getElem?_append_left hlt, List.getElem?_eq_getElem hlt]
      exact ⟨_, rfl, hname _ (List.getElem_mem hlt)⟩
    · exact ⟨58, by simp, by decide⟩
  intro k
  induction k with
  | zero =>
      intro hk
      obtain ⟨b, hb, hplain⟩ := hbyte 0 hk
      cases front with
      | nil => rfl
      | cons a front => exact hpass front.length b hb hplain
  | succ k ih =>
      intro hk
      obtain ⟨b, hb, hplain⟩ := hbyte (k + 1) hk
      rw [← ih (Nat.le_of_succ_le hk)]
      exact hpass (front.length + k) b hb hplain

/-- A call finds the name of the next line, with a single byte in front of
it. -/
theorem nextDeviceInfo_line (hfront : 58 ∉ front)
    (hlast : ∀ b ∈ front.getLast?, b = 32 ∨ b = 10)
    (hname : ∀ b ∈ name, b ≠ 32 ∧ b ≠ 10 ∧ b ≠ 58) (hinfo : 10 ∉ info) :
    nextDeviceInfo (front ++ name ++ 58 :: (info ++ 10 :: rest))
      = some (seenName front name, info, rest) := by
  have hcolon : 58 ∉ front ++ name := by
    intro h
    rcases List.mem_append.mp h with h | h
    · exact hfront h
    · exact (hname 58 h).2.2 rfl
  have hloop := devnameLoop_name front (fun b hb =>
    ⟨(hname b hb).1, (hname b hb).2.1⟩) (info ++ 10 :: rest) name.length
    (Nat.le_refl _)
  rw [← List.append_assoc, ← List.length_append] at hloop
  simp only [nextDeviceInfo, strchr_append hcolon, strchr_append hinfo, hloop,
    Option.bind_eq_bind, Option.bind_some]
  -- what the loop stops at, by what is in front of the name
  rcases List.eq_nil_or_concat' front with rfl | ⟨before, b, rfl⟩
  · simp [devnameLoop, seenName]
  · have hb : b = 32 ∨ b = 10 := hlast b (by simp)
    cases before with
    | nil => simp [devnameLoop, seenName]
    | cons a before =>
        have hstop : devnameLoop
            ((a :: before ++ [b]) ++ name ++ 58 :: (info ++ 10 :: rest))
            ((a :: before ++ [b]).length - 1) = before.length + 1 := by
          have hbyte : ((a :: before ++ [b]) ++ name
              ++ 58 :: (info ++ 10 :: rest))[before.length + 1]? = some b := by
            simp
          have hindex : (a :: before ++ [b]).length - 1 = before.length + 1 := by
            simp
          rw [hindex, devnameLoop, hbyte]
          exact if_pos hb
        have hdrop : ((a :: before ++ [b]) ++ name).drop (before.length + 1 + 1)
            = name := by
          rw [List.drop_append_of_le_length (by simp)]
          simp
        rw [hstop, if_pos (Nat.succ_ne_zero _), hdrop]
        simp [seenName]

-- ==================================================================== devices

theorem devices_some (h : nextDeviceInfo front = some (name, info, rest)) :
    devices front = (name, info) :: devices rest := by
  rw [devices]
  split
  case h_1 hnone =>
      rw [h] at hnone
      cases hnone
  case h_2 hsome =>
      obtain ⟨rfl, rfl, rfl⟩ : _ ∧ _ ∧ _ := by
        simpa using hsome.symm.trans h
      rfl

theorem devices_none (h : 58 ∉ front) : devices front = [] := by
  have hnone : nextDeviceInfo front = none := by
    unfold nextDeviceInfo
    rw [strchr_eq_none.mpr h]
    rfl
  rw [devices]
  split
  case h_1 => rfl
  case h_2 hsome =>
      rw [hnone] at hsome
      cases hsome

/-- The bytes of a number are blanks and digits. -/
theorem Column.text_plain (c : Column) : ∀ b ∈ c.text, b ≠ 10 := by
  intro b hb
  rcases List.mem_append.mp hb with hb | hb
  · rw [List.eq_of_mem_replicate hb]
    decide
  · rintro rfl
    exact absurd (c.numeral.2 10 hb) (by decide)

theorem DevLine.info_plain (l : DevLine) : (10 : UInt8) ∉ l.info := by
  intro h
  obtain ⟨c, -, hb⟩ := List.mem_flatMap.mp h
  exact c.text_plain 10 hb rfl

/-- A call finds the name of a line behind blanks and what is in front of
them. -/
theorem devices_line (front : List UInt8) (l : DevLine) (hfront : 58 ∉ front)
    (hlast : ∀ b ∈ front.getLast?, b = 10) (rest : List UInt8) :
    devices (front ++ (l.text ++ rest))
      = (seenName (front ++ List.replicate l.lead 32) l.name.bytes, l.info)
        :: devices rest := by
  have htext : front ++ (l.text ++ rest)
      = (front ++ List.replicate l.lead 32) ++ l.name.bytes
        ++ 58 :: (l.info ++ 10 :: rest) := by
    simp [DevLine.text]
  rw [htext]
  apply devices_some
  apply nextDeviceInfo_line
  · intro h
    rcases List.mem_append.mp h with h | h
    · exact hfront h
    · exact absurd (List.eq_of_mem_replicate h) (by decide)
  · intro b hb
    cases hlead : l.lead with
    | zero =>
        rw [hlead, List.replicate_zero, List.append_nil] at hb
        exact .inr (hlast b hb)
    | succ n =>
        rw [hlead, List.replicate_succ', ← List.append_assoc,
          List.getLast?_concat] at hb
        exact .inl (Option.some.inj hb).symm
  · exact l.plain
  · exact l.info_plain

/-- The devices of lines. -/
theorem devices_lines (lines : List DevLine) :
    devices (lines.flatMap DevLine.text) = lines.map fun l =>
      (seenName (List.replicate l.lead 32) l.name.bytes, l.info) := by
  induction lines with
  | nil => exact devices_none (by simp)
  | cons l lines ih =>
      have hline := devices_line [] l (by simp) (by simp)
        (lines.flatMap DevLine.text)
      rw [List.nil_append, List.nil_append] at hline
      rw [List.flatMap_cons, hline, ih, List.map_cons]

/-- The header is in front of the name of the first line. -/
theorem devices_table (headers : List HeaderLine) (l : DevLine)
    (lines : List DevLine) :
    devices (devTable headers (l :: lines))
      = (seenName (headers.flatMap HeaderLine.text
          ++ List.replicate l.lead 32) l.name.bytes, l.info)
        :: lines.map fun l =>
          (seenName (List.replicate l.lead 32) l.name.bytes, l.info) := by
  unfold devTable
  rw [List.flatMap_cons, devices_line _ l, devices_lines]
  · intro h
    obtain ⟨line, -, hb⟩ := List.mem_flatMap.mp h
    rcases List.mem_append.mp hb with hb | hb
    · exact (line.plain 58 hb).1 rfl
    · exact absurd (List.mem_singleton.mp hb) (by decide)
  · intro b hb
    rcases List.eq_nil_or_concat' headers with rfl | ⟨before, line, rfl⟩
    · cases hb
    · have hend : (before ++ [line]).flatMap HeaderLine.text
          = (before.flatMap HeaderLine.text ++ line.bytes) ++ [10] := by
        simp [HeaderLine.text]
      rw [hend, List.getLast?_concat] at hb
      exact (Option.some.inj hb).symm

-- ==================================================================== numbers

/-- Numbers behind blanks are read one after another. -/
theorem numbers_columns (columns : List Column)
    (hgaps : ∀ c ∈ columns.tail, 0 < c.gap) :
    numbers columns.length (columns.flatMap Column.text)
      = columns.map Column.number := by
  induction columns with
  | nil => rfl
  | cons c columns ih =>
      have hstops : Stops 10 (columns.flatMap Column.text) := by
        cases columns with
        | nil => exact stops_nil
        | cons d columns =>
            obtain ⟨n, hn⟩ : ∃ n, d.gap = n + 1 :=
              ⟨d.gap - 1, by have hpos := hgaps d (by simp); omega⟩
            rw [List.flatMap_cons, Column.text, hn, List.replicate_succ]
            exact stops_space_cons rfl _
      have hread := strtoull_numeral (List.replicate c.gap 32)
        (fun b hb => by rw [List.eq_of_mem_replicate hb]; decide) c.numeral
        c.fits hstops
      have hrest : ∀ d ∈ columns.tail, 0 < d.gap :=
        fun d hd => hgaps d (List.mem_of_mem_tail hd)
      rw [List.flatMap_cons, List.length_cons, numbers]
      unfold Column.text at hread ⊢
      rw [hread]
      exact congrArg _ (ih hrest)

theorem DevLine.numbers_info (l : DevLine) :
    numbers 16 l.info = List.ofFn fun i => (l.columns i).number := by
  have hgaps : ∀ c ∈ (List.ofFn l.columns).tail, 0 < c.gap := by
    rw [List.ofFn_succ, List.tail_cons]
    intro c hc
    obtain ⟨i, rfl⟩ := List.mem_ofFn.mp hc
    exact l.apart i.succ (Fin.succ_ne_zero i)
  have hread := numbers_columns (List.ofFn l.columns) hgaps
  rw [List.length_ofFn, List.map_ofFn] at hread
  exact hread

/-- The loop over the columns pushes the numbers that have a name. -/
theorem pollDeviceLoop_numbers (clock : Timeval) (base : CString)
    (columns : List (Option CString)) :
    ∀ info : List UInt8, pollDeviceLoop clock base columns info
      = (columns.zip (numbers columns.length info)).filterMap
        fun (column, value) => column.map fun suffix =>
          metricInteger (base ++ suffix) clock value metricTimedelta := by
  induction columns with
  | nil => exact fun info => rfl
  | cons column columns ih =>
      intro info
      cases column with
      | none => simp [pollDeviceLoop, numbers, ih]
      | some suffix => simp [pollDeviceLoop, numbers, ih]

theorem DevLine.pollDeviceMetrics_info (l : DevLine) (clock : Timeval) :
    pollDeviceMetrics clock l.name l.info = l.metrics clock := by
  unfold pollDeviceMetrics
  rw [pollDeviceLoop_numbers, show netMetrics.length = 16 from rfl,
    l.numbers_info]
  simp [netMetrics, devColumns, DevLine.metrics, List.ofFn_succ]

-- =================================================================== the table

/-- There is no device in a header. -/
theorem devices_header (headers : List HeaderLine) :
    devices (devTable headers []) = [] := by
  apply devices_none
  intro h
  rw [devTable, List.flatMap_nil, List.append_nil] at h
  obtain ⟨line, -, hb⟩ := List.mem_flatMap.mp h
  rcases List.mem_append.mp hb with hb | hb
  · exact (line.plain 58 hb).1 rfl
  · exact absurd (List.mem_singleton.mp hb) (by decide)

/-- The interfaces are found exactly if no name has a single byte in front of
it. -/
theorem devicesFound_iff (headers : List HeaderLine) (lines : List DevLine) :
    DevicesFound headers lines ↔ NoSingleLead headers lines := by
  unfold DevicesFound
  cases lines with
  | nil => simp [devices_header, NoSingleLead]
  | cons l lines =>
      simp only [devices_table, List.map_cons, List.map_map,
        Function.comp_def, DevLine.numbers_info, List.cons.injEq,
        Prod.mk.injEq, and_true, List.map_inj_left, seenName_eq_iff,
        List.length_append, List.length_replicate, NoSingleLead]

/-- Where no name has a single byte in front of it, the devices are the
interfaces. -/
theorem devices_interfaces {headers : List HeaderLine} {lines : List DevLine}
    (h : NoSingleLead headers lines) :
    devices (devTable headers lines)
      = lines.map fun l => (l.name.bytes, l.info) := by
  cases lines with
  | nil => exact devices_header headers
  | cons l lines =>
      rw [devices_table, List.map_cons]
      congr 1
      · rw [seenName_eq_iff.mpr]
        rw [List.length_append, List.length_replicate]
        exact h.1
      · apply List.map_congr_left
        intro m hm
        rw [seenName_eq_iff.mpr]
        rw [List.length_replicate]
        exact h.2 m hm

/-- The table is read exactly if no name has a single byte in front of it,
counting the header in front of the first one. -/
theorem tableRead_iff (clock : Timeval) (ifaces : Option (List CString))
    (headers : List HeaderLine) (lines : List DevLine) :
    TableRead clock ifaces headers lines ↔ NoSingleLead headers lines := by
  constructor
  case mp => exact fun h => (devicesFound_iff headers lines).mp h.found
  case mpr =>
      intro h
      refine ⟨(devicesFound_iff headers lines).mpr h, ?_⟩
      simp only [pollNetworkMetrics, devices_interfaces h, List.flatMap_map,
        cString_bytes, DevLine.pollDeviceMetrics_info]

/-- Behind the line of `lo` the name `wlan0`, which is padded to six bytes, has
its blank in front. -/
theorem table_not_read :
    let column : Column := ⟨1, [48], by decide, by decide⟩
    ¬ TableRead ⟨0, 0⟩ none []
      [⟨4, .ofString "lo", by decide, List.all_iff_forall_prop.mp (by decide),
          fun _ => column, by decide⟩,
        ⟨1, .ofString "wlan0", by decide,
          List.all_iff_forall_prop.mp (by decide), fun _ => column,
          by decide⟩] := by
  intro column h
  have hlead := (devicesFound_iff _ _).mp h.found
  exact hlead.2 _ List.mem_cons_self rfl

end Monikor
