/-
Every counter of memcached that is in its answer is pushed, with its number.

A tag has two blanks, and so has the line of a counter; so a tag is nowhere in
it but at its beginning, and there only if the fields are the same
(`statTag_infix`).
-/
import Monikor.Modules.Memcached

namespace Monikor

open Search

-- ======================================================================= texts

/-- The line of a counter: "STAT", its field and its number. -/
structure CounterLine where
  field : List UInt8
  plain : 32 ∉ field ∧ 10 ∉ field
  figure : Figure

def CounterLine.line (l : CounterLine) : List UInt8 :=
  [83, 84, 65, 84] ++ 32 :: (l.field ++ 32 :: (l.figure.digits ++ [13]))

def CounterLine.has (field : CString) (l : CounterLine) : Bool :=
  l.field = field.bytes

/-- A line of an answer: that of a counter, or another one. -/
inductive ReplyLine where
  | stat (l : CounterLine)
  | text (bytes : List UInt8)

def ReplyLine.line : ReplyLine → List UInt8
  | .stat l => l.line
  | .text bytes => bytes

def ReplyLine.asStat : ReplyLine → Option CounterLine
  | .stat l => some l
  | .text _ => none

/-- The fields that are looked for. -/
def memcachedFields : List CString :=
  memcachedMetrics.map MemcachedMetric.field
    ++ hitmissMetrics.flatMap fun m => [m.hit, m.miss]

/-- An answer: no other line has the tag of a field that is looked for. -/
structure StatReply where
  lines : List ReplyLine
  plain : ∀ bytes, .text bytes ∈ lines → 10 ∉ bytes
    ∧ ∀ field ∈ memcachedFields, ¬ statTag field.bytes <:+: bytes

def StatReply.text (t : StatReply) : List UInt8 :=
  joined 10 (t.lines.map ReplyLine.line)

/-- The number of the first counter with a field. -/
def StatReply.number (t : StatReply) (field : CString) : Option Nat :=
  ((t.lines.filterMap ReplyLine.asStat).find? (CounterLine.has field)).map
    fun l => l.figure.number

/-- The sum of the numbers of some fields. -/
def StatReply.sum (t : StatReply) (fields : List CString) : Nat :=
  (fields.map fun field => (t.number field).getD 0).sum

-- ======================================================================== tags

theorem memcachedFields_plain :
    ∀ field ∈ memcachedFields, 32 ∉ field.bytes ∧ 10 ∉ field.bytes := by
  decide +kernel

theorem statTag_infix (l : CounterLine) {field : List UInt8}
    (hfield : 32 ∉ field) :
    statTag field <:+: l.line ↔ l.field = field := by
  constructor
  case mp =>
      rintro ⟨front, back, heq⟩
      have hdigits := l.figure.notMem (b := 32) (by decide)
      -- the blanks of both
      have hcount := congrArg (List.count 32) heq
      simp only [statTag, CounterLine.line, List.count_append, List.count_cons,
        List.count_eq_zero.mpr hfield, List.count_eq_zero.mpr l.plain.1,
        List.count_eq_zero.mpr hdigits, List.count_nil] at hcount
      have hfront : 32 ∉ front := by
        rw [← List.count_eq_zero]
        simp at hcount
        omega
      have hsplit : (front ++ [83, 84, 65, 84]) ++ 32 :: (field ++ 32 :: back)
          = [83, 84, 65, 84]
            ++ 32 :: (l.field ++ 32 :: (l.figure.digits ++ [13])) := by
        rw [← CounterLine.line, ← heq]
        simp [statTag]
      obtain ⟨-, hrest⟩ := split_inj (by simpa using hfront) (by decide) hsplit
      exact (split_inj hfield l.plain.1 hrest).1.symm
  case mpr =>
      rintro rfl
      exact ⟨[], l.figure.digits ++ [13], by simp [statTag, CounterLine.line]⟩

variable {t : StatReply} {field : CString}

/-- The tag is in the lines of the counters with the field. -/
theorem ReplyLine.infix_iff {l : ReplyLine} (hl : l ∈ t.lines)
    (hfield : field ∈ memcachedFields) :
    statTag field.bytes <:+: l.line
      ↔ ∃ k ∈ l.asStat, CounterLine.has field k := by
  cases l with
  | stat k =>
      rw [ReplyLine.line, statTag_infix k (memcachedFields_plain field hfield).1]
      simp [ReplyLine.asStat, CounterLine.has]
  | text bytes =>
      simp only [ReplyLine.line, (t.plain bytes hl).2 field hfield, false_iff]
      simp [ReplyLine.asStat]

/-- What is fetched is the number of the counter. -/
theorem fetchStat_eq (t : StatReply) (hfield : field ∈ memcachedFields) :
    fetchStat t.text field.bytes = (t.number field).map UInt64.ofNat := by
  have hplain := memcachedFields_plain field hfield
  have hsep : 10 ∉ statTag field.bytes := by simp [statTag, hplain.2]
  have hne : statTag field.bytes ≠ [] := by simp [statTag]
  have hread := numberBehind_lines t.lines ReplyLine.asStat
    (CounterLine.has field) CounterLine.figure hsep hne
    (fun l hl => ReplyLine.infix_iff hl hfield) ?_
  · rw [fetchStat, StatReply.text, hread, StatReply.number, Option.map_map]
    rfl
  · intro l hl k hk hq
    have hq : k.field = field.bytes := of_decide_eq_true hq
    cases l with
    | text bytes => cases hk
    | stat l =>
        obtain rfl : l = k := Option.some.inj hk
        have hline : l.line
            = statTag field.bytes ++ (l.figure.digits ++ 13 :: []) := by
          simp [CounterLine.line, statTag, hq]
        refine ⟨[], 13, [], by decide, ?_⟩
        rw [ReplyLine.line, hline]
        exact strstr_append [] (List.prefix_append _ _) (by simp)

-- ===================================================================== metrics

theorem getD_ofNat (n : Option Nat) :
    (n.map UInt64.ofNat).getD 0 = UInt64.ofNat (n.getD 0) := by
  cases n <;> rfl

/-- The sums are those of the fields, as far as 64 bits hold them. -/
theorem hitmissLoop_eq (t : StatReply) (table : List HitmissMetric)
    (htable : ∀ m ∈ table, m ∈ hitmissMetrics) (hits misses : Nat) :
    hitmissLoop t.text table (UInt64.ofNat hits, UInt64.ofNat misses)
      = (UInt64.ofNat (hits + t.sum (table.map HitmissMetric.hit)),
        UInt64.ofNat (misses + t.sum (table.map HitmissMetric.miss))) := by
  induction table generalizing hits misses with
  | nil => rfl
  | cons m table ih =>
      have hm := htable m (List.mem_cons_self ..)
      have hfields : ∀ field ∈ [m.hit, m.miss], field ∈ memcachedFields :=
        fun field hf => List.mem_append_right _ (List.mem_flatMap.mpr ⟨m, hm, hf⟩)
      rw [hitmissLoop, fetchStat_eq t (hfields _ (by simp)),
        fetchStat_eq t (hfields _ (by simp)),
        getD_ofNat, getD_ofNat, ← UInt64.ofNat_add, ← UInt64.ofNat_add,
        ih fun k hk => htable k (List.mem_cons_of_mem _ hk)]
      simp only [StatReply.sum, List.map_cons, List.sum_cons, Nat.add_assoc]

/-- The answer of memcached: each counter that is looked for and in it is
pushed with its number, and the hits and the misses with their sums. -/
theorem memcached_pushed (clock : Timeval) (inst : Option MemcachedInstance)
    (t : StatReply) :
    memcachedPollMetrics clock inst t.text
      = (memcachedMetrics.filterMap fun m => (t.number m.field).map fun n =>
          metricInteger (memcachedName inst m.name) clock (UInt64.ofNat n)
            m.flags)
        ++ [metricInteger (memcachedName inst (.ofString "cache.hits")) clock
              (UInt64.ofNat (t.sum (hitmissMetrics.map HitmissMetric.hit)))
              metricDelta,
            metricInteger (memcachedName inst (.ofString "cache.misses")) clock
              (UInt64.ofNat (t.sum (hitmissMetrics.map HitmissMetric.miss)))
              metricDelta] := by
  have hloop := hitmissLoop_eq t hitmissMetrics (fun _ h => h) 0 0
  rw [Nat.zero_add, Nat.zero_add] at hloop
  have hzero : ((0, 0) : UInt64 × UInt64)
      = (UInt64.ofNat 0, UInt64.ofNat 0) := rfl
  rw [memcachedPollMetrics, fetchHitmissMetrics, hzero, hloop]
  congr 1
  apply List.filterMap_congr
  intro m hm
  have hfield : m.field ∈ memcachedFields :=
    List.mem_append_left _ (List.mem_map_of_mem hm)
  rw [MemcachedMetric.poll, fetchStat_eq t hfield, Option.map_map]
  rfl

end Monikor
