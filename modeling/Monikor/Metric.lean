/-
The metric: the data types of metric.h and the value-level functions of
metric.c and metric_compute.c.

# Conventions

- A C string is a byte list without a NUL (`CString`): `strlen` is its
  length, `strcmp(a, b) == 0` is equality, and no value of the model can
  hold an embedded terminator.
- The tag and the union of `monikor_metric_t` are one inductive
  (`MetricValue`): the constructors of metric.c and the decoder never
  leave a metric whose tag and union disagree.
- Fixed-width fields keep their width (`UInt64`, `UInt16`, `UInt8`,
  `Int64` for `time_t`/`suseconds_t` on LP64). A `float` is its bit
  pattern, and what the hardware does with it is the parameter
  `FloatOps`.
-/
import Mathlib.Algebra.Order.Ring.Int
import Mathlib.Data.List.TakeWhile

namespace Monikor

-- ============================================================ C values

/-- A NUL-terminated string, without its terminator. -/
structure CString where
  bytes : List UInt8
  nul_free : (0 : UInt8) ∉ bytes
deriving DecidableEq

/-- `strlen`. -/
def CString.strlen (s : CString) : Nat := s.bytes.length

theorem CString.ext_bytes {s t : CString} (h : s.bytes = t.bytes) : s = t := by
  cases s
  cases t
  cases h
  rfl

/-- What C reads of bytes: up to the first NUL. -/
def cString (bytes : List UInt8) : CString where
  bytes := bytes.takeWhile (· ≠ 0)
  nul_free := by
    intro h
    simpa using List.mem_takeWhile_imp h

theorem cString_of_nul_free {bytes : List UInt8} (h : (0 : UInt8) ∉ bytes) :
    (cString bytes).bytes = bytes := by
  apply List.takeWhile_eq_self_iff.mpr
  intro b hb
  have hne : b ≠ 0 := fun h0 => h (h0 ▸ hb)
  simpa using hne

theorem cString_bytes (s : CString) : cString s.bytes = s :=
  CString.ext_bytes (cString_of_nul_free s.nul_free)

def CString.nil : CString := ⟨[], by simp⟩

/-- The string "a". -/
def CString.a : CString := ⟨[97], by decide⟩

/-- The string of a literal. -/
def CString.ofString (s : String) : CString :=
  cString (s.toList.map fun c => UInt8.ofNat c.toNat)

/-- Two strings one after the other. -/
def CString.append (s t : CString) : CString where
  bytes := s.bytes ++ t.bytes
  nul_free := by simp [s.nul_free, t.nul_free]

instance : Append CString := ⟨CString.append⟩

@[simp] theorem CString.append_bytes (s t : CString) :
    (s ++ t).bytes = s.bytes ++ t.bytes := rfl

theorem CString.append_strlen (s t : CString) :
    (s ++ t).strlen = s.strlen + t.strlen := List.length_append

theorem CString.append_right_inj {s t u : CString} :
    s ++ t = s ++ u ↔ t = u := by
  constructor
  · intro h
    apply CString.ext_bytes
    exact List.append_cancel_left (congrArg CString.bytes h)
  · rintro rfl
    rfl

theorem CString.append_assoc (s t u : CString) : s ++ t ++ u = s ++ (t ++ u) :=
  CString.ext_bytes (List.append_assoc ..)

/-- `struct timeval` on LP64: both fields are signed 64-bit. -/
structure Timeval where
  sec : Int64
  usec : Int64
deriving DecidableEq

/-- `_timecmp`: the difference of the first fields that differ, converted
to the 32-bit `int` the function returns. -/
def timecmp (a b : Timeval) : Int32 :=
  if a.sec ≠ b.sec then (a.sec - b.sec).toInt32
  else (a.usec - b.usec).toInt32

/-- The single-precision operations metric_compute.c relies on, on bit
patterns. `perMillion x` is `x / 1000000.0`, computed in double and
rounded back to `float`. -/
structure FloatOps where
  add : UInt32 → UInt32 → UInt32
  sub : UInt32 → UInt32 → UInt32
  div : UInt32 → UInt32 → UInt32
  lt : UInt32 → UInt32 → Bool
  ofUInt64 : UInt64 → UInt32
  ofInt64 : Int64 → UInt32
  perMillion : UInt32 → UInt32

/-- The operations of the machine the development is run on. -/
def hostFloat : FloatOps where
  add x y := (Float32.ofBits x + Float32.ofBits y).toBits
  sub x y := (Float32.ofBits x - Float32.ofBits y).toBits
  div x y := (Float32.ofBits x / Float32.ofBits y).toBits
  lt x y := decide (Float32.ofBits x < Float32.ofBits y)
  ofUInt64 n := n.toFloat32.toBits
  ofInt64 n := n.toFloat32.toBits
  perMillion x := ((Float32.ofBits x).toFloat / 1000000.0).toFloat32.toBits

-- ============================================================ metric.h

/-- `monikor_metric_type_t`. -/
inductive MetricType where
  | integer
  | float
  | string
deriving DecidableEq

/-- The enumeration's C value. -/
def MetricType.code : MetricType → UInt8
  | .integer => 0
  | .float => 1
  | .string => 2

/-- `monikor_metric_value_t` together with the tag that selects its
member. -/
inductive MetricValue where
  | int (v : UInt64)
  | float (bits : UInt32)
  | string (s : CString)
deriving DecidableEq

/-- `monikor_metric_t`. -/
structure Metric where
  name : CString
  id : UInt16
  clock : Timeval
  value : MetricValue
  flags : UInt8
deriving DecidableEq

/-- `monikor_metric_integer`. -/
def metricInteger (name : CString) (clock : Timeval) (value : UInt64)
    (flags : UInt8) : Metric :=
  ⟨name, 0, clock, .int value, flags⟩

/-- `monikor_metric_string`. -/
def metricString (name : CString) (clock : Timeval) (value : CString) : Metric :=
  ⟨name, 0, clock, .string value, 0⟩

/-- The `type` field. -/
def Metric.type (m : Metric) : MetricType :=
  match m.value with
  | .int _ => .integer
  | .float _ => .float
  | .string _ => .string

/-- `MONIKOR_METRIC_DELTA`. -/
def metricDelta : UInt8 := (1 : UInt8) <<< 0

/-- `MONIKOR_METRIC_TIMEDELTA`. -/
def metricTimedelta : UInt8 := metricDelta ||| ((1 : UInt8) <<< 1)

/-- `MONIKOR_METRIC_AGGREGATE`. -/
def metricAggregate : UInt8 := (1 : UInt8) <<< 2

/-- `metric->flags & MONIKOR_METRIC_DELTA`. -/
def Metric.isDelta (m : Metric) : Bool := m.flags &&& metricDelta != 0

/-- `metric->flags & MONIKOR_METRIC_AGGREGATE`. -/
def Metric.isAggregate (m : Metric) : Bool := m.flags &&& metricAggregate != 0

/-- `(flags & MONIKOR_METRIC_TIMEDELTA) == MONIKOR_METRIC_TIMEDELTA`. -/
def Metric.isTimedelta (m : Metric) : Bool :=
  m.flags &&& metricTimedelta == metricTimedelta

/-- `sizeof(monikor_metric_list_node_t)` on LP64: two pointers. -/
def sizeofNode : Nat := 16

/-- `sizeof(monikor_metric_t)` on LP64: name 8, id 2 padded to 8, clock
16, type 4 padded to 8, value 8, flags 1 padded to 8. -/
def sizeofMetric : Nat := 56

-- ============================================================ metric.c

/-- `monikor_metric_data_size`. -/
def metricDataSize (m : Metric) : Nat :=
  match m.value with
  | .int _ => 8
  | .float _ => 4
  | .string s => s.strlen

/-- `monikor_metric_node_size` (metric_list.c), on the metric the node
holds. -/
def metricNodeSize (m : Metric) : Nat :=
  sizeofNode + sizeofMetric + m.name.strlen
    + match m.value with
      | .string s => s.strlen
      | _ => 0

-- ==================================================== metric_compute.c

section Compute

variable (F : FloatOps)

/-- `_compute_metrics_interval`, in seconds. -/
def computeMetricsInterval (a b : Metric) : UInt32 :=
  F.perMillion (F.ofInt64
    (1000000 * (b.clock.sec - a.clock.sec) + (b.clock.usec - a.clock.usec)))

/-- `_compute_float_delta`: the value left in `res`. -/
def computeFloatDelta (a b : Metric) (x y : UInt32) : MetricValue :=
  if a.isTimedelta then
    if F.lt y x then .float 0
    else .float (F.div (F.sub y x) (computeMetricsInterval F a b))
  else .float (F.sub y x)

/-- `_compute_int_delta`: the value left in `res`. -/
def computeIntDelta (a b : Metric) (x y : UInt64) : MetricValue :=
  if a.isTimedelta then
    if y < x then .float 0
    else .float (F.div (F.ofUInt64 (y - x)) (computeMetricsInterval F a b))
  else if y < x then .int 0
  else .int (y - x)

/-- `monikor_metric_compute_delta`: `a` is the stored metric, `b` the new
one; the result is a clone of `a` (its clock included) with the delta
bits cleared. `none` is the NULL of a type mismatch or of strings. -/
def metricComputeDelta (a b : Metric) : Option Metric :=
  let flags := a.flags &&& ~~~(metricDelta ||| metricTimedelta)
  match a.value, b.value with
  | .int x, .int y =>
      some { a with flags, value := computeIntDelta F a b x y }
  | .float x, .float y =>
      some { a with flags, value := computeFloatDelta F a b x y }
  | _, _ => none

/-- `monikor_metric_add`: the new contents of `dst`, or `none` when it
returns 1 and leaves `dst` alone. -/
def metricAdd (dst src : Metric) : Option Metric :=
  match dst.value, src.value with
  | .int x, .int y => some { dst with value := .int (x + y) }
  | .float x, .float y => some { dst with value := .float (F.add x y) }
  | _, _ => none

end Compute

-- ============================================== metric_store.c, matching

/-- `is_cached_metric`. -/
def isCachedMetric (metric cached : Metric) : Bool :=
  metric.id == cached.id && cached.name == metric.name
    && timecmp metric.clock cached.clock != 0

/-- `evict_delta_predicate`. -/
def evictDeltaPredicate (metric : Metric) (clock : Timeval) : Bool :=
  timecmp metric.clock clock < 0

/-- The condition of the `if` in `monikor_metric_store_push_aggregate`:
the sum left in the node's metric when the keys agree and the add goes
through. -/
def aggregatedSum (F : FloatOps) (metric node : Metric) : Option Metric :=
  if node.id == metric.id && node.name == metric.name then
    metricAdd F node metric
  else none

-- ================================================= what the values keep

theorem metricComputeDelta_isDelta {F : FloatOps} {a b r : Metric}
    (h : metricComputeDelta F a b = some r) : r.isDelta = false := by
  have hflags : r.flags = a.flags &&& ~~~(metricDelta ||| metricTimedelta) := by
    unfold metricComputeDelta at h
    split at h
    · cases h; rfl
    · cases h; rfl
    · cases h
  have hclear : ~~~(metricDelta ||| metricTimedelta) &&& metricDelta = 0 := by
    decide
  simp [Metric.isDelta, hflags, UInt8.and_assoc, hclear]

/-- A difference is computed between metrics of one type only. -/
theorem metricComputeDelta_type {F : FloatOps} {a b r : Metric}
    (h : metricComputeDelta F a b = some r) : a.type = b.type := by
  unfold metricComputeDelta at h
  split at h
  case h_1 ha hb => simp [Metric.type, ha, hb]
  case h_2 ha hb => simp [Metric.type, ha, hb]
  case h_3 => cases h

/-- There is a difference exactly between two numbers of one type. -/
theorem metricComputeDelta_eq_none {F : FloatOps} {a b : Metric} :
    metricComputeDelta F a b = none
      ↔ ¬ (a.type = b.type ∧ b.type ≠ .string) := by
  unfold metricComputeDelta Metric.type
  cases a.value <;> cases b.value <;> simp

/-- An in-place add changes no size the list counters track. -/
theorem metricNodeSize_aggregatedSum {F : FloatOps} {m n r : Metric}
    (h : aggregatedSum F m n = some r) :
    metricNodeSize r = metricNodeSize n := by
  unfold aggregatedSum at h
  split at h
  · unfold metricAdd at h
    split at h
    case h_1 hd _ => cases h; simp [metricNodeSize, hd]
    case h_2 hd _ => cases h; simp [metricNodeSize, hd]
    case h_3 => cases h
  · cases h

/-- A new delta metric that computes against a stored one takes as much
room in a list. -/
theorem metricNodeSize_baseline {F : FloatOps} {m stored r : Metric}
    (hc : isCachedMetric m stored = true)
    (h : metricComputeDelta F stored m = some r) :
    metricNodeSize m = metricNodeSize stored := by
  unfold isCachedMetric at hc
  simp only [Bool.and_eq_true, beq_iff_eq] at hc
  unfold metricComputeDelta at h
  split at h
  case h_1 hs hm => simp [metricNodeSize, hs, hm, hc.1.2]
  case h_2 hs hm => simp [metricNodeSize, hs, hm, hc.1.2]
  case h_3 => cases h

end Monikor
