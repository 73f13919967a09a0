/-
The wire format itself, as bytes: what a metric and a list of metrics are
on the wire, independently of the code that writes and reads them and of
the machine's byte order. Every number is big-endian.
-/
import Monikor.Wire.Unserialize

namespace Monikor

open Bytes

/-- A value on the wire. -/
def valueBytes : MetricValue → List UInt8
  | .int v => beBytes 8 v.toNat
  | .float bits => beBytes 4 bits.toNat
  | .string s => s.bytes

/-- The fixed-size part of a metric. -/
def headerBytes (m : Metric) : List UInt8 :=
  beBytes 8 m.clock.sec.toUInt64.toNat ++ beBytes 8 m.clock.usec.toUInt64.toNat
    ++ beBytes 2 m.name.strlen ++ beBytes 8 (metricDataSize m)
    ++ [m.type.code] ++ [m.flags]

/-- A metric on the wire. -/
def metricBytes (m : Metric) : List UInt8 :=
  headerBytes m ++ m.name.bytes ++ valueBytes m.value

/-- The records of a list, one behind the other. -/
def recordsBytes (metrics : List Metric) : List UInt8 :=
  metrics.flatMap metricBytes

/-- The header of a list with the given records. -/
def listHeaderBytes (metrics : List Metric) : List UInt8 :=
  [metricSerializerVersion] ++ beBytes 2 metrics.length
    ++ beBytes 8 (recordsBytes metrics).length

/-- A list of metrics on the wire. -/
def listBytes (metrics : List Metric) : List UInt8 :=
  listHeaderBytes metrics ++ recordsBytes metrics

/-- The metrics of a list lie in memory together: the sum of their node
sizes is a `size_t`. -/
def InMemory (metrics : List Metric) : Prop :=
  (metrics.map metricNodeSize).sum < 2 ^ 64

/-- What the 16-bit fields of the format can hold. -/
structure WireLimits (metrics : List Metric) : Prop where
  count : metrics.length ≤ 65535
  names : ∀ m ∈ metrics, m.name.strlen ≤ 65535
  memory : InMemory metrics

/-- A list with a metric of each type. -/
def oneOfEach : List Metric :=
  [⟨CString.a, 0, ⟨1, 2⟩, .int 5, 0⟩,
    ⟨⟨[97, 98], by decide⟩, 0, ⟨3, 4⟩, .float 0x3F800000, metricTimedelta⟩,
    ⟨⟨[98], by decide⟩, 0, ⟨5, 6⟩, .string ⟨[99, 100], by decide⟩,
      metricDelta⟩]

theorem oneOfEach_limits : WireLimits oneOfEach :=
  ⟨by decide, by decide, by unfold InMemory; decide⟩

variable {m : Metric} {metrics : List Metric}

theorem valueBytes_length (m : Metric) :
    (valueBytes m.value).length = metricDataSize m := by
  unfold valueBytes metricDataSize
  cases m.value with
  | int v => simp
  | float bits => simp
  | string s => rfl

theorem headerBytes_length (m : Metric) :
    (headerBytes m).length = serializedMetricHdrSize := by
  simp [headerBytes, serializedMetricHdrSize]

theorem metricBytes_length (m : Metric) :
    (metricBytes m).length
      = serializedMetricHdrSize + m.name.strlen + metricDataSize m := by
  simp [metricBytes, headerBytes_length, valueBytes_length, CString.strlen,
    Nat.add_assoc]

theorem listHeaderBytes_length (metrics : List Metric) :
    (listHeaderBytes metrics).length = serializedMetricListHdrSize := by
  simp [listHeaderBytes, serializedMetricListHdrSize]

/-- `serialized_list_size` is the size of the format. -/
theorem serializedListSize_eq (metrics : List Metric) :
    serializedListSize metrics
      = serializedMetricListHdrSize + (recordsBytes metrics).length := by
  unfold serializedListSize
  rw [Nat.add_comm]
  congr 1
  induction metrics with
  | nil => rfl
  | cons m metrics ih =>
      unfold recordsBytes at ih ⊢
      simp only [List.flatMap_cons, List.length_append, List.map_cons,
        List.sum_cons, metricBytes_length] at ih ⊢
      omega

/-- A metric takes more room in memory than on the wire. -/
theorem metricBytes_length_lt (m : Metric) :
    (metricBytes m).length + 11 ≤ metricNodeSize m := by
  rw [metricBytes_length]
  unfold metricDataSize metricNodeSize serializedMetricHdrSize sizeofNode
    sizeofMetric
  cases m.value with
  | int v => simp only; omega
  | float bits => simp only; omega
  | string s => simp only; omega

/-- A list in memory has a size on the wire that is a `size_t`. -/
theorem InMemory.serializedListSize_lt (h : InMemory metrics) :
    serializedListSize metrics < 2 ^ 64 := by
  have hle : serializedMetricListHdrSize + (recordsBytes metrics).length
      ≤ serializedMetricListHdrSize ∨
      serializedMetricListHdrSize + (recordsBytes metrics).length
        ≤ (metrics.map metricNodeSize).sum := by
    unfold serializedMetricListHdrSize
    clear h
    induction metrics with
    | nil => exact .inl (Nat.le_refl _)
    | cons m metrics ih =>
        have hm := metricBytes_length_lt m
        unfold recordsBytes at ih ⊢
        simp only [List.flatMap_cons, List.length_append, List.map_cons,
          List.sum_cons] at ih ⊢
        omega
  rw [serializedListSize_eq]
  unfold InMemory at h
  unfold serializedMetricListHdrSize at hle ⊢
  omega

end Monikor
