/-
The wire format's encoder: serialize.c (byte order) and
metric_list_serialize.c.

The host's byte order is the parameter `e`. The output block is what
`malloc` returned, with its previous contents; every write goes through
`store`, so a write outside the block is a fault and a byte never written
shows through. `size_t` values are reduced to 64 bits where the source
stores them.
-/
import Monikor.Lib.Bytes
import Monikor.Metric

namespace Monikor

open Bytes

-- =========================================================== serialize.c

section ByteOrder

variable (e : Endian)

/-- `htons`: the number whose bytes in memory are `x`, most significant
first. -/
def htons (x : UInt16) : UInt16 := UInt16.ofNat (hostValue e (beBytes 2 x.toNat))

/-- `htonl`. -/
def htonl (x : UInt32) : UInt32 := UInt32.ofNat (hostValue e (beBytes 4 x.toNat))

/-- `ntohs`. -/
def ntohs (x : UInt16) : UInt16 := UInt16.ofNat (beValue (hostBytes e 2 x.toNat))

/-- `ntohl`. -/
def ntohl (x : UInt32) : UInt32 := UInt32.ofNat (beValue (hostBytes e 4 x.toNat))

/-- `is_big_endian`: is the first byte of a 16-bit 1 zero? -/
def isBigEndian : Bool := (hostBytes e 2 1)[0]? == some 0

/-- `htonll`. -/
def htonll (x : UInt64) : UInt64 :=
  if isBigEndian e then x
  else
    (htonl e (x &&& 0xFFFFFFFF).toUInt32).toUInt64 <<< 32
      ||| (htonl e (x >>> 32).toUInt32).toUInt64

/-- `ntohll`. -/
def ntohll (x : UInt64) : UInt64 :=
  if isBigEndian e then x
  else
    (ntohl e (x &&& 0xFFFFFFFF).toUInt32).toUInt64 <<< 32
      ||| (ntohl e (x >>> 32).toUInt32).toUInt64

/-- `htonf`, on the bit pattern of the `float`. -/
def htonf (bits : UInt32) : UInt32 := htonl e bits

/-- `ntohf`, to the bit pattern of the `float`. -/
def ntohf (bits : UInt32) : UInt32 := ntohl e bits

end ByteOrder

-- =============================================================== metric.h

def metricHdrClockSecOff : Nat := 0
def metricHdrClockUsecOff : Nat := 8
def metricHdrNameSizeOff : Nat := 2 * 8
def metricHdrDataSizeOff : Nat := 2 * 8 + 2
def metricHdrTypeOff : Nat := 2 * 8 + 2 + 8
def metricHdrFlagsOff : Nat := 2 * 8 + 2 + 8 + 1

/-- `SERIALIZED_METRIC_HDR_SIZE`. -/
def serializedMetricHdrSize : Nat := 2 * 8 + 2 + 8 + 2 * 1

def metricSerializerVersion : UInt8 := 1
def metricListHdrVersionOff : Nat := 0
def metricListHdrCountOff : Nat := 1
def metricListHdrDataSizeOff : Nat := 1 + 2

/-- `SERIALIZED_METRIC_LIST_HDR_SIZE`. -/
def serializedMetricListHdrSize : Nat := 1 + 2 + 8

-- ================================================ metric_list_serialize.c

/-- `serialized_list_size`, before it is reduced to a `size_t`. -/
def serializedListSize (metrics : List Metric) : Nat :=
  (metrics.map fun m =>
    metricDataSize m + m.name.strlen + serializedMetricHdrSize).sum
    + serializedMetricListHdrSize

section Serialize

variable (e : Endian)

/-- `serialize_metric_name_and_data`; both `strncpy` calls copy exactly
the characters. -/
def serializeMetricNameAndData (buf : List UInt8) (off : Nat) (m : Metric) :
    Except Fault (List UInt8) := do
  let buf ← store buf off m.name.bytes
  let off := off + m.name.strlen
  match m.value with
  | .int v => store buf off (hostBytes e 8 (htonll e v).toNat)
  | .float bits => store buf off (hostBytes e 4 (htonf e bits).toNat)
  | .string s => store buf off s.bytes

/-- `serialize_metric`: the number of bytes taken, and the block. -/
def serializeMetric (buf : List UInt8) (off : Nat) (m : Metric) :
    Except Fault (Nat × List UInt8) := do
  let buf ← store buf (off + metricHdrClockSecOff)
    (hostBytes e 8 (htonll e m.clock.sec.toUInt64).toNat)
  let buf ← store buf (off + metricHdrClockUsecOff)
    (hostBytes e 8 (htonll e m.clock.usec.toUInt64).toNat)
  let buf ← store buf (off + metricHdrNameSizeOff)
    (hostBytes e 2 (htons e (UInt16.ofNat m.name.strlen)).toNat)
  let buf ← store buf (off + metricHdrDataSizeOff)
    (hostBytes e 8 (htonll e (UInt64.ofNat (metricDataSize m))).toNat)
  let buf ← store buf (off + metricHdrTypeOff) [m.type.code]
  let buf ← store buf (off + metricHdrFlagsOff) [m.flags]
  let buf ← serializeMetricNameAndData e buf (off + serializedMetricHdrSize) m
  return (metricDataSize m + m.name.strlen + serializedMetricHdrSize, buf)

/-- `serialize_metric_list_header`. -/
def serializeMetricListHeader (buf : List UInt8) (metrics : List Metric)
    (totalLength : UInt64) : Except Fault (Nat × List UInt8) := do
  let buf ← store buf metricListHdrVersionOff [metricSerializerVersion]
  let buf ← store buf metricListHdrCountOff
    (hostBytes e 2 (htons e (UInt16.ofNat metrics.length)).toNat)
  let buf ← store buf metricListHdrDataSizeOff
    (hostBytes e 8 (htonll e
      (totalLength - UInt64.ofNat serializedMetricListHdrSize)).toNat)
  return (serializedMetricListHdrSize, buf)

/-- The `for` loop of `monikor_metric_list_serialize`. -/
def serializeLoop : List UInt8 → Nat → List Metric → Except Fault (List UInt8)
  | buf, _, [] => .ok buf
  | buf, off, m :: metrics => do
      let (n, buf) ← serializeMetric e buf off m
      serializeLoop buf (off + n) metrics

/-- `monikor_metric_list_serialize`. `block` is what `malloc` returns:
nothing, or memory with its previous contents. -/
def metricListSerialize (block : Option (Nat → UInt8))
    (metrics : List Metric) :
    Except Fault (Int × List UInt8) := do
  let serializedLength := UInt64.ofNat (serializedListSize metrics)
  match block with
  | none => return (1, [])
  | some junk =>
      let buf := (List.range serializedLength.toNat).map junk
      let (n, buf) ← serializeMetricListHeader e buf metrics serializedLength
      let buf ← serializeLoop e buf n metrics
      return (0, buf)

end Serialize

end Monikor
