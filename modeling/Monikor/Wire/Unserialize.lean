/-
The wire format's decoder: metric_list_unserialize.c.

The input is a block `mem`; every byte read goes through `load` or
`readString`, so a read outside the block is a fault. `allocs` is what
the coming allocations answer, and `junk` what the memory `malloc`
returns for the metric of each record holds where `id` will be:
`metric_from_serialized` does not set that field.
-/
import Monikor.Lib.Bytes
import Monikor.Wire.Serialize

namespace Monikor

open Bytes

-- ============================================================= strings

def CString.cons (b : UInt8) (hb : b ≠ 0) (s : CString) : CString :=
  ⟨b :: s.bytes, by simpa [Ne.symm hb] using s.nul_free⟩

/-- The characters at an offset, up to a NUL and at most `n` of them: the
bytes `strnlen` looks at, one by one. -/
def readString (mem : List UInt8) : Nat → Nat → Except Fault CString
  | _, 0 => .ok CString.nil
  | off, n + 1 =>
      match mem[off]? with
      | none => .error (.read off)
      | some b =>
          if hb : b = 0 then .ok CString.nil
          else (readString mem (off + 1) n).map (CString.cons b hb)

/-- What the coming allocations answer. -/
abbrev Allocs := Nat → Bool

def Allocs.malloc (a : Allocs) : Bool × Allocs := (a 0, fun n => a (n + 1))

/-- `strndup`. -/
def strndup (mem : List UInt8) (off n : Nat) (a : Allocs) :
    Except Fault (Option CString × Allocs) := do
  let s ← readString mem off n
  match a.malloc with
  | (false, a) => return (none, a)
  | (true, a) => return (some s, a)

-- ============================================== metric_list_unserialize.c

/-- `monikor_serialized_metric_hdr_t`. -/
structure SerializedMetricHdr where
  clockSec : UInt64
  clockUsec : UInt64
  nameSize : UInt16
  dataSize : UInt64
  type : UInt8
  flags : UInt8
deriving DecidableEq

/-- `monikor_serialized_metric_list_hdr_t`. -/
structure SerializedMetricListHdr where
  version : UInt8
  count : UInt16
  dataSize : UInt64
deriving DecidableEq

section Unserialize

variable (e : Endian) (mem : List UInt8)

/-- `ntohs(*((uint16_t *)(data + off)))`. -/
def loadU16 (off : Nat) : Except Fault UInt16 := do
  let bs ← load mem off 2
  return ntohs e (UInt16.ofNat (hostValue e bs))

/-- `ntohll(*((uint64_t *)(data + off)))`. -/
def loadU64 (off : Nat) : Except Fault UInt64 := do
  let bs ← load mem off 8
  return ntohll e (UInt64.ofNat (hostValue e bs))

/-- `data[off]`. -/
def loadU8 (off : Nat) : Except Fault UInt8 :=
  match mem[off]? with
  | none => .error (.read off)
  | some b => .ok b

/-- `metric_data_from_serialized`: the value, unless the type byte is
none of the enumeration's or `strndup` fails. -/
def metricDataFromSerialized (off : Nat) (dataSize : UInt64) (type : UInt8)
    (a : Allocs) : Except Fault (Option MetricValue × Allocs) := do
  if type = MetricType.integer.code then
    let v ← loadU64 e mem off
    return (some (.int v), a)
  else if type = MetricType.float.code then
    let bs ← load mem off 4
    return (some (.float (ntohf e (UInt32.ofNat (hostValue e bs)))), a)
  else if type = MetricType.string.code then
    let (s, a) ← strndup mem off dataSize.toNat a
    return (s.map .string, a)
  else return (none, a)

/-- The reads of `metric_from_serialized` that fill its header. -/
def metricHdrFromSerialized (off : Nat) : Except Fault SerializedMetricHdr := do
  let clockSec ← loadU64 e mem (off + metricHdrClockSecOff)
  let clockUsec ← loadU64 e mem (off + metricHdrClockUsecOff)
  let nameSize ← loadU16 e mem (off + metricHdrNameSizeOff)
  let dataSize ← loadU64 e mem (off + metricHdrDataSizeOff)
  let type ← loadU8 mem (off + metricHdrTypeOff)
  let flags ← loadU8 mem (off + metricHdrFlagsOff)
  return { clockSec, clockUsec, nameSize, dataSize, type, flags }

/-- `metric_from_serialized`: the metric, or NULL. -/
def metricFromSerialized (off : Nat) (junk : UInt16) (a : Allocs) :
    Except Fault (Option Metric × Allocs) :=
  match a.malloc with
  | (false, a) => .ok (none, a)
  | (true, a) => do
      let hdr ← metricHdrFromSerialized e mem off
      match ← strndup mem (off + serializedMetricHdrSize) hdr.nameSize.toNat a with
      | (none, a) => return (none, a)
      | (some name, a) =>
          match ← metricDataFromSerialized e mem
            (off + serializedMetricHdrSize + hdr.nameSize.toNat) hdr.dataSize
            hdr.type a with
          | (none, a) => return (none, a)
          | (some value, a) =>
              return (some
                { name
                  id := junk
                  clock := ⟨hdr.clockSec.toInt64, hdr.clockUsec.toInt64⟩
                  value
                  flags := hdr.flags }, a)

/-- `monikor_metric_list_header_unserialize`. -/
def metricListHeaderUnserialize : Except Fault SerializedMetricListHdr := do
  let version ← loadU8 mem metricListHdrVersionOff
  let count ← loadU16 e mem metricListHdrCountOff
  let dataSize ← loadU64 e mem metricListHdrDataSizeOff
  return { version, count, dataSize }

/-- What `monikor_metric_list_unserialize` leaves: its result, the list
(NULL when it cannot be allocated), how far it read, and the allocator. -/
structure Unserialized where
  count : Nat
  metrics : Option (List Metric)
  off : Nat
  allocs : Allocs

/-- The `for` loop of `monikor_metric_list_unserialize`, with `n` rounds
left. A metric whose node cannot be allocated is lost. -/
def unserializeLoop (dataSize : UInt64) (junk : Nat → UInt16) :
    Nat → Nat → Nat → List Metric → Allocs → Except Fault Unserialized
  | 0, i, off, metrics, a => .ok ⟨i, some metrics, off, a⟩
  | n + 1, i, off, metrics, a =>
      if off < dataSize.toNat then do
        match ← metricFromSerialized e mem off (junk i) a with
        | (none, a) => return ⟨i, some metrics, off, a⟩
        | (some m, a) =>
            let (ok, a) := a.malloc
            unserializeLoop dataSize junk n (i + 1)
              (off + (serializedMetricHdrSize + m.name.strlen
                + metricDataSize m))
              (if ok then metrics ++ [m] else metrics) a
      else .ok ⟨i, some metrics, off, a⟩

/-- `monikor_metric_list_unserialize`. -/
def metricListUnserialize (hdr : SerializedMetricListHdr)
    (junk : Nat → UInt16) (a : Allocs) : Except Fault Unserialized :=
  match a.malloc with
  | (false, a) => .ok ⟨0, none, 0, a⟩
  | (true, a) =>
      unserializeLoop e mem hdr.dataSize junk hdr.count.toNat 0 0 [] a

end Unserialize

end Monikor
