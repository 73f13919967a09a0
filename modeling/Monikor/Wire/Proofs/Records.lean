/-
Records as their own headers declare them, and what is read of one.

A `Record` is a header with exactly the name and data bytes it declares,
arbitrary ones: the name may hold a NUL, and a number may have more data
than the decoder looks at. `recordAt_record` says what metric such a
record describes, wherever it lies in the buffer; the records the encoder
writes are a case of it.
-/
import Monikor.Wire.Proofs.Rounds

namespace Monikor

open Bytes

variable {mem : List UInt8} {off : Nat}

-- ================================================================= fields

theorem window_drop {pre bs rest : List UInt8} {k n : Nat}
    (h : mem.drop off = pre ++ (bs ++ rest)) (hk : k = pre.length)
    (hn : n = bs.length) : window mem (off + k) n = bs := by
  subst hk hn
  unfold window
  rw [← List.drop_drop, h, List.drop_left, List.take_left]

theorem u64At_drop (pre : List UInt8) {rest : List UInt8} {k v : Nat}
    (h : mem.drop off = pre ++ (beBytes 8 v ++ rest)) (hk : k = pre.length) :
    u64At mem (off + k) = UInt64.ofNat v := by
  unfold u64At
  rw [window_drop h hk (by simp), beValue_beBytes]
  apply UInt64.toNat_inj.mp
  simp

theorem u16At_drop (pre : List UInt8) {rest : List UInt8} {k v : Nat}
    (h : mem.drop off = pre ++ (beBytes 2 v ++ rest)) (hk : k = pre.length) :
    u16At mem (off + k) = UInt16.ofNat v := by
  unfold u16At
  rw [window_drop h hk (by simp), beValue_beBytes]
  apply UInt16.toNat_inj.mp
  simp

theorem u8At_drop (pre : List UInt8) {rest : List UInt8} {k : Nat} {b : UInt8}
    (h : mem.drop off = pre ++ (b :: rest)) (hk : k = pre.length) :
    u8At mem (off + k) = b := by
  subst hk
  have hget : mem[off + pre.length]? = some b := by
    rw [← List.getElem?_drop, h, List.getElem?_append_right (Nat.le_refl _)]
    simp
  unfold u8At
  rw [hget, Option.getD_some]

/-- A field at the start of what lies behind an offset. -/
theorem window_take {bs rest : List UInt8} {n : Nat}
    (h : mem.drop off = bs ++ rest) (hn : n ≤ bs.length) :
    window mem off n = bs.take n := by
  unfold window
  rw [h, List.take_append_of_le_length hn]

-- ================================================================ C strings

/-- A string read from the buffer is what C reads of the field. -/
theorem stringAt_eq_cString (mem : List UInt8) (off n : Nat) :
    stringAt mem off n = cString (window mem off n) := rfl

theorem strlen_cString_le (bs : List UInt8) :
    (cString bs).strlen ≤ bs.length :=
  (List.takeWhile_prefix _).length_le

/-- The string takes the whole field if and only if there is no NUL. -/
theorem strlen_cString_eq {bs : List UInt8} :
    (cString bs).strlen = bs.length ↔ (0 : UInt8) ∉ bs := by
  constructor
  · intro h hmem
    have heq : (cString bs).bytes = bs :=
      (List.takeWhile_prefix _).eq_of_length h
    exact (cString bs).nul_free (heq.symm ▸ hmem)
  · intro h
    exact congrArg CString.strlen (cString_bytes ⟨bs, h⟩)

-- ================================================================= records

/-- A record whose header declares its own name and data. -/
structure Record where
  clockSec : UInt64
  clockUsec : UInt64
  type : MetricType
  flags : UInt8
  name : List UInt8
  data : List UInt8
  name_lt : name.length < 2 ^ 16
  data_lt : data.length < 2 ^ 64
  integer_le : type = .integer → 8 ≤ data.length
  float_le : type = .float → 4 ≤ data.length

namespace Record

variable (r : Record)

def bytes : List UInt8 :=
  beBytes 8 r.clockSec.toNat ++ beBytes 8 r.clockUsec.toNat
    ++ beBytes 2 r.name.length ++ beBytes 8 r.data.length
    ++ [r.type.code] ++ [r.flags] ++ r.name ++ r.data

def size : Nat := serializedMetricHdrSize + r.name.length + r.data.length

/-- The value: the first bytes of the data for a number, its characters
for a string. -/
def value : MetricValue :=
  match r.type with
  | .integer => .int (UInt64.ofNat (beValue (r.data.take 8)))
  | .float => .float (UInt32.ofNat (beValue (r.data.take 4)))
  | .string => .string (cString r.data)

/-- The metric a record describes. -/
def metric (id : UInt16) : Metric where
  name := cString r.name
  id := id
  clock := ⟨r.clockSec.toInt64, r.clockUsec.toInt64⟩
  value := r.value
  flags := r.flags

theorem bytes_length : r.bytes.length = r.size := by
  simp [bytes, size, serializedMetricHdrSize]
  omega

theorem metric_type (id : UInt16) : (r.metric id).type = r.type := by
  unfold Metric.type metric value
  cases r.type <;> rfl

/-- A record's bytes, in the order its fields are read. -/
theorem bytes_append (rest : List UInt8) :
    r.bytes ++ rest
      = beBytes 8 r.clockSec.toNat ++ (beBytes 8 r.clockUsec.toNat
        ++ (beBytes 2 r.name.length ++ (beBytes 8 r.data.length
        ++ (r.type.code :: r.flags :: (r.name ++ (r.data ++ rest)))))) := by
  simp [bytes]

end Record

variable {r : Record} {rest : List UInt8}

/-- The header and the name of a record are read back, and the data lies
behind them. -/
theorem headerAt_record (h : mem.drop off = r.bytes ++ rest) :
    headerAt mem off
        = { clockSec := r.clockSec
            clockUsec := r.clockUsec
            nameSize := UInt16.ofNat r.name.length
            dataSize := UInt64.ofNat r.data.length
            type := r.type.code
            flags := r.flags }
      ∧ window mem (off + 28) r.name.length = r.name
      ∧ mem.drop (off + 28 + r.name.length) = r.data ++ rest := by
  rw [r.bytes_append] at h
  have hsec := u64At_drop [] (k := 0) h rfl
  have husec := u64At_drop _ (k := 8) h (by simp)
  rw [← List.append_assoc] at h
  have hname := u16At_drop _ (k := 16) h (by simp)
  rw [← List.append_assoc] at h
  have hdata := u64At_drop _ (k := 18) h (by simp)
  rw [← List.append_assoc] at h
  have htype := u8At_drop _ (k := 26) h (by simp)
  rw [List.append_cons] at h
  have hflags := u8At_drop _ (k := 27) h (by simp)
  rw [List.append_cons] at h
  have hwindow := window_drop (k := 28) h (by simp) rfl
  rw [← List.append_assoc] at h
  refine ⟨?_, hwindow, ?_⟩
  · unfold headerAt
    rw [husec, hname, hdata, htype, hflags, show u64At mem off = _ from hsec,
      UInt64.ofNat_toNat, UInt64.ofNat_toNat]
  · have := congrArg (List.drop (28 + r.name.length)) h
    rw [List.drop_drop, List.drop_left' (by simp; omega)] at this
    rwa [Nat.add_assoc]

/-- The value of a record is read inside the buffer. -/
theorem valueAt_record (h : mem.drop off = r.data ++ rest) :
    ValueInside mem off (UInt64.ofNat r.data.length) r.type.code
      ∧ valueAt mem off (UInt64.ofNat r.data.length) r.type.code
        = some r.value := by
  have hlen := congrArg List.length h
  have hnat : (UInt64.ofNat r.data.length).toNat = r.data.length :=
    UInt64.toNat_ofNat_of_lt' r.data_lt
  rw [List.length_drop, List.length_append] at hlen
  unfold valueAt ValueInside Record.value
  rw [hnat]
  cases htype : r.type with
  | integer =>
      have hle := r.integer_le htype
      rw [if_pos rfl, u64At, window_take h hle]
      exact ⟨⟨fun _ => by omega, fun ht => absurd ht (by decide),
        fun ht => absurd ht (by decide)⟩, rfl⟩
  | float =>
      have hle := r.float_le htype
      rw [if_neg (by decide), if_pos rfl, u32At, window_take h hle]
      exact ⟨⟨fun ht => absurd ht (by decide), fun _ => by omega,
        fun ht => absurd ht (by decide)⟩, rfl⟩
  | string =>
      have hread : stringAt mem off r.data.length = cString r.data := by
        rw [stringAt_eq_cString, window_take h (Nat.le_refl _), List.take_length]
      rw [if_neg (by decide), if_neg (by decide), if_pos rfl, hread]
      exact ⟨⟨fun ht => absurd ht (by decide), fun ht => absurd ht (by decide),
        fun _ => .inl (by omega)⟩, rfl⟩

/-- A record is read inside the buffer, and describes its metric. -/
theorem recordAt_record (id : UInt16) (h : mem.drop off = r.bytes ++ rest) :
    RecordInside mem off ∧ recordAt mem off id = some (r.metric id) := by
  obtain ⟨hhdr, hname, hdrop⟩ := headerAt_record h
  obtain ⟨hin, hv⟩ := valueAt_record hdrop
  have hlen := congrArg List.length h
  rw [List.length_drop, List.length_append, r.bytes_length] at hlen
  unfold Record.size serializedMetricHdrSize at hlen
  have hnat : (UInt16.ofNat r.name.length).toNat = r.name.length :=
    UInt16.toNat_ofNat_of_lt' r.name_lt
  constructor
  · refine ⟨by omega, ?_, ?_⟩
    · rw [hhdr]
      simp only [hnat]
      exact .inl (by omega)
    · rw [hhdr]
      simpa only [hnat] using hin
  · have hcut : stringAt mem (off + 28) r.name.length
        = cString r.name := by
      rw [stringAt_eq_cString, hname]
    unfold recordAt
    simp only [hhdr, hnat, hcut, hv, Option.map_some]
    rfl

end Monikor
