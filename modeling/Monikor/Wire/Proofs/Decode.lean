/-
What the decoder reads, and from where.

Each reading function of metric_list_unserialize.c is the same pure
reading of the block (`u64At`, `stringAt`, `valueAt`, `recordAt`)
together with the condition under which its reads stay inside
(`StringInside`, `ValueInside`, `RecordInside`): inside, the function
answers the reading; otherwise it faults. The byte order drops out here:
every number is read big-endian on either host.
-/
import Mathlib.Data.List.TakeWhile
import Monikor.Wire.Proofs.Encode

namespace Monikor

open Bytes

variable {e : Endian} {mem : List UInt8} {off n : Nat} {a : Allocs}

-- ========================================================== pure readings

/-- The bytes of a field. -/
def window (mem : List UInt8) (off n : Nat) : List UInt8 :=
  (mem.drop off).take n

/-- The characters at an offset, up to a NUL and at most `n`. -/
def stringAt (mem : List UInt8) (off n : Nat) : CString where
  bytes := (window mem off n).takeWhile (· ≠ 0)
  nul_free := by
    intro h
    simpa using List.mem_takeWhile_imp h

def u64At (mem : List UInt8) (off : Nat) : UInt64 :=
  UInt64.ofNat (beValue (window mem off 8))

def u32At (mem : List UInt8) (off : Nat) : UInt32 :=
  UInt32.ofNat (beValue (window mem off 4))

def u16At (mem : List UInt8) (off : Nat) : UInt16 :=
  UInt16.ofNat (beValue (window mem off 2))

def u8At (mem : List UInt8) (off : Nat) : UInt8 := mem[off]?.getD 0

/-- The header of the record at an offset. -/
def headerAt (mem : List UInt8) (off : Nat) : SerializedMetricHdr where
  clockSec := u64At mem off
  clockUsec := u64At mem (off + 8)
  nameSize := u16At mem (off + 16)
  dataSize := u64At mem (off + 18)
  type := u8At mem (off + 26)
  flags := u8At mem (off + 27)

/-- The value at an offset, for the type and size its header gives. -/
def valueAt (mem : List UInt8) (off : Nat) (dataSize : UInt64)
    (type : UInt8) : Option MetricValue :=
  if type = MetricType.integer.code then some (.int (u64At mem off))
  else if type = MetricType.float.code then some (.float (u32At mem off))
  else if type = MetricType.string.code then
    some (.string (stringAt mem off dataSize.toNat))
  else none

/-- The metric the record at an offset describes. -/
def recordAt (mem : List UInt8) (off : Nat) (junk : UInt16) : Option Metric :=
  let hdr := headerAt mem off
  (valueAt mem (off + 28 + hdr.nameSize.toNat) hdr.dataSize hdr.type).map
    fun value =>
      { name := stringAt mem (off + 28) hdr.nameSize.toNat
        id := junk
        clock := ⟨hdr.clockSec.toInt64, hdr.clockUsec.toInt64⟩
        value
        flags := hdr.flags }

-- ================================================== reads inside the block

/-- A bounded string read meets a NUL or its bound inside the block. -/
def StringInside (mem : List UInt8) (off n : Nat) : Prop :=
  n ≤ mem.length - off ∨ 0 ∈ window mem off n

/-- The read of a value of the given type stays inside the block. -/
def ValueInside (mem : List UInt8) (off : Nat) (dataSize : UInt64)
    (type : UInt8) : Prop :=
  (type = MetricType.integer.code → off + 8 ≤ mem.length)
    ∧ (type = MetricType.float.code → off + 4 ≤ mem.length)
    ∧ (type = MetricType.string.code → StringInside mem off dataSize.toNat)

/-- Every read of the record at an offset stays inside the block: its 28
header bytes, its name and its value. -/
def RecordInside (mem : List UInt8) (off : Nat) : Prop :=
  off + 28 ≤ mem.length
    ∧ StringInside mem (off + 28) (headerAt mem off).nameSize.toNat
    ∧ ValueInside mem (off + 28 + (headerAt mem off).nameSize.toNat)
        (headerAt mem off).dataSize (headerAt mem off).type

instance : Decidable (StringInside mem off n) := instDecidableOr

instance (dataSize : UInt64) (type : UInt8) :
    Decidable (ValueInside mem off dataSize type) := instDecidableAnd

instance : Decidable (RecordInside mem off) := instDecidableAnd

-- =========================================== the reads, one function each

private theorem bind_eq_ok {α β : Type} {x : Except Fault α}
    {f : α → Except Fault β} {b : β} (h : x >>= f = .ok b) :
    ∃ a, x = .ok a ∧ f a = .ok b := by
  cases x with
  | error _ => cases h
  | ok a => exact ⟨a, rfl, h⟩

theorem readString_eq (mem : List UInt8) (n off : Nat) :
    (StringInside mem off n → readString mem off n = .ok (stringAt mem off n))
      ∧ (¬ StringInside mem off n →
          ∃ f, readString mem off n = .error f) := by
  induction n generalizing off with
  | zero =>
      refine ⟨fun _ => ?_, fun h => absurd (.inl (Nat.zero_le _)) h⟩
      exact congrArg _ (CString.ext_bytes (by
        simp [CString.nil, stringAt, window]))
  | succ n ih =>
      cases hb : mem[off]? with
      | none =>
          have hle := List.getElem?_eq_none_iff.mp hb
          have hout : ¬ StringInside mem off (n + 1) := by
            rintro (h | h)
            · omega
            · simp [window, List.drop_eq_nil_of_le hle] at h
          exact ⟨fun h => absurd h hout,
            fun _ => ⟨.read off, by rw [readString, hb]⟩⟩
      | some b =>
          obtain ⟨hlt, rfl⟩ := List.getElem?_eq_some_iff.mp hb
          have hwin : window mem off (n + 1)
              = mem[off] :: window mem (off + 1) n := by
            unfold window
            rw [List.drop_eq_getElem_cons hlt]
            rfl
          by_cases h0 : mem[off] = 0
          · have hin : StringInside mem off (n + 1) :=
              .inr (by rw [hwin, h0]; exact List.mem_cons_self ..)
            refine ⟨fun _ => ?_, fun h => absurd hin h⟩
            unfold readString
            rw [hb]
            simp only [dif_pos h0]
            exact congrArg _ (CString.ext_bytes (by
              simp [CString.nil, stringAt, hwin, h0]))
          · have hiff : StringInside mem off (n + 1)
                ↔ StringInside mem (off + 1) n := by
              have hroom : n + 1 ≤ mem.length - off
                  ↔ n ≤ mem.length - (off + 1) := by omega
              unfold StringInside
              simp only [hwin, hroom, List.mem_cons, Ne.symm h0, false_or]
            have hread : readString mem off (n + 1)
                = (readString mem (off + 1) n).map
                    (CString.cons mem[off] h0) := by
              rw [readString, hb]
              simp only [dif_neg h0]
            obtain ⟨hok, hfault⟩ := ih (off + 1)
            refine ⟨fun h => ?_, fun h => ?_⟩
            · rw [hread, hok (hiff.mp h)]
              exact congrArg _ (CString.ext_bytes (by
                simp [CString.cons, stringAt, hwin, h0]))
            · obtain ⟨f, hf⟩ := hfault fun h' => h (hiff.mpr h')
              exact ⟨f, by rw [hread, hf]; rfl⟩

theorem loadU8_eq (h : off < mem.length) :
    loadU8 mem off = .ok (u8At mem off) := by
  simp [loadU8, u8At, List.getElem?_eq_getElem h]

theorem loadU8_lt {b : UInt8} (h : loadU8 mem off = .ok b) :
    off < mem.length := by
  by_contra hge
  unfold loadU8 at h
  rw [List.getElem?_eq_none (Nat.not_lt.mp hge)] at h
  cases h

theorem loadU16_eq (h : off + 2 ≤ mem.length) :
    loadU16 e mem off = .ok (u16At mem off) := by
  have hlen : (window mem off 2).length = 2 := by
    unfold window
    simp only [List.length_take, List.length_drop]
    omega
  unfold loadU16
  rw [load_ok h]
  exact congrArg _ (ntohs_hostValue e hlen)

theorem loadU64_eq (h : off + 8 ≤ mem.length) :
    loadU64 e mem off = .ok (u64At mem off) := by
  have hlen : (window mem off 8).length = 8 := by
    unfold window
    simp only [List.length_take, List.length_drop]
    omega
  unfold loadU64
  rw [load_ok h]
  exact congrArg _ (ntohll_hostValue e hlen)

theorem loadU64_fault (h : ¬ off + 8 ≤ mem.length) :
    ∃ f, loadU64 e mem off = .error f :=
  ⟨_, by rw [loadU64, load, if_neg h]; rfl⟩

/-- The header reads stay inside if and only if all 28 bytes are. -/
theorem metricHdrFromSerialized_eq (e : Endian) (mem : List UInt8)
    (off : Nat) :
    (off + 28 ≤ mem.length →
        metricHdrFromSerialized e mem off = .ok (headerAt mem off))
      ∧ (¬ off + 28 ≤ mem.length →
          ∃ f, metricHdrFromSerialized e mem off = .error f) := by
  constructor
  · intro h
    have h₁ : loadU64 e mem (off + metricHdrClockSecOff)
        = .ok (u64At mem off) :=
      loadU64_eq (show off + 0 + 8 ≤ mem.length by omega)
    have h₂ := loadU64_eq (e := e)
      (show off + 8 + 8 ≤ mem.length by omega)
    have h₃ := loadU16_eq (e := e)
      (show off + 16 + 2 ≤ mem.length by omega)
    have h₄ := loadU64_eq (e := e)
      (show off + 18 + 8 ≤ mem.length by omega)
    have h₅ := loadU8_eq (show off + 26 < mem.length by omega)
    have h₆ := loadU8_eq (show off + 27 < mem.length by omega)
    unfold metricHdrFromSerialized
    simp only [metricHdrClockUsecOff, metricHdrNameSizeOff,
      metricHdrDataSizeOff, metricHdrTypeOff, metricHdrFlagsOff, h₁, h₂, h₃,
      h₄, h₅, h₆, bind, Except.bind]
    rfl
  · intro h
    cases hres : metricHdrFromSerialized e mem off with
    | error f => exact ⟨f, rfl⟩
    | ok hdr =>
        -- the flags byte is the last of the header, and it was read
        obtain ⟨_, -, hres⟩ := bind_eq_ok hres
        obtain ⟨_, -, hres⟩ := bind_eq_ok hres
        obtain ⟨_, -, hres⟩ := bind_eq_ok hres
        obtain ⟨_, -, hres⟩ := bind_eq_ok hres
        obtain ⟨_, -, hres⟩ := bind_eq_ok hres
        obtain ⟨flags, hflags, -⟩ := bind_eq_ok hres
        have hlt := loadU8_lt hflags
        unfold metricHdrFlagsOff at hlt
        omega

/-- An allocator that never fails. -/
def okAllocs : Allocs := fun _ => true

theorem malloc_okAllocs : okAllocs.malloc = (true, okAllocs) := rfl

theorem strndup_eq (mem : List UInt8) (off n : Nat) (a : Allocs) :
    (StringInside mem off n → strndup mem off n a
        = .ok (if a.malloc.1 then some (stringAt mem off n) else none,
          a.malloc.2))
      ∧ (¬ StringInside mem off n → ∃ f, strndup mem off n a = .error f) := by
  obtain ⟨hok, hfault⟩ := readString_eq mem n off
  constructor
  · intro h
    unfold strndup
    rw [hok h]
    cases hm : a.malloc with
    | mk ok a' => cases ok <;> rfl
  · intro h
    obtain ⟨f, hf⟩ := hfault h
    exact ⟨f, by rw [strndup, hf]; rfl⟩

/-- `metric_data_from_serialized`, its reads staying inside. -/
theorem metricDataFromSerialized_inside {dataSize : UInt64} {type : UInt8}
    (e : Endian) (a : Allocs) (h : ValueInside mem off dataSize type) :
    ∃ o a', metricDataFromSerialized e mem off dataSize type a = .ok (o, a')
      ∧ (o = none ∨ o = valueAt mem off dataSize type)
      ∧ (a = okAllocs →
          o = valueAt mem off dataSize type ∧ a' = okAllocs) := by
  obtain ⟨hint, hfloat, hstring⟩ := h
  unfold metricDataFromSerialized valueAt
  split
  case isTrue ht =>
      rw [loadU64_eq (hint ht)]
      exact ⟨_, a, rfl, .inr rfl, fun ha => ⟨rfl, ha⟩⟩
  case isFalse =>
  split
  case isTrue ht =>
      have hin := hfloat ht
      have hlen : (window mem off 4).length = 4 := by
        unfold window
        simp only [List.length_take, List.length_drop]
        omega
      rw [load_ok hin]
      refine ⟨some (.float (u32At mem off)), a, ?_, .inr rfl,
        fun ha => ⟨rfl, ha⟩⟩
      simp only [bind, Except.bind, pure, Except.pure, ntohf]
      rw [← window, ntohl_hostValue e hlen, u32At]
  case isFalse =>
  split
  case isTrue ht =>
      rw [(strndup_eq mem off _ a).1 (hstring ht)]
      refine ⟨_, _, rfl, ?_, ?_⟩
      · cases a.malloc.1 with
        | false => exact .inl rfl
        | true => exact .inr rfl
      · intro heq
        subst heq
        exact ⟨rfl, rfl⟩
  case isFalse => exact ⟨none, a, rfl, .inl rfl, fun ha => ⟨rfl, ha⟩⟩

theorem metricDataFromSerialized_fault {dataSize : UInt64} {type : UInt8}
    (e : Endian) (a : Allocs) (h : ¬ ValueInside mem off dataSize type) :
    ∃ f, metricDataFromSerialized e mem off dataSize type a = .error f := by
  unfold metricDataFromSerialized
  split
  case isTrue ht =>
      have hout : ¬ off + 8 ≤ mem.length := fun hin =>
        h ⟨fun _ => hin, by simp [ht, MetricType.code],
          by simp [ht, MetricType.code]⟩
      obtain ⟨f, hf⟩ := loadU64_fault (e := e) hout
      exact ⟨f, by rw [hf]; rfl⟩
  case isFalse hni =>
  split
  case isTrue ht =>
      have hout : ¬ off + 4 ≤ mem.length := fun hin =>
        h ⟨fun hi => absurd hi hni, fun _ => hin,
          by simp [ht, MetricType.code]⟩
      exact ⟨_, by rw [load, if_neg hout]; rfl⟩
  case isFalse hnf =>
  split
  case isTrue ht =>
      obtain ⟨f, hf⟩ := (strndup_eq mem off dataSize.toNat a).2
        fun hin => h ⟨fun hi => absurd hi hni, fun hi => absurd hi hnf,
          fun _ => hin⟩
      exact ⟨f, by rw [hf]; rfl⟩
  case isFalse hns =>
      exact absurd ⟨fun hi => absurd hi hni, fun hi => absurd hi hnf,
        fun hi => absurd hi hns⟩ h

/-- A record whose reads stay inside: NULL or the metric it describes,
and the metric when allocations succeed. -/
theorem metricFromSerialized_inside (e : Endian) (junk : UInt16) (a : Allocs)
    (h : RecordInside mem off) :
    ∃ o a', metricFromSerialized e mem off junk a = .ok (o, a')
      ∧ (o = none ∨ o = recordAt mem off junk)
      ∧ (a = okAllocs → o = recordAt mem off junk ∧ a' = okAllocs) := by
  obtain ⟨hhdr, hname, hvalue⟩ := h
  have hread := (metricHdrFromSerialized_eq e mem off).1 hhdr
  unfold metricFromSerialized
  cases hm : a.malloc with
  | mk ok₁ a₁ =>
  cases ok₁ with
  | false =>
      refine ⟨none, a₁, rfl, .inl rfl, ?_⟩
      intro heq
      subst heq
      cases hm
  | true =>
  have hdup := (strndup_eq mem (off + serializedMetricHdrSize) _ a₁).1 hname
  simp only [hread, bind, Except.bind, hdup]
  cases hm₁ : a₁.malloc with
  | mk ok₂ a₂ =>
  cases ok₂ with
  | false =>
      refine ⟨none, a₂, rfl, .inl rfl, ?_⟩
      intro heq
      subst heq
      cases hm
      cases hm₁
  | true =>
      obtain ⟨o, a₃, hdata, ho, hall⟩ :=
        metricDataFromSerialized_inside e a₂ hvalue
      simp only [if_true, serializedMetricHdrSize, hdata, recordAt]
      cases o with
      | none =>
          refine ⟨none, a₃, rfl, .inl rfl, ?_⟩
          intro heq
          subst heq
          cases hm
          cases hm₁
          obtain ⟨hnone, ha₃⟩ := hall rfl
          exact ⟨by rw [← hnone]; rfl, ha₃⟩
      | some value =>
          have hv : valueAt mem (off + 28 + (headerAt mem off).nameSize.toNat)
              (headerAt mem off).dataSize (headerAt mem off).type
              = some value := (ho.resolve_left (by simp)).symm
          refine ⟨_, a₃, rfl, .inr (by rw [hv]; rfl), ?_⟩
          intro heq
          subst heq
          cases hm
          cases hm₁
          exact ⟨by rw [hv]; rfl, (hall rfl).2⟩

/-- A record with a read outside is not survived when allocations
succeed. -/
theorem metricFromSerialized_fault (e : Endian) (junk : UInt16)
    (h : ¬ RecordInside mem off) :
    ∃ f, metricFromSerialized e mem off junk okAllocs = .error f := by
  unfold metricFromSerialized
  simp only [malloc_okAllocs, serializedMetricHdrSize]
  by_cases hhdr : off + 28 ≤ mem.length
  case neg =>
      obtain ⟨f, hf⟩ := (metricHdrFromSerialized_eq e mem off).2 hhdr
      exact ⟨f, by rw [hf]; rfl⟩
  rw [(metricHdrFromSerialized_eq e mem off).1 hhdr]
  by_cases hname : StringInside mem (off + 28)
      (headerAt mem off).nameSize.toNat
  case neg =>
      obtain ⟨f, hf⟩ := (strndup_eq mem (off + 28) _ okAllocs).2 hname
      exact ⟨f, by simp only [bind, Except.bind, hf]⟩
  have hdup := (strndup_eq mem (off + 28) _ okAllocs).1 hname
  obtain ⟨f, hf⟩ := metricDataFromSerialized_fault e okAllocs
    fun hvalue => h ⟨hhdr, hname, hvalue⟩
  refine ⟨f, ?_⟩
  simp only [bind, Except.bind, hdup, malloc_okAllocs, if_true, hf]

/-- The 11 bytes of a list header always decode. -/
theorem metricListHeaderUnserialize_ok (e : Endian) {buf : List UInt8}
    (h : buf.length = serializedMetricListHdrSize) :
    metricListHeaderUnserialize e buf
      = .ok ⟨u8At buf 0, u16At buf 1, u64At buf 3⟩ := by
  unfold serializedMetricListHdrSize at h
  have h₁ := loadU8_eq (show 0 < buf.length by omega)
  have h₂ := loadU16_eq (e := e) (show 1 + 2 ≤ buf.length by omega)
  have h₃ := loadU64_eq (e := e) (show 3 + 8 ≤ buf.length by omega)
  unfold metricListHeaderUnserialize
  simp only [metricListHdrVersionOff, metricListHdrCountOff,
    metricListHdrDataSizeOff, h₁, h₂, h₃, bind, Except.bind]
  rfl

end Monikor
