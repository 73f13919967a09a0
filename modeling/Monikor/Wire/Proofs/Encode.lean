/-
The encoder writes the format: on either byte order, and whatever the
block held before, `monikor_metric_list_serialize` leaves exactly
`listBytes`, without a write outside the block.
-/
import Monikor.Wire.Format

namespace Monikor

open Bytes

variable {e : Endian} {buf : List UInt8}

-- ============================================================ byte order

/-- Two 32-bit words put together. -/
theorem words_toNat (a b : UInt32) :
    (a.toUInt64 <<< 32 ||| b.toUInt64).toNat = b.toNat + 2 ^ 32 * a.toNat := by
  have ha := a.toNat_lt
  have hb := b.toNat_lt
  have h32 : (32 : UInt64).toNat % 64 = 32 := by decide
  rw [UInt64.toNat_or, UInt64.toNat_shiftLeft]
  simp only [UInt32.toNat_toUInt64]
  rw [h32, Nat.mod_eq_of_lt (by rw [Nat.shiftLeft_eq]; omega),
    ← Nat.shiftLeft_add_eq_or_of_lt hb, Nat.shiftLeft_eq]
  omega

theorem lowWord_toNat (x : UInt64) :
    (x &&& 0xFFFFFFFF).toUInt32.toNat = x.toNat % 2 ^ 32 := by
  have hmask : (0xFFFFFFFF : UInt64).toNat = 2 ^ 32 - 1 := by decide
  rw [UInt64.toNat_toUInt32, UInt64.toNat_and, hmask,
    Nat.and_two_pow_sub_one_eq_mod, Nat.mod_mod]

theorem highWord_toNat (x : UInt64) :
    (x >>> 32).toUInt32.toNat = x.toNat / 2 ^ 32 := by
  have hx := x.toNat_lt
  have h32 : (32 : UInt64).toNat % 64 = 32 := by decide
  rw [UInt64.toNat_toUInt32, UInt64.toNat_shiftRight, h32,
    Nat.shiftRight_eq_div_pow]
  omega

theorem isBigEndian_little : isBigEndian .little = false := by decide

theorem isBigEndian_big : isBigEndian .big = true := by decide

theorem hostBytes_htons (e : Endian) (x : UInt16) :
    hostBytes e 2 (htons e x).toNat = beBytes 2 x.toNat := by
  have hlt := hostValue_lt e (beBytes 2 x.toNat)
  have hb := hostBytes_hostValue e (beBytes 2 x.toNat)
  rw [beBytes_length] at hlt hb
  unfold htons
  rw [UInt16.toNat_ofNat_of_lt' hlt, hb]

theorem hostBytes_htonl (e : Endian) (x : UInt32) :
    hostBytes e 4 (htonl e x).toNat = beBytes 4 x.toNat := by
  have hlt := hostValue_lt e (beBytes 4 x.toNat)
  have hb := hostBytes_hostValue e (beBytes 4 x.toNat)
  rw [beBytes_length] at hlt hb
  unfold htonl
  rw [UInt32.toNat_ofNat_of_lt' hlt, hb]

/-- The two 32-bit halves `htonll` swaps and exchanges make the eight
bytes of the number. -/
theorem hostBytes_htonll (e : Endian) (x : UInt64) :
    hostBytes e 8 (htonll e x).toNat = beBytes 8 x.toNat := by
  cases e with
  | big => simp [htonll, isBigEndian_big, hostBytes]
  | little =>
      have hlo := hostBytes_htonl .little (x &&& 0xFFFFFFFF).toUInt32
      have hhi := hostBytes_htonl .little (x >>> 32).toUInt32
      have hlt := (htonl .little (x >>> 32).toUInt32).toNat_lt
      rw [lowWord_toNat, show (2 : Nat) ^ 32 = 256 ^ 4 from rfl,
        beBytes_mod] at hlo
      rw [highWord_toNat] at hhi
      simp only [hostBytes] at hlo hhi ⊢
      unfold htonll
      rw [isBigEndian_little, if_neg Bool.false_ne_true, words_toNat,
        show (8 : Nat) = 4 + 4 from rfl, leBytes_add, beBytes_add,
        show (256 : Nat) ^ 4 = 2 ^ 32 from rfl,
        Nat.add_mul_div_left _ _ (by decide), Nat.div_eq_of_lt hlt,
        Nat.zero_add, hlo, ← hhi, ← leBytes_mod 4 (_ + _),
        show (256 : Nat) ^ 4 = 2 ^ 32 from rfl, Nat.add_mul_mod_self_left,
        Nat.mod_eq_of_lt hlt]

/-- A 16-bit field as read. -/
theorem ntohs_hostValue (e : Endian) {bs : List UInt8} (h : bs.length = 2) :
    ntohs e (UInt16.ofNat (hostValue e bs)) = UInt16.ofNat (beValue bs) := by
  have hlt := hostValue_lt e bs
  have hb := hostBytes_hostValue e bs
  rw [h] at hlt hb
  unfold ntohs
  rw [UInt16.toNat_ofNat_of_lt' hlt, hb]

/-- A 32-bit field as read. -/
theorem ntohl_hostValue (e : Endian) {bs : List UInt8} (h : bs.length = 4) :
    ntohl e (UInt32.ofNat (hostValue e bs)) = UInt32.ofNat (beValue bs) := by
  have hlt := hostValue_lt e bs
  have hb := hostBytes_hostValue e bs
  rw [h] at hlt hb
  unfold ntohl
  rw [UInt32.toNat_ofNat_of_lt' hlt, hb]

/-- A 64-bit field as read. -/
theorem ntohll_hostValue (e : Endian) {bs : List UInt8} (h : bs.length = 8) :
    ntohll e (UInt64.ofNat (hostValue e bs)) = UInt64.ofNat (beValue bs) := by
  cases e with
  | big => simp [ntohll, isBigEndian_big, hostValue]
  | little =>
      obtain ⟨lo, hi, rfl, hlen⟩ :
          ∃ lo hi, bs = lo ++ hi ∧ lo.length = 4 := by
        exact ⟨bs.take 4, bs.drop 4, (List.take_append_drop ..).symm,
          by simp [h]⟩
      have hhi : hi.length = 4 := by
        rw [List.length_append] at h
        omega
      have hlov := leValue_lt lo
      have hhiv := leValue_lt hi
      have hb₁ := beValue_lt lo
      have hb₂ := beValue_lt hi
      rw [hlen] at hlov hb₁
      rw [hhi] at hhiv hb₂
      have hv : (UInt64.ofNat (leValue (lo ++ hi))).toNat
          = leValue lo + 2 ^ 32 * leValue hi := by
        rw [leValue_append, hlen, UInt64.toNat_ofNat_of_lt']
        · rfl
        · change _ < 2 ^ 64
          omega
      have hw₁ := ntohl_hostValue .little hlen
      have hw₂ := ntohl_hostValue .little hhi
      have e₁ : ((UInt64.ofNat (leValue (lo ++ hi))) &&& 0xFFFFFFFF).toUInt32
          = UInt32.ofNat (leValue lo) := by
        apply UInt32.toNat_inj.mp
        rw [lowWord_toNat, hv, UInt32.toNat_ofNat_of_lt' hlov]
        omega
      have e₂ : ((UInt64.ofNat (leValue (lo ++ hi))) >>> 32).toUInt32
          = UInt32.ofNat (leValue hi) := by
        apply UInt32.toNat_inj.mp
        rw [highWord_toNat, hv, UInt32.toNat_ofNat_of_lt' hhiv]
        omega
      unfold hostValue at hw₁ hw₂ ⊢
      unfold ntohll
      rw [isBigEndian_little, if_neg Bool.false_ne_true, e₁, e₂, hw₁, hw₂]
      apply UInt64.toNat_inj.mp
      rw [words_toNat, UInt32.toNat_ofNat_of_lt' hb₁,
        UInt32.toNat_ofNat_of_lt' hb₂, UInt64.toNat_ofNat_of_lt']
      · rw [beValue_append, hhi]
        rfl
      · change _ < 2 ^ 64
        have := beValue_lt (lo ++ hi)
        rwa [List.length_append, hlen, hhi] at this

-- ============================================================ the encoder

theorem hostBytes_dataSize (e : Endian) (n : Nat) :
    hostBytes e 8 (htonll e (UInt64.ofNat n)).toNat = beBytes 8 n := by
  rw [hostBytes_htonll, UInt64.toNat_ofNat', show (2 : Nat) ^ 64 = 256 ^ 8
    from rfl, beBytes_mod]

theorem hostBytes_size16 (e : Endian) (n : Nat) :
    hostBytes e 2 (htons e (UInt16.ofNat n)).toNat = beBytes 2 n := by
  rw [hostBytes_htons, UInt16.toNat_ofNat', show (2 : Nat) ^ 16 = 256 ^ 2
    from rfl, beBytes_mod]

/-- `serialize_metric_name_and_data` at the frontier. -/
theorem serializeMetricNameAndData_spec {done : List UInt8} (off : Nat)
    (m : Metric) (h : done <+: buf) (hoff : off = done.length)
    (hfit : (done ++ m.name.bytes ++ valueBytes m.value).length
      ≤ buf.length) :
    ∃ buf', serializeMetricNameAndData e buf off m = .ok buf'
      ∧ (done ++ m.name.bytes ++ valueBytes m.value) <+: buf'
      ∧ buf'.length = buf.length := by
  have hname : (done ++ m.name.bytes).length ≤ buf.length :=
    Nat.le_trans (by simp) hfit
  obtain ⟨b₁, hs₁, h₁, hl₁⟩ := store_frontier off _ h hoff hname
  have hoff₁ : off + m.name.strlen = (done ++ m.name.bytes).length := by
    simp [hoff, CString.strlen]
  obtain ⟨b₂, hs₂, h₂, hl₂⟩ := store_frontier _ _ h₁ hoff₁ (hl₁ ▸ hfit)
  refine ⟨b₂, ?_, h₂, hl₂.trans hl₁⟩
  have hfirst : serializeMetricNameAndData e buf off m
      = store b₁ (off + m.name.strlen) (valueBytes m.value) := by
    unfold serializeMetricNameAndData
    simp only [hs₁, bind, Except.bind]
    cases hv : m.value with
    | int v => simp only [hostBytes_htonll, valueBytes]
    | float bits => simp only [htonf, hostBytes_htonl, valueBytes]
    | string s => rfl
  rw [hfirst, hs₂]

/-- `serialize_metric` at the frontier. -/
theorem serializeMetric_spec {done : List UInt8} {off : Nat} (m : Metric)
    (h : done <+: buf) (hoff : off = done.length)
    (hfit : (done ++ metricBytes m).length ≤ buf.length) :
    ∃ buf', serializeMetric e buf off m
        = .ok ((metricBytes m).length, buf')
      ∧ (done ++ metricBytes m) <+: buf' ∧ buf'.length = buf.length := by
  subst hoff
  have hlen := metricBytes_length m
  have hroom : done.length + serializedMetricHdrSize ≤ buf.length := by
    rw [List.length_append, hlen] at hfit
    omega
  unfold serializedMetricHdrSize at hroom
  obtain ⟨b₁, hs₁, h₁, hl₁⟩ := store_frontier
    (done.length + metricHdrClockSecOff)
    (beBytes 8 m.clock.sec.toUInt64.toNat) h rfl
    (by simp only [List.length_append, beBytes_length]; omega)
  obtain ⟨b₂, hs₂, h₂, hl₂⟩ := store_frontier
    (done.length + metricHdrClockUsecOff)
    (beBytes 8 m.clock.usec.toUInt64.toNat) h₁
    (by simp [metricHdrClockUsecOff])
    (by simp only [List.length_append, beBytes_length]; omega)
  obtain ⟨b₃, hs₃, h₃, hl₃⟩ := store_frontier
    (done.length + metricHdrNameSizeOff)
    (beBytes 2 m.name.strlen) h₂
    (by simp [metricHdrNameSizeOff])
    (by simp only [List.length_append, beBytes_length]; omega)
  obtain ⟨b₄, hs₄, h₄, hl₄⟩ := store_frontier
    (done.length + metricHdrDataSizeOff)
    (beBytes 8 (metricDataSize m)) h₃
    (by simp [metricHdrDataSizeOff])
    (by simp only [List.length_append, beBytes_length]; omega)
  obtain ⟨b₅, hs₅, h₅, hl₅⟩ := store_frontier
    (done.length + metricHdrTypeOff) [m.type.code] h₄
    (by simp [metricHdrTypeOff])
    (by
      simp only [List.length_append, beBytes_length, List.length_singleton]
      omega)
  obtain ⟨b₆, hs₆, h₆, hl₆⟩ := store_frontier
    (done.length + metricHdrFlagsOff) [m.flags] h₅
    (by simp [metricHdrFlagsOff])
    (by
      simp only [List.length_append, beBytes_length, List.length_singleton]
      omega)
  have hb₆ : b₆.length = buf.length := by omega
  have hdone : done ++ beBytes 8 m.clock.sec.toUInt64.toNat
      ++ beBytes 8 m.clock.usec.toUInt64.toNat ++ beBytes 2 m.name.strlen
      ++ beBytes 8 (metricDataSize m) ++ [m.type.code] ++ [m.flags]
      = done ++ headerBytes m := by
    simp [headerBytes]
  rw [hdone] at h₆
  have hrest : done ++ headerBytes m ++ m.name.bytes ++ valueBytes m.value
      = done ++ metricBytes m := by
    simp [metricBytes]
  obtain ⟨b₇, hs₇, h₇, hl₇⟩ := serializeMetricNameAndData_spec (e := e)
    (done.length + serializedMetricHdrSize) m h₆
    (by simp [headerBytes_length]) (by rw [hrest, hb₆]; exact hfit)
  rw [hrest] at h₇
  refine ⟨b₇, ?_, h₇, hl₇.trans hb₆⟩
  have hsec := hostBytes_htonll e m.clock.sec.toUInt64
  have husec := hostBytes_htonll e m.clock.usec.toUInt64
  have hcount : metricDataSize m + m.name.strlen + serializedMetricHdrSize
      = (metricBytes m).length := by omega
  unfold serializeMetric
  simp only [hsec, husec, hostBytes_dataSize, hostBytes_size16, hs₁, hs₂, hs₃,
    hs₄, hs₅, hs₆, hs₇, bind, Except.bind, pure, Except.pure, hcount]

/-- The loop of `monikor_metric_list_serialize` at the frontier. -/
theorem serializeLoop_spec (metrics : List Metric) :
    ∀ (buf done : List UInt8), done <+: buf →
      (done ++ recordsBytes metrics).length ≤ buf.length →
      ∃ buf', serializeLoop e buf done.length metrics = .ok buf'
        ∧ (done ++ recordsBytes metrics) <+: buf'
        ∧ buf'.length = buf.length := by
  induction metrics with
  | nil =>
      intro buf done h _
      exact ⟨buf, rfl, by simpa [recordsBytes] using h, rfl⟩
  | cons m metrics ih =>
      intro buf done h hfit
      have happ : done ++ recordsBytes (m :: metrics)
          = done ++ metricBytes m ++ recordsBytes metrics := by
        simp [recordsBytes]
      rw [happ] at hfit ⊢
      obtain ⟨b₁, hs₁, h₁, hl₁⟩ := serializeMetric_spec (e := e) m h rfl
        (Nat.le_trans (by simp) hfit)
      obtain ⟨b₂, hs₂, h₂, hl₂⟩ := ih b₁ _ h₁ (hl₁ ▸ hfit)
      refine ⟨b₂, ?_, h₂, hl₂.trans hl₁⟩
      rw [List.length_append] at hs₂
      unfold serializeLoop
      simp only [hs₁, bind, Except.bind, hs₂]

/-- `serialize_metric_list_header` at the start of the block. -/
theorem serializeMetricListHeader_spec (metrics : List Metric)
    (hfit : serializedMetricListHdrSize ≤ buf.length) :
    ∃ buf', serializeMetricListHeader e buf metrics
        (UInt64.ofNat (serializedListSize metrics))
        = .ok (serializedMetricListHdrSize, buf')
      ∧ listHeaderBytes metrics <+: buf' ∧ buf'.length = buf.length := by
  unfold serializedMetricListHdrSize at hfit
  obtain ⟨b₁, hs₁, h₁, hl₁⟩ := store_frontier metricListHdrVersionOff
    [metricSerializerVersion] (List.nil_prefix (l := buf)) rfl
    (by
      simp only [List.nil_append, List.length_singleton]
      omega)
  obtain ⟨b₂, hs₂, h₂, hl₂⟩ := store_frontier metricListHdrCountOff
    (beBytes 2 metrics.length) h₁ (by simp [metricListHdrCountOff])
    (by
      simp only [List.nil_append, List.length_append, List.length_singleton,
        beBytes_length]
      omega)
  obtain ⟨b₃, hs₃, h₃, hl₃⟩ := store_frontier
    metricListHdrDataSizeOff
    (beBytes 8 (recordsBytes metrics).length) h₂
    (by simp [metricListHdrDataSizeOff])
    (by
      simp only [List.nil_append, List.length_append, List.length_singleton,
        beBytes_length]
      omega)
  have hsize : UInt64.ofNat (serializedListSize metrics)
      - UInt64.ofNat serializedMetricListHdrSize
      = UInt64.ofNat (recordsBytes metrics).length := by
    rw [← UInt64.ofNat_sub (by rw [serializedListSize_eq]; omega),
      serializedListSize_eq, Nat.add_sub_cancel_left]
  refine ⟨b₃, ?_, by simpa [listHeaderBytes] using h₃, by omega⟩
  unfold serializeMetricListHeader
  simp only [hsize, hostBytes_dataSize, hostBytes_size16, hs₁, hs₂, hs₃, bind,
    Except.bind, pure, Except.pure]

/-- `monikor_metric_list_serialize` writes the format, all of it and
nothing else. -/
theorem metricListSerialize_spec (e : Endian) (junk : Nat → UInt8)
    {metrics : List Metric} (hm : InMemory metrics) :
    metricListSerialize e (some junk) metrics
      = .ok (0, listBytes metrics) := by
  have hlt := hm.serializedListSize_lt
  have hsize := serializedListSize_eq metrics
  let buf := (List.range (serializedListSize metrics)).map junk
  have hbuf : buf.length = serializedListSize metrics := by simp [buf]
  obtain ⟨b₁, hs₁, h₁, hl₁⟩ := serializeMetricListHeader_spec (e := e)
    metrics (show serializedMetricListHdrSize ≤ buf.length by omega)
  have hlen : (listBytes metrics).length = serializedListSize metrics := by
    unfold listBytes
    rw [List.length_append, listHeaderBytes_length, hsize]
  obtain ⟨b₂, hs₂, h₂, hl₂⟩ := serializeLoop_spec (e := e) metrics b₁ _ h₁
    (by rw [hl₁, hbuf, ← hlen, listBytes])
  have hfull : listBytes metrics = b₂ :=
    h₂.eq_of_length (by rw [hl₂, hl₁, hbuf, ← hlen, listBytes])
  rw [listHeaderBytes_length] at hs₂
  have hnat : (UInt64.ofNat (serializedListSize metrics)).toNat
      = serializedListSize metrics := UInt64.toNat_ofNat_of_lt' hlt
  unfold metricListSerialize
  simp only [hnat, bind, Except.bind, pure, Except.pure]
  rw [hs₁]
  simp only [hs₂, hfull]

/-- No number of a list is cut short by its field of the format. -/
structure FieldsHold (metrics : List Metric) : Prop where
  count : beValue (beBytes 2 metrics.length) = metrics.length
  payload : beValue (beBytes 8 (recordsBytes metrics).length)
    = (recordsBytes metrics).length
  names : ∀ m ∈ metrics, beValue (beBytes 2 m.name.strlen) = m.name.strlen
  data : ∀ m ∈ metrics, beValue (beBytes 8 (metricDataSize m))
    = metricDataSize m

theorem WireLimits.fieldsHold {metrics : List Metric} (h : WireLimits metrics) :
    FieldsHold metrics := by
  have hsize := h.memory.serializedListSize_lt
  rw [serializedListSize_eq] at hsize
  refine ⟨?_, ?_, fun m hm => ?_, fun m hm => ?_⟩
  · have := h.count
    rw [beValue_beBytes]
    omega
  · rw [beValue_beBytes]
    omega
  · have := h.names m hm
    rw [beValue_beBytes]
    omega
  · have hle : (metricBytes m).length ≤ (recordsBytes metrics).length := by
      obtain ⟨pre, post, rfl⟩ := List.append_of_mem hm
      simp only [recordsBytes, List.flatMap_append, List.flatMap_cons,
        List.length_append]
      omega
    rw [metricBytes_length] at hle
    rw [beValue_beBytes]
    omega

/-- The encoder, exactly, on either byte order: no store is outside the
block it allocates, every byte of the block is written whatever it held,
and the block is the format, every number in it whole. -/
theorem metricListSerialize_exact (e : Endian) {metrics : List Metric}
    (h : WireLimits metrics) :
    ∃ bytes, (∀ junk, metricListSerialize e (some junk) metrics
        = .ok (0, bytes))
      ∧ bytes.length = serializedListSize metrics
      ∧ bytes = [1] ++ beBytes 2 metrics.length
        ++ beBytes 8 (recordsBytes metrics).length
        ++ metrics.flatMap (fun m =>
          beBytes 8 m.clock.sec.toUInt64.toNat
            ++ beBytes 8 m.clock.usec.toUInt64.toNat
            ++ beBytes 2 m.name.strlen ++ beBytes 8 (metricDataSize m)
            ++ [m.type.code] ++ [m.flags] ++ m.name.bytes
            ++ valueBytes m.value)
      ∧ FieldsHold metrics := by
  refine ⟨listBytes metrics,
    fun junk => metricListSerialize_spec e junk h.memory, ?_, rfl, h.fieldsHold⟩
  unfold listBytes
  rw [List.length_append, listHeaderBytes_length, serializedListSize_eq]

/-- A list of a string and a number, on a big-endian machine. -/
theorem metricListSerialize_exact_two :
    let metrics : List Metric := [⟨CString.a, 3, ⟨1, 2⟩, .string CString.a, 4⟩,
      ⟨CString.a, 0, ⟨1, 2⟩, .float 0x3F800000, 0⟩]
    ∃ bytes, (∀ junk, metricListSerialize .big (some junk) metrics
        = .ok (0, bytes))
      ∧ bytes.length = 74 ∧ FieldsHold metrics := by
  intro metrics
  obtain ⟨bytes, hser, hlen, -, hfields⟩ := metricListSerialize_exact .big
    (show WireLimits metrics from
      ⟨by decide, by decide, by unfold InMemory; decide⟩)
  exact ⟨bytes, hser, hlen, hfields⟩

end Monikor
