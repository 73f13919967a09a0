/-
The wire round trip: decoding what the encoder wrote gives the metrics
back, except for `id`, which the format does not carry and the decoder
leaves as it finds it in memory.

`recordAt_metricBytes` is the round trip of one record, wherever it lies:
the encoder writes a metric as the record that describes it.
`unserializeLoop_records` carries it through the loop, whose offset is
the invariant: after k records the decoder stands where the encoder's
k-th record ends.
-/
import Mathlib.Algebra.Order.BigOperators.Group.List
import Monikor.Wire.Proofs.Records

namespace Monikor

open Bytes

variable {e : Endian} {mem : List UInt8} {off : Nat} {m : Metric}
  {metrics : List Metric}

/-- A metric whose `id` was never written. -/
def Metric.withId (m : Metric) (id : UInt16) : Metric := { m with id }

/-- The decoded metrics: record `k` has the `id` memory held. -/
def withIds (ids : Nat → UInt16) (metrics : List Metric) : List Metric :=
  metrics.mapIdx fun k m => m.withId (ids k)

-- ================================================================ records

/-- A metric on the wire is a record. -/
def Metric.record (m : Metric) (hname : m.name.strlen ≤ 65535)
    (hdata : metricDataSize m < 2 ^ 64) : Record where
  clockSec := m.clock.sec.toUInt64
  clockUsec := m.clock.usec.toUInt64
  type := m.type
  flags := m.flags
  name := m.name.bytes
  data := valueBytes m.value
  name_lt := Nat.lt_succ_of_le hname
  data_lt := by rwa [valueBytes_length]
  integer_le := by
    unfold Metric.type valueBytes
    cases m.value <;> simp
  float_le := by
    unfold Metric.type valueBytes
    cases m.value <;> simp

theorem Metric.record_bytes (hname : m.name.strlen ≤ 65535)
    (hdata : metricDataSize m < 2 ^ 64) :
    (m.record hname hdata).bytes = metricBytes m := by
  unfold Record.bytes metricBytes headerBytes
  rw [← valueBytes_length]
  rfl

/-- The record of a metric describes the metric, but for its `id`. -/
theorem Metric.record_metric (hname : m.name.strlen ≤ 65535)
    (hdata : metricDataSize m < 2 ^ 64) (id : UInt16) :
    (m.record hname hdata).metric id = m.withId id := by
  have hvalue : (m.record hname hdata).value = m.value := by
    obtain ⟨name, mid, clock, value, flags⟩ := m
    cases value with
    | int v =>
        show MetricValue.int (UInt64.ofNat (beValue ((beBytes 8 v.toNat).take 8)))
          = .int v
        rw [List.take_of_length_le (by simp), beValue_beBytes,
          show (256 : Nat) ^ 8 = 2 ^ 64 from rfl,
          Nat.mod_eq_of_lt v.toNat_lt, UInt64.ofNat_toNat]
    | float bits =>
        show MetricValue.float
          (UInt32.ofNat (beValue ((beBytes 4 bits.toNat).take 4))) = .float bits
        rw [List.take_of_length_le (by simp), beValue_beBytes,
          show (256 : Nat) ^ 4 = 2 ^ 32 from rfl,
          Nat.mod_eq_of_lt bits.toNat_lt, UInt32.ofNat_toNat]
    | string s => exact congrArg MetricValue.string (cString_bytes s)
  unfold Record.metric Metric.withId
  rw [hvalue]
  simp [Metric.record, cString_bytes]

/-- A metric's record is read inside the buffer, and gives the metric
back, but for its `id`. -/
theorem recordAt_metricBytes {rest : List UInt8} (id : UInt16)
    (h : mem.drop off = metricBytes m ++ rest)
    (hname : m.name.strlen ≤ 65535) (hdata : metricDataSize m < 2 ^ 64) :
    RecordInside mem off ∧ recordAt mem off id = some (m.withId id) := by
  rw [← Metric.record_bytes hname hdata] at h
  have hrec := recordAt_record id h
  rwa [Metric.record_metric] at hrec

-- ================================================================= lists

theorem InMemory.metricDataSize_lt (h : InMemory metrics) (hm : m ∈ metrics) :
    metricDataSize m < 2 ^ 64 := by
  have hle : metricNodeSize m ≤ (metrics.map metricNodeSize).sum :=
    List.le_sum_of_mem (List.mem_map_of_mem hm)
  have hb := metricBytes_length_lt m
  rw [metricBytes_length] at hb
  unfold InMemory at h
  omega

/-- The loop over the records of `front`, with as many rounds left: it
appends the metrics and stands behind the last record. -/
theorem unserializeLoop_records {dataSize : UInt64} (ids : Nat → UInt16)
    {rest : List UInt8} (hsize : dataSize.toNat = mem.length) :
    ∀ (front : List Metric) (i off : Nat) (ms : List Metric),
      (∀ m ∈ front, m.name.strlen ≤ 65535 ∧ metricDataSize m < 2 ^ 64) →
      mem.drop off = recordsBytes front ++ rest →
      unserializeLoop e mem dataSize ids front.length i off ms okAllocs
        = .ok ⟨i + front.length,
          some (ms ++ withIds (fun k => ids (i + k)) front),
          off + (recordsBytes front).length, okAllocs⟩ := by
  intro front
  induction front with
  | nil =>
      intro i off ms _ _
      simp [unserializeLoop, recordsBytes, withIds]
  | cons m front ih =>
      intro i off ms hlim h
      have happ : mem.drop off
          = metricBytes m ++ (recordsBytes front ++ rest) := by
        rw [h]
        simp [recordsBytes]
      obtain ⟨hname, hdata⟩ := hlim m (List.mem_cons_self ..)
      obtain ⟨hin, hrec⟩ := recordAt_metricBytes (ids i) happ hname hdata
      have hlen := congrArg List.length happ
      rw [List.length_drop, List.length_append] at hlen
      have hmlen := metricBytes_length m
      have hnext : mem.drop (off + (metricBytes m).length)
          = recordsBytes front ++ rest := by
        rw [← List.drop_drop, happ, List.drop_left]
      have hrest := ih (i + 1) _ (ms ++ [m.withId (ids i)])
        (fun d hd => hlim d (List.mem_cons_of_mem _ hd)) hnext
      have hoff : off < dataSize.toNat := by
        unfold serializedMetricHdrSize at hmlen
        omega
      have hsizes : serializedMetricHdrSize + (m.withId (ids i)).name.strlen
          + metricDataSize (m.withId (ids i)) = (metricBytes m).length :=
        hmlen.symm
      rw [List.length_cons, unserializeLoop_granted hoff hin hrec
        (Allocs.grants_okAllocs _), hsizes]
      refine hrest.trans ?_
      unfold recordsBytes
      simp only [List.flatMap_cons, List.length_append, withIds,
        List.mapIdx_cons, List.append_assoc, List.singleton_append,
        Nat.add_zero, Nat.add_assoc, Nat.add_comm 1]

theorem take_listBytes (metrics : List Metric) :
    (listBytes metrics).take serializedMetricListHdrSize
      = listHeaderBytes metrics := by
  unfold listBytes
  rw [← listHeaderBytes_length metrics, List.take_left]

theorem drop_listBytes (metrics : List Metric) :
    (listBytes metrics).drop serializedMetricListHdrSize
      = recordsBytes metrics := by
  unfold listBytes
  rw [← listHeaderBytes_length metrics, List.drop_left]

/-- The header that a list's encoding starts with. Its count is the low
16 bits of the length. -/
def listHdr (metrics : List Metric) : SerializedMetricListHdr :=
  ⟨metricSerializerVersion, UInt16.ofNat metrics.length,
    UInt64.ofNat (recordsBytes metrics).length⟩

theorem listHdr_count (metrics : List Metric) :
    (listHdr metrics).count.toNat = metrics.length % 65536 :=
  UInt16.toNat_ofNat'

theorem listHdr_dataSize (h : InMemory metrics) :
    (listHdr metrics).dataSize.toNat = (recordsBytes metrics).length := by
  have hsize := serializedListSize_eq metrics
  have hlt := h.serializedListSize_lt
  have hdata : (recordsBytes metrics).length < 2 ^ 64 := by omega
  exact UInt64.toNat_ofNat_of_lt' hdata

/-- The header of any list's encoding is read back. -/
theorem metricListHeaderUnserialize_listBytes (e : Endian)
    (metrics : List Metric) :
    metricListHeaderUnserialize e
        ((listBytes metrics).take serializedMetricListHdrSize)
      = .ok (listHdr metrics) := by
  have hb : (listHeaderBytes metrics).drop 0
      = [] ++ (metricSerializerVersion :: (beBytes 2 metrics.length
        ++ (beBytes 8 (recordsBytes metrics).length ++ []))) := by
    simp [listHeaderBytes]
  have hversion := u8At_drop [] (k := 0) hb rfl
  rw [List.append_cons] at hb
  have hcount := u16At_drop _ (k := 1) hb rfl
  rw [← List.append_assoc] at hb
  have hdata := u64At_drop _ (k := 3) hb (by simp)
  rw [Nat.zero_add] at hversion hcount hdata
  rw [take_listBytes,
    metricListHeaderUnserialize_ok e (listHeaderBytes_length metrics),
    hversion, hcount, hdata, listHdr]

/-- Decoding a list's encoding gives back as many of its metrics as the
16-bit count says, but for their `id`s. -/
theorem metricListUnserialize_listBytes (e : Endian) (ids : Nat → UInt16)
    (h : InMemory metrics) {n : Nat} (hn : n = metrics.length % 65536)
    (hnames : ∀ m ∈ metrics.take n, m.name.strlen ≤ 65535) :
    metricListUnserialize e
        ((listBytes metrics).drop serializedMetricListHdrSize)
        (listHdr metrics) ids okAllocs
      = .ok ⟨n, some (withIds ids (metrics.take n)),
        (recordsBytes (metrics.take n)).length, okAllocs⟩ := by
  have hsplit : (recordsBytes metrics).drop 0
      = recordsBytes (metrics.take n) ++ recordsBytes (metrics.drop n) := by
    rw [List.drop_zero, recordsBytes, recordsBytes, recordsBytes,
      ← List.flatMap_append, List.take_append_drop]
  have hloop := unserializeLoop_records (e := e) ids (listHdr_dataSize h)
    (metrics.take n) 0 0 []
    (fun m hm => ⟨hnames m hm, h.metricDataSize_lt (List.mem_of_mem_take hm)⟩)
    hsplit
  have hlen : (metrics.take n).length = n := by
    rw [List.length_take]
    omega
  rw [hlen] at hloop
  unfold metricListUnserialize
  simp only [malloc_okAllocs, drop_listBytes, listHdr_count, ← hn]
  simpa using hloop

/-- Within the limits of the format that is all of them. -/
theorem metricListUnserialize_whole (e : Endian) (ids : Nat → UInt16)
    (h : WireLimits metrics) :
    metricListUnserialize e
        ((listBytes metrics).drop serializedMetricListHdrSize)
        (listHdr metrics) ids okAllocs
      = .ok ⟨metrics.length, some (withIds ids metrics),
        (recordsBytes metrics).length, okAllocs⟩ := by
  have hcount := h.count
  have hlen : metrics.length = metrics.length % 65536 := by omega
  have hread := metricListUnserialize_listBytes e ids h.memory hlen
    fun m hm => h.names m (List.mem_of_mem_take hm)
  rwa [List.take_length] at hread

/-- Wire round trip: on either byte order and whatever memory held, the
list encoded and decoded again is the list, but for the `id`s; the count
read is its length, and the decoder consumes exactly the data. -/
theorem wire_round_trip (e : Endian) (junk : Nat → UInt8) (ids : Nat → UInt16)
    {metrics : List Metric} (h : WireLimits metrics) :
    ∃ bytes hdr r,
      metricListSerialize e (some junk) metrics = .ok (0, bytes)
      ∧ metricListHeaderUnserialize e
          (bytes.take serializedMetricListHdrSize) = .ok hdr
      ∧ metricListUnserialize e (bytes.drop serializedMetricListHdrSize) hdr
          ids okAllocs = .ok r
      ∧ hdr.count.toNat = metrics.length
      ∧ r.count = metrics.length
      ∧ r.metrics = some (withIds ids metrics)
      ∧ r.off = hdr.dataSize.toNat
      ∧ (bytes.drop serializedMetricListHdrSize).length
        = hdr.dataSize.toNat := by
  have hcount := h.count
  have hread := metricListUnserialize_whole e ids h
  refine ⟨listBytes metrics, listHdr metrics, _,
    metricListSerialize_spec e junk h.memory,
    metricListHeaderUnserialize_listBytes e metrics, hread, ?_, rfl, rfl, ?_, ?_⟩
  · rw [listHdr_count]
    omega
  · exact (listHdr_dataSize h.memory).symm
  · rw [drop_listBytes]
    exact (listHdr_dataSize h.memory).symm

/-- The round trip of a list with a metric of each type. -/
theorem wire_round_trip_each :
    ∃ bytes hdr r,
      metricListSerialize .little (some fun _ => 7) oneOfEach = .ok (0, bytes)
      ∧ metricListHeaderUnserialize .little (bytes.take 11) = .ok hdr
      ∧ metricListUnserialize .little (bytes.drop 11) hdr (fun _ => 9)
          okAllocs = .ok r
      ∧ r.metrics = some (withIds (fun _ => 9) oneOfEach) := by
  obtain ⟨bytes, hdr, r, hser, hhdr, hr, -, -, hms, -⟩ :=
    wire_round_trip .little (fun _ => 7) (fun _ => 9) oneOfEach_limits
  exact ⟨bytes, hdr, r, hser, hhdr, hr, hms⟩

end Monikor
