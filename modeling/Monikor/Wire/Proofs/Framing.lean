/-
Record framing: how far the decoder advances over records that declare
their own sizes.

`metric_from_serialized` finds the data where the header says the name
ends. The loop that calls it moves on by other sizes: the length of the
name as a C string and the size of the decoded value. The two agree on a
record exactly if it is `Plain`, and `decodesEach_iff` is what that means
for a message: record after record, the round reads the record's metric
and ends where the record does, or the first record that is not plain
leaves the decoder inside itself (`loopDecodes_cons` is the round).
-/
import Monikor.Wire.Proofs.Records

namespace Monikor

open Bytes

variable {e : Endian} {mem : List UInt8} {dataSize : UInt64}
  {ids : Nat → UInt16} {r : Record} {rs : List Record} {i off : Nat}
  {ms : List Metric} {a : Allocs}

-- ================================================================== sizes

/-- The sizes the decoder computes are the ones the record declares: no
NUL in the name or in a string, and no data beyond a number. -/
structure Record.Plain (r : Record) : Prop where
  name : (0 : UInt8) ∉ r.name
  integer : r.type = .integer → r.data.length = 8
  float : r.type = .float → r.data.length = 4
  string : r.type = .string → (0 : UInt8) ∉ r.data

/-- The value is no longer than the data it was read from. -/
theorem Record.metricDataSize_le (id : UInt16) :
    metricDataSize (r.metric id) ≤ r.data.length := by
  unfold metricDataSize Record.metric Record.value
  cases ht : r.type with
  | integer => exact r.integer_le ht
  | float => exact r.float_le ht
  | string => exact strlen_cString_le r.data

theorem Record.metricDataSize_eq (id : UInt16) :
    metricDataSize (r.metric id) = r.data.length
      ↔ (r.type = .integer → r.data.length = 8)
        ∧ (r.type = .float → r.data.length = 4)
        ∧ (r.type = .string → (0 : UInt8) ∉ r.data) := by
  unfold metricDataSize Record.metric Record.value
  cases ht : r.type with
  | integer => simp [eq_comm]
  | float => simp [eq_comm]
  | string => simpa using strlen_cString_eq

/-- The decoder moves on by the record's size exactly if it is plain. -/
theorem Record.advance_eq_size (id : UInt16) :
    serializedMetricHdrSize + (r.metric id).name.strlen
        + metricDataSize (r.metric id) = r.size ↔ r.Plain := by
  have hname : (r.metric id).name.strlen ≤ r.name.length :=
    strlen_cString_le r.name
  have hdata := r.metricDataSize_le id
  constructor
  · intro h
    unfold Record.size at h
    obtain ⟨hint, hfloat, hstring⟩ :=
      (r.metricDataSize_eq id).mp (by omega)
    exact ⟨strlen_cString_eq.mp (show _ = r.name.length by
      have : (r.metric id).name.strlen = r.name.length := by omega
      exact this), hint, hfloat, hstring⟩
  · intro h
    have hn : (r.metric id).name.strlen = r.name.length :=
      strlen_cString_eq.mpr h.name
    rw [hn, (r.metricDataSize_eq id).mpr ⟨h.integer, h.float, h.string⟩]
    rfl

-- =============================================================== the rounds

/-- The records of a message, one behind the other. -/
def recordBytes (rs : List Record) : List UInt8 := rs.flatMap Record.bytes

/-- The metrics they describe; record `k` gets the `id` memory held. -/
def recordMetrics (ids : Nat → UInt16) (rs : List Record) : List Metric :=
  rs.mapIdx fun k r => r.metric (ids k)

/-- What decoding a record allocates, the node of the list included. -/
def Record.allocs (r : Record) : Nat :=
  (if r.type = .string then 3 else 2) + 1

/-- Each of the next rounds reads the metric of its record, appends it
and ends where the record does: the loop stopped after `k` rounds has the
first `k`. -/
def LoopDecodes (e : Endian) (mem : List UInt8) (dataSize : UInt64)
    (ids : Nat → UInt16) (rs : List Record) (i off : Nat) (ms : List Metric)
    (a : Allocs) : Prop :=
  ∀ k ≤ rs.length, ∃ r,
    unserializeLoop e mem dataSize ids k i off ms a = .ok r
      ∧ r.count = i + k
      ∧ r.metrics = some
        (ms ++ recordMetrics (fun j => ids (i + j)) (rs.take k))
      ∧ r.off = off + ((rs.take k).map Record.size).sum

/-- One round. -/
theorem loopDecodes_cons {rest : List UInt8}
    (hsize : dataSize.toNat = mem.length)
    (h : mem.drop off = r.bytes ++ rest) :
    LoopDecodes e mem dataSize ids (r :: rs) i off ms a
      ↔ r.Plain ∧ a.Grants r.allocs
        ∧ LoopDecodes e mem dataSize ids rs (i + 1) (off + r.size)
            (ms ++ [r.metric (ids i)]) (a.skip r.allocs) := by
  obtain ⟨hin, hm⟩ := recordAt_record (ids i) h
  have hoff : off < dataSize.toNat := by
    have := hin.1
    omega
  have hallocs : r.allocs = metricAllocs (r.metric (ids i)) + 1 := by
    unfold Record.allocs metricAllocs
    rw [r.metric_type]
  have hmetrics : ∀ k, ms ++ recordMetrics (fun j => ids (i + j))
        ((r :: rs).take (k + 1))
      = ms ++ [r.metric (ids i)]
        ++ recordMetrics (fun j => ids (i + 1 + j)) (rs.take k) := by
    intro k
    unfold recordMetrics
    simp [List.take_succ_cons, List.mapIdx_cons, Nat.add_assoc,
      Nat.add_comm 1]
  have hsum : ∀ k, off + (((r :: rs).take (k + 1)).map Record.size).sum
      = off + r.size + ((rs.take k).map Record.size).sum := by
    intro k
    simp [Nat.add_assoc]
  constructor
  · intro hall
    obtain ⟨res, hres, hcount, hms, hend⟩ := hall 1 (by simp)
    by_cases hg : a.Grants (metricAllocs (r.metric (ids i)))
    case neg =>
        -- the round has ended the loop
        obtain ⟨b, hnull⟩ := unserializeLoop_null (e := e) (n := 0)
          hoff hin fun m hm' => by
            rw [hm] at hm'
            cases hm'
            exact hg
        rw [hnull] at hres
        cases hres
        simp at hcount
    rw [unserializeLoop_granted hoff hin hm hg] at hres
    cases hres
    have hplain : r.Plain := by
      apply (r.advance_eq_size (ids i)).mp
      simp at hend
      omega
    have hnode : a (metricAllocs (r.metric (ids i))) = true := by
      by_contra hno
      rw [if_neg hno, hmetrics 0, Option.some.injEq] at hms
      have := congrArg List.length hms
      simp [recordMetrics] at this
    refine ⟨hplain, ?_, fun k hk => ?_⟩
    · rw [hallocs, Allocs.grants_add, Allocs.grants_one]
      exact ⟨hg, by rwa [Allocs.skip, Nat.zero_add]⟩
    · obtain ⟨res, hres, hcount, hms, hend⟩ :=
        hall (k + 1) (Nat.succ_le_succ hk)
      rw [unserializeLoop_granted hoff hin hm hg, if_pos hnode,
        (r.advance_eq_size (ids i)).mpr hplain, ← hallocs] at hres
      exact ⟨res, hres, by omega, by rw [hms, hmetrics],
        by rw [hend, hsum]⟩
  · rintro ⟨hplain, hgrants, hnext⟩ k hk
    cases k with
    | zero => exact ⟨_, rfl, rfl, by simp [recordMetrics], by simp⟩
    | succ k =>
        rw [hallocs, Allocs.grants_add, Allocs.grants_one] at hgrants
        obtain ⟨hg, hnode⟩ := hgrants
        rw [Allocs.skip, Nat.zero_add] at hnode
        obtain ⟨res, hres, hcount, hms, hend⟩ :=
          hnext k (Nat.le_of_succ_le_succ hk)
        refine ⟨res, ?_, by omega, by rw [hms, hmetrics],
          by rw [hend, hsum]⟩
        rw [unserializeLoop_granted hoff hin hm hg, if_pos hnode,
          (r.advance_eq_size (ids i)).mpr hplain, ← hallocs]
        exact hres

/-- All the rounds over records that lie one behind the other. -/
theorem loopDecodes_iff (ids : Nat → UInt16)
    (hsize : dataSize.toNat = mem.length) :
    ∀ (rs : List Record) (i off : Nat) (ms : List Metric) (a : Allocs),
      mem.drop off = recordBytes rs →
      (LoopDecodes e mem dataSize ids rs i off ms a
        ↔ (∀ r ∈ rs, r.Plain) ∧ a.Grants (rs.map Record.allocs).sum) := by
  intro rs
  induction rs with
  | nil =>
      intro i off ms a _
      constructor
      · intro _
        exact ⟨by simp, fun j hj => absurd hj (by simp)⟩
      · intro _ k hk
        obtain rfl : k = 0 := by simpa using hk
        exact ⟨_, rfl, rfl, by simp [recordMetrics], by simp⟩
  | cons r rs ih =>
      intro i off ms a h
      have happ : mem.drop off = r.bytes ++ recordBytes rs := by
        rw [h]
        rfl
      have hnext : mem.drop (off + r.size) = recordBytes rs := by
        rw [← r.bytes_length, ← List.drop_drop, happ, List.drop_left]
      rw [loopDecodes_cons hsize happ, ih _ _ _ _ hnext, List.forall_mem_cons,
        List.map_cons, List.sum_cons, Allocs.grants_add]
      tauto

-- =============================================================== a message

/-- `monikor_metric_list_unserialize` on the records decodes each from its
own bytes: stopped after `k` of them it returns `k`, with the metrics of
the first `k` records and standing behind them. -/
def DecodesEach (e : Endian) (version : UInt8) (rs : List Record)
    (ids : Nat → UInt16) (a : Allocs) : Prop :=
  ∀ k ≤ rs.length, ∃ r,
    metricListUnserialize e (recordBytes rs)
        ⟨version, UInt16.ofNat k, UInt64.ofNat (recordBytes rs).length⟩ ids a
        = .ok r
      ∧ r.count = k
      ∧ r.metrics = some (recordMetrics ids (rs.take k))
      ∧ r.off = ((rs.take k).map Record.size).sum

/-- Record framing, exactly: the decoder reads every record where its
header puts it if and only if every record is plain and the allocations
for the list, and for each record's metric and node, succeed. -/
theorem decodesEach_iff (e : Endian) (version : UInt8) (rs : List Record)
    (ids : Nat → UInt16) (a : Allocs) (hcount : rs.length ≤ 65535)
    (hsize : (recordBytes rs).length < 2 ^ 64) :
    DecodesEach e version rs ids a
      ↔ (∀ r ∈ rs, r.Plain)
        ∧ a.Grants (1 + (rs.map Record.allocs).sum) := by
  have hloop := loopDecodes_iff (e := e) ids
    (UInt64.toNat_ofNat_of_lt' hsize) rs 0 0 [] (a.skip 1) rfl
  have hk : ∀ k ≤ rs.length, (UInt16.ofNat k).toNat = k := fun k hle =>
    UInt16.toNat_ofNat_of_lt' (by simp only [UInt16.size]; omega)
  rw [Allocs.grants_add, Allocs.grants_one, and_left_comm, ← hloop]
  unfold DecodesEach LoopDecodes metricListUnserialize
  simp only [Allocs.malloc_eq]
  cases ha : a 0 with
  | false =>
      simp only [Bool.false_eq_true, false_and, iff_false]
      intro h
      obtain ⟨res, hres, -, hms, -⟩ := h 0 (Nat.zero_le _)
      cases hres
      cases hms
  | true =>
      simp only [true_and, Nat.zero_add, List.nil_append]
      constructor
      · intro h k hle
        have := h k hle
        rwa [hk k hle] at this
      · intro h k hle
        have := h k hle
        rwa [hk k hle]

/-- An integer record with the data it needs. -/
def exactRecord : Record where
  clockSec := 1
  clockUsec := 2
  type := .integer
  flags := 0
  name := [97]
  data := [0, 0, 0, 0, 0, 0, 0, 5]
  name_lt := by decide
  data_lt := by decide
  integer_le := by decide
  float_le := by decide

/-- The same with one byte of data more. -/
def longRecord : Record where
  clockSec := 1
  clockUsec := 2
  type := .integer
  flags := 0
  name := [97]
  data := [0, 0, 0, 0, 0, 0, 0, 5, 0]
  name_lt := by decide
  data_lt := by decide
  integer_le := by decide
  float_le := by decide

theorem exactRecord_plain : exactRecord.Plain :=
  ⟨by decide, by decide, by decide, by decide⟩

/-- Two plain records are both decoded. -/
theorem decodesEach_two :
    DecodesEach .little 1 [exactRecord, exactRecord] (fun _ => 0) okAllocs :=
  (decodesEach_iff .little 1 [exactRecord, exactRecord] (fun _ => 0) okAllocs
    (by decide) (by decide)).mpr
    ⟨by simp [exactRecord_plain], Allocs.grants_okAllocs _⟩

/-- Behind a record with a byte of data more, the next one is read a byte
too early: its type byte is then the last byte of its data size, and the
decoder returns 1 for the two records. -/
theorem decodesEach_long_fails :
    (∃ r, metricListUnserialize .little (recordBytes [longRecord, exactRecord])
        ⟨1, 2, 75⟩ (fun _ => 0) okAllocs = .ok r ∧ r.count = 1)
      ∧ ¬ DecodesEach .little 1 [longRecord, exactRecord] (fun _ => 0)
        okAllocs := by
  have hrun : ∃ r, metricListUnserialize .little
      (recordBytes [longRecord, exactRecord]) ⟨1, 2, 75⟩ (fun _ => 0) okAllocs
      = .ok r ∧ r.count = 1 := ⟨_, rfl, rfl⟩
  refine ⟨hrun, ?_⟩
  intro h
  obtain ⟨r, hr, hone⟩ := hrun
  obtain ⟨r', hr', htwo, -⟩ := h 2 (by decide)
  have hsame : (Except.ok r : Except Fault Unserialized) = .ok r' :=
    hr.symm.trans hr'
  cases hsame
  omega

end Monikor
