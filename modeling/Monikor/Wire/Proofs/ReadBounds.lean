/-
Which buffers the decoder reads within.

The loop of `monikor_metric_list_unserialize` compares the start of a
record with the end of the buffer and nothing else, so a record that
starts inside may be read past the end. `Framed` is the condition that
no record does: from the start, record after record, either the buffer
has ended or the whole record lies inside and the next one is looked at
where it ends. It is decidable on the bytes.
-/
import Monikor.Wire.Proofs.Decode

namespace Monikor

open Bytes

variable {e : Endian} {mem : List UInt8} {off n : Nat} {junk : Nat → UInt16}

/-- How far the record at an offset takes the decoder; `none` if its type
byte is no type, which ends the decoding. -/
def recordSize (mem : List UInt8) (off : Nat) : Option Nat :=
  (recordAt mem off 0).map fun m =>
    serializedMetricHdrSize + m.name.strlen + metricDataSize m

/-- The next `n` records from an offset on lie inside the buffer. -/
def Framed (mem : List UInt8) : Nat → Nat → Prop
  | 0, _ => True
  | n + 1, off =>
      mem.length ≤ off
        ∨ (RecordInside mem off
            ∧ ∀ k, recordSize mem off = some k → Framed mem n (off + k))

instance Framed.decide (mem : List UInt8) :
    ∀ n off, Decidable (Framed mem n off)
  | 0, _ => instDecidableTrue
  | n + 1, off =>
      have : Decidable (∀ k, recordSize mem off = some k →
          Framed mem n (off + k)) :=
        match h : recordSize mem off with
        | none => .isTrue (by simp)
        | some k =>
            have := Framed.decide mem n (off + k)
            decidable_of_iff (Framed mem n (off + k)) (by simp)
      instDecidableOr

/-- The metric of a record takes the decoder as far as the record does,
whatever its `id`. -/
theorem recordSize_of_recordAt {id : UInt16} {m : Metric}
    (h : recordAt mem off id = some m) :
    recordSize mem off
      = some (serializedMetricHdrSize + m.name.strlen + metricDataSize m) := by
  simp only [recordAt, recordSize, Option.map_eq_some_iff] at h ⊢
  obtain ⟨value, hv, rfl⟩ := h
  exact ⟨_, ⟨value, hv, rfl⟩, rfl⟩

/-- Framed records are decoded without a fault, whatever the allocator
answers. -/
theorem unserializeLoop_framed {dataSize : UInt64}
    (hsize : dataSize.toNat = mem.length) :
    ∀ (n i off : Nat) (ms : List Metric) (a : Allocs), Framed mem n off →
      ∃ r, unserializeLoop e mem dataSize junk n i off ms a = .ok r := by
  intro n
  induction n with
  | zero => exact fun i off ms a _ => ⟨_, rfl⟩
  | succ n ih =>
      intro i off ms a hf
      by_cases hoff : off < dataSize.toNat
      case neg => exact ⟨_, by rw [unserializeLoop, if_neg hoff]⟩
      rcases hf with hend | ⟨hin, hnext⟩
      · omega
      obtain ⟨o, a₁, hrec, ho, -⟩ := metricFromSerialized_inside e
        (junk i) a hin
      unfold unserializeLoop
      rw [if_pos hoff, hrec]
      cases o with
      | none => exact ⟨_, rfl⟩
      | some m =>
          have hm : recordAt mem off (junk i) = some m :=
            (ho.resolve_left (by simp)).symm
          have hframed := hnext _ (recordSize_of_recordAt hm)
          exact ih _ _ _ _ hframed

/-- A decoding that does not fault with every allocation succeeding had
framed records. -/
theorem framed_of_unserializeLoop {dataSize : UInt64}
    (hsize : dataSize.toNat = mem.length) :
    ∀ (n i off : Nat) (ms : List Metric) (r : Unserialized),
      unserializeLoop e mem dataSize junk n i off ms okAllocs = .ok r →
      Framed mem n off := by
  intro n
  induction n with
  | zero => exact fun i off ms r _ => trivial
  | succ n ih =>
      intro i off ms r hr
      by_cases hoff : off < dataSize.toNat
      case neg => exact .inl (by omega)
      unfold unserializeLoop at hr
      rw [if_pos hoff] at hr
      by_cases hin : RecordInside mem off
      case neg =>
          obtain ⟨f, hf⟩ := metricFromSerialized_fault e (junk i) hin
          rw [hf] at hr
          cases hr
      refine .inr ⟨hin, fun k hk => ?_⟩
      obtain ⟨o, a₁, hrec, -, hall⟩ :=
        metricFromSerialized_inside e (junk i) okAllocs hin
      obtain ⟨ho, rfl⟩ := hall rfl
      rw [hrec, ho] at hr
      cases hm : recordAt mem off (junk i) with
      | none =>
          simp only [recordAt, recordSize, Option.map_eq_none_iff,
            Option.map_map, Option.map_eq_some_iff] at hm hk
          obtain ⟨v, hv, -⟩ := hk
          rw [hm] at hv
          cases hv
      | some m =>
          rw [recordSize_of_recordAt hm] at hk
          cases hk
          rw [hm] at hr
          exact ih _ _ _ _ hr

/-- Memory safety of the decoder, exactly: for the 11 header bytes and
the buffer of the size they declare, no read is outside the buffer,
whatever memory holds and the allocator answers, if and only if the
declared number of records is framed. -/
theorem unserialize_inside_iff (e : Endian) (buf mem : List UInt8)
    (hbuf : buf.length = serializedMetricListHdrSize)
    (hmem : mem.length = (u64At buf 3).toNat) :
    (∀ junk a, ∃ hdr r, metricListHeaderUnserialize e buf = .ok hdr
        ∧ metricListUnserialize e mem hdr junk a = .ok r)
      ↔ Framed mem (u16At buf 1).toNat 0 := by
  have hhdr := metricListHeaderUnserialize_ok e hbuf
  constructor
  · intro h
    obtain ⟨hdr, r, hread, hr⟩ := h (fun _ => 0) okAllocs
    rw [hhdr] at hread
    cases hread
    exact framed_of_unserializeLoop hmem.symm _ _ _ _ _ hr
  · intro h junk a
    have hr : ∃ r, metricListUnserialize e mem
        ⟨u8At buf 0, u16At buf 1, u64At buf 3⟩ junk a = .ok r := by
      unfold metricListUnserialize
      cases hm : a.malloc with
      | mk ok a₁ =>
          cases ok with
          | false => exact ⟨_, rfl⟩
          | true => exact unserializeLoop_framed hmem.symm _ _ _ _ _ h
    obtain ⟨r, hr⟩ := hr
    exact ⟨_, r, hhdr, hr⟩

/-- Three framed records, of one type each, are read inside the buffer. -/
theorem unserialize_inside_each :
    ∃ hdr r, metricListHeaderUnserialize .little ((listBytes oneOfEach).take 11)
        = .ok hdr
      ∧ metricListUnserialize .little ((listBytes oneOfEach).drop 11) hdr
        (fun _ => 0) okAllocs = .ok r :=
  (unserialize_inside_iff .little ((listBytes oneOfEach).take 11)
    ((listBytes oneOfEach).drop 11) (by decide) (by decide)).mpr
    (by decide) _ _

/-- One record declared, one byte of data: the decoder reads the byte
behind the buffer. -/
theorem unserialize_reads_outside :
    metricListHeaderUnserialize .little [1, 0, 1, 0, 0, 0, 0, 0, 0, 0, 1]
        = .ok ⟨1, 1, 1⟩
      ∧ metricListUnserialize .little [0] ⟨1, 1, 1⟩ (fun _ => 0) okAllocs
        = .error (.read 1) :=
  ⟨rfl, rfl⟩

end Monikor
