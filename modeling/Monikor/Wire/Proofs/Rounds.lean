/-
One round of the decoder's loop, the allocator included.

A record whose reads stay inside is decoded to its metric if the
allocations it takes are granted (`metricAllocs`), and ends the loop if
one of them is refused or its type byte is no type. The node of the list
is one allocation more: without it the loop goes on, and the metric is
lost.
-/
import Monikor.Wire.Proofs.Decode

namespace Monikor

open Bytes

variable {e : Endian} {mem : List UInt8} {off : Nat} {id : UInt16}
  {m : Metric} {a : Allocs}

-- ============================================================ the allocator

/-- The next `n` allocations succeed. -/
def Allocs.Grants (a : Allocs) (n : Nat) : Prop := ∀ i < n, a i = true

instance (n : Nat) : Decidable (a.Grants n) := Nat.decidableBallLT ..

/-- The answers behind the first `n`. -/
def Allocs.skip (a : Allocs) (n : Nat) : Allocs := fun i => a (i + n)

theorem Allocs.malloc_eq (a : Allocs) : a.malloc = (a 0, a.skip 1) := rfl

theorem Allocs.grants_add {n k : Nat} :
    a.Grants (n + k) ↔ a.Grants n ∧ (a.skip n).Grants k := by
  constructor
  · intro h
    exact ⟨fun i hi => h i (by omega), fun i hi => h (i + n) (by omega)⟩
  · rintro ⟨hn, hk⟩ i hi
    by_cases hin : i < n
    · exact hn i hin
    · have := hk (i - n) (by omega)
      rwa [Allocs.skip, Nat.sub_add_cancel (Nat.not_lt.mp hin)] at this

theorem Allocs.grants_one : a.Grants 1 ↔ a 0 = true :=
  ⟨fun h => h 0 Nat.one_pos, fun h i hi => by rwa [Nat.lt_one_iff.mp hi]⟩

theorem Allocs.grants_okAllocs (n : Nat) : okAllocs.Grants n := fun _ _ => rfl

/-- What `metric_from_serialized` allocates: the metric, its name, and
the characters of a string. -/
def metricAllocs (m : Metric) : Nat := if m.type = .string then 3 else 2

-- ================================================================ one record

theorem valueAt_type {dataSize : UInt64} {type : UInt8} {v : MetricValue}
    (h : valueAt mem off dataSize type = some v) :
    type = MetricType.string.code ↔ ∃ s, v = .string s := by
  unfold valueAt at h
  split at h
  case isTrue ht =>
      cases h
      simp [ht, MetricType.code]
  split at h
  case isTrue ht =>
      cases h
      simp [ht, MetricType.code]
  split at h
  case isTrue ht =>
      cases h
      simp [ht]
  case isFalse => cases h

/-- `metric_data_from_serialized`, its reads staying inside and its type a
type: only a string allocates. -/
theorem metricDataFromSerialized_alloc {dataSize : UInt64} {type : UInt8}
    {v : MetricValue} (h : ValueInside mem off dataSize type)
    (hv : valueAt mem off dataSize type = some v) :
    metricDataFromSerialized e mem off dataSize type a
      = .ok (if type = MetricType.string.code then
          (if a 0 then some v else none, a.skip 1) else (some v, a)) := by
  have hint : type = MetricType.integer.code →
      loadU64 e mem off = .ok (u64At mem off) := fun ht => loadU64_eq (h.1 ht)
  unfold metricDataFromSerialized
  unfold valueAt at hv
  by_cases hi : type = MetricType.integer.code
  · rw [if_pos hi] at hv ⊢
    cases hv
    rw [hint hi, if_neg (by rw [hi]; decide)]
    rfl
  rw [if_neg hi] at hv ⊢
  by_cases hf : type = MetricType.float.code
  · rw [if_pos hf] at hv ⊢
    cases hv
    have hin := h.2.1 hf
    have hlen : (window mem off 4).length = 4 := by
      unfold window
      simp only [List.length_take, List.length_drop]
      omega
    rw [load_ok hin, if_neg (by rw [hf]; decide)]
    simp only [bind, Except.bind, pure, Except.pure, ntohf]
    rw [← window, ntohl_hostValue e hlen, u32At]
  rw [if_neg hf] at hv ⊢
  by_cases hs : type = MetricType.string.code
  · rw [if_pos hs] at hv ⊢
    cases hv
    rw [if_pos hs, (strndup_eq mem off _ a).1 (h.2.2 hs), Allocs.malloc_eq]
    simp only [bind, Except.bind, pure, Except.pure]
    cases a 0 <;> rfl
  · rw [if_neg hs] at hv
    cases hv

/-- A record inside that describes a metric is decoded to it or to NULL,
by what the allocator answers, one request after the other. -/
theorem metricFromSerialized_alloc (hin : RecordInside mem off)
    (hm : recordAt mem off id = some m) :
    metricFromSerialized e mem off id a
      = .ok (if a 0 then
          if a 1 then
            if m.type = .string then
              (if a 2 then some m else none, a.skip 3)
            else (some m, a.skip 2)
          else (none, a.skip 2)
        else (none, a.skip 1)) := by
  obtain ⟨hhdr, hname, hvalue⟩ := hin
  obtain ⟨v, hv, rfl⟩ := Option.map_eq_some_iff.mp hm
  have hread := (metricHdrFromSerialized_eq e mem off).1 hhdr
  have hdup : strndup mem (off + serializedMetricHdrSize)
      (headerAt mem off).nameSize.toNat (a.skip 1)
      = .ok (if a 1 then some (stringAt mem (off + 28)
          (headerAt mem off).nameSize.toNat) else none, a.skip 2) :=
    (strndup_eq mem _ _ (a.skip 1)).1 hname
  have hdata := metricDataFromSerialized_alloc (e := e) (a := a.skip 2)
    hvalue hv
  have hstring := valueAt_type hv
  have htype : (headerAt mem off).type = MetricType.string.code
      ↔ Metric.type ⟨stringAt mem (off + 28)
          (headerAt mem off).nameSize.toNat, id,
        ⟨(headerAt mem off).clockSec.toInt64,
          (headerAt mem off).clockUsec.toInt64⟩, v,
        (headerAt mem off).flags⟩ = .string := by
    rw [hstring]
    cases v <;> simp [Metric.type]
  unfold metricFromSerialized
  simp only [Allocs.malloc_eq]
  cases h0 : a 0 with
  | false => rfl
  | true =>
  simp only [hread, bind, Except.bind, hdup, if_true]
  by_cases h1 : a 1 = true
  case neg =>
      rw [if_neg h1, if_neg h1]
      rfl
  rw [if_pos h1, if_pos h1]
  simp only [serializedMetricHdrSize, hdata, htype]
  -- the `if`s of the statement and of `hdata` are on the same conditions
  generalize Metric.type _ = type
  by_cases hs : type = .string
  case neg =>
      rw [if_neg hs, if_neg hs]
      rfl
  rw [if_pos hs, if_pos hs, show (a.skip 2) 0 = a 2 from rfl]
  by_cases h2 : a 2 = true
  · rw [if_pos h2, if_pos h2]
    rfl
  · rw [if_neg h2, if_neg h2]
    rfl

theorem grants_metricAllocs :
    a.Grants (metricAllocs m)
      ↔ a 0 = true ∧ a 1 = true ∧ (m.type = .string → a 2 = true) := by
  unfold metricAllocs
  constructor
  · intro h
    refine ⟨h 0 (by split <;> omega), h 1 (by split <;> omega), fun hs => ?_⟩
    exact h 2 (by rw [if_pos hs]; omega)
  · rintro ⟨h0, h1, h2⟩ i hi
    split at hi
    case isTrue hs =>
        obtain rfl | rfl | rfl : i = 0 ∨ i = 1 ∨ i = 2 := by omega
        · exact h0
        · exact h1
        · exact h2 hs
    case isFalse =>
        obtain rfl | rfl : i = 0 ∨ i = 1 := by omega
        · exact h0
        · exact h1

/-- With the allocations granted, the metric. -/
theorem metricFromSerialized_granted (hin : RecordInside mem off)
    (hm : recordAt mem off id = some m) (hg : a.Grants (metricAllocs m)) :
    metricFromSerialized e mem off id a
      = .ok (some m, a.skip (metricAllocs m)) := by
  obtain ⟨h0, h1, h2⟩ := grants_metricAllocs.mp hg
  rw [metricFromSerialized_alloc hin hm, if_pos h0, if_pos h1]
  unfold metricAllocs
  split
  case isTrue hs => rw [if_pos (h2 hs)]
  case isFalse => rfl

/-- NULL, for a refused allocation or for an unknown type byte. -/
theorem metricFromSerialized_null (hin : RecordInside mem off)
    (h : ∀ m, recordAt mem off id = some m → ¬ a.Grants (metricAllocs m)) :
    ∃ b, metricFromSerialized e mem off id a = .ok (none, b) := by
  cases hm : recordAt mem off id with
  | none =>
      obtain ⟨o, b, hread, ho, -⟩ := metricFromSerialized_inside e id a hin
      rw [hm, or_self] at ho
      exact ⟨b, ho ▸ hread⟩
  | some m =>
      have hno := h m hm
      rw [grants_metricAllocs] at hno
      rw [metricFromSerialized_alloc hin hm]
      split
      case isFalse => exact ⟨_, rfl⟩
      case isTrue h0 =>
      split
      case isFalse => exact ⟨_, rfl⟩
      case isTrue h1 =>
      split
      case isFalse hs => exact absurd ⟨h0, h1, fun hs' => absurd hs' hs⟩ hno
      case isTrue hs =>
          rw [if_neg fun h2 => hno ⟨h0, h1, fun _ => h2⟩]
          exact ⟨_, rfl⟩

/-- A metric is only decoded from inside, whatever the allocator answers. -/
theorem metricFromSerialized_some {b : Allocs}
    (h : metricFromSerialized e mem off id a = .ok (some m, b)) :
    RecordInside mem off ∧ recordAt mem off id = some m
      ∧ a.Grants (metricAllocs m) := by
  have hin : RecordInside mem off := by
    unfold metricFromSerialized at h
    simp only [Allocs.malloc_eq] at h
    cases h0 : a 0 with
    | false =>
        rw [h0] at h
        cases h
    | true =>
    rw [h0] at h
    by_cases hhdr : off + 28 ≤ mem.length
    case neg =>
        obtain ⟨f, hf⟩ := (metricHdrFromSerialized_eq e mem off).2 hhdr
        rw [hf] at h
        cases h
    simp only [(metricHdrFromSerialized_eq e mem off).1 hhdr, bind,
      Except.bind] at h
    by_cases hname : StringInside mem (off + 28)
        (headerAt mem off).nameSize.toNat
    case neg =>
        obtain ⟨f, hf⟩ := (strndup_eq mem (off + 28) _ (a.skip 1)).2 hname
        rw [serializedMetricHdrSize, hf] at h
        cases h
    refine ⟨hhdr, hname, ?_⟩
    by_contra hvalue
    simp only [serializedMetricHdrSize,
      (strndup_eq mem (off + 28) _ (a.skip 1)).1 hname] at h
    split at h
    · cases h
    · obtain ⟨f, hf⟩ := metricDataFromSerialized_fault e _ hvalue
      rw [hf] at h
      cases h
  obtain ⟨o, c, hread, ho, -⟩ := metricFromSerialized_inside e id a hin
  rw [h] at hread
  cases hread
  have hm := (ho.resolve_left (by simp)).symm
  refine ⟨hin, hm, ?_⟩
  by_contra hg
  obtain ⟨c, hnull⟩ := metricFromSerialized_null (e := e) hin (a := a)
    fun m' hm' => by
      rw [hm] at hm'
      cases hm'
      exact hg
  rw [h] at hnull
  cases hnull

-- ================================================================= one round

variable {dataSize : UInt64} {junk : Nat → UInt16} {n i : Nat}
  {ms : List Metric}

/-- A round that decodes a metric: the loop moves on by what the metric
takes, and the metric is in the list if its node could be allocated. -/
theorem unserializeLoop_granted (hoff : off < dataSize.toNat)
    (hin : RecordInside mem off) (hm : recordAt mem off (junk i) = some m)
    (hg : a.Grants (metricAllocs m)) :
    unserializeLoop e mem dataSize junk (n + 1) i off ms a
      = unserializeLoop e mem dataSize junk n (i + 1)
        (off + (serializedMetricHdrSize + m.name.strlen + metricDataSize m))
        (if a (metricAllocs m) then ms ++ [m] else ms)
        (a.skip (metricAllocs m + 1)) := by
  have hskip : (a.skip (metricAllocs m)).skip 1
      = a.skip (metricAllocs m + 1) := by
    funext k
    unfold Allocs.skip
    congr 1
    omega
  have hnode : (a.skip (metricAllocs m)) 0 = a (metricAllocs m) := by
    unfold Allocs.skip
    rw [Nat.zero_add]
  rw [unserializeLoop, if_pos hoff, metricFromSerialized_granted hin hm hg]
  simp only [bind, Except.bind, Allocs.malloc_eq, hskip, hnode]

/-- A round that decodes nothing ends the loop, with the metrics so far. -/
theorem unserializeLoop_null (hoff : off < dataSize.toNat)
    (hin : RecordInside mem off)
    (h : ∀ m, recordAt mem off (junk i) = some m →
      ¬ a.Grants (metricAllocs m)) :
    ∃ b, unserializeLoop e mem dataSize junk (n + 1) i off ms a
      = .ok ⟨i, some ms, off, b⟩ := by
  obtain ⟨b, hnull⟩ := metricFromSerialized_null (e := e) hin h
  exact ⟨b, by rw [unserializeLoop, if_pos hoff, hnull]; rfl⟩

end Monikor
