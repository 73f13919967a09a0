/-
The cache limit from the configuration to the eviction.

The megabytes of `cache.max_size_mb` are multiplied in an `int`, and the
`int` is extended to a `size_t`, so the limit that is enforced agrees with
the one configured modulo 2^32 and is below 2^31 or within 2^31 of 2^64. A
store of one size in between tells the two apart (`exists_cache`).
-/
import Monikor.Core.Evict
import Monikor.Core.Proofs.Load
import Monikor.Lists.Proofs.Atomic
import Monikor.Lists.Proofs.Evict

namespace Monikor

open Machine

variable {h h' : Heap} {A A' : Lists} {st : StoreRef} {c c' : Store Cell}
  {s : CString} {limit : Nat} {maxSize : Int32}

-- ============================================================== the eviction

/-- An eviction leaves of the delta list what is not before the cut-off, and
of the cache what fits. -/
theorem evictMetrics_spec (hs : StoreRep A h st c)
    (pollInterval maxSize : Int32) (now : Timeval) :
    ∃ n h' A' delta, h.evictMetrics st pollInterval maxSize now = some (n, h')
      ∧ StoreRep A' h' st { c with
        delta, cache := (Seq.evictCacheLoop Cell.size
          (sizeOfInt maxSize).toNat c.cache).2 } := by
  obtain ⟨hcd, hcc, hdc⟩ := hs.ne
  let cutoff : Timeval :=
    { now with sec := now.sec - (3 * pollInterval).toInt64 }
  obtain ⟨deltas, delta, h₁, hrun₁, hr₁⟩ : ∃ n delta h₁,
      h.metricStoreEvictDelta st cutoff = some (n, h₁)
        ∧ Rep h₁ (Function.update A st.delta (some delta)) :=
    ⟨_, _, evictDelta_spec st cutoff hs.rep hs.delta⟩
  have hcache : Function.update A st.delta (some delta) st.cache
      = some c.cache := by
    rw [Function.update_of_ne (Ne.symm hdc), hs.cache]
  obtain ⟨h₂, hrun₂, hr₂, -⟩ :=
    metricStoreEvictCache_spec hr₁ hcache (sizeOfInt maxSize).toNat
  refine ⟨deltas + (Seq.evictCacheLoop Cell.size (sizeOfInt maxSize).toNat
    c.cache).1.length, h₂, _, delta, ?_, hr₂, hs.distinct, ?_, ?_, ?_⟩
  · unfold Heap.evictMetrics
    simp only [Option.bind_eq_bind]
    rw [hrun₁, Option.bind_some, hrun₂]
    rfl
  · rw [Function.update_of_ne hcc, Function.update_of_ne hcd, hs.current]
  · rw [Function.update_of_ne hdc, Function.update_self]
  · exact Function.update_self ..

/-- The cache is held to `limit` bytes, and none is evicted from one that
fits. -/
def CacheHeld (maxSize : Int32) (limit : Nat) : Prop :=
  ∀ h A st c pollInterval now, StoreRep A h st c →
    ∃ n h' A' c', h.evictMetrics st pollInterval maxSize now = some (n, h')
      ∧ StoreRep A' h' st c' ∧ cellsSize c'.cache ≤ limit
      ∧ (cellsSize c.cache ≤ limit → c'.cache = c.cache)

/-- What is left of the cache fits the limit of the call, and all of it is
left if it did before. -/
theorem evictCacheLoop_fits (cs : List Cell) (bound : Nat) :
    cellsSize (Seq.evictCacheLoop Cell.size bound cs).2 ≤ bound
      ∧ (cellsSize cs ≤ bound →
        (Seq.evictCacheLoop Cell.size bound cs).2 = cs) := by
  obtain ⟨hfits, hleast⟩ := evictCacheLoop_isLeast Cell.size bound cs
  rw [evictCacheLoop_drop]
  refine ⟨hfits, fun hall => ?_⟩
  have hzero := hleast (show Seq.dataSize Cell.size (cs.drop 0) ≤ bound from hall)
  rw [Nat.le_zero.mp hzero]
  rfl

theorem cacheHeld_self (maxSize : Int32) :
    CacheHeld maxSize (sizeOfInt maxSize).toNat := by
  intro h A st c pollInterval now hs
  obtain ⟨n, h', A', delta, hrun, hs'⟩ :=
    evictMetrics_spec hs pollInterval maxSize now
  obtain ⟨hfits, hsame⟩ :=
    evictCacheLoop_fits c.cache (sizeOfInt maxSize).toNat
  exact ⟨n, h', A', _, hrun, hs', hfits, hsame⟩

/-- Two readings of a cache have one size. -/
theorem StoreRep.cacheSize (hs : StoreRep A h st c) (hs' : StoreRep A' h st c') :
    cellsSize c.cache = cellsSize c'.cache := by
  obtain ⟨hdr, hh, hcs⟩ := hs.rep.isList _ _ hs.cache
  obtain ⟨hdr', hh', hcs'⟩ := hs'.rep.isList _ _ hs'.cache
  obtain rfl : hdr = hdr' := Option.some.inj (hh.symm.trans hh')
  rw [← hcs.dataSize, hcs'.dataSize]

/-- If the cache is held to a limit, there is no cache of a size between it
and the limit of the call. -/
theorem CacheHeld.no_gap (hheld : CacheHeld maxSize limit)
    (hs : StoreRep A h st c) :
    cellsSize c.cache ≤ limit ↔ cellsSize c.cache ≤ (sizeOfInt maxSize).toNat := by
  obtain ⟨n, h₁, A₁, c₁, hrun₁, hs₁, hfits₁, hsame₁⟩ :=
    hheld h A st c 0 ⟨0, 0⟩ hs
  obtain ⟨n₂, h₂, A₂, c₂, hrun₂, hs₂, hfits₂, hsame₂⟩ :=
    cacheHeld_self maxSize h A st c 0 ⟨0, 0⟩ hs
  obtain ⟨-, rfl⟩ := Prod.mk.inj (Option.some.inj (hrun₁.symm.trans hrun₂))
  have hsize := hs₁.cacheSize hs₂
  constructor
  · intro hle
    rw [← hsame₁ hle, hsize]
    exact hfits₂
  · intro hle
    rw [← hsame₂ hle, ← hsize]
    exact hfits₁

-- ========================================================== caches of a size

/-- A metric of one letter. -/
def smallMetric : Metric := ⟨CString.a, 0, ⟨0, 0⟩, .int 0, 0⟩

/-- There are caches of every multiple of 73 bytes. -/
theorem exists_cache (k : Nat) : ∃ h A st c, StoreRep A h st c
    ∧ cellsSize c.cache = k * 73 := by
  have hcurrent : ∀ k : Nat, ∃ u : StoreUse,
      u.Shows ⟨List.replicate k smallMetric, [], []⟩ := by
    intro k
    induction k with
    | zero =>
        obtain ⟨u, A, c, -, hs, hc⟩ := start_settled
        exact ⟨u, A, c, hs.holds, hc⟩
    | succ k ih =>
        obtain ⟨u, hu⟩ := ih
        obtain ⟨u', -, hu'⟩ :=
          storeUse_simulates hostFloat (.storePush smallMetric) u _ hu
        refine ⟨u', ?_⟩
        rw [List.replicate_succ']
        exact hu'
  obtain ⟨u, hu⟩ := hcurrent k
  obtain ⟨u', -, A, c, hs, hc⟩ := storeUse_simulates hostFloat .cache u _ hu
  refine ⟨_, A, _, c, hs.storeRep, ?_⟩
  have hcache : c.cache.map Cell.metric = List.replicate k smallMetric :=
    congrArg Store.cache hc
  have hsum : cellsSize c.cache
      = ((c.cache.map Cell.metric).map metricNodeSize).sum := by
    simp [cellsSize, Function.comp_def]
  rw [hsum, hcache, List.map_replicate, List.sum_replicate_nat]
  rfl

-- ================================================================ the limits

/-- An `int` as a `size_t`, by value. -/
theorem sizeOfInt_toNat (i : Int32) :
    (sizeOfInt i).toNat = (i.toInt % 2 ^ 64).toNat := by
  have hbits : (sizeOfInt i).toBitVec = BitVec.ofInt 64 i.toInt := by
    rw [← Int32.toInt_toInt64]
    exact (BitVec.ofInt_toInt).symm
  have hnat : (sizeOfInt i).toNat = (sizeOfInt i).toBitVec.toNat := rfl
  rw [hnat, hbits, BitVec.toNat_ofInt]
  rfl

/-- The limit of the call for `n` megabytes. -/
theorem setupCacheSize_toNat {scalar : String → Option CString} {n : Nat}
    (hs : scalar "cache.max_size_mb" = some s)
    (hnum : isNumber (some s) = true) (hn : Numerals.value 10 s.bytes = n)
    (hlong : n < 2 ^ 63) :
    (sizeOfInt (setupCacheSize scalar)).toNat
      = (((n * 2 ^ 20 : Nat) : Int).bmod (2 ^ 32) % 2 ^ 64).toNat := by
  have hset : setupCacheSize scalar = atoi s * 1024 * 1024 := by
    unfold setupCacheSize numberOr
    rw [hs]
    exact if_pos hnum
  have hnarrow : narrow n = (n : Int).bmod (2 ^ 32) := by
    unfold narrow Numerals.clampLong
    rw [show max (-2 ^ 63) (min (2 ^ 63 - 1) (n : Int)) = n by omega]
  have hkilo : (1024 : Int32).toInt = 1024 := rfl
  have hvalue : (atoi s * 1024 * 1024).toInt
      = ((n * 2 ^ 20 : Nat) : Int).bmod (2 ^ 32) := by
    rw [Int32.toInt_mul, Int32.toInt_mul, atoi_digits hnum, hn, hnarrow, hkilo,
      Int.bmod_mul_bmod, Int.mul_assoc, Int.bmod_mul_bmod]
    push_cast
    rfl
  rw [sizeOfInt_toNat, hset, hvalue]

/-- A number and what is left of it by way of an `int` are equal, or 2^32
apart. -/
theorem extend_narrow {m bound : Nat} (hm : m < 2 ^ 64)
    (hbound : bound = ((m : Int).bmod (2 ^ 32) % 2 ^ 64).toNat) :
    (bound = m ↔ m < 2 ^ 31 ∨ 2 ^ 64 - 2 ^ 31 ≤ m)
      ∧ (bound ≠ m → bound + 2 ^ 32 ≤ m ∨ m + 2 ^ 32 ≤ bound) := by
  rw [Int.bmod_def] at hbound
  split at hbound
  · constructor
    · omega
    · omega
  · constructor
    · omega
    · omega

/-- The cache limit of a configuration is the one enforced exactly if an `int`
holds its bytes, or they are within 2^31 of what a `size_t` holds. -/
theorem cacheHeld_iff {scalar : String → Option CString}
    (hs : scalar "cache.max_size_mb" = some s)
    (hnum : isNumber (some s) = true)
    (hfits : Numerals.value 10 s.bytes * 2 ^ 20 < 2 ^ 64) :
    CacheHeld (setupCacheSize scalar) (Numerals.value 10 s.bytes * 2 ^ 20)
      ↔ Numerals.value 10 s.bytes < 2048
        ∨ 2 ^ 44 - 2048 ≤ Numerals.value 10 s.bytes := by
  obtain ⟨n, hn⟩ : ∃ n, Numerals.value 10 s.bytes = n := ⟨_, rfl⟩
  rw [hn] at hfits ⊢
  have hbound := setupCacheSize_toNat hs hnum hn (by omega)
  obtain ⟨heq, hapart⟩ := extend_narrow hfits hbound
  constructor
  case mp =>
      intro hheld
      suffices hsame : (sizeOfInt (setupCacheSize scalar)).toNat = n * 2 ^ 20 by
        have hcase := heq.mp hsame
        omega
      by_contra hne
      obtain ⟨h, A, st, c, hst, hsize⟩ := exists_cache
        (min (sizeOfInt (setupCacheSize scalar)).toNat (n * 2 ^ 20) / 73 + 1)
      have hgap := hheld.no_gap hst
      have hfar := hapart hne
      omega
  case mpr =>
      intro hcase
      have hsame : (sizeOfInt (setupCacheSize scalar)).toNat = n * 2 ^ 20 :=
        heq.mpr (by omega)
      exact hsame ▸ cacheHeld_self (setupCacheSize scalar)

/-- The limit of the shipped configuration, 30 megabytes. -/
theorem cacheHeld_shipped :
    let s : CString := ⟨[51, 48], by decide⟩
    CacheHeld (setupCacheSize fun _ => some s) (30 * 2 ^ 20)
      ↔ 30 < 2048 ∨ 2 ^ 44 - 2048 ≤ 30 :=
  cacheHeld_iff (s := ⟨[51, 48], by decide⟩) rfl (by decide) (by decide)

/-- 4096 megabytes are 2^32 bytes, and nothing in an `int`: every cache is
emptied. -/
theorem cache_not_held :
    let s : CString := ⟨[52, 48, 57, 54], by decide⟩
    ¬ CacheHeld (setupCacheSize fun _ => some s) (4096 * 2 ^ 20) := by
  intro s hheld
  obtain ⟨h, A, st, c, hst, hsize⟩ := exists_cache 1
  have hgap := hheld.no_gap hst
  have hbound : (sizeOfInt (setupCacheSize fun _ => some s)).toNat = 0 := by
    decide
  omega

end Monikor
