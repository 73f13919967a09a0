/-
Aggregation: what a store makes of the pushes of one summed metric.

The first push of the key is appended to the current list, each later one
is added into it, and the pushes of other keys edit other entries in
place or append (`Touched`). So the list keeps one entry of the key where
the first one went in, with its sum so far (`SumAt`); a sum modulo 2⁶⁴
does not depend on the order of its terms.
-/
import Mathlib.Data.List.Perm.Basic
import Monikor.Lists.Proofs.Delta

namespace Monikor

variable {F : FloatOps} {s : Store Metric} {m : Metric} {K : Key}

-- ============================================================ vocabulary

/-- An INTEGER metric with AGGREGATE set and DELTA clear. -/
structure Metric.IsSummand (m : Metric) : Prop where
  integer : m.type = .integer
  aggregate : m.isAggregate = true
  not_delta : m.isDelta = false

instance (m : Metric) : Decidable m.IsSummand :=
  decidable_of_iff
    (m.type = .integer ∧ m.isAggregate = true ∧ m.isDelta = false)
    ⟨fun h => ⟨h.1, h.2.1, h.2.2⟩, fun h => ⟨h.1, h.2, h.3⟩⟩

/-- The values a run pushes under one key, added up. -/
def pushedSum (K : Key) (ms : List Metric) : Nat :=
  ((entries K ms).map Metric.intValue).sum

/-- The list has one entry of the first metric's key. It stands behind
entries of the keys `ks`, is the first metric but for its value, and that
is the total modulo 2⁶⁴. -/
def SumAt (first : Metric) (ks : List Key) (total : Nat)
    (l : List Metric) : Prop :=
  ∃ (A B : List Metric) (w : UInt64),
    l = A ++ { first with value := .int w } :: B
      ∧ A.map Metric.key = ks ∧ first.key ∉ ks
      ∧ first.key ∉ B.map Metric.key ∧ w.toNat = total % 2 ^ 64

-- ========================================================== other pushes

/-- The sum stays where it is while other keys are pushed. -/
theorem SumAt.other {first : Metric} {ks : List Key} {total : Nat} {k : Key}
    {l l' : List Metric} (h : SumAt first ks total l) (ht : Touched k l l')
    (hk : k ≠ first.key) : SumAt first ks total l' := by
  obtain ⟨A, B, w, rfl, hA, hks, hB, hw⟩ := h
  cases ht with
  | same => exact ⟨A, B, w, rfl, hA, hks, hB, hw⟩
  | append hx =>
      rename_i x
      refine ⟨A, B ++ [x], w, by simp, hA, hks, ?_, hw⟩
      simp only [List.map_append, List.map_cons, List.map_nil,
        List.mem_append, List.mem_singleton, not_or]
      exact ⟨hB, fun e => hk (hx.symm.trans e.symm)⟩
  | edit hl hx hy =>
      rename_i pre post x y
      have hsum : x ≠ { first with value := .int w } := by
        intro e
        subst e
        exact hk hx.symm
      rcases List.append_eq_append_iff.mp hl with ⟨C, rfl, hC⟩ | ⟨C, rfl, hC⟩
      · -- the entry edited is behind the sum, or the sum itself
        cases C with
        | nil => exact absurd (List.cons.inj hC).1.symm hsum
        | cons c C =>
            obtain ⟨rfl, rfl⟩ := List.cons.inj hC
            refine ⟨A, C ++ y :: post, w, by simp, hA, hks, ?_, hw⟩
            simpa [hx, hy] using hB
      · -- it is in front of the sum
        cases C with
        | nil => exact absurd (List.cons.inj hC).1 hsum
        | cons c C =>
            obtain ⟨rfl, rfl⟩ := List.cons.inj hC
            refine ⟨pre ++ y :: C, B, w, by simp, ?_, hks, hB, hw⟩
            simpa [hx, hy] using hA

-- =================================================== the key's own pushes

theorem Metric.IsSummand.value (h : m.IsSummand) :
    ∃ v : UInt64, m.value = .int v ∧ m.intValue = v.toNat := by
  have htype := h.integer
  unfold Metric.type at htype
  unfold Metric.intValue
  split at htype
  case h_1 v hv => exact ⟨v, hv, by rw [hv]⟩
  case h_2 => cases htype
  case h_3 => cases htype

/-- Metrics of other keys take no summand. -/
theorem aggregatedSum_none {l : List Metric} (hl : m.key ∉ l.map Metric.key) :
    ∀ c ∈ l, aggregatedSum F m c = none := by
  intro c hc
  cases hsum : aggregatedSum F m c with
  | none => rfl
  | some r =>
      exact absurd (List.mem_map.mpr ⟨c, hc, (aggregatedSum_key hsum).1⟩) hl

/-- A summand goes past the DELTA test and into the aggregation. -/
theorem metricStorePush_summand (h : m.IsSummand) :
    Seq.metricStorePush F s m = Seq.metricStorePushAggregate F s m := by
  simp [Seq.metricStorePush, Seq.metricStorePushComputed, h.not_delta,
    h.aggregate]

/-- The first push of the key is appended. -/
theorem SumAt.first (h : m.IsSummand)
    (hnone : m.key ∉ s.current.map Metric.key) :
    SumAt m (s.current.map Metric.key) m.intValue
      (Seq.metricStorePush F s m).2.current := by
  obtain ⟨v, hv, hint⟩ := h.value
  have hr := replaceFirst_eq_none.mpr (aggregatedSum_none (F := F) hnone)
  rw [metricStorePush_summand h, Seq.metricStorePushAggregate, hr]
  refine ⟨s.current, [], v, ?_, rfl, hnone, by simp, ?_⟩
  · show s.current ++ [m] = _
    rw [← hv]
  · rw [hint]
    exact (Nat.mod_eq_of_lt v.toNat_lt_size).symm

/-- Each later push of the key is added to the sum. -/
theorem SumAt.add {first : Metric} {ks : List Key} {total : Nat}
    (hs : SumAt first ks total s.current) (h : m.IsSummand)
    (hkey : m.key = first.key) :
    SumAt first ks (total + m.intValue)
      (Seq.metricStorePush F s m).2.current := by
  obtain ⟨A, B, w, hcur, hA, hks, hB, hw⟩ := hs
  obtain ⟨v, hv, hint⟩ := h.value
  have hid : first.id = m.id := congrArg Key.id hkey.symm
  have hname : first.name = m.name := congrArg Key.name hkey.symm
  have hsum : aggregatedSum F m { first with value := .int w }
      = some { first with value := .int (w + v) } := by
    simp [aggregatedSum, hid, hname, metricAdd, hv]
  have hnone : ∀ z ∈ A, aggregatedSum F m z = none :=
    aggregatedSum_none (by rwa [hkey, hA])
  have hr : replaceFirst (aggregatedSum F m)
      (A ++ { first with value := .int w } :: B) = _ :=
    replaceFirst_skip hnone hsum
  rw [metricStorePush_summand h, Seq.metricStorePushAggregate, hcur, hr]
  refine ⟨A, B, w + v, rfl, hA, hks, hB, ?_⟩
  rw [UInt64.toNat_add, hw, hint, Nat.mod_add_mod]

-- ============================================================== whole runs

theorem pushes_cons (m : Metric) (ms : List Metric) :
    pushes F s (m :: ms) = pushes F (Seq.metricStorePush F s m).2 ms := rfl

theorem pushes_append (ms ns : List Metric) :
    pushes F s (ms ++ ns) = pushes F (pushes F s ms) ns := by
  simp [pushes, List.foldl_append]

theorem pushedSum_cons (m : Metric) (ms : List Metric) :
    pushedSum K (m :: ms)
      = (if m.key = K then m.intValue else 0) + pushedSum K ms := by
  unfold pushedSum
  by_cases hk : m.key = K <;> simp [entries, hk]

/-- A run without pushes of a key leaves its entries alone. -/
theorem pushes_other (ms : List Metric) :
    ∀ s, entries K ms = [] →
      entries K (pushes F s ms).current = entries K s.current := by
  induction ms with
  | nil => exact fun s _ => rfl
  | cons m ms ih =>
      intro s hms
      have hk : m.key ≠ K := by
        intro hk
        simp [entries, hk] at hms
      rw [pushes_cons, ih _ (by simpa [entries, hk] using hms)]
      exact (metricStorePush_other hk).1

/-- The invariant of a run of pushes, from the first one of the key on. -/
theorem pushes_sumAt {first : Metric} {ks : List Key} (ms : List Metric) :
    ∀ (s : Store Metric) (total : Nat), SumAt first ks total s.current →
      (∀ m ∈ ms, m.key = first.key → m.IsSummand) →
      SumAt first ks (total + pushedSum first.key ms)
        (pushes F s ms).current := by
  induction ms with
  | nil => exact fun s total hs _ => hs
  | cons m ms ih =>
      intro s total hs hms
      have hrest := fun n hn => hms n (List.mem_cons_of_mem _ hn)
      rw [pushes_cons, pushedSum_cons, ← Nat.add_assoc]
      apply ih _ _ _ hrest
      by_cases hk : m.key = first.key
      · rw [if_pos hk]
        exact hs.add (hms m (List.mem_cons_self ..) hk) hk
      · rw [if_neg hk]
        exact hs.other metricStorePush_touched.1 hk

theorem not_mem_keys_iff {l : List Metric} :
    K ∉ l.map Metric.key ↔ entries K l = [] := by
  simp [entries, List.filter_eq_nil_iff]

/-- The entry a sum is in is the only one of its key. -/
theorem SumAt.entries_eq {first : Metric} {ks : List Key} {total : Nat}
    {l : List Metric} (h : SumAt first ks total l) :
    entries first.key l
      = [{ first with value := .int (UInt64.ofNat total) }] := by
  obtain ⟨A, B, w, rfl, rfl, hA, hB, hw⟩ := h
  have hword : w = UInt64.ofNat total := by
    apply UInt64.toNat_inj.mp
    rw [hw, UInt64.toNat_ofNat']
  have hself : entries first.key [{ first with value := .int w }]
      = [{ first with value := .int w }] := by
    simp [entries, Metric.key]
  rw [not_mem_keys_iff] at hA hB
  unfold entries at hA hB hself ⊢
  rw [List.filter_append, hA, List.nil_append, ← List.singleton_append,
    List.filter_append, hself, hB, hword, List.append_nil]

/-- The first push of a key splits a run. -/
theorem exists_first_push {ms : List Metric} (h : entries K ms ≠ []) :
    ∃ pre first post, ms = pre ++ first :: post ∧ entries K pre = []
      ∧ first.key = K := by
  induction ms with
  | nil => exact absurd rfl h
  | cons m ms ih =>
      by_cases hk : m.key = K
      · exact ⟨[], m, ms, rfl, rfl, hk⟩
      · obtain ⟨pre, first, post, rfl, hpre, hfirst⟩ :=
          ih (by simpa [entries, hk] using h)
        refine ⟨m :: pre, first, post, rfl, ?_, hfirst⟩
        simpa [entries, hk] using hpre

/-- A run whose pushes of the key are summands, from its first one. -/
theorem pushes_from_first {ms pre post : List Metric} {first : Metric}
    (hcur : entries K s.current = [])
    (hms : ∀ m ∈ ms, m.key = K → m.IsSummand)
    (hsplit : ms = pre ++ first :: post) (hpre : entries K pre = [])
    (hfirst : first.key = K) :
    SumAt first ((pushes F s pre).current.map Metric.key) (pushedSum K ms)
      (pushes F s ms).current := by
  subst hsplit
  subst hfirst
  have hnone : first.key ∉ (pushes F s pre).current.map Metric.key := by
    rw [not_mem_keys_iff, pushes_other pre s hpre, hcur]
  have hsum : pushedSum first.key (pre ++ first :: post)
      = first.intValue + pushedSum first.key post := by
    unfold pushedSum entries at *
    rw [List.filter_append, hpre]
    simp
  rw [pushes_append, pushes_cons, hsum]
  apply pushes_sumAt post _ _ (SumAt.first (hms first (by simp) rfl) hnone)
  exact fun m hm => hms m (by simp [hm])

/-- The value a run leaves under a key all of whose pushes are summands. -/
theorem pushes_sum_value (hcur : entries K s.current = [])
    {ms : List Metric} (hms : ∀ m ∈ ms, m.key = K → m.IsSummand) :
    (entries K (pushes F s ms).current).map Metric.value
      = if entries K ms = [] then []
        else [.int (UInt64.ofNat (pushedSum K ms))] := by
  split
  case isTrue hnone => rw [pushes_other ms s hnone, hcur, List.map_nil]
  case isFalse hsome =>
      obtain ⟨pre, first, post, hsplit, hpre, rfl⟩ := exists_first_push hsome
      rw [(pushes_from_first (F := F) hcur hms hsplit hpre rfl).entries_eq]
      rfl

/-- Aggregation sums, in any order: from a store whose current list has
nothing of a key, in any run of pushes whose pushes of the key are INTEGER
metrics with AGGREGATE set and DELTA clear, the current list ends with one
metric of the key. Its value is the sum of the pushed values modulo 2⁶⁴,
the rest is the first such push, and it stands where that was appended.
Any permutation of the run leaves the same value under the key. -/
theorem aggregation_sums (F : FloatOps) (K : Key) (s : Store Metric)
    (ms : List Metric) (hcur : entries K s.current = [])
    (hms : ∀ m ∈ ms, m.key = K → m.IsSummand) :
    (∀ pre first post, ms = pre ++ first :: post → entries K pre = [] →
      first.key = K →
      ∃ (A B : List Metric) (sum : Metric),
        (pushes F s ms).current = A ++ sum :: B
          ∧ entries K (pushes F s ms).current = [sum]
          ∧ sum = { first with
              value := .int (UInt64.ofNat (pushedSum K ms)) }
          ∧ A.map Metric.key = (pushes F s pre).current.map Metric.key)
      ∧ ∀ ms', ms.Perm ms' →
          (entries K (pushes F s ms').current).map Metric.value
            = (entries K (pushes F s ms).current).map Metric.value := by
  constructor
  · intro pre first post hsplit hpre hfirst
    have hsum := pushes_from_first (F := F) hcur hms hsplit hpre hfirst
    have hone := hsum.entries_eq
    obtain ⟨A, B, w, hl, hA, -, -, hw⟩ := hsum
    have hword : w = UInt64.ofNat (pushedSum K ms) := by
      apply UInt64.toNat_inj.mp
      rw [hw, UInt64.toNat_ofNat']
    rw [hfirst] at hone
    exact ⟨A, B, _, by rw [hl, hword], hone, rfl, hA⟩
  · intro ms' hperm
    have hent : (entries K ms).Perm (entries K ms') := hperm.filter _
    rw [pushes_sum_value hcur hms, pushes_sum_value hcur fun m hm =>
      hms m (hperm.mem_iff.mpr hm)]
    have hnil : entries K ms' = [] ↔ entries K ms = [] := by
      rw [← List.length_eq_zero_iff, ← List.length_eq_zero_iff,
        hent.length_eq]
    have hsum : pushedSum K ms' = pushedSum K ms :=
      ((hent.map Metric.intValue).sum_nat).symm
    simp only [hnil, hsum]

/-- Three summands around a counter of the same name and another id, with
a sum past 2⁶⁴. -/
theorem aggregation_sums_three :
    let K : Key := ⟨7, CString.a⟩
    let m (v : UInt64) (t : Int64) : Metric :=
      ⟨CString.a, 7, ⟨t, 0⟩, .int v, metricAggregate⟩
    let other : Key := ⟨8, CString.a⟩
    let ms := [m 5 10, other.counter ⟨1, ⟨10, 0⟩⟩, m (0 - 1) 11,
      other.counter ⟨4, ⟨11, 0⟩⟩, m 6 12]
    entries K (pushes hostFloat Seq.metricStoreNew ms).current = [m 10 10] := by
  intro K m other ms
  obtain ⟨A, B, sum, -, hone, hsum, -⟩ :=
    (aggregation_sums hostFloat K Seq.metricStoreNew ms rfl (by decide)).1 []
      (m 5 10) _ rfl rfl rfl
  rw [hone, hsum]
  decide +kernel

end Monikor
