/-
What becomes of the metrics handed to a store.

A metric is loose when it is live and in no list (`Loose`): nobody in the
store will free it. A push that goes through leaves loose what was loose
before it and was not pushed (`metricStorePush_loose`): the pushed metric
is listed or freed, the baseline it replaces is freed, and the difference
is listed or freed in its turn. A push that returns a code leaves the
metric loose, and no caller takes it back.

The proofs compute the heap each path ends with and compare it with the
lists it holds; which lists these are is no choice (`Rep.unique`).
-/
import Monikor.Lists.Proofs.Account
import Monikor.Lists.Proofs.StoreMoves

namespace Monikor

open Linked

variable {F : FloatOps} {h h' : Heap} {A A' : Lists} {l p : Addr}
  {cs cur del : List Cell} {m : Metric} {st : StoreRef} {s : Store Metric}
  {rc : Int}

/-- The metric is live and in no list. -/
def Loose (h : Heap) (A : Lists) (p : Addr) : Prop :=
  h.metric p ≠ none ∧ ¬ Listed A p

-- ============================================================ uniqueness

/-- A header leads through the same cells in every reading of it. -/
theorem IsList.unique {hdr : MetricList} {ds : List Cell}
    (hcs : IsList h hdr cs) (hds : IsList h hdr ds) : cs = ds := by
  have hlinks := hcs.chain.unique hds.chain
  have hread : ∀ es : List Cell, IsList h hdr es → es.map some
      = (es.map Cell.link).map
        fun x => (h.metric x.2).map (Cell.mk x.1 x.2) := by
    intro es hes
    rw [List.map_map]
    apply List.map_congr_left
    intro e he
    show some e = (h.metric e.ptr).map (Cell.mk e.node e.ptr)
    rw [hes.contents e he]
    rfl
  have hmap : cs.map some = ds.map some := by
    rw [hread cs hcs, hread ds hds, hlinks]
  exact List.map_injective_iff.mpr (Option.some_injective _) hmap

/-- A heap holds one collection of lists. -/
theorem Rep.unique (hr : Rep h A) (hr' : Rep h A') : A = A' := by
  funext l
  cases hl : A l with
  | none =>
      cases hl' : A' l with
      | none => rfl
      | some cs =>
          obtain ⟨hdr, hh, -⟩ := hr'.isList l cs hl'
          rw [hr.absent l hl] at hh
          cases hh
  | some cs =>
      obtain ⟨hdr, hh, hcs⟩ := hr.isList l cs hl
      cases hl' : A' l with
      | none =>
          rw [hr'.absent l hl'] at hh
          cases hh
      | some ds =>
          obtain ⟨hdr', hh', hds⟩ := hr'.isList l ds hl'
          obtain rfl := Option.some.inj (hh.symm.trans hh')
          rw [hcs.unique hds]

/-- Heaps with the same headers and nodes list the same metrics. -/
theorem Rep.listed_of_same (hr : Rep h A) (hr' : Rep h' A')
    (hlist : h'.list = h.list) (hnode : h'.node = h.node) {a : Addr}
    (ha : Listed A a) : Listed A' a := by
  obtain ⟨l, cs, hl, hin⟩ := ha
  obtain ⟨hdr, hh, hcs⟩ := hr.isList l cs hl
  cases hl' : A' l with
  | none =>
      have habsent := hr'.absent l hl'
      rw [hlist, hh] at habsent
      cases habsent
  | some ds =>
      obtain ⟨hdr', hh', hds⟩ := hr'.isList l ds hl'
      rw [hlist, hh] at hh'
      obtain rfl := Option.some.inj hh'
      have hchain := hds.chain
      rw [hnode] at hchain
      have hlinks := congrArg (List.map Prod.snd) (hcs.chain.unique hchain)
      refine ⟨l, ds, hl', ?_⟩
      simp only [List.map_map] at hlinks
      exact hlinks ▸ hin

-- ================================================================= pushes

/-- What stays listed when one list is replaced. -/
theorem Listed.update {cs' : List Cell} {a : Addr} (hl : A l = some cs)
    (hsub : a ∈ cs.map Cell.ptr → a ∈ cs'.map Cell.ptr) (h : Listed A a) :
    Listed (Function.update A l (some cs')) a := by
  obtain ⟨l', ds, hl', ha⟩ := h
  by_cases e : l' = l
  · subst e
    obtain rfl := Option.some.inj (hl.symm.trans hl')
    exact ⟨l', cs', Function.update_self .., hsub ha⟩
  · exact ⟨l', ds, by rwa [Function.update_of_ne e], ha⟩

/-- Appending a metric to a list settles it. -/
theorem metricListPush_loose (hr : Rep h A) (hal : AllocsOk h)
    (hl : A l = some cs) (hp : h.metric p = some m) (hu : ¬ Listed A p)
    (hrun : h.metricListPush l p = some (rc, h')) (hr' : Rep h' A')
    {a : Addr} (ha : Loose h' A' a) : Loose h A a ∧ a ≠ p := by
  obtain ⟨h₁, hrun₁, hr₁, hq⟩ := metricListPush_spec hr hal hl hp hu
  obtain ⟨rfl, rfl⟩ := Prod.mk.inj (Option.some.inj (hrun.symm.trans hrun₁))
  obtain rfl := hr'.unique hr₁
  obtain ⟨hlive, hno⟩ := ha
  refine ⟨⟨by rwa [← hq.metric], fun hlist => hno ?_⟩, ?_⟩
  · apply hlist.update hl
    intro hin
    rw [List.map_append]
    exact List.mem_append_left _ hin
  · intro e
    subst e
    exact hno ⟨l, _, Function.update_self .., by simp⟩

/-- The aggregation settles the metric: it is listed, or added and
freed. -/
theorem metricStorePushAggregate_loose (hr : Rep h A) (hal : AllocsOk h)
    (hl : A st.current = some cs) (hp : h.metric p = some m)
    (hu : ¬ Listed A p)
    (hrun : h.metricStorePushAggregate F st p = some (rc, h'))
    (hr' : Rep h' A') {a : Addr} (ha : Loose h' A' a) :
    Loose h A a ∧ a ≠ p := by
  cases hf : replaceFirst (aggregatedSum F m) (cs.map Cell.metric) with
  | none =>
      have hall : ∀ c ∈ cs, aggregatedSum F m c.metric = none := by
        intro c hc
        exact replaceFirst_eq_none.mp hf _ (List.mem_map_of_mem hc)
      rw [metricStorePushAggregate_skip cs [] hr (by simpa using hl) hp
        hall] at hrun
      exact metricListPush_loose hr hal hl hp hu hrun hr' ha
  | some r =>
      obtain ⟨x, ys⟩ := r
      obtain ⟨pre', post', sum, hsplit, rfl, hpre', hsum⟩ :=
        replaceFirst_eq_some hf
      obtain ⟨pre, rest, rfl, rfl, hrest⟩ := List.map_eq_append_iff.mp hsplit
      obtain ⟨c, post, rfl, rfl, rfl⟩ := List.map_eq_cons_iff.mp hrest
      rw [metricStorePushAggregate_hit hr hl hp hu
        (fun d hd => hpre' _ (List.mem_map_of_mem hd)) hsum] at hrun
      cases hrun
      obtain ⟨hlive, hno⟩ := ha
      have hap : a ≠ p := by
        intro e
        subst e
        exact hlive (by simp)
      have hac : a ≠ c.ptr := by
        intro e
        subst e
        exact hno (hr.listed_of_same hr' rfl rfl ⟨_, _, hl, by simp⟩)
      refine ⟨⟨by simpa [hap, hac] using hlive, fun hlist => hno ?_⟩, hap⟩
      exact hr.listed_of_same hr' rfl rfl hlist

/-- So do the branches past the DELTA test. -/
theorem metricStorePushComputed_loose (hr : Rep h A) (hal : AllocsOk h)
    (hl : A st.current = some cs) (hp : h.metric p = some m)
    (hu : ¬ Listed A p)
    (hrun : h.metricStorePushComputed F st p = some (rc, h'))
    (hr' : Rep h' A') {a : Addr} (ha : Loose h' A' a) :
    Loose h A a ∧ a ≠ p := by
  unfold Heap.metricStorePushComputed at hrun
  simp only [hp, Option.bind_eq_bind, Option.bind_some] at hrun
  split at hrun
  · exact metricStorePushAggregate_loose hr hal hl hp hu hrun hr' ha
  · exact metricListPush_loose hr hal hl hp hu hrun hr' ha

section Match

variable {pre post : List Cell} {c : Cell}

/-- A DELTA push with a difference settles the metric, the baseline it
replaces and the difference. -/
theorem pushDelta_some_loose {new : Metric}
    (hb : PushReady h A st s cur (pre ++ c :: post) p m)
    (hpre : ∀ d ∈ pre, isCachedMetric m d.metric = false)
    (hcached : isCachedMetric m c.metric = true)
    (hd : metricComputeDelta F c.metric m = some new)
    (hrun : h.metricStorePushDelta F st p = some (rc, h'))
    (hr' : Rep h' A') {a : Addr} (ha : Loose h' A' a) :
    Loose h A a ∧ a ≠ p := by
  obtain ⟨hdr, -, hcs⟩ := hb.rep.isList _ _ hb.delta
  obtain ⟨n, hn, hnm⟩ := hcs.node_mem (c := c) (by simp)
  have hcm := hcs.contents c (by simp)
  have hb₂ := pushDelta_baseline (F := F) hb hn hcm hcached hd
  rw [pushDelta_hit hb hpre hcached hd hn hnm] at hrun
  -- the difference is settled, which leaves the heap with the baseline
  obtain ⟨⟨hlive, hno⟩, hbrk⟩ := metricStorePushComputed_loose hb₂.rep
    hb₂.allocs hb₂.current hb₂.live hb₂.unlisted hrun hr' ha
  have hac : a ≠ c.ptr := by
    intro e
    subst e
    exact hlive (by simp)
  have hlive' : h.metric a ≠ none := by simpa [hac, hbrk] using hlive
  refine ⟨⟨hlive', ?_⟩, ?_⟩
  · intro hlist
    refine hno (hlist.update hb.delta fun hin => ?_)
    simp only [List.map_append, List.map_cons, List.mem_append,
      List.mem_cons, hac, false_or] at hin ⊢
    exact hin.imp_right .inr
  · intro e
    subst e
    exact hno ⟨st.delta, _, Function.update_self .., by simp⟩

end Match

/-- A push that goes through leaves loose what was loose before it and
was not pushed. -/
theorem metricStorePush_loose (hb : PushReady h A st s cur del p m)
    (hrun : h.metricStorePush F st p = some (0, h')) (hr' : Rep h' A')
    {a : Addr} (ha : Loose h' A' a) : Loose h A a ∧ a ≠ p := by
  unfold Heap.metricStorePush at hrun
  simp only [hb.live, Option.bind_eq_bind, Option.bind_some] at hrun
  split at hrun
  case isFalse =>
      exact metricStorePushComputed_loose hb.rep hb.allocs hb.current hb.live
        hb.unlisted hrun hr' ha
  case isTrue =>
      rcases baseline_cells m del with
        ⟨hall, -⟩ | ⟨pre, c, post, rfl, hpre, hcached, -⟩
      · rw [metricStorePushDelta_skip del [] hb.rep (by simpa using hb.delta)
          hb.live hall] at hrun
        exact metricListPush_loose hb.rep hb.allocs hb.delta hb.live
          hb.unlisted hrun hr' ha
      · cases hd : metricComputeDelta F c.metric m with
        | some new =>
            exact pushDelta_some_loose hb hpre hcached hd hrun hr' ha
        | none =>
            -- this path returns -1
            obtain ⟨rc, h₁, _, _, _, hrun₁, -, -, hcode, -, -⟩ :=
              pushDelta_none hb hpre hcached hd
            have hzero := Option.some.inj (hrun.symm.trans hrun₁)
            have hone := congrArg Prod.fst hcode
            rw [← (Prod.mk.inj hzero).1] at hone
            cases hone

end Monikor
