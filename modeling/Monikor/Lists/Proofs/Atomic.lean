/-
A push to the store when an allocation fails.

`monikor_metric_store_push_delta` replaces the baseline before it pushes
the difference, so when that push finds no memory it answers with a code
and the delta list has changed. Every other path that answers with a code
has changed nothing. `PushKept` is the condition on the store, the metric
and the allocations that this path is not taken.
-/
import Monikor.Lists.Proofs.Owned

namespace Monikor

open Machine

variable {F : FloatOps} {h h' : Heap} {A : Lists} {l p : Addr}
  {cs cur : List Cell} {m : Metric} {st : StoreRef} {c : Store Cell}

-- ======================================================== reading the store

namespace Heap

/-- The metrics of the list at `l`, by following `next`. -/
def metricsAt (h : Heap) (l : Addr) : Option (List Metric) := do
  let hdr ← h.list l
  let nodes ← h.walk hdr.size hdr.first
  nodes.mapM h.nodeMetric

/-- What the lists of a store hold. -/
def storeMetrics (h : Heap) (st : StoreRef) : Option (Store Metric) := do
  let current ← h.metricsAt st.current
  let delta ← h.metricsAt st.delta
  let cache ← h.metricsAt st.cache
  return { current, delta, cache }

/-- The heap after `n` allocations, whatever they answered. -/
def skipAllocs (h : Heap) (n : Nat) : Heap :=
  { h with allocs := fun k => h.allocs (k + n) }

end Heap

theorem Rep.metricsAt (hr : Rep h A) (hl : A l = some cs) :
    h.metricsAt l = some (cs.map Cell.metric) := by
  obtain ⟨hdr, hh, hcs⟩ := hr.isList l cs hl
  have hcell : ∀ d ∈ cs, h.nodeMetric d.node = some d.metric := by
    intro d hd
    obtain ⟨n, hn, hnm⟩ := hcs.node_mem hd
    simp [Heap.nodeMetric, hn, hnm, hcs.contents d hd]
  unfold Heap.metricsAt
  simp only [hh, hcs.size, Option.bind_eq_bind, Option.bind_some,
    walk_chain cs hdr.first hcs.chain]
  exact mapM_cells hcell

theorem StoreRep.storeMetrics (hs : StoreRep A h st c) :
    h.storeMetrics st = some c.contents := by
  simp [Heap.storeMetrics, hs.rep.metricsAt hs.current,
    hs.rep.metricsAt hs.delta, hs.rep.metricsAt hs.cache, Store.contents,
    Store.map]

/-- A store is as it was on a heap where its lists are. -/
theorem StoreRep.of_rep (hs : StoreRep A h st c) (hr : Rep h' A) :
    StoreRep A h' st c :=
  { hs with rep := hr }

-- =========================================================== one allocation

/-- A push of a list goes through if there is memory for the node, and
changes nothing if there is none. -/
theorem metricListPush_answer (hr : Rep h A) (hl : A l = some cs)
    (hp : h.metric p = some m) :
    (h.allocs 0 = true → ∃ h', h.metricListPush l p = some (0, h'))
      ∧ (h.allocs 0 = false →
        h.metricListPush l p = some (-1, h.skipAllocs 1)) := by
  constructor
  case right =>
      intro hfail
      simp [Heap.metricListPush, Heap.metricListNodeNew, Heap.malloc, hfail,
        Heap.skipAllocs]
  intro hok
  obtain ⟨hdr, hh, hcs⟩ := hr.isList l cs hl
  have hnew : h.metricListNodeNew p = (some h.brk,
      ((h.skipAllocs 1).setNode h.brk { next := none, metric := p }).bump) := by
    simp [Heap.metricListNodeNew, Heap.malloc, hok, Heap.skipAllocs]
  unfold Heap.metricListPush
  simp only [hnew]
  unfold Heap.metricListPushNode
  rcases List.eq_nil_or_concat' cs with rfl | ⟨ds, d, rfl⟩
  · have hsize : hdr.size = 0 := hcs.size
    simp [Heap.skipAllocs, hh, hsize, Heap.nodeSize, hp]
  · have hsize : hdr.size ≠ 0 := by simp [hcs.size]
    have hlast : hdr.last = some d.node := by simp [hcs.last]
    obtain ⟨n, hn, -⟩ := hcs.node_mem (c := d) (by simp)
    have hne : d.node ≠ h.brk := Nat.ne_of_lt (hr.node_lt hl (by simp))
    simp [Heap.skipAllocs, hh, hsize, hlast, hn, hne, Ne.symm hne,
      Heap.nodeSize, hp]

-- ===================================================== past the DELTA test

/-- A metric takes another one in exactly when the two are numbers of one
type and one key. -/
theorem aggregatedSum_eq_none {x : Metric} :
    aggregatedSum F m x = none
      ↔ ¬ (x.key = m.key ∧ x.type = m.type ∧ m.type ≠ .string) := by
  have hkey : x.key = m.key ↔ (x.id == m.id && x.name == m.name) = true := by
    simp [Metric.key]
  unfold aggregatedSum
  rw [hkey]
  split
  case isFalse hk => simp [hk]
  case isTrue hk =>
      simp only [hk, true_and]
      unfold metricAdd Metric.type
      cases x.value <;> cases m.value <;> simp

/-- The metric goes into one of the current list. -/
def Absorbed (F : FloatOps) (current : List Metric) (m : Metric) : Prop :=
  m.isAggregate = true ∧ ∃ x ∈ current, aggregatedSum F m x ≠ none

/-- The branches past the DELTA test answer with a code when the metric
needs a node and there is no memory for it, and then change nothing. -/
theorem metricStorePushComputed_answer (hr : Rep h A)
    (hl : A st.current = some cur) (hp : h.metric p = some m)
    (hu : ¬ Listed A p) :
    (h.allocs 0 = true ∨ Absorbed F (cur.map Cell.metric) m →
        ∃ h', h.metricStorePushComputed F st p = some (0, h'))
      ∧ (¬ (h.allocs 0 = true ∨ Absorbed F (cur.map Cell.metric) m) →
        h.metricStorePushComputed F st p = some (-1, h.skipAllocs 1)) := by
  have hpush := metricListPush_answer (l := st.current) hr hl hp
  obtain ⟨hdr, -, hcs⟩ := hr.isList _ cur hl
  unfold Heap.metricStorePushComputed
  simp only [hp, Option.bind_eq_bind, Option.bind_some]
  by_cases hagg : m.isAggregate = true
  case neg =>
      have hno : ¬ Absorbed F (cur.map Cell.metric) m := fun h => hagg h.1
      simpa [if_neg hagg, hno] using hpush
  simp only [if_pos hagg]
  cases hf : replaceFirst (aggregatedSum F m) (cur.map Cell.metric) with
  | none =>
      have hall : ∀ x ∈ cur.map Cell.metric, aggregatedSum F m x = none :=
        replaceFirst_eq_none.mp hf
      have hno : ¬ Absorbed F (cur.map Cell.metric) m := by
        rintro ⟨-, x, hx, hsum⟩
        exact hsum (hall x hx)
      rw [metricStorePushAggregate_skip cur [] hr (by simpa using hl) hp
        fun d hd => hall _ (List.mem_map_of_mem hd)]
      simpa [Heap.pushAggregateLoop, hno] using hpush
  | some r =>
      obtain ⟨x, ys⟩ := r
      obtain ⟨pre', post', sum, hsplit, rfl, hpre', hsum⟩ :=
        replaceFirst_eq_some hf
      have hyes : Absorbed F (cur.map Cell.metric) m :=
        ⟨hagg, x, by simp [hsplit], by simp [hsum]⟩
      obtain ⟨pre, rest, rfl, rfl, hrest⟩ := List.map_eq_append_iff.mp hsplit
      obtain ⟨d, post, rfl, rfl, rfl⟩ := List.map_eq_cons_iff.mp hrest
      refine ⟨fun _ => ⟨_, metricStorePushAggregate_hit hr hl hp hu
        (fun d hd => hpre' _ (List.mem_map_of_mem hd)) hsum⟩, fun hno => ?_⟩
      exact absurd (.inr hyes) hno

-- =============================================================== differences

/-- The type of the difference to a stored metric of numbers. -/
def Metric.differenceType (stored : Metric) : MetricType :=
  if stored.isTimedelta then .float else stored.type

/-- A difference has the key of the stored metric, is an aggregate where that
is one, and is a number of the type its flags say. -/
theorem metricComputeDelta_keeps {a b r : Metric}
    (hd : metricComputeDelta F a b = some r) :
    r.key = a.key ∧ r.type = a.differenceType
      ∧ r.isAggregate = a.isAggregate := by
  have hflags : ∀ flags : UInt8,
      flags &&& ~~~(metricDelta ||| metricTimedelta) &&& metricAggregate
        = flags &&& metricAggregate := by
    intro flags
    rw [UInt8.and_assoc]
    rfl
  unfold metricComputeDelta at hd
  split at hd
  case h_1 x y ha hb =>
      cases hd
      refine ⟨rfl, ?_, by simp [Metric.isAggregate, hflags]⟩
      unfold Metric.differenceType Metric.type computeIntDelta
      simp only [ha]
      split_ifs <;> rfl
  case h_2 x y ha hb =>
      cases hd
      refine ⟨rfl, ?_, by simp [Metric.isAggregate, hflags]⟩
      unfold Metric.differenceType Metric.type computeFloatDelta
      simp only [ha]
      split_ifs <;> rfl
  case h_3 => cases hd

/-- A number is built in two allocations. -/
theorem metricBuild_number (h : Heap) (hm : m.type ≠ .string) :
    (h.allocs 0 = true ∧ h.allocs 1 = true →
        h.metricBuild m = (some h.brk,
          ((h.skipAllocs 2).setMetric h.brk m).bump))
      ∧ (¬ (h.allocs 0 = true ∧ h.allocs 1 = true) →
        ∃ allocs, h.metricBuild m = (none, { h with allocs })) := by
  unfold Heap.metricBuild Heap.malloc
  cases h.allocs 0 with
  | false => simp
  | true =>
      cases h₁ : h.allocs (0 + 1) with
      | false => simp [h₁]
      | true =>
          cases hv : m.value with
          | string s => simp [Metric.type, hv] at hm
          | int v => simp [h₁, Heap.skipAllocs]
          | float v => simp [h₁, Heap.skipAllocs]

/-- A heap with the same lists, whose metrics are as they were. -/
structure SameLists (h h' : Heap) : Prop where
  list : h'.list = h.list
  node : h'.node = h.node
  metric : h'.metric = h.metric
  fresh : Fresh h → Fresh h'

theorem SameLists.rep (hs : SameLists h h') (hr : Rep h A) : Rep h' A :=
  hr.congr hs.list hs.node (fun a _ => congrFun hs.metric a)
    (hs.fresh hr.fresh)

theorem SameLists.allocs (h : Heap) (allocs : Nat → Bool) :
    SameLists h { h with allocs } :=
  ⟨rfl, rfl, rfl, fun hf => ⟨hf.node, hf.metric, hf.list⟩⟩

/-- `monikor_metric_compute_delta` makes a metric when the two are numbers of
one type and there is memory for it, and otherwise changes nothing. -/
theorem metricComputeDelta_answer {a b : Addr} {x y : Metric} (hf : Fresh h)
    (hx : h.metric a = some x) (hy : h.metric b = some y) :
    (x.type = y.type ∧ y.type ≠ .string ∧ h.allocs 0 = true
        ∧ h.allocs 1 = true → ∃ r, metricComputeDelta F x y = some r
        ∧ h.metricComputeDelta F a b
          = some (some h.brk, ((h.skipAllocs 2).setMetric h.brk r).bump))
      ∧ (¬ (x.type = y.type ∧ y.type ≠ .string ∧ h.allocs 0 = true
          ∧ h.allocs 1 = true) → ∃ h', h.metricComputeDelta F a b
            = some (none, h') ∧ SameLists h h') := by
  unfold Heap.metricComputeDelta Heap.metricClone
  simp only [hx, hy, Option.bind_eq_bind, Option.bind_some]
  constructor
  case left =>
      rintro ⟨htype, hnum, halloc⟩
      obtain ⟨r, hr⟩ : ∃ r, metricComputeDelta F x y = some r :=
        Option.ne_none_iff_exists'.mp fun hnone =>
          metricComputeDelta_eq_none.mp hnone ⟨htype, hnum⟩
      have hbuild := (metricBuild_number h (htype ▸ hnum)).1 halloc
      exact ⟨r, hr, by simp [htype, hbuild, hr, Heap.setMetric, Heap.bump]⟩
  intro hno
  by_cases htype : x.type = y.type
  case neg => exact ⟨h, by simp [htype], .allocs h h.allocs⟩
  by_cases hnum : y.type = .string
  case neg =>
      have halloc : ¬ (h.allocs 0 = true ∧ h.allocs 1 = true) :=
        fun hok => hno ⟨htype, hnum, hok⟩
      obtain ⟨allocs, hbuild⟩ := (metricBuild_number h (htype ▸ hnum)).2 halloc
      exact ⟨_, by simp [htype, hbuild], .allocs h allocs⟩
  -- two strings: a clone that was made is released again
  have hnone : metricComputeDelta F x y = none :=
    metricComputeDelta_eq_none.mpr fun hboth => hboth.2 hnum
  obtain ⟨allocs, hbuild | hbuild⟩ := metricBuild_cases h x
  · exact ⟨_, by simp [htype, hbuild], .allocs h allocs⟩
  · refine ⟨((Heap.setMetric { h with allocs } h.brk x).bump).eraseMetric h.brk,
      ?_, rfl, rfl, ?_, fun hf' => ?_⟩
    · simp [htype, hbuild, hnone, Heap.metricFree]
    · change Function.update (Function.update h.metric h.brk (some x)) h.brk
        none = h.metric
      rw [Function.update_idem, ← hf.metric h.brk (Nat.le_refl _),
        Function.update_eq_self]
    · exact (((SameLists.allocs h allocs).fresh hf').setMetric_bump
        x).eraseMetric _

/-- Which differences the current list takes in. -/
theorem absorbed_difference {stored r : Metric} {current : List Metric}
    (hd : metricComputeDelta F stored m = some r) (hm : m.type ≠ .string) :
    Absorbed F current r ↔ stored.isAggregate = true
      ∧ ∃ x ∈ current, x.key = stored.key
        ∧ x.type = stored.differenceType := by
  obtain ⟨hkey, htype, hagg⟩ := metricComputeDelta_keeps hd
  have hnum : stored.differenceType ≠ .string := by
    unfold Metric.differenceType
    rw [metricComputeDelta_type hd]
    split
    · decide
    · exact hm
  unfold Absorbed
  simp only [ne_eq, aggregatedSum_eq_none, not_not, hkey, htype, hagg, hnum,
    not_false_iff, and_true]

-- ==================================================================== pushes

/-- A push ends, and if it answers with a code the lists of the store hold
what they held. -/
def PushAtomic (F : FloatOps) (h : Heap) (st : StoreRef) (p : Addr) : Prop :=
  ∃ rc h', h.metricStorePush F st p = some (rc, h')
    ∧ (rc ≠ 0 → h'.storeMetrics st = h.storeMetrics st)

/-- The stored metric is replaced: a difference can be taken, and there is
memory for it. -/
def Rebases (stored m : Metric) (allocs : Nat → Bool) : Prop :=
  stored.type = m.type ∧ m.type ≠ .string ∧ allocs 0 = true
    ∧ allocs 1 = true

/-- A push that replaces its baseline has the memory for the node as well,
or a metric of the current list takes the difference in. -/
def PushKept (s : Store Metric) (m : Metric) (allocs : Nat → Bool) : Prop :=
  m.isDelta = true → ∀ stored, s.delta.find? (isCachedMetric m) = some stored →
    Rebases stored m allocs →
    allocs 2 = true
      ∨ stored.isAggregate = true ∧ ∃ x ∈ s.current, x.key = stored.key
        ∧ x.type = stored.differenceType

theorem PushAtomic.of_same {rc : Int} (hs : StoreRep A h st c)
    (hrun : h.metricStorePush F st p = some (rc, h')) (hsame : SameLists h h') :
    PushAtomic F h st p :=
  ⟨rc, h', hrun, fun _ => by
    rw [(hs.of_rep (hsame.rep hs.rep)).storeMetrics, hs.storeMetrics]⟩

theorem PushAtomic.of_zero (hrun : h.metricStorePush F st p = some (0, h')) :
    PushAtomic F h st p :=
  ⟨0, h', hrun, fun h0 => absurd rfl h0⟩

/-- The heap once the metric at `p` is the baseline at the node of a cell,
and the difference `r` to the old one is in the next block. -/
def Heap.rebased (h : Heap) (d : Cell) (n : Node) (p : Addr) (r : Metric) :
    Heap :=
  ((((h.skipAllocs 2).setMetric h.brk r).bump).eraseMetric d.ptr).setNode
    d.node { n with metric := p }

/-- The run of `monikor_metric_store_push_delta` that finds its baseline and
the memory for the difference. -/
theorem pushDelta_rebases {pre post : List Cell} {d : Cell} {r : Metric}
    (hs : StoreRep A h st { c with delta := pre ++ d :: post })
    (hp : h.metric p = some m) (hu : ¬ Listed A p)
    (hpre : ∀ x ∈ pre, isCachedMetric m x.metric = false)
    (hcached : isCachedMetric m d.metric = true)
    (hd : metricComputeDelta F d.metric m = some r)
    (hok : h.allocs 0 = true ∧ h.allocs 1 = true) :
    ∃ n A', h.metricStorePushDelta F st p
        = (h.rebased d n p r).metricStorePushComputed F st h.brk
      ∧ StoreRep A' (h.rebased d n p r) st
        { c with delta := pre ++ ⟨d.node, p, m⟩ :: post }
      ∧ (h.rebased d n p r).metric h.brk = some r ∧ ¬ Listed A' h.brk := by
  obtain ⟨hdr, -, hcs⟩ := hs.rep.isList _ _ hs.delta
  obtain ⟨n, hn, hnm⟩ := hcs.node_mem (c := d) (by simp)
  have hdm := hcs.contents d (by simp)
  have hdb : d.ptr < h.brk := hs.rep.metric_lt hdm
  have hnumbers : d.metric.type = m.type ∧ m.type ≠ .string := by
    by_contra hno
    rw [metricComputeDelta_eq_none.mpr hno] at hd
    cases hd
  obtain ⟨r', hr', hcompute⟩ := (metricComputeDelta_answer (F := F)
    hs.rep.fresh hdm hp).1 ⟨hnumbers.1, hnumbers.2, hok⟩
  obtain rfl : r = r' := Option.some.inj (hd.symm.trans hr')
  -- what the heap holds does not depend on the allocations to come
  have hready : PushReady { h with allocs := fun _ => true } A st
      ⟨c.current.map Cell.metric, (pre ++ d :: post).map Cell.metric, []⟩
      c.current (pre ++ d :: post) p m :=
    { rep := hs.rep.withAllocs _, allocs := rfl, ne := hs.ne.1
      current := hs.current, delta := hs.delta, currentMetrics := rfl
      deltaMetrics := rfl, live := hp, unlisted := hu }
  have hbase := pushDelta_baseline hready hn hdm hcached hd
  refine ⟨n, _, ?_, ⟨hbase.rep.withAllocs _, hs.distinct, hbase.current,
    hbase.delta, ?_⟩, hbase.live, hbase.unlisted⟩
  · rw [metricStorePushDelta_skip pre (d :: post) hs.rep hs.delta hp hpre]
    simp only [List.head?_cons, Option.map_some, Heap.pushDeltaLoop, hn, hnm,
      hdm, hp, hcached, Option.bind_eq_bind, Option.bind_some, if_true,
      hcompute]
    simp [Heap.metricFree, Heap.skipAllocs, Heap.rebased,
      Function.update_of_ne (Nat.ne_of_lt hdb), hdm]
  · rw [Function.update_of_ne (Ne.symm hs.ne.2.2)]
    exact hs.cache

/-- The first value of a counter is stored, or nothing is. -/
theorem PushAtomic.of_first (hs : StoreRep A h st c)
    (hp : h.metric p = some m)
    (hpush : h.metricStorePush F st p = h.metricStorePushDelta F st p)
    (hall : ∀ d ∈ c.delta, isCachedMetric m d.metric = false) :
    PushAtomic F h st p := by
  have hanswer := metricListPush_answer hs.rep hs.delta hp
  rw [metricStorePushDelta_skip c.delta [] hs.rep (by simpa using hs.delta) hp
    hall] at hpush
  cases hok : h.allocs 0 with
  | true =>
      obtain ⟨h', hrun⟩ := hanswer.1 hok
      exact .of_zero (hpush.trans hrun)
  | false => exact .of_same hs (hpush.trans (hanswer.2 hok)) (.allocs h _)

/-- Where no difference is made, the baseline stays. -/
theorem PushAtomic.of_refused {pre post : List Cell} {d : Cell}
    (hs : StoreRep A h st { c with delta := pre ++ d :: post })
    (hp : h.metric p = some m)
    (hpush : h.metricStorePush F st p = h.metricStorePushDelta F st p)
    (hpre : ∀ x ∈ pre, isCachedMetric m x.metric = false)
    (hcached : isCachedMetric m d.metric = true)
    (hre : ¬ Rebases d.metric m h.allocs) : PushAtomic F h st p := by
  obtain ⟨hdr, -, hcs⟩ := hs.rep.isList _ _ hs.delta
  obtain ⟨n, hn, hnm⟩ := hcs.node_mem (c := d) (by simp)
  have hdm := hcs.contents d (by simp)
  obtain ⟨h', hcompute, hsame⟩ :=
    (metricComputeDelta_answer (F := F) hs.rep.fresh hdm hp).2 hre
  suffices hrun : h.metricStorePush F st p = some (-1, h') from
    .of_same hs hrun hsame
  rw [hpush, metricStorePushDelta_skip pre (d :: post) hs.rep hs.delta hp hpre]
  simp [Heap.pushDeltaLoop, hn, hnm, hdm, hp, hcached, hcompute]

/-- Once the baseline is replaced, the push has to go through. -/
theorem push_rebased_iff {pre post : List Cell} {d : Cell}
    (hs : StoreRep A h st { c with delta := pre ++ d :: post })
    (hp : h.metric p = some m) (hu : ¬ Listed A p)
    (hpush : h.metricStorePush F st p = h.metricStorePushDelta F st p)
    (hpre : ∀ x ∈ pre, isCachedMetric m x.metric = false)
    (hcached : isCachedMetric m d.metric = true)
    (hre : Rebases d.metric m h.allocs) :
    PushAtomic F h st p ↔ h.allocs 2 = true
      ∨ d.metric.isAggregate = true ∧ ∃ x ∈ c.current.map Cell.metric,
        x.key = d.metric.key ∧ x.type = d.metric.differenceType := by
  obtain ⟨htype, hnum, hok⟩ := hre
  obtain ⟨r, hr⟩ : ∃ r, metricComputeDelta F d.metric m = some r :=
    Option.ne_none_iff_exists'.mp fun hnone =>
      metricComputeDelta_eq_none.mp hnone ⟨htype, hnum⟩
  obtain ⟨n, A', hrun, hs', hlive, hunlisted⟩ :=
    pushDelta_rebases hs hp hu hpre hcached hr hok
  have hanswer := metricStorePushComputed_answer (F := F) hs'.rep hs'.current
    hlive hunlisted
  have hthird : (h.rebased d n p r).allocs 0 = h.allocs 2 := rfl
  rw [hthird, absorbed_difference hr hnum] at hanswer
  constructor
  case mpr =>
      intro hgo
      obtain ⟨h', hpushed⟩ := hanswer.1 hgo
      exact .of_zero (hpush.trans (hrun.trans hpushed))
  case mp =>
      rintro ⟨rc, h', hpushed, hatomic⟩
      by_contra hstuck
      have hfailed := hpush.trans (hrun.trans (hanswer.2 hstuck))
      obtain ⟨rfl, rfl⟩ : rc = -1 ∧ h' = (h.rebased d n p r).skipAllocs 1 := by
        simpa using hpushed.symm.trans hfailed
      have hcontents := hatomic (by decide)
      have hlater : StoreRep A' ((h.rebased d n p r).skipAllocs 1) st _ :=
        hs'.of_rep (hs'.rep.withAllocs _)
      rw [hlater.storeMetrics, hs.storeMetrics] at hcontents
      -- the baseline would have to be the metric pushed, but it is not cached
      have hself : d.metric = m := by
        simpa [Store.contents, Store.map] using hcontents.symm
      rw [hself] at hcached
      simp [isCachedMetric, timecmp] at hcached

/-- Pushes are atomic, exactly: a push that answers with a code leaves the
lists of the store as they were if and only if it is none that replaces the
baseline and then finds no memory. -/
theorem push_atomic_iff (hs : StoreRep A h st c) (hp : h.metric p = some m)
    (hu : ¬ Listed A p) :
    PushAtomic F h st p ↔ PushKept c.contents m h.allocs := by
  have hpush : h.metricStorePush F st p
      = if m.isDelta then h.metricStorePushDelta F st p
        else h.metricStorePushComputed F st p := by
    simp [Heap.metricStorePush, hp]
  by_cases hdelta : m.isDelta = true
  case neg =>
      refine iff_of_true ?_ fun h => absurd h hdelta
      rw [if_neg hdelta] at hpush
      have hanswer := metricStorePushComputed_answer (F := F) hs.rep
        hs.current hp hu
      by_cases hok : h.allocs 0 = true
        ∨ Absorbed F (c.current.map Cell.metric) m
      · obtain ⟨h', hrun⟩ := hanswer.1 hok
        exact .of_zero (hpush.trans hrun)
      · exact .of_same hs (hpush.trans (hanswer.2 hok)) (.allocs h _)
  rw [if_pos hdelta] at hpush
  rcases baseline_cells m c.delta with
    ⟨hall, -⟩ | ⟨pre, d, post, hsplit, hpre, hcached, -⟩
  · -- the first value of a counter
    have hnone : c.contents.delta.find? (isCachedMetric m) = none := by
      simpa [Store.contents, Store.map] using hall
    refine iff_of_true ?_ fun _ stored hstored => ?_
    · exact .of_first hs hp hpush hall
    · rw [hnone] at hstored
      cases hstored
  · -- the baseline is at `d`
    have hfind : c.contents.delta.find? (isCachedMetric m)
        = some d.metric := by
      simp only [Store.contents, Store.map, hsplit, List.map_append,
        List.map_cons]
      refine List.find?_eq_some_iff_append.mpr ⟨hcached, _, _, rfl, ?_⟩
      rintro x hx
      obtain ⟨e, he, rfl⟩ := List.mem_map.mp hx
      simp [hpre e he]
    have hkept : PushKept c.contents m h.allocs ↔
        (Rebases d.metric m h.allocs → h.allocs 2 = true
          ∨ d.metric.isAggregate = true ∧ ∃ x ∈ c.contents.current,
            x.key = d.metric.key ∧ x.type = d.metric.differenceType) := by
      unfold PushKept
      simp [hdelta, hfind]
    have hs' : StoreRep A h st { c with delta := pre ++ d :: post } :=
      hsplit ▸ hs
    rw [hkept]
    by_cases hre : Rebases d.metric m h.allocs
    case neg =>
        exact iff_of_true (.of_refused hs' hp hpush hpre hcached hre)
          fun h => absurd h hre
    case pos =>
        simp only [hre, true_implies]
        exact push_rebased_iff hs' hp hu hpush hpre hcached hre

-- ================================================================ a counter

/-- A counter of value 1 at a second. -/
def counterAt (sec : Int64) : Metric :=
  ⟨CString.a, 0, ⟨sec, 0⟩, .int 1, metricDelta⟩

/-- A store with the counter of second 10, and that of second 11 about to be
pushed, whatever the next allocations answer. -/
theorem counter_ready (allocs : Nat → Bool) : ∃ h A st p c, StoreRep A h st c
    ∧ c.contents = ⟨[], [counterAt 10], []⟩ ∧ h.metric p = some (counterAt 11)
    ∧ ¬ Listed A p ∧ h.allocs = allocs := by
  obtain ⟨u, A₀, c₀, -, hs₀, hc₀⟩ := start_settled
  obtain ⟨u', -, A, c, hs, hc⟩ := (storeUse_simulates hostFloat).run
    [.storePush (counterAt 10)] u _ ⟨A₀, c₀, hs₀.holds, hc₀⟩
  obtain ⟨hr, -⟩ := hs.rep.setMetric_bump (counterAt 11)
  refine ⟨_, A, u'.store, u'.heap.brk, c, hs.storeRep.of_rep
    (hr.withAllocs allocs), hc.trans (by decide), Function.update_self .., ?_,
    rfl⟩
  rintro ⟨l, cs, hl, hmem⟩
  obtain ⟨e, he, hptr⟩ := List.mem_map.mp hmem
  obtain ⟨hdr, -, hcs⟩ := hs.rep.isList l cs hl
  have hlt : e.ptr < u'.heap.brk := hs.rep.metric_lt (hcs.contents e he)
  exact Nat.ne_of_lt hlt hptr

/-- The counter pushed with memory for all it needs. -/
theorem push_atomic_counter : ∃ h A st p c, StoreRep A h st c
    ∧ c.contents = ⟨[], [counterAt 10], []⟩ ∧ h.metric p = some (counterAt 11)
    ∧ (PushAtomic hostFloat h st p
      ↔ PushKept c.contents (counterAt 11) h.allocs) := by
  obtain ⟨h, A, st, p, c, hs, hc, hp, hu, -⟩ := counter_ready fun _ => true
  exact ⟨h, A, st, p, c, hs, hc, hp, push_atomic_iff hs hp hu⟩

/-- The counter pushed with memory for the difference but none for its node:
the push answers with a code, and the baseline is gone. -/
theorem push_not_atomic : ∃ h A st p c, StoreRep A h st c
    ∧ c.contents = ⟨[], [counterAt 10], []⟩ ∧ h.metric p = some (counterAt 11)
    ∧ ¬ PushAtomic hostFloat h st p := by
  obtain ⟨h, A, st, p, c, hs, hc, hp, hu, hallocs⟩ :=
    counter_ready fun n => decide (n < 2)
  refine ⟨h, A, st, p, c, hs, hc, hp, fun hatomic => ?_⟩
  have hdel : c.delta.map Cell.metric = [counterAt 10] :=
    congrArg Store.delta hc
  have hcur : c.current.map Cell.metric = [] := congrArg Store.current hc
  obtain ⟨d, hd, hm⟩ := List.map_eq_singleton_iff.mp hdel
  have hs' : StoreRep A h st { c with delta := [] ++ d :: [] } := by
    simpa [← hd] using hs
  have hpush : h.metricStorePush hostFloat st p
      = h.metricStorePushDelta hostFloat st p := by
    have hdelta : (counterAt 11).isDelta = true := rfl
    simp [Heap.metricStorePush, hp, hdelta]
  have hcached : isCachedMetric (counterAt 11) d.metric = true := by
    rw [hm]
    decide
  have hrebases : Rebases d.metric (counterAt 11) h.allocs := by
    rw [hm, hallocs]
    exact ⟨rfl, by decide, rfl, rfl⟩
  have hiff := push_rebased_iff (c := c) hs' hp hu hpush (by simp) hcached
    hrebases
  rcases hiff.mp hatomic with hmemory | ⟨hagg, -⟩
  · rw [hallocs] at hmemory
    cases hmemory
  · rw [hm] at hagg
    cases hagg

end Monikor
