/-
Ownership of metrics over whole runs of a store.

A store answers a push with a code only when a DELTA metric finds its
baseline and has no difference to it (`push_answered_iff`): the two are
of different types, or strings. Such a push leaves the metric loose, and
the callers drop the code. In a run without one every metric ever handed
over or made by the store is held by one node or was freed once
(`metrics_accounted`).
-/
import Monikor.Lists.Proofs.Keys
import Monikor.Lists.Proofs.StoreRuns

namespace Monikor

open Machine

variable {F : FloatOps} {s : Store Metric} {m : Metric} {u : StoreUse}
  {A : Lists} {c : Store Cell}

-- ============================================================ vocabulary

/-- The baseline a DELTA push of the metric finds, if it finds one, is a
number of the metric's type. -/
def Computes (s : Store Metric) (m : Metric) : Prop :=
  m.isDelta = true → ∀ stored ∈ s.delta.find? (isCachedMetric m),
    stored.type = m.type ∧ m.type ≠ .string

/-- So it is for each metric of a list, when its turn comes. -/
def ListComputes (F : FloatOps) : List Metric → Store Metric → Prop
  | [], _ => True
  | m :: ms, s =>
      Computes s m ∧ ListComputes F ms (Seq.metricStorePush F s m).2

/-- So it is for what one call hands over. -/
def CallComputes (F : FloatOps) : StoreOp → Store Metric → Prop
  | .storePush m, s => Computes s m
  | .metricPush m, s => Computes s m
  | .lpush ms, s => ListComputes F ms s
  | _, _ => True

instance (s : Store Metric) (m : Metric) : Decidable (Computes s m) :=
  inferInstanceAs (Decidable (m.isDelta = true →
    ∀ stored ∈ s.delta.find? (isCachedMetric m),
      stored.type = m.type ∧ m.type ≠ .string))

instance ListComputes.decidable (F : FloatOps) :
    (ms : List Metric) → (s : Store Metric) → Decidable (ListComputes F ms s)
  | [], _ => .isTrue trivial
  | m :: ms, s =>
      have := ListComputes.decidable F ms (Seq.metricStorePush F s m).2
      inferInstanceAs (Decidable (Computes s m
        ∧ ListComputes F ms (Seq.metricStorePush F s m).2))

instance (F : FloatOps) (op : StoreOp) (s : Store Metric) :
    Decidable (CallComputes F op s) :=
  match op with
  | .storePush m => inferInstanceAs (Decidable (Computes s m))
  | .metricPush m => inferInstanceAs (Decidable (Computes s m))
  | .lpush ms => inferInstanceAs (Decidable (ListComputes F ms s))
  | .evictCache _ | .evictDelta _ | .cache | .uncache | .flush | .flushAll =>
      .isTrue trivial

-- ================================================================= answers

/-- A push is answered with 0 unless it is a DELTA push with no difference
to its baseline. -/
theorem push_answered_iff :
    (Seq.metricStorePush F s m).1 = 0 ↔ Computes s m := by
  unfold Computes
  rcases metricStorePush_cases (F := F) s m with
    ⟨hdelta, hrun⟩ | ⟨hdelta, hnone, hrun⟩
      | ⟨pre, stored, post, hdelta, hl, hpre, hcached, hpaths⟩
  · obtain ⟨current, hcomputed, -, -⟩ :=
      metricStorePushComputed_cases (F := F) s m
    simp [hrun, hcomputed, hdelta]
  · have hfind : s.delta.find? (isCachedMetric m) = none :=
      List.find?_eq_none.mpr fun c hc => by simp [hnone c hc]
    simp [hrun, hdelta, hfind]
  · have hfind : s.delta.find? (isCachedMetric m) = some stored := by
      rw [hl, List.find?_append, List.find?_eq_none.mpr fun c hc => by
        simp [hpre c hc]]
      simp [hcached]
    rcases hpaths with ⟨hd, hrun⟩ | ⟨new, hd, hrun⟩
    · have hno := metricComputeDelta_eq_none.mp hd
      simpa [hrun, hdelta, hfind] using hno
    · have hyes : stored.type = m.type ∧ m.type ≠ .string := by
        by_contra hno
        rw [metricComputeDelta_eq_none.mpr hno] at hd
        cases hd
      obtain ⟨current, hcomputed, -, -⟩ := metricStorePushComputed_cases
        (F := F) { s with delta := pre ++ m :: post } new
      simpa [hrun, hcomputed, hdelta, hfind] using hyes

theorem lpush_answered_iff (ms : List Metric) :
    ∀ s, (Seq.metricStoreLpush F s ms).1 = 0 ↔ ListComputes F ms s := by
  induction ms with
  | nil => exact fun s => ⟨fun _ => trivial, fun _ => rfl⟩
  | cons m ms ih =>
      intro s
      unfold ListComputes
      rw [← push_answered_iff (F := F), ← ih]
      show (if (Seq.metricStorePush F s m).1 ≠ 0 then -1 else _) = (0 : Int)
        ↔ _
      by_cases hcode : (Seq.metricStorePush F s m).1 = 0 <;> simp [hcode]

theorem answered_iff (op : StoreOp) (s : Store Metric) :
    Answered F op s ↔ CallComputes F op s := by
  cases op with
  | storePush m => exact push_answered_iff
  | metricPush m => exact push_answered_iff
  | lpush ms => exact lpush_answered_iff ms s
  | evictCache maxSize => rfl
  | evictDelta clock => rfl
  | cache => rfl
  | uncache => rfl
  | flush => rfl
  | flushAll => rfl

-- ============================================================ whole runs

/-- Nothing is loose, and what was handed over is live or was freed. -/
structure Settled (A : Lists) (u : StoreUse) (c : Store Cell) : Prop where
  holds : StoreHolds A u.heap u.store c
  tight : ∀ a, ¬ Loose u.heap A a
  handed : ∀ p ∈ u.handed, Known u.heap p

/-- A call answered with 0 leaves nothing loose. -/
theorem Settled.step (hs : Settled A u c) {op : StoreOp}
    (hop : Answered F op c.contents) :
    ∃ u' A' c', StoreUse.step F op u
        = some ((Seq.storeStep F op c.contents).1, u')
      ∧ Settled A' u' c' ∧ c'.contents = (Seq.storeStep F op c.contents).2 := by
  obtain ⟨u', hrun, hstore, hhanded, A', c', hs', hc', hacc, hloose⟩ :=
    storeStep_holds (F := F) hs.holds op
  refine ⟨u', A', c', hrun, ⟨hstore ▸ hs', ?_, ?_⟩, hc'⟩
  · intro a ha
    exact hs.tight a (hloose hop a ha)
  · intro p hp
    rcases hhanded p hp with hold | hnew
    · exact hacc.known p (hs.handed p hold)
    · exact hnew

/-- A run whose calls are all answered with 0 leaves nothing loose. -/
theorem Settled.run (ops : List StoreOp) :
    ∀ (A : Lists) (u : StoreUse) (c : Store Cell), Settled A u c →
      Meets (Seq.storeStep F) (CallComputes F) ops c.contents →
      ∃ outs u' A' c', Machine.run (StoreUse.step F) ops u = some (outs, u')
        ∧ Settled A' u' c' := by
  induction ops with
  | nil => exact fun A u c hs _ => ⟨[], u, A, c, rfl, hs⟩
  | cons op ops ih =>
      intro A u c hs hops
      obtain ⟨u₁, A₁, c₁, hstep, hs₁, hc₁⟩ :=
        hs.step ((answered_iff op _).mpr hops.1)
      obtain ⟨outs, u₂, A₂, c₂, hrun, hs₂⟩ :=
        ih A₁ u₁ c₁ hs₁ (hc₁ ▸ hops.2)
      exact ⟨(Seq.storeStep F op c.contents).1 :: outs, u₂, A₂, c₂,
        by simp [Machine.run, hstep, hrun], hs₂⟩

/-- The metrics the nodes of a list point at. -/
theorem listRefs_eq {h : Heap} {l : Addr} {cs : List Cell} (hr : Rep h A)
    (hl : A l = some cs) : h.listRefs l = some (cs.map Cell.ptr) := by
  obtain ⟨hdr, hh, hcs⟩ := hr.isList l cs hl
  have hwalk : h.walk hdr.size hdr.first = some (cs.map Cell.node) := by
    rw [hcs.size]
    exact walk_chain cs _ hcs.chain
  unfold Heap.listRefs
  simp only [hh, hwalk, Option.bind_eq_bind, Option.bind_some]
  apply mapM_cells
  intro c hc
  obtain ⟨n, hn, hnm⟩ := hcs.node_mem hc
  simp [hn, hnm]

/-- The metrics the store's nodes point at are pairwise different. -/
theorem StoreHolds.refs_nodup {h : Heap} {st : StoreRef}
    (hs : StoreHolds A h st c) :
    ((c.current ++ c.delta ++ c.cache).map Cell.ptr).Nodup := by
  have hone : ∀ l cs, A l = some cs → (cs.map Cell.ptr).Nodup := by
    intro l cs hl
    obtain ⟨hdr, -, hcs⟩ := hs.rep.isList l cs hl
    exact hcs.ptr_nodup
  have htwo : ∀ l₁ l₂ cs₁ cs₂, A l₁ = some cs₁ → A l₂ = some cs₂ → l₁ ≠ l₂ →
      ∀ p ∈ cs₁.map Cell.ptr, ∀ q ∈ cs₂.map Cell.ptr, p ≠ q := by
    intro l₁ l₂ cs₁ cs₂ h₁ h₂ hne p hp q hq
    obtain ⟨c₁, hc₁, rfl⟩ := List.mem_map.mp hp
    obtain ⟨c₂, hc₂, rfl⟩ := List.mem_map.mp hq
    exact (hs.rep.sep l₁ l₂ cs₁ cs₂ h₁ h₂ hne c₁ hc₁ c₂ hc₂).2
  have hcd := htwo _ _ _ _ hs.current hs.delta hs.ne.1
  have hcc := htwo _ _ _ _ hs.current hs.cache hs.ne.2.1
  have hdc := htwo _ _ _ _ hs.delta hs.cache hs.ne.2.2
  simp only [List.map_append, List.nodup_append, List.mem_append]
  refine ⟨⟨hone _ _ hs.current, hone _ _ hs.delta, hcd⟩, hone _ _ hs.cache, ?_⟩
  intro p hp q hq
  rcases hp with hp | hp
  · exact hcc p hp q hq
  · exact hdc p hp q hq

/-- With nothing loose, every metric is accounted for. -/
theorem Settled.accounted (hs : Settled A u c) : u.Accounted := by
  have hrefs : u.heap.storeRefs u.store
      = some ((c.current ++ c.delta ++ c.cache).map Cell.ptr) := by
    simp [Heap.storeRefs, listRefs_eq hs.holds.rep hs.holds.current,
      listRefs_eq hs.holds.rep hs.holds.delta,
      listRefs_eq hs.holds.rep hs.holds.cache]
  have hlive : ∀ p, Listed A p → u.heap.metric p ≠ none := by
    intro p hp
    obtain ⟨x, hx⟩ := hs.holds.rep.listed_live hp
    simp [hx]
  refine ⟨_, hrefs, fun p hp => ?_, fun p hp =>
    hlive p (hs.holds.listed_iff.mpr hp)⟩
  have hknown : Known u.heap p := by
    rcases hp with hp | hp
    · exact hs.handed p hp
    · exact hp
  by_cases hlist : Listed A p
  · refine .inl ⟨?_, ?_⟩
    · exact List.count_eq_one_of_mem hs.holds.refs_nodup
        (hs.holds.listed_iff.mp hlist)
    · rw [List.count_eq_zero]
      exact fun hin => hlive p hlist (hs.holds.log.dead p hin)
  · refine .inr ⟨?_, ?_⟩
    · rw [List.count_eq_zero, ← hs.holds.listed_iff]
      exact hlist
    · apply List.count_eq_one_of_mem hs.holds.log.nodup
      by_contra hfreed
      exact hs.tight p ⟨hknown.resolve_right hfreed, hlist⟩

/-- A new store, on an empty heap. -/
theorem start_settled : ∃ u A c, StoreUse.start = some u ∧ Settled A u c
    ∧ c.contents = Seq.metricStoreNew := by
  have hal : AllocsOk Heap.empty := rfl
  have hr₀ : Rep Heap.empty (fun _ => none) := start_holds.rep
  obtain ⟨h₁, hrun₁, hr₁, hq₁⟩ := metricListNew_spec hr₀ hal
  obtain ⟨h₂, hrun₂, hr₂, hq₂⟩ := metricListNew_spec hr₁ (hq₁.ok hal)
  obtain ⟨h₃, hrun₃, hr₃, hq₃⟩ := metricListNew_spec hr₂ (hq₂.ok (hq₁.ok hal))
  have hb₁ : Heap.empty.brk < h₁.brk := hr₁.list_lt (Function.update_self ..)
  have hb₂ : h₁.brk < h₂.brk := hr₂.list_lt (Function.update_self ..)
  have hne₁ := Nat.ne_of_lt hb₁
  have hne₂ := Nat.ne_of_lt hb₂
  have hne₃ := Nat.ne_of_lt (Nat.lt_trans hb₁ hb₂)
  have hq := (hq₁.trans hq₂).trans hq₃
  have hlog : FreeLog Heap.empty :=
    ⟨List.nodup_nil, by simp [Heap.empty], by simp [Known, Heap.empty]⟩
  refine ⟨⟨h₃, ⟨Heap.empty.brk, h₁.brk, h₂.brk⟩, []⟩, _, ⟨[], [], []⟩, ?_,
    ⟨⟨hr₃, hq.ok hal, ?_, ?_, ?_, ?_, ?_, Function.update_self ..⟩, ?_,
      by simp⟩, rfl⟩
  · simp [StoreUse.start, Heap.metricStoreNew, malloc_ok hal, hrun₁, hrun₂,
      hrun₃]
  · exact (Accounts.still hq.metric hq.freed hq.brk).log hlog
  · simp [hne₁, hne₂, hne₃]
  · intro l cs hl
    by_contra hout
    simp only [List.mem_cons, List.not_mem_nil, or_false, not_or] at hout
    rw [Function.update_of_ne hout.2.2, Function.update_of_ne hout.2.1,
      Function.update_of_ne hout.1] at hl
    cases hl
  · rw [Function.update_of_ne hne₃, Function.update_of_ne hne₁,
      Function.update_self]
  · rw [Function.update_of_ne hne₂, Function.update_self]
  · intro a ha
    exact ha.1 (by rw [hq.metric]; rfl)

/-- Ownership of metrics: in any run of a new store, allocations
succeeding, in which the baseline a DELTA push finds is always a number of
the metric's type, nothing faults and every metric ever handed to the
store or made by it is at any moment pointed at by one node of one of its
lists or freed once. -/
theorem metrics_accounted (F : FloatOps) (ops : List StoreOp)
    (hops : Meets (Seq.storeStep F) (CallComputes F) ops Seq.metricStoreNew) :
    ∃ outs u, StoreUse.start.bind (Machine.run (StoreUse.step F) ops)
        = some (outs, u) ∧ u.Accounted := by
  obtain ⟨u, A, c, hstart, hs, hc⟩ := start_settled
  obtain ⟨outs, u', A', c', hrun, hs'⟩ :=
    Settled.run (F := F) ops A u c hs (hc ▸ hops)
  exact ⟨outs, u', by rw [hstart, Option.bind_some, hrun], hs'.accounted⟩

/-- A counter handed over three ways, cached and evicted. -/
theorem metrics_accounted_counter :
    let m (v : UInt64) (t : Int64) : Metric :=
      ⟨CString.a, 0, ⟨t, 0⟩, .int v, metricDelta⟩
    ∃ outs u, StoreUse.start.bind (Machine.run (StoreUse.step hostFloat)
      [.storePush (m 1 10), .metricPush (m 5 11), .lpush [m 7 12], .cache,
        .evictCache 0, .evictDelta ⟨20, 0⟩]) = some (outs, u)
      ∧ u.Accounted :=
  metrics_accounted hostFloat _ (by decide)

/-- A string counter pushed a second time, at another clock: the pushed
metric, at 5, is in no list and is never freed. -/
theorem metrics_not_accounted :
    let m (t : Int64) : Metric :=
      ⟨CString.a, 0, ⟨t, 0⟩, .string CString.a, metricDelta⟩
    ∃ outs u, StoreUse.start.bind (Machine.run (StoreUse.step hostFloat)
      [.metricPush (m 10), .metricPush (m 11)]) = some (outs, u)
      ∧ ¬ u.Accounted := by
  dsimp only
  refine ⟨_, _, rfl, fun h => ?_⟩
  obtain ⟨refs, hrefs, hone, -⟩ := h
  obtain rfl : refs = [3] := Option.some.inj (hrefs.symm.trans rfl)
  have hleak := hone 5 (by decide)
  revert hleak
  decide

end Monikor
