/-
The lists on pointers are lists: whatever a client does, the pointer code
goes through without a fault, every list stays well formed, and its
contents, the metrics the client holds and every value returned are those
of the same calls on sequences.

`Holds A c s` relates a client on pointers to one on sequences through
the cells `A` the heap's lists are made of; `step_holds` is the step
lemma, one case an operation, and each case is the specification of the
function it calls followed by `Holds.setList`.
-/
import Mathlib.Data.List.InsertIdx
import Monikor.Lib.Simulation
import Monikor.Lists.Client
import Monikor.Lists.Proofs.StorePush

namespace Monikor

open Linked Machine

variable {F : FloatOps} {h h' : Heap} {A : Lists} {c : Client} {s : Contents}
  {l p : Addr} {m : Metric} {cs cs' : List Cell} {i j : Nat}

-- =========================================================== the relation

/-- The sequence the list at `l` represents. -/
def contentsAt (A : Lists) (l : Addr) : Option (List Metric) :=
  (A l).map (List.map Cell.metric)

/-- The client on pointers is the client on sequences. -/
structure Holds (A : Lists) (c : Client) (s : Contents) : Prop where
  rep : Rep c.heap A
  allocs : AllocsOk c.heap
  handles : c.handles.Nodup
  lists : c.handles.map (contentsAt A) = s.lists.map some
  hand : c.hand.Nodup
  held : c.hand.map c.heap.metric = s.hand.map some
  unlisted : ∀ p ∈ c.hand, ¬ Listed A p

theorem contentsAt_update (A : Lists) (l : Addr) (cs : List Cell) :
    contentsAt (Function.update A l (some cs))
      = Function.update (contentsAt A) l (some (cs.map Cell.metric)) := by
  funext l'
  by_cases e : l' = l
  · subst e
    simp [contentsAt]
  · simp [contentsAt, e]

/-- Two lists related by a function agree on what is at a position. -/
private theorem getElem?_of_map_eq {α β : Type} {f : α → Option β}
    {xs : List α} {ys : List β} (he : xs.map f = ys.map some) (i : Nat) :
    xs[i]?.bind f = ys[i]? := by
  have := congrArg (·[i]?) he
  simp only [List.getElem?_map] at this
  cases hx : xs[i]? <;> cases hy : ys[i]? <;> simp_all

/-- Overwriting the value at one key, seen from a list of distinct
keys. -/
private theorem map_update_eq_set {β : Type} {f : Addr → Option β}
    {xs : List Addr} {ys : List β} (hnd : xs.Nodup)
    (he : xs.map f = ys.map some) (hi : xs[i]? = some l) (y : β) :
    xs.map (Function.update f l (some y)) = (ys.set i y).map some := by
  obtain ⟨hlt, rfl⟩ := List.getElem?_eq_some_iff.mp hi
  rw [hnd.map_update, if_pos (List.getElem_mem hlt), hnd.idxOf_getElem, he,
    List.map_set]

namespace Holds

theorem list_some (hc : Holds A c s) (hi : c.handles[i]? = some l) :
    ∃ cs, A l = some cs ∧ s.lists[i]? = some (cs.map Cell.metric) := by
  have := getElem?_of_map_eq hc.lists i
  obtain ⟨hlt, rfl⟩ := List.getElem?_eq_some_iff.mp hi
  have hmem : contentsAt A c.handles[i] ∈ s.lists.map some :=
    hc.lists ▸ List.mem_map_of_mem (List.getElem_mem hlt)
  obtain ⟨ms, -, hms⟩ := List.mem_map.mp hmem
  rw [hi, Option.bind_some] at this
  cases hA : A c.handles[i] with
  | none => simp [contentsAt, hA] at hms
  | some cs => exact ⟨cs, rfl, by simpa [contentsAt, hA] using this.symm⟩

theorem list_none (hc : Holds A c s) (hi : c.handles[i]? = none) :
    s.lists[i]? = none := by
  simpa [hi] using (getElem?_of_map_eq hc.lists i).symm

theorem hand_some (hc : Holds A c s) (hj : c.hand[j]? = some p) :
    ∃ m, c.heap.metric p = some m ∧ s.hand[j]? = some m
      ∧ ¬ Listed A p := by
  have := getElem?_of_map_eq hc.held j
  rw [hj, Option.bind_some] at this
  have hlen := congrArg List.length hc.held
  obtain ⟨hlt, -⟩ := List.getElem?_eq_some_iff.mp hj
  simp only [List.length_map] at hlen
  rw [List.getElem?_eq_getElem (hlen ▸ hlt)] at this ⊢
  exact ⟨_, this, rfl, hc.unlisted p (List.mem_of_getElem? hj)⟩

theorem hand_none (hc : Holds A c s) (hj : c.hand[j]? = none) :
    s.hand[j]? = none := by
  simpa [hj] using (getElem?_of_map_eq hc.held j).symm

/-- Different lists have different headers. -/
theorem handle_ne {l' : Addr} (hc : Holds A c s) (hi : c.handles[i]? = some l)
    (hj : c.handles[j]? = some l') (hij : i ≠ j) : l ≠ l' := by
  intro heq
  subst heq
  obtain ⟨hlt, -⟩ := List.getElem?_eq_some_iff.mp hi
  exact hij ((List.getElem?_inj hlt hc.handles).mp (hi.trans hj.symm))

/-- A held metric is live. -/
theorem hand_live (hc : Holds A c s) (hp : p ∈ c.hand) :
    ∃ m, c.heap.metric p = some m := by
  obtain ⟨j, hj⟩ := List.getElem?_of_mem hp
  obtain ⟨m, hm, -⟩ := hc.hand_some hj
  exact ⟨m, hm⟩

/-- Metrics that keep their contents are still held. -/
theorem held_congr (hc : Holds A c s)
    (hm : ∀ p ∈ c.hand, h'.metric p = c.heap.metric p) :
    c.hand.map h'.metric = s.hand.map some := by
  rw [← hc.held]
  exact List.map_congr_left hm

/-- One list replaced, and another set of metrics held. -/
theorem setList (hc : Holds A c s) (hi : c.handles[i]? = some l)
    (hr : Rep h' (Function.update A l (some cs'))) (ha : AllocsOk h')
    {hand : List Addr} {held : List Metric} (hnd : hand.Nodup)
    (hheld : hand.map h'.metric = held.map some)
    (hun : ∀ p ∈ hand, ¬ Listed (Function.update A l (some cs')) p) :
    Holds (Function.update A l (some cs')) { c with heap := h', hand }
      { lists := s.lists.set i (cs'.map Cell.metric), hand := held } where
  rep := hr
  allocs := ha
  handles := hc.handles
  lists := by
    rw [contentsAt_update]
    exact map_update_eq_set hc.handles hc.lists hi _
  hand := hnd
  held := hheld
  unlisted := hun

/-- One list replaced by one with no new metric, the metrics held being
the same. -/
theorem setList_subset (hc : Holds A c s) (hi : c.handles[i]? = some l)
    (hl : A l = some cs) (hsub : ∀ p ∈ cs'.map Cell.ptr, p ∈ cs.map Cell.ptr)
    (hr : Rep h' (Function.update A l (some cs'))) (ha : AllocsOk h')
    (hm : ∀ a, a ∉ cs.map Cell.ptr → h'.metric a = c.heap.metric a) :
    Holds (Function.update A l (some cs')) { c with heap := h' }
      { s with lists := s.lists.set i (cs'.map Cell.metric) } := by
  refine hc.setList hi hr ha hc.hand (hc.held_congr ?_) ?_
  · exact fun p hp => hm p fun hin => hc.unlisted p hp ⟨l, cs, hl, hin⟩
  · intro p hp hl'
    rcases hl'.of_update with hin | hin
    · exact hc.unlisted p hp ⟨l, cs, hl, hsub p hin⟩
    · exact hc.unlisted p hp hin

/-- What is held after the `j`-th metric was offered to a push. -/
theorem handAfter (hc : Holds A c s) {rc : Int} {P : Addr → Prop}
    (hj : c.hand[j]? = some p)
    (hkeep : ∀ a ∈ c.hand, a ≠ p → h'.metric a = c.heap.metric a ∧ P a)
    (hown : rc ≠ 0 → h'.metric p = c.heap.metric p ∧ P p) :
    (Client.handAfter c.hand j rc).map h'.metric
        = (Client.handAfter s.hand j rc).map some
      ∧ (Client.handAfter c.hand j rc).Nodup
      ∧ ∀ a ∈ Client.handAfter c.hand j rc, P a := by
  obtain ⟨hlt, rfl⟩ := List.getElem?_eq_some_iff.mp hj
  have hall : ∀ a ∈ Client.handAfter c.hand j rc,
      h'.metric a = c.heap.metric a ∧ P a := by
    intro a ha
    unfold Client.handAfter at ha
    split at ha
    · rw [← hc.hand.erase_getElem j hlt, hc.hand.mem_erase_iff] at ha
      exact hkeep a ha.2 ha.1
    · next hrc =>
        by_cases e : a = c.hand[j]
        · exact e ▸ hown hrc
        · exact hkeep a ha e
  refine ⟨?_, ?_, fun a ha => (hall a ha).2⟩
  · rw [List.map_congr_left fun a ha => (hall a ha).1]
    unfold Client.handAfter
    split
    · rw [← List.eraseIdx_map, hc.held, List.eraseIdx_map]
    · exact hc.held
  · unfold Client.handAfter
    split
    · exact hc.hand.eraseIdx j
    · exact hc.hand

end Holds

-- ============================================================== one step

/-- An operation goes through on pointers, answers as on sequences, and
leaves related clients. -/
def StepHolds (F : FloatOps) (op : ListOp) (c : Client)
    (s : Contents) : Prop :=
  ∃ c', Client.step F op c = some ((Contents.step F op s).1, c')
    ∧ ∃ A', Holds A' c' (Contents.step F op s).2

theorem StepHolds.of {op : ListOp} {o : ListOut} {A' : Lists} {c' : Client}
    {s' : Contents} (hstep : Client.step F op c = some (o, c'))
    (hpure : Contents.step F op s = (o, s')) (hh : Holds A' c' s') :
    StepHolds F op c s :=
  ⟨c', by rw [hstep, hpure], A', by rwa [hpure]⟩

/-- An operation that names nothing the client has. -/
theorem StepHolds.skip {op : ListOp} (hc : Holds A c s)
    (hstep : Client.step F op c = some (.skip, c))
    (hpure : Contents.step F op s = (.skip, s)) : StepHolds F op c s :=
  .of hstep hpure hc

theorem listNew_holds (hc : Holds A c s) : StepHolds F .listNew c s := by
  obtain ⟨h', hrun, hr', hq⟩ := metricListNew_spec hc.rep hc.allocs
  have hA : A c.heap.brk = none := by
    cases hl : A c.heap.brk with
    | none => rfl
    | some cs => exact absurd (hc.rep.list_lt hl) (Nat.lt_irrefl _)
  have hnew : c.heap.brk ∉ c.handles := by
    intro hm
    obtain ⟨i, hi⟩ := List.getElem?_of_mem hm
    obtain ⟨cs, hl, -⟩ := hc.list_some hi
    rw [hA] at hl
    cases hl
  have hstep : Client.step F .listNew c = some (.done,
      { c with heap := h', handles := c.handles ++ [c.heap.brk] }) := by
    simp [Client.step, hrun]
  exact .of hstep rfl {
    rep := hr'
    allocs := hq.ok hc.allocs
    handles := List.Nodup.append hc.handles (by simp) (by simpa using hnew)
    lists := by
      rw [contentsAt_update, List.map_append, hc.handles.map_update,
        if_neg hnew, hc.lists]
      simp
    hand := hc.hand
    held := hc.held_congr fun p _ => congrFun hq.metric p
    unlisted := by
      intro p hp hl
      rcases hl.of_update with hl | hl
      · simp at hl
      · exact hc.unlisted p hp hl }

theorem listInit_holds (hc : Holds A c s) : StepHolds F (.listInit i) c s := by
  cases hi : c.handles[i]? with
  | none =>
      exact .skip hc (by simp only [Client.step, hi])
        (by simp only [Contents.step, hc.list_none hi])
  | some l =>
      obtain ⟨cs, hl, hs⟩ := hc.list_some hi
      obtain ⟨hr', hq⟩ := metricListInit_spec hc.rep hl
      have hpure : Contents.step F (.listInit i) s = (.done,
          { s with lists := s.lists.set i (List.map Cell.metric []) }) := by
        simp [Contents.step, hs]
      exact .of (by simp only [Client.step, hi]) hpure
        (hc.setList_subset hi hl (by simp) hr' (hq.ok hc.allocs)
          fun a _ => congrFun hq.metric a)

theorem metricNew_holds (hc : Holds A c s) :
    StepHolds F (.metricNew m) c s := by
  have hnew : c.heap.brk ∉ c.hand := by
    intro hm
    obtain ⟨x, hx⟩ := hc.hand_live hm
    exact Nat.lt_irrefl _ (hc.rep.metric_lt hx)
  obtain ⟨hr', hkeep⟩ := hc.rep.setMetric_bump m
  have hstep : Client.step F (.metricNew m) c = some (.done,
      { c with heap := (c.heap.setMetric c.heap.brk m).bump
               hand := c.hand ++ [c.heap.brk] }) := by
    simp [Client.step, metricBuild_ok hc.allocs]
  exact .of hstep rfl {
    rep := hr'
    allocs := hc.allocs
    handles := hc.handles
    lists := hc.lists
    hand := List.Nodup.append hc.hand (by simp) (by simpa using hnew)
    held := by
      rw [List.map_append, hc.held_congr fun p hp => ?_]
      · simp
      · obtain ⟨x, hx⟩ := hc.hand_live hp
        rw [hkeep p x hx, hx]
    unlisted := by
      intro p hp
      rcases List.mem_append.mp hp with hp | hp
      · exact hc.unlisted p hp
      · rw [List.mem_singleton] at hp
        exact hp ▸ hc.rep.not_listed_brk }

/-- A push leaves the other held metrics as they were. -/
theorem Holds.pushed {A' : Lists} (hc : Holds A c s) (rc : Int)
    (hj : c.hand[j]? = some p) (hfr : PushFrame c.heap A p h' A')
    (hown : rc ≠ 0 → h'.metric p = c.heap.metric p ∧ ¬ Listed A' p) :
    (Client.handAfter c.hand j rc).map h'.metric
        = (Client.handAfter s.hand j rc).map some
      ∧ (Client.handAfter c.hand j rc).Nodup
      ∧ ∀ a ∈ Client.handAfter c.hand j rc, ¬ Listed A' a := by
  refine hc.handAfter (P := fun a => ¬ Listed A' a) hj ?_ hown
  intro a ha hap
  obtain ⟨x, hx⟩ := hc.hand_live ha
  have hlt := hc.rep.metric_lt hx
  refine ⟨hfr.keep a (hc.unlisted a ha) hap hlt, fun hla => ?_⟩
  rcases hfr.listed a hla with hla | hla | hla
  · exact hc.unlisted a ha hla
  · exact hap hla
  · exact Nat.not_lt.mpr hla hlt

theorem push_holds (hc : Holds A c s) : StepHolds F (.push i j) c s := by
  cases hi : c.handles[i]? with
  | none =>
      exact .skip hc (by simp only [Client.step, hi])
        (by simp only [Contents.step, hc.list_none hi])
  | some l =>
      obtain ⟨cs, hl, hs⟩ := hc.list_some hi
      cases hj : c.hand[j]? with
      | none =>
          exact .skip hc (by simp only [Client.step, hi, hj])
            (by simp only [Contents.step, hs, hc.hand_none hj])
      | some p =>
          obtain ⟨m, hm, hsj, hu⟩ := hc.hand_some hj
          obtain ⟨h', hrun, hr', hq⟩ :=
            metricListPush_spec hc.rep hc.allocs hl hm hu
          obtain ⟨hheld, hnd, hun⟩ := hc.pushed 0 hj
            (PushFrame.push (m := m) hl hq) fun h0 => absurd rfl h0
          have hstep : Client.step F (.push i j) c = some (.code 0,
              { c with heap := h', hand := Client.handAfter c.hand j 0 }) := by
            simp [Client.step, hi, hj, hrun]
          have hpure : Contents.step F (.push i j) s = (.code 0,
              { lists := s.lists.set i
                  ((cs ++ [Cell.mk c.heap.brk p m]).map Cell.metric)
                hand := Client.handAfter s.hand j 0 }) := by
            simp [Contents.step, hs, hsj, Seq.metricListPush]
          exact .of hstep hpure
            (hc.setList hi hr' (hq.ok hc.allocs) hnd hheld hun)

theorem pop_holds (hc : Holds A c s) : StepHolds F (.pop i) c s := by
  cases hi : c.handles[i]? with
  | none =>
      exact .skip hc (by simp only [Client.step, hi])
        (by simp only [Contents.step, hc.list_none hi])
  | some l =>
      obtain ⟨cs, hl, hs⟩ := hc.list_some hi
      cases cs with
      | nil =>
          have hset : s.lists.set i [] = s.lists := by
            obtain ⟨hlt, he⟩ := List.getElem?_eq_some_iff.mp hs
            rw [List.map_nil] at he
            rw [← he, List.set_getElem_self]
          have hstep : Client.step F (.pop i) c = some (.popped none, c) := by
            simp [Client.step, hi, metricListPop_nil hc.rep hl]
          have hpure : Contents.step F (.pop i) s = (.popped none, s) := by
            simp [Contents.step, hs, Seq.metricListPop, hset]
          exact .of hstep hpure hc
      | cons d ds =>
          obtain ⟨h', hrun, hr', hq⟩ := metricListPop_cons hc.rep hl
          obtain ⟨hdr, -, hcs⟩ := hc.rep.isList l _ hl
          have hdm : h'.metric d.ptr = some d.metric := by
            rw [hq.metric]
            exact hcs.contents d (by simp)
          have hnew : d.ptr ∉ c.hand :=
            fun hd => hc.unlisted _ hd ⟨l, _, hl, by simp⟩
          have hstep : Client.step F (.pop i) c = some (.popped d.metric,
              { c with heap := h', hand := c.hand ++ [d.ptr] }) := by
            simp [Client.step, hi, hrun, hdm]
          have hpure : Contents.step F (.pop i) s = (.popped d.metric,
              { lists := s.lists.set i (ds.map Cell.metric)
                hand := s.hand ++ [d.metric] }) := by
            simp [Contents.step, hs, Seq.metricListPop]
          refine .of hstep hpure
            (hc.setList hi hr' (hq.ok hc.allocs) ?_ ?_ ?_)
          · exact List.Nodup.append hc.hand (by simp) (by simpa using hnew)
          · rw [List.map_append,
              hc.held_congr fun p _ => congrFun hq.metric p]
            simp [hdm]
          · intro p hp
            rcases List.mem_append.mp hp with hp | hp
            · intro hl'
              rcases hl'.of_update with hin | hin
              · exact hc.unlisted p hp
                  ⟨l, _, hl, List.mem_cons_of_mem _ hin⟩
              · exact hc.unlisted p hp hin
            · rw [List.mem_singleton] at hp
              exact hp ▸ not_listed_pop hc.rep hl

/-- Removing by a predicate on metrics is removing by it on what holds
them. -/
theorem metricListRemoveIf_map {α β σ : Type} (f : σ → β → Bool × σ)
    (g : α → β) (data : σ) (xs : List α) :
    Seq.metricListRemoveIf f data (xs.map g)
      = ((Seq.metricListRemoveIf (fun s x => f s (g x)) data xs).1.map g,
        (Seq.metricListRemoveIf (fun s x => f s (g x)) data xs).2) := by
  induction xs generalizing data with
  | nil => rfl
  | cons x xs ih =>
      simp only [List.map_cons, Seq.metricListRemoveIf, ih]
      cases f data (g x) with
      | mk accept data =>
          cases accept <;> rfl

theorem metricListRemoveIf_sublist {α σ : Type} (f : σ → α → Bool × σ)
    (data : σ) (xs : List α) :
    (Seq.metricListRemoveIf f data xs).1.Sublist xs := by
  induction xs generalizing data with
  | nil => exact List.Sublist.slnil
  | cons x xs ih =>
      unfold Seq.metricListRemoveIf
      cases f data x with
      | mk accept data =>
          cases accept with
          | true => exact (ih data).cons x
          | false => exact (ih data).cons_cons x

theorem removeIf_holds {σ : Type} {f : σ → Metric → Bool × σ} {data : σ}
    (hc : Holds A c s) : StepHolds F (.removeIf f data i) c s := by
  cases hi : c.handles[i]? with
  | none =>
      exact .skip hc (by simp only [Client.step, hi])
        (by simp only [Contents.step, hc.list_none hi])
  | some l =>
      obtain ⟨cs, hl, hs⟩ := hc.list_some hi
      obtain ⟨h', ps, hrun, hr', hf, hperm⟩ :=
        metricListRemoveIf_spec f data hc.rep hl
      let kept := Seq.metricListRemoveIf (fun s c => f s c.metric) data cs
      have hstep : Client.step F (.removeIf f data i) c
          = some (.removed kept.2, { c with heap := h' }) := by
        simp [Client.step, hi, hrun, kept]
      have hpure : Contents.step F (.removeIf f data i) s
          = (.removed kept.2,
            { s with lists := s.lists.set i (kept.1.map Cell.metric) }) := by
        simp [Contents.step, hs, metricListRemoveIf_map, kept]
      have hsub : (kept.1.map Cell.ptr).Sublist (cs.map Cell.ptr) :=
        (metricListRemoveIf_sublist ..).map _
      have hm : ∀ a, a ∉ cs.map Cell.ptr → h'.metric a = c.heap.metric a :=
        fun a ha => hf.metric a fun hp =>
          ha (hperm.mem_iff.mpr (List.mem_append_right _ hp))
      exact .of hstep hpure (hc.setList_subset hi hl (fun p hp =>
        hsub.subset hp) hr' (hf.allocs.trans hc.allocs) hm)

theorem concat_holds (hc : Holds A c s) : StepHolds F (.concat i j) c s := by
  cases hi : c.handles[i]? with
  | none =>
      exact .skip hc (by simp only [Client.step, hi])
        (by simp only [Contents.step, hc.list_none hi])
  | some head =>
      obtain ⟨cs, hl, hs⟩ := hc.list_some hi
      cases hj : c.handles[j]? with
      | none =>
          exact .skip hc (by simp only [Client.step, hi, hj])
            (by simp only [Contents.step, hs, hc.list_none hj])
      | some tail =>
          obtain ⟨ds, hd, ht⟩ := hc.list_some hj
          by_cases e : i = j
          · exact .skip hc (by simp only [Client.step, hi, hj, if_pos e])
              (by simp only [Contents.step, hs, ht, if_pos e])
          · have hne := hc.handle_ne hi hj e
            obtain ⟨h', hrun, hr', hq⟩ :=
              metricListConcat_spec hc.rep hne hl hd
            have hstep : Client.step F (.concat i j) c
                = some (.done, { c with heap := h' }) := by
              simp [Client.step, hi, hj, e, hrun]
            have hpure : Contents.step F (.concat i j) s = (.done,
                { s with lists := (s.lists.set i
                    ((cs ++ ds).map Cell.metric)).set j [] }) := by
              simp [Contents.step, hs, ht, e, Seq.metricListConcat]
            refine .of hstep hpure {
              rep := hr'
              allocs := hq.ok hc.allocs
              handles := hc.handles
              lists := ?_
              hand := hc.hand
              held := hc.held_congr fun p _ => congrFun hq.metric p
              unlisted := ?_ }
            · rw [contentsAt_update, contentsAt_update]
              exact map_update_eq_set hc.handles
                (map_update_eq_set hc.handles hc.lists hi _) hj _
            · intro p hp hl'
              rcases hl'.of_update with hin | hin
              · simp at hin
              · rcases hin.of_update with hin | hin
                · rw [List.map_append] at hin
                  rcases List.mem_append.mp hin with hin | hin
                  · exact hc.unlisted p hp ⟨_, _, hl, hin⟩
                  · exact hc.unlisted p hp ⟨_, _, hd, hin⟩
                · exact hc.unlisted p hp hin

theorem empty_holds (hc : Holds A c s) : StepHolds F (.empty i) c s := by
  cases hi : c.handles[i]? with
  | none =>
      exact .skip hc (by simp only [Client.step, hi])
        (by simp only [Contents.step, hc.list_none hi])
  | some l =>
      obtain ⟨cs, hl, hs⟩ := hc.list_some hi
      obtain ⟨h', hrun, hr', hfr⟩ := metricListEmpty_spec hc.rep hl
      have hstep : Client.step F (.empty i) c
          = some (.done, { c with heap := h' }) := by
        simp [Client.step, hi, hrun]
      have hpure : Contents.step F (.empty i) s = (.done,
          { s with lists := s.lists.set i (List.map Cell.metric []) }) := by
        simp [Contents.step, hs]
      exact .of hstep hpure (hc.setList_subset hi hl (by simp) hr'
        (hfr.allocs.trans hc.allocs) hfr.metric)

theorem storePush_holds {cur del cac : Nat} (hc : Holds A c s) :
    StepHolds F (.storePush cur del cac j) c s := by
  cases hcur : c.handles[cur]? with
  | none =>
      exact .skip hc (by simp only [Client.step, hcur])
        (by simp only [Contents.step, hc.list_none hcur])
  | some current =>
  obtain ⟨cs, hlc, hsc⟩ := hc.list_some hcur
  cases hdel : c.handles[del]? with
  | none =>
      exact .skip hc (by simp only [Client.step, hcur, hdel])
        (by simp only [Contents.step, hsc, hc.list_none hdel])
  | some delta =>
  obtain ⟨ds, hld, hsd⟩ := hc.list_some hdel
  cases hcac : c.handles[cac]? with
  | none =>
      exact .skip hc (by simp only [Client.step, hcur, hdel, hcac])
        (by simp only [Contents.step, hsc, hsd, hc.list_none hcac])
  | some cache =>
  obtain ⟨es, -, hse⟩ := hc.list_some hcac
  cases hj : c.hand[j]? with
  | none =>
      exact .skip hc (by simp only [Client.step, hcur, hdel, hcac, hj])
        (by simp only [Contents.step, hsc, hsd, hse, hc.hand_none hj])
  | some p =>
  obtain ⟨m, hm, hsj, hu⟩ := hc.hand_some hj
  by_cases e : cur = del
  · exact .skip hc
      (by simp only [Client.step, hcur, hdel, hcac, hj, if_pos e])
      (by simp only [Contents.step, hsc, hsd, hse, hsj, if_pos e])
  · have hready : PushReady c.heap A ⟨current, delta, cache⟩
        ⟨cs.map Cell.metric, ds.map Cell.metric, es.map Cell.metric⟩ cs ds p m :=
      ⟨hc.rep, hc.allocs, hc.handle_ne hcur hdel e, hlc, hld, rfl, rfl, hm, hu⟩
    obtain ⟨rc, h', cs', ds', A', hrun, rfl, hr', hseq, hfr, hback⟩ :=
      metricStorePush_spec (F := F) hready
    obtain ⟨hheld, hnd, hun⟩ := hc.pushed rc hj hfr fun h0 =>
      ⟨(hback h0).2.trans hm.symm, by rw [(hback h0).1]; exact hu⟩
    have hstep : Client.step F (.storePush cur del cac j) c = some (.code rc,
        { c with heap := h', hand := Client.handAfter c.hand j rc }) := by
      simp [Client.step, hcur, hdel, hcac, hj, e, hrun]
    have hpure : Contents.step F (.storePush cur del cac j) s = (.code rc,
        { lists := (s.lists.set del (ds'.map Cell.metric)).set cur
            (cs'.map Cell.metric)
          hand := Client.handAfter s.hand j rc }) := by
      simp [Contents.step, hsc, hsd, hse, hsj, e, hseq]
    exact .of hstep hpure {
      rep := hr'
      allocs := hfr.allocs.trans hc.allocs
      handles := hc.handles
      lists := by
        rw [contentsAt_update, contentsAt_update]
        exact map_update_eq_set hc.handles
          (map_update_eq_set hc.handles hc.lists hdel _) hcur _
      hand := hnd
      held := hheld
      unlisted := hun }

/-- One case an operation. -/
theorem step_holds : Simulates (fun c s => ∃ A, Holds A c s)
    (Client.step F) (Contents.step F) := by
  rintro op c s ⟨A, hc⟩
  change StepHolds F op c s
  cases op with
  | listNew => exact listNew_holds hc
  | listInit i => exact listInit_holds hc
  | metricNew m => exact metricNew_holds hc
  | push i j => exact push_holds hc
  | pop i => exact pop_holds hc
  | removeIf f data i => exact removeIf_holds hc
  | concat i j => exact concat_holds hc
  | empty i => exact empty_holds hc
  | storePush cur del cac j => exact storePush_holds hc

/-- Nothing on either side. -/
theorem start_holds : Holds (fun _ => none) Client.start Contents.start where
  rep := {
    isList := by simp
    absent := fun _ _ => rfl
    sep := by simp
    fresh := ⟨fun _ _ => rfl, fun _ _ => rfl, fun _ _ => rfl⟩ }
  allocs := rfl
  handles := by simp [Client.start]
  lists := rfl
  hand := by simp [Client.start]
  held := rfl
  unlisted := by simp [Client.start]

-- ================================================== what a list looks like

theorem walk_chain : ∀ (cs : List Cell) (p : Option Addr),
    Chain Node.next Node.metric h.node p (cs.map Cell.link) none →
    h.walk cs.length p = some (cs.map Cell.node) := by
  intro cs
  induction cs with
  | nil =>
      rintro p rfl
      rfl
  | cons c cs ih =>
      rintro p ⟨rfl, n, hn, -, hrest⟩
      have hwalk := ih n.next hrest
      simp [Heap.walk, hn, hwalk]

theorem mapM_cells {β : Type} {f : Addr → Option β} {g : Cell → β}
    (hf : ∀ c ∈ cs, f c.node = some (g c)) :
    (cs.map Cell.node).mapM f = some (cs.map g) := by
  induction cs with
  | nil => rfl
  | cons c cs ih =>
      have hrest := ih fun d hd => hf d (List.mem_cons_of_mem _ hd)
      simp [hf c (List.mem_cons_self ..), hrest]

/-- A header with its cells is a well-formed list, and represents their
metrics. -/
theorem IsList.wellFormed {hdr : MetricList} (hcs : IsList h hdr cs)
    (hh : h.list l = some hdr) :
    h.WellFormed l (cs.map Cell.node) (cs.map Cell.metric) hdr where
  header := hh
  visits := by
    rw [hcs.size]
    exact walk_chain cs _ hcs.chain
  size := by simp [hcs.size]
  distinct := hcs.nodup
  last := by rw [hcs.last, List.getLast?_map]
  last_next := by
    intro a ha
    rw [hcs.last] at ha
    rcases List.eq_nil_or_concat' cs with rfl | ⟨ds, d, rfl⟩
    · simp at ha
    · have hchain := hcs.chain
      rw [List.map_append] at hchain
      obtain ⟨-, n, hn, -, hnext⟩ := chain_snoc.mp hchain
      rw [List.getLast?_concat] at ha
      cases ha
      exact ⟨n, hn, hnext⟩
  first_null := by rw [hcs.first_eq_none, hcs.size, List.length_eq_zero_iff]
  last_null := by rw [hcs.last_eq_none, hcs.size, List.length_eq_zero_iff]
  dataSize := by
    refine ⟨?_, by simp [hcs.dataSize, cellsSize, Function.comp_def]⟩
    rw [mapM_cells fun c hc => hcs.nodeSize hc]
    simp [Function.comp_def]
  contents := by
    apply mapM_cells
    intro c hc
    obtain ⟨n, hn, hnm⟩ := hcs.node_mem hc
    simp [Heap.nodeMetric, hn, hnm, hcs.contents c hc]

-- ========================================================== the refinement

/-- Every sequence of list operations and store pushes, allocations
succeeding: no operation faults or loops, each returns what it returns
on sequences, the lists created are those of the run on sequences, each
well formed and representing its sequence, and no node is in two. -/
theorem metricLists_refine (F : FloatOps) (ops : List ListOp) :
    ∃ (c : Client) (nodes : Nat → List Addr) (hdrs : Nat → MetricList),
      run (Client.step F) ops Client.start
        = some ((exec (Contents.step F) ops Contents.start).1, c)
      ∧ c.handles.length
        = (exec (Contents.step F) ops Contents.start).2.lists.length
      ∧ (∀ i l, c.handles[i]? = some l → ∃ ms,
          (exec (Contents.step F) ops Contents.start).2.lists[i]? = some ms
          ∧ c.heap.WellFormed l (nodes i) ms (hdrs i))
      ∧ ∀ i j, i < c.handles.length → j < c.handles.length → i ≠ j →
          (nodes i).Disjoint (nodes j) := by
  obtain ⟨c, hrun, A, hc⟩ :=
    (step_holds (F := F)).run ops _ _ ⟨_, start_holds⟩
  have hlen := congrArg List.length hc.lists
  rw [List.length_map, List.length_map] at hlen
  have hall : ∀ (i : Nat) (l : Addr), c.handles[i]? = some l →
      ∃ cs hdr, A l = some cs
      ∧ (exec (Contents.step F) ops Contents.start).2.lists[i]?
        = some (cs.map Cell.metric)
      ∧ c.heap.WellFormed l (cs.map Cell.node) (cs.map Cell.metric) hdr := by
    intro i l hi
    obtain ⟨cs, hl, hs⟩ := hc.list_some hi
    obtain ⟨hdr, hh, hcs⟩ := hc.rep.isList l cs hl
    exact ⟨cs, hdr, hl, hs, hcs.wellFormed hh⟩
  -- the cells at a position, the header there
  let cells (i : Nat) := ((c.handles[i]?).bind A).getD []
  let hdrAt (i : Nat) :=
    ((c.handles[i]?).bind c.heap.list).getD ⟨0, 0, none, none⟩
  refine ⟨c, fun i => (cells i).map Cell.node, hdrAt, hrun, hlen, ?_, ?_⟩
  · intro i l hi
    obtain ⟨cs, hdr, hl, hs, hwf⟩ := hall i l hi
    refine ⟨_, hs, ?_⟩
    simpa [cells, hdrAt, hi, hl, hwf.header] using hwf
  · intro i j hi hj hij a hai haj
    have hi' := List.getElem?_eq_getElem hi
    have hj' := List.getElem?_eq_getElem hj
    obtain ⟨cs, -, hl, -⟩ := hall i _ hi'
    obtain ⟨ds, -, hd, -⟩ := hall j _ hj'
    simp only [cells, hi', hl, Option.bind_some, Option.getD_some] at hai
    simp only [cells, hj', hd, Option.bind_some, Option.getD_some] at haj
    obtain ⟨c₁, hc₁, rfl⟩ := List.mem_map.mp hai
    obtain ⟨c₂, hc₂, he⟩ := List.mem_map.mp haj
    exact (hc.rep.sep _ _ cs ds hl hd (hc.handle_ne hi' hj' hij) c₁ hc₁ c₂
      hc₂).1 he.symm

end Monikor
