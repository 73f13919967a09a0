/-
Whom the walk calls: each handler that waited for a ready descriptor, once
and in the order of the list, and no other.

The pointers are set against the plain list of the handlers registered
(`PollState.Holds`), and each act against what it does to that list
(`HandlerAct.cells`). A callback's acts change the list at two places: its
own handler, and the end. So the walk has the handlers it has yet to visit
in front of it all the way, and behind them only handlers for descriptors
that were not open when select was called, hence are not ready.
-/
import Monikor.IoHandler.Poll

namespace Monikor

open Linked

variable {μ : Type} {s s' : PollState μ} {act : HandlerAct μ}
  {xs ys zs ws : List (Addr × IoHandler)} {x y : Addr × IoHandler}
  {a : Addr} {v : IoHandler} {sel : List Int}

-- ======================================================= the plain list

/-- Two handlers are for different descriptors. -/
def FdApart (x y : Addr × IoHandler) : Prop :=
  x.2.fd = y.2.fd → x.2.fd = -1

/-- The handlers registered are `xs`: their memory is what is in use, and
the descriptors are open and each of one handler. -/
structure PollState.Holds (s : PollState μ) (xs : List (Addr × IoHandler)) :
    Prop where
  list : IsDlist s.list.handlers xs
  live : ∀ a, s.list.handlers.node a ≠ none → a ∈ xs.map Prod.fst
  opened : ∀ x ∈ xs, x.2.fd = -1 ∨ x.2.fd ∈ s.opened
  apart : xs.Pairwise FdApart

/-- What an act does to the list of the handlers registered. -/
def HandlerAct.cells (xs : List (Addr × IoHandler)) :
    HandlerAct μ → List (Addr × IoHandler)
  | register a v => xs ++ [(a, v)]
  | rewrite a v => xs.map fun x => if x.1 = a then (a, v) else x
  | release a _ => xs.filter (·.1 ≠ a)
  | _ => xs

theorem FdApart.symm (h : FdApart x y) : FdApart y x :=
  fun e => e.trans (h e.symm)

namespace PollState.Holds

/-- A registered handler, at its place. -/
theorem split (h : s.Holds xs) {n : DNode Addr IoHandler}
    (hn : s.list.handlers.node a = some n) :
    ∃ ys zs, xs = ys ++ (a, n.val) :: zs := by
  have hin := h.live a (by simp [hn])
  obtain ⟨x, hx, rfl⟩ := List.mem_map.mp hin
  obtain ⟨m, hm, hval⟩ := h.list.forward.mem hx
  obtain rfl := Option.some.inj (hn.symm.trans hm)
  obtain ⟨ys, zs, rfl⟩ := List.append_of_mem hx
  exact ⟨ys, zs, by rw [hval]⟩

/-- One address, one handler. -/
theorem eq_of_addr (h : s.Holds xs) (hx : x ∈ xs) (hy : y ∈ xs)
    (hxy : x.1 = y.1) : x = y :=
  List.inj_on_of_nodup_map h.list.nodup hx hy hxy

/-- The other handlers are for other descriptors. -/
theorem apart_split (h : s.Holds (ys ++ (a, v) :: zs)) :
    ∀ x ∈ ys ++ zs, FdApart x (a, v) := by
  intro x hx
  have hp := List.pairwise_append.mp h.apart
  rcases List.mem_append.mp hx with hx | hx
  · exact hp.2.2 x hx _ (List.mem_cons_self ..)
  · exact ((List.pairwise_cons.mp hp.2.1).1 x hx).symm

end PollState.Holds

namespace HandlerAct

theorem cells_rewrite {w : IoHandler} (hys : a ∉ ys.map Prod.fst)
    (hzs : a ∉ zs.map Prod.fst) :
    (rewrite a w : HandlerAct μ).cells (ys ++ (a, v) :: zs)
      = ys ++ (a, w) :: zs := by
  have hkeep : ∀ xs : List (Addr × IoHandler), a ∉ xs.map Prod.fst →
      (xs.map fun x => if x.1 = a then (a, w) else x) = xs := by
    intro xs hxs
    refine (List.map_congr_left fun x hx => ?_).trans xs.map_id
    exact if_neg fun e => hxs (List.mem_map.mpr ⟨x, hx, e⟩)
  simp [cells, hkeep ys hys, hkeep zs hzs]

theorem cells_release {closes : Bool} (hys : a ∉ ys.map Prod.fst)
    (hzs : a ∉ zs.map Prod.fst) :
    (release a closes : HandlerAct μ).cells (ys ++ (a, v) :: zs)
      = ys ++ zs := by
  have hkeep : ∀ xs : List (Addr × IoHandler), a ∉ xs.map Prod.fst →
      xs.filter (·.1 ≠ a) = xs := by
    intro xs hxs
    refine List.filter_eq_self.mpr fun x hx => decide_eq_true fun e => ?_
    exact hxs (List.mem_map.mpr ⟨x, hx, e⟩)
  show (ys ++ (a, v) :: zs).filter (·.1 ≠ a) = ys ++ zs
  rw [List.filter_append, List.filter_cons_of_neg (by simp), hkeep ys hys,
    hkeep zs hzs]

end HandlerAct

-- ============================================================== one act

theorem mem_replaceFd {opened : List Int} {old new fd : Int}
    (hfd : fd ∈ opened) (hne : fd ≠ old) : fd ∈ replaceFd opened old new := by
  unfold replaceFd
  split
  · exact hfd
  · split
    · simp [hfd, hne]
    · simp [hfd, hne]

namespace PollState.Holds

open HandlerAct

theorem register (h : s.Holds xs) (hact : (register a v).Legal s) :
    ∃ s', (HandlerAct.register a v).run s = some s'
      ∧ s'.Holds (xs ++ [(a, v)]) := by
  obtain ⟨hfree, hpos, hfd⟩ := hact
  have hout : a ∉ xs.map Prod.fst := fun hin => h.list.live hin hfree
  obtain ⟨d', hrun, hd', -, hsame⟩ := IsDlist.push
    (h.list.update hout (some ⟨none, none, v⟩)) (Function.update_self ..) hout
  refine ⟨⟨{ s.list with handlers := d' }, v.fd :: s.opened⟩, ?_, ⟨hd', ?_, ?_,
    ?_⟩⟩
  · simp only [run, ioHandlerListPush, ioHandlerNew, Dlist.create,
      Option.bind_eq_bind, hrun, Option.bind_some, Option.pure_def]
  · intro b hb
    rw [List.map_append, List.mem_append]
    by_cases e : b = a
    · exact .inr (by simp [e])
    · refine .inl (h.live b fun hn => hb ((hsame b).mpr ?_))
      show Function.update s.list.handlers.node a _ b = none
      rw [Function.update_of_ne e, hn]
  · intro x hx
    rcases List.mem_append.mp hx with hx | hx
    · exact (h.opened x hx).imp_right (List.mem_cons_of_mem _)
    · obtain rfl := List.mem_singleton.mp hx
      exact .inr (List.mem_cons_self ..)
  · refine List.pairwise_append.mpr ⟨h.apart, List.pairwise_singleton ..,
      fun x hx y hy e => ?_⟩
    obtain rfl := List.mem_singleton.mp hy
    refine (h.opened x hx).resolve_right fun hin => hfd ?_
    rw [← show x.2.fd = v.fd from e]
    exact hin

theorem rewrite (h : s.Holds xs) (hact : (rewrite a v).Legal s) :
    ∃ s', (HandlerAct.rewrite a v).run s = some s'
      ∧ s'.Holds ((HandlerAct.rewrite a v : HandlerAct μ).cells xs) := by
  obtain ⟨n, hn, hfd⟩ := hact
  obtain ⟨ys, zs, rfl⟩ := h.split hn
  obtain ⟨hys, hzs, -⟩ := h.list.apart
  obtain ⟨d', hrun, hd', hsame⟩ := h.list.write (w := v)
  rw [cells_rewrite hys hzs]
  have hother := h.apart_split
  have hsub : (ys ++ zs).Sublist (ys ++ (a, n.val) :: zs) :=
    (List.sublist_cons_self ..).append_left ys
  have hp := List.pairwise_append.mp h.apart
  have hpzs := List.pairwise_cons.mp hp.2.1
  -- the new descriptor is the old one, none, or was not open
  have hnew : ∀ x ∈ ys ++ zs, FdApart x (a, v) := by
    intro x hx e
    rcases hfd with hfd | hfd | ⟨-, hfd⟩
    · exact hother x hx (e.trans hfd)
    · exact e.trans hfd
    · refine (h.opened x (hsub.subset hx)).resolve_right fun hop => hfd ?_
      rw [← show x.2.fd = v.fd from e]
      exact hop
  refine ⟨⟨{ s.list with handlers := d' }, replaceFd s.opened n.val.fd v.fd⟩,
    ?_, ⟨hd', ?_, ?_, ?_⟩⟩
  · simp [run, hn, hrun]
  · intro b hb
    have hin := h.live b fun hnone => hb ((hsame b).mpr hnone)
    simpa using hin
  · intro x hx
    have hcase : x ∈ ys ++ zs ∨ x = (a, v) := by
      simp only [List.mem_append, List.mem_cons] at hx ⊢
      tauto
    rcases hcase with hx | rfl
    · by_cases hone : x.2.fd = -1
      · exact .inl hone
      · have hop := (h.opened x (hsub.subset hx)).resolve_left hone
        exact .inr (mem_replaceFd hop fun e => hone (hother x hx e))
    · unfold replaceFd
      by_cases hsame : v.fd = n.val.fd
      · rw [if_pos hsame, hsame]
        exact h.opened (a, n.val) (by simp)
      · by_cases hone : v.fd = -1
        · exact .inl hone
        · simp [hsame, hone]
  · refine List.pairwise_append.mpr ⟨hp.1, List.pairwise_cons.mpr
      ⟨fun x hx => (hnew x (by simp [hx])).symm, hpzs.2⟩, fun x hx y hy => ?_⟩
    rcases List.mem_cons.mp hy with rfl | hy
    · exact hnew x (by simp [hx])
    · exact hp.2.2 x hx y (List.mem_cons_of_mem _ hy)

/-- Unregistered, and then freed: the handler can be read in between. -/
theorem released (h : s.Holds xs) {n : DNode Addr IoHandler}
    (hn : s.list.handlers.node a = some n) (closes : Bool) :
    ∃ d' s', s.list.handlers.remove a = some d' ∧ d'.node a = some n
      ∧ (HandlerAct.release a closes).run s = some s'
      ∧ s' = ⟨{ s.list with handlers :=
            { d' with node := Function.update d'.node a none } },
          if closes then s.opened.filter (· ≠ n.val.fd) else s.opened⟩
      ∧ s'.Holds ((HandlerAct.release a closes : HandlerAct μ).cells xs) := by
  obtain ⟨ys, zs, rfl⟩ := h.split hn
  obtain ⟨hys, hzs, -⟩ := h.list.apart
  obtain ⟨d', hrun, hd', hframe, hsame⟩ := h.list.remove
  have hother := h.apart_split
  have hsub : (ys ++ zs).Sublist (ys ++ (a, n.val) :: zs) :=
    (List.sublist_cons_self ..).append_left ys
  have hout : a ∉ (ys ++ zs).map Prod.fst := by
    rw [List.map_append, List.mem_append, not_or]
    exact ⟨hys, hzs⟩
  have hn' : d'.node a = some n := (hframe a hout).trans hn
  refine ⟨d', _, hrun, hn', ?_, rfl, ?_⟩
  · simp [run, hn, ioHandlerListRemove, hrun, Dlist.free, hn']
  rw [cells_release hys hzs]
  refine ⟨hd'.update hout none, ?_, ?_, ?_⟩
  · intro b hb
    have hba : b ≠ a := fun e => hb (by simp [e])
    have hb' : d'.node b ≠ none := by simpa [hba] using hb
    have hmem := h.live b fun hnone => hb' ((hsame b).mpr hnone)
    simpa [hba] using hmem
  · intro x hx
    by_cases hone : x.2.fd = -1
    · exact .inl hone
    · have hop := (h.opened x (hsub.subset hx)).resolve_left hone
      have hne : x.2.fd ≠ n.val.fd := fun e => hone (hother x hx e)
      refine .inr ?_
      show x.2.fd ∈ if closes then _ else _
      cases closes <;> simp [hop, hne]
  · exact h.apart.sublist hsub

theorem release {closes : Bool} (h : s.Holds xs)
    (hact : (release a closes).Legal s) :
    ∃ s', (HandlerAct.release a closes).run s = some s'
      ∧ s'.Holds ((HandlerAct.release a closes : HandlerAct μ).cells xs) := by
  obtain ⟨n, hn⟩ := Option.ne_none_iff_exists'.mp hact
  obtain ⟨-, s', -, -, hrun, -, hs'⟩ := h.released hn closes
  exact ⟨s', hrun, hs'⟩

/-- Each legal act keeps the list, and changes it as it says. -/
theorem run (h : s.Holds xs) (hact : act.Legal s) :
    ∃ s', act.run s = some s' ∧ s'.Holds (act.cells xs) := by
  cases act with
  | register a v => exact h.register hact
  | rewrite a v => exact h.rewrite hact
  | release a closes => exact h.release hact
  | openFd fd =>
      exact ⟨_, rfl, h.list, h.live, fun x hx =>
        (h.opened x hx).imp_right (List.mem_cons_of_mem _), h.apart⟩
  | closeFd fd =>
      refine ⟨_, rfl, h.list, h.live, fun x hx => ?_, h.apart⟩
      obtain ⟨n, hn, hval⟩ := h.list.forward.mem hx
      have hne : x.2.fd ≠ fd := hval ▸ hact x.1 n hn
      exact (h.opened x hx).imp_right fun hop => by simp [hop, hne]
  | elsewhere l => exact ⟨_, rfl, h.list, h.live, h.opened, h.apart⟩

end PollState.Holds

/-- Every state the agent comes to holds a list of handlers. -/
theorem PollState.Reachable.holds (h : s.Reachable) : ∃ xs, s.Holds xs := by
  induction h with
  | start multi opened =>
      exact ⟨[], isDlist_empty, fun a ha => absurd rfl ha, by simp,
        List.Pairwise.nil⟩
  | act hs hact hrun ih =>
      obtain ⟨xs, hxs⟩ := ih
      obtain ⟨s₁, hrun₁, h₁⟩ := hxs.run hact
      obtain rfl := Option.some.inj (hrun.symm.trans hrun₁)
      exact ⟨_, h₁⟩

-- ============================================================ a callback

/-- Where an act of a callback changes the list: at its own handler, and
at the end. -/
theorem HandlerAct.cells_mine {own : Option Addr}
    {mine rest : List (Addr × IoHandler)}
    (hnd : ((ys ++ mine ++ rest).map Prod.fst).Nodup)
    (hmine : mine.map Prod.fst = own.toList)
    (hact : act.LegalIn sel own s) :
    ∃ mine' new, act.cells (ys ++ mine ++ rest) = ys ++ mine' ++ (rest ++ new)
      ∧ mine'.map Prod.fst = (act.ownAfter own).toList
      ∧ ∀ x ∈ new, x.2.fd ∉ sel := by
  -- the callback's handler, if it still has it
  have hheld : ∀ b, own = some b → ∃ w, mine = [(b, w)]
      ∧ b ∉ ys.map Prod.fst ∧ b ∉ rest.map Prod.fst := by
    intro b hb
    rw [hb] at hmine
    obtain ⟨⟨c, w⟩, rfl⟩ := List.length_eq_one_iff.mp
      (show mine.length = 1 by simpa using congrArg List.length hmine)
    obtain rfl : c = b := by simpa using hmine
    simp only [List.map_append, List.map_cons, List.append_assoc,
      List.singleton_append, List.nodup_append, List.nodup_cons] at hnd
    exact ⟨w, rfl, fun hin => hnd.2.2 c hin c (List.mem_cons_self ..) rfl,
      hnd.2.1.1⟩
  cases act with
  | register a v =>
      refine ⟨mine, [(a, v)], ?_, hmine, ?_⟩
      · simp [cells]
      · intro x hx
        obtain rfl := List.mem_singleton.mp hx
        exact hact.2
  | rewrite a v =>
      obtain ⟨w, rfl, hys, hrest⟩ := hheld a hact.2
      refine ⟨[(a, v)], [], ?_, ?_, by simp⟩
      · have hcells : (rewrite a v : HandlerAct μ).cells
            (ys ++ (a, w) :: rest) = ys ++ (a, v) :: rest :=
          cells_rewrite hys hrest
        simpa using hcells
      · rw [show own = some a from hact.2]
        rfl
  | release a closes =>
      obtain ⟨w, rfl, hys, hrest⟩ := hheld a hact.2
      refine ⟨[], [], ?_, rfl, by simp⟩
      have hcells : (release a closes : HandlerAct μ).cells
          (ys ++ (a, w) :: rest) = ys ++ rest := cells_release hys hrest
      simpa using hcells
  | openFd fd => exact ⟨mine, [], by simp [cells], hmine, by simp⟩
  | closeFd fd => exact ⟨mine, [], by simp [cells], hmine, by simp⟩
  | elsewhere l => exact ⟨mine, [], by simp [cells], hmine, by simp⟩

/-- All the acts of a callback. -/
theorem HandlerAct.runAll_mine (ys : List (Addr × IoHandler))
    (acts : List (HandlerAct μ)) :
    ∀ (s : PollState μ) (own : Option Addr)
      (mine rest : List (Addr × IoHandler)),
      s.Reachable → s.Holds (ys ++ mine ++ rest) →
      mine.map Prod.fst = own.toList → LegalAll sel own s acts →
      ∃ s' mine' new, runAll s acts = some s' ∧ s'.Reachable
        ∧ s'.Holds (ys ++ mine' ++ (rest ++ new))
        ∧ ∀ x ∈ new, x.2.fd ∉ sel := by
  induction acts with
  | nil =>
      intro s own mine rest hs h _ _
      exact ⟨s, mine, [], rfl, hs, by rwa [List.append_nil], by simp⟩
  | cons act acts ih =>
      intro s own mine rest hs h hmine hlegal
      obtain ⟨hact, hlegal⟩ := hlegal
      obtain ⟨s₁, hrun₁, h₁⟩ := h.run hact.1
      obtain ⟨mine₁, new₁, hcells, hmine₁, hnew₁⟩ :=
        cells_mine h.list.nodup hmine hact
      rw [hcells] at h₁
      obtain ⟨s', mine', new, hrun, hs', h', hnew⟩ := ih s₁ _ mine₁ _
        (hs.act hact.1 hrun₁) h₁ hmine₁ (hlegal s₁ hrun₁)
      refine ⟨s', mine', new₁ ++ new, ?_, hs', ?_, ?_⟩
      · unfold runAll
        rw [List.foldlM_cons, hrun₁]
        exact hrun
      · rwa [← List.append_assoc rest]
      · intro x hx
        rcases List.mem_append.mp hx with hx | hx
        · exact hnew₁ x hx
        · exact hnew x hx

-- ======================================================= what is waited for

/-- A handler that waits to read. -/
def IoHandler.WaitsRd (h : IoHandler) : Prop :=
  h.fd ≠ -1 ∧ h.mode &&& ioHandlerRd ≠ 0

/-- A handler that waits to write. -/
def IoHandler.WaitsWr (h : IoHandler) : Prop :=
  h.fd ≠ -1 ∧ h.mode &&& ioHandlerRd = 0 ∧ h.mode &&& ioHandlerWr ≠ 0

instance (h : IoHandler) : Decidable h.WaitsRd :=
  inferInstanceAs (Decidable (_ ∧ _))

instance (h : IoHandler) : Decidable h.WaitsWr :=
  inferInstanceAs (Decidable (_ ∧ _))

/-- The sets and the `ndfs` once the handlers have been gone through. -/
def requested (xs : List (Addr × IoHandler)) (sets : FdSets) (ndfs : Int) :
    FdSets × Int :=
  xs.foldl (fun r x => setFd x.2 r.1 r.2) (sets, ndfs)

theorem setFdSetsLoop_eq {l : HandlerList μ}
    (zs : List (Addr × IoHandler)) :
    ∀ (sets : FdSets) (ndfs : Int) (p : Option Addr) (fuel : Nat),
      Chain DNode.next DNode.val l.handlers.node p zs none → zs.length < fuel →
      setFdSetsLoop l fuel sets ndfs p = some (requested zs sets ndfs) := by
  induction zs with
  | nil =>
      intro sets ndfs p fuel h hfuel
      obtain ⟨fuel, rfl⟩ : ∃ k, fuel = k + 1 := ⟨fuel - 1, by omega⟩
      obtain rfl : p = none := h
      rfl
  | cons x zs ih =>
      intro sets ndfs p fuel h hfuel
      obtain ⟨fuel, rfl⟩ : ∃ k, fuel = k + 1 := ⟨fuel - 1, by omega⟩
      obtain ⟨rfl, n, hn, hval, hrest⟩ := h
      have hlen : zs.length < fuel := by simpa using hfuel
      unfold setFdSetsLoop
      simp only [hn, hval, Option.bind_eq_bind, Option.bind_some]
      exact ih _ _ _ _ hrest hlen

theorem setFdSets_eq {l : HandlerList μ} {curl : FdSets} {ndfs : Int}
    {fuel : Nat} (h : IsDlist l.handlers xs) (hfuel : xs.length < fuel) :
    setFdSets fuel l curl ndfs
      = some ((requested xs curl ndfs).1, (requested xs curl ndfs).2 + 1) := by
  unfold setFdSets
  rw [setFdSetsLoop_eq xs _ _ _ _ h.forward hfuel]
  rfl

/-- What one handler adds. -/
theorem mem_setFd (h : IoHandler) (sets : FdSets) (ndfs fd : Int) :
    (fd ∈ (setFd h sets ndfs).1.rdfds
        ↔ fd ∈ sets.rdfds ∨ h.fd = fd ∧ h.WaitsRd)
      ∧ (fd ∈ (setFd h sets ndfs).1.wrfds
        ↔ fd ∈ sets.wrfds ∨ h.fd = fd ∧ h.WaitsWr) := by
  unfold setFd IoHandler.WaitsRd IoHandler.WaitsWr
  by_cases hone : h.fd = -1
  · simp [hone]
  · by_cases hrd : h.mode &&& ioHandlerRd = 0
    · by_cases hwr : h.mode &&& ioHandlerWr = 0
      · simp [hone, hrd, hwr]
      · simp [hone, hrd, hwr, or_comm, eq_comm]
    · simp [hone, hrd, or_comm, eq_comm]

/-- What is waited for: what libcurl waits for, and what the handlers
do. -/
theorem mem_requested (xs : List (Addr × IoHandler)) {fd : Int} :
    ∀ (sets : FdSets) (ndfs : Int),
      (fd ∈ (requested xs sets ndfs).1.rdfds
          ↔ fd ∈ sets.rdfds ∨ ∃ x ∈ xs, x.2.fd = fd ∧ x.2.WaitsRd)
        ∧ (fd ∈ (requested xs sets ndfs).1.wrfds
          ↔ fd ∈ sets.wrfds ∨ ∃ x ∈ xs, x.2.fd = fd ∧ x.2.WaitsWr) := by
  induction xs with
  | nil => simp [requested]
  | cons x xs ih =>
      intro sets ndfs
      have hx := mem_setFd x.2 sets ndfs fd
      have hih := ih (setFd x.2 sets ndfs).1 (setFd x.2 sets ndfs).2
      constructor
      · refine hih.1.trans ?_
        simp only [hx.1, List.mem_cons, exists_eq_or_imp, or_assoc]
      · refine hih.2.trans ?_
        simp only [hx.2, List.mem_cons, exists_eq_or_imp, or_assoc]

/-- No descriptor that is waited for is left out by `ndfs`. -/
theorem requested_lt (xs : List (Addr × IoHandler)) :
    ∀ (sets : FdSets) (ndfs : Int),
      (∀ fd ∈ sets.rdfds ++ sets.wrfds, fd ≤ ndfs) →
      ∀ fd ∈ (requested xs sets ndfs).1.rdfds
        ++ (requested xs sets ndfs).1.wrfds,
        fd ≤ (requested xs sets ndfs).2 := by
  induction xs with
  | nil => exact fun sets ndfs h => h
  | cons x xs ih =>
      intro sets ndfs h
      refine ih (setFd x.2 sets ndfs).1 (setFd x.2 sets ndfs).2
        fun fd hfd => ?_
      have hle : ndfs ≤ (setFd x.2 sets ndfs).2
          ∧ (x.2.WaitsRd ∨ x.2.WaitsWr →
            x.2.fd ≤ (setFd x.2 sets ndfs).2) := by
        unfold setFd IoHandler.WaitsRd IoHandler.WaitsWr
        by_cases hone : x.2.fd = -1
        · simp [hone]
        · by_cases hrd : x.2.mode &&& ioHandlerRd = 0
          · by_cases hwr : x.2.mode &&& ioHandlerWr = 0
            · simp [hone, hrd, hwr]
            · simp [hone, hrd, hwr]
          · simp [hone, hrd]
      have hx := mem_setFd x.2 sets ndfs fd
      rw [List.mem_append, hx.1, hx.2] at hfd
      rcases hfd with (hfd | ⟨rfl, hw⟩) | (hfd | ⟨rfl, hw⟩)
      · exact (h fd (List.mem_append_left _ hfd)).trans hle.1
      · exact hle.2 (.inl hw)
      · exact (h fd (List.mem_append_right _ hfd)).trans hle.1
      · exact hle.2 (.inr hw)

-- ================================================================ the walk

/-- The call a handler is due: it waits for a descriptor that is ready,
and has a callback. -/
def dueReady (ready : FdSets) (x : Addr × IoHandler) : Option PollCall :=
  if x.2.WaitsRd ∧ x.2.fd ∈ ready.rdfds then
    x.2.callback.map (⟨x.1, ·, ioHandlerRd⟩)
  else if x.2.WaitsWr ∧ x.2.fd ∈ ready.wrfds then
    x.2.callback.map (⟨x.1, ·, ioHandlerWr⟩)
  else none

theorem dueReady_handler {ready : FdSets} {call : PollCall}
    (h : dueReady ready x = some call) : call.handler = x.1 := by
  unfold dueReady at h
  split at h
  · obtain ⟨cb, -, rfl⟩ := Option.map_eq_some_iff.mp h
    rfl
  · split at h
    · obtain ⟨cb, -, rfl⟩ := Option.map_eq_some_iff.mp h
      rfl
    · cases h

theorem pollCall_none {ready : FdSets} {h : IoHandler}
    (hrd : h.fd ∉ ready.rdfds) (hwr : h.fd ∉ ready.wrfds) :
    pollCall ready a h = none := by
  simp [pollCall, readyMode, hrd, hwr]

/-- A handler whose descriptor is ready only for what it waits for. -/
theorem pollCall_eq {ready : FdSets}
    (hrd : x.2.fd ∈ ready.rdfds → x.2.WaitsRd)
    (hwr : x.2.fd ∈ ready.wrfds → x.2.WaitsWr) :
    pollCall ready x.1 x.2 = dueReady ready x := by
  unfold dueReady
  by_cases hr : x.2.fd ∈ ready.rdfds
  · have hnw : x.2.fd ∉ ready.wrfds := fun hw => (hrd hr).2 (hwr hw).2.1
    have hmode : readyMode ready x.2.fd = ioHandlerRd := by
      simp [readyMode, hr, hnw]
    rw [if_pos ⟨hrd hr, hr⟩, pollCall, hmode,
      if_pos ⟨(hrd hr).1, by decide⟩]
  · rw [if_neg fun e => hr e.2]
    by_cases hw : x.2.fd ∈ ready.wrfds
    · have hmode : readyMode ready x.2.fd = ioHandlerWr := by
        simp [readyMode, hr, hw]
      rw [if_pos ⟨hwr hw, hw⟩, pollCall, hmode,
        if_pos ⟨(hwr hw).1, by decide⟩]
    · rw [if_neg fun e => hw e.2, pollCall_none hr hw]

section Walk

variable (κ : Callbacks μ sel) {ready : FdSets}

/-- Handlers that are due no call: the walk goes past them. -/
theorem dispatchLoop_past (ws : List (Addr × IoHandler)) :
    ∀ (p : Option Addr) (calls : List PollCall) (fuel : Nat),
      Chain DNode.next DNode.val s.list.handlers.node p ws none →
      ws.length < fuel → (∀ w ∈ ws, pollCall ready w.1 w.2 = none) →
      dispatchLoop κ ready fuel calls s p = some (calls, s) := by
  induction ws with
  | nil =>
      intro p calls fuel h hfuel _
      obtain ⟨fuel, rfl⟩ : ∃ k, fuel = k + 1 := ⟨fuel - 1, by omega⟩
      obtain rfl : p = none := h
      rfl
  | cons w ws ih =>
      intro p calls fuel h hfuel hw
      obtain ⟨fuel, rfl⟩ : ∃ k, fuel = k + 1 := ⟨fuel - 1, by omega⟩
      obtain ⟨rfl, n, hn, hval, hrest⟩ := h
      have hlen : ws.length < fuel := by simpa using hfuel
      unfold dispatchLoop
      simp only [hn, hval, pollHandler, hw w (List.mem_cons_self ..),
        Option.bind_eq_bind, Option.bind_some]
      exact ih _ calls fuel hrest hlen fun y hy =>
        hw y (List.mem_cons_of_mem _ hy)

/-- The walk, with `zs` yet to be visited of the handlers that were there
when select was called, and `ws` appended since. The link `p` it has read
leads to them; or it was read before any was appended. -/
theorem dispatchLoop_calls
    (hready : ∀ fd, fd ∈ ready.rdfds ∨ fd ∈ ready.wrfds → fd ∈ sel)
    (zs : List (Addr × IoHandler)) :
    ∀ (s : PollState μ) (ys ws : List (Addr × IoHandler)) (p : Option Addr)
      (calls : List PollCall), s.Reachable → s.Holds (ys ++ zs ++ ws) →
      (∀ x ∈ zs, pollCall ready x.1 x.2 = dueReady ready x) →
      (∀ w ∈ ws, w.2.fd ∉ sel) →
      (p = (zs ++ ws).head?.map Prod.fst ∨ zs = [] ∧ p = none) →
      ∃ bound s', s'.Reachable ∧ ∀ fuel, bound < fuel →
        dispatchLoop κ ready fuel calls s p
          = some (calls ++ zs.filterMap (dueReady ready), s') := by
  induction zs with
  | nil =>
      intro s ys ws p calls hs h _ hws hp
      refine ⟨ws.length, s, hs, fun fuel hfuel => ?_⟩
      rw [List.filterMap_nil, List.append_nil]
      rcases hp with hp | ⟨-, rfl⟩
      · rw [List.append_nil] at h
        obtain ⟨r, -, hchain⟩ := chain_append.mp h.list.forward
        obtain rfl : r = p := hchain.start.trans hp.symm
        refine dispatchLoop_past κ ws r calls fuel hchain hfuel fun w hw => ?_
        exact pollCall_none (fun hin => hws w hw (hready _ (.inl hin)))
          fun hin => hws w hw (hready _ (.inr hin))
      · obtain ⟨fuel, rfl⟩ : ∃ k, fuel = k + 1 := ⟨fuel - 1, by omega⟩
        rfl
  | cons x zs ih =>
      intro s ys ws p calls hs h hzs hws hp
      obtain rfl : p = some x.1 := by simpa using hp
      have hcells : ys ++ x :: zs ++ ws = ys ++ (x.1, x.2) :: (zs ++ ws) := by
        simp
      have hn := (hcells ▸ h.list).member
      have hzs' := fun y hy => hzs y (List.mem_cons_of_mem _ hy)
      have hcall := hzs x (List.mem_cons_self ..)
      cases hdue : dueReady ready x with
      | none =>
          -- the handler is passed over
          obtain ⟨bound, s', hs', hrun⟩ := ih s (ys ++ [x]) ws _ calls hs
            (by simpa using h) hzs' hws (.inl rfl)
          refine ⟨bound + 1, s', hs', fun fuel hfuel => ?_⟩
          obtain ⟨fuel, rfl⟩ : ∃ k, fuel = k + 1 := ⟨fuel - 1, by omega⟩
          unfold dispatchLoop
          simp only [hn, pollHandler, hcall, hdue, Option.bind_eq_bind,
            Option.bind_some, List.filterMap_cons_none hdue]
          exact hrun fuel (by omega)
      | some call =>
          -- its callback runs; the link behind it has been read
          have hlegal := κ.legal calls s call
          rw [dueReady_handler hdue] at hlegal
          obtain ⟨s₁, mine, new, hacts, hs₁, h₁, hnew⟩ :=
            HandlerAct.runAll_mine ys _ s (some x.1) [x] (zs ++ ws) hs
              (by simpa using h) rfl hlegal
          have hlink : (zs ++ ws).head?.map Prod.fst
              = (zs ++ (ws ++ new)).head?.map Prod.fst
              ∨ zs = [] ∧ (zs ++ ws).head?.map Prod.fst = none := by
            cases hrest : zs ++ ws with
            | nil => exact .inr ⟨(List.append_eq_nil_iff.mp hrest).1, rfl⟩
            | cons y rest =>
                rw [← List.append_assoc, hrest]
                exact .inl rfl
          obtain ⟨bound, s', hs', hrun⟩ := ih s₁ (ys ++ mine) (ws ++ new)
            ((zs ++ ws).head?.map Prod.fst) (calls ++ [call]) hs₁
            (by simpa using h₁) hzs'
            (fun w hw => (List.mem_append.mp hw).elim (hws w) (hnew w))
            hlink
          refine ⟨bound + 1, s', hs', fun fuel hfuel => ?_⟩
          obtain ⟨fuel, rfl⟩ : ∃ k, fuel = k + 1 := ⟨fuel - 1, by omega⟩
          unfold dispatchLoop
          simp only [hn, pollHandler, hcall, hdue, hacts, Option.bind_eq_bind,
            Option.bind_some, List.filterMap_cons_some hdue]
          have hrun' := hrun fuel (by omega)
          simpa using hrun'

end Walk

-- ============================================================ the function

/-- The sets the walk goes by: what select leaves, if it is called and
reports anything. -/
def Select.reported (select : Select) (sets : FdSets) (ndfs : Int) : FdSets :=
  if ndfs ≤ 0 then .zero
  else if (select.answer ndfs sets).1 ≤ 0 then .zero
  else (select.answer ndfs sets).2

/-- A descriptor that is reported as ready was waited for. -/
theorem Select.reported_within (select : Select) (sets : FdSets)
    (ndfs fd : Int) :
    (fd ∈ (select.reported sets ndfs).rdfds → fd ∈ sets.rdfds)
      ∧ (fd ∈ (select.reported sets ndfs).wrfds → fd ∈ sets.wrfds) := by
  unfold Select.reported
  split
  · simp [FdSets.zero]
  · split
    · simp [FdSets.zero]
    · exact ⟨fun h => ((select.within ndfs sets).1 fd h).1,
        fun h => ((select.within ndfs sets).2 fd h).1⟩

theorem dueReady_zero (x : Addr × IoHandler) : dueReady .zero x = none := by
  simp [dueReady, FdSets.zero]

/-- Once `set_fd_sets` has returned. -/
theorem ioHandlerPoll_eq {curl : CurlFds s} {select : Select}
    {κ : Callbacks μ s.opened} {fuel : Nat} {sets : FdSets} {ndfs : Int}
    (hsets : setFdSets fuel s.list curl.sets curl.ndfs = some (sets, ndfs)) :
    ioHandlerPoll fuel s curl select κ
      = if ndfs ≤ 0 then some (ndfs, [], s)
        else if (select.answer ndfs sets).1 ≤ 0 then
          some ((select.answer ndfs sets).1, [], s)
        else (dispatchLoop κ (select.answer ndfs sets).2 fuel [] s
          s.list.handlers.first).map fun r =>
            ((select.answer ndfs sets).1, r.1, r.2) := by
  unfold ioHandlerPoll
  rw [hsets]
  simp only [Option.bind_eq_bind, Option.bind_some, Option.pure_def,
    Option.map_eq_bind]
  rfl

/-- Two handlers with one descriptor are one handler. -/
theorem PollState.Holds.eq_of_fd (h : s.Holds xs) (hx : x ∈ xs) (hy : y ∈ xs)
    (hfd : x.2.fd = y.2.fd) (hne : y.2.fd ≠ -1) : x = y := by
  by_contra hxy
  obtain ⟨ys, zs, rfl⟩ := List.append_of_mem hy
  have hin : x ∈ ys ++ zs := by
    simp only [List.mem_append, List.mem_cons] at hx ⊢
    tauto
  exact hne (hfd ▸ h.apart_split x hin hfd)

/-- A handler's descriptor is in a set only because it waits for it. -/
theorem PollState.Holds.requested_own (h : s.Holds xs) (curl : CurlFds s)
    (hx : x ∈ xs) :
    (x.2.fd ∈ (requested xs curl.sets curl.ndfs).1.rdfds → x.2.WaitsRd)
      ∧ (x.2.fd ∈ (requested xs curl.sets curl.ndfs).1.wrfds →
        x.2.WaitsWr) := by
  obtain ⟨n, hn, hval⟩ := h.list.forward.mem hx
  have hcurl : x.2.fd ∉ curl.sets.rdfds ++ curl.sets.wrfds := fun hin =>
    (curl.own _ hin).2.2 x.1 n hn (by rw [hval])
  rw [List.mem_append, not_or] at hcurl
  rw [(mem_requested xs _ _).1, (mem_requested xs _ _).2]
  constructor
  · rintro (hin | ⟨y, hy, hfd, hw⟩)
    · exact absurd hin hcurl.1
    · exact h.eq_of_fd hx hy hfd.symm hw.1 ▸ hw
  · rintro (hin | ⟨y, hy, hfd, hw⟩)
    · exact absurd hin hcurl.2
    · exact h.eq_of_fd hx hy hfd.symm hw.1 ▸ hw

/-- What is waited for was open. -/
theorem PollState.Holds.requested_opened (h : s.Holds xs) (curl : CurlFds s)
    {fd : Int} (hfd : fd ∈ (requested xs curl.sets curl.ndfs).1.rdfds
      ∨ fd ∈ (requested xs curl.sets curl.ndfs).1.wrfds) :
    fd ∈ s.opened := by
  rw [(mem_requested xs _ _).1, (mem_requested xs _ _).2] at hfd
  rcases hfd with (hin | ⟨x, hx, rfl, hw⟩) | (hin | ⟨x, hx, rfl, hw⟩)
  · exact (curl.own fd (List.mem_append_left _ hin)).1
  · exact (h.opened x hx).resolve_left hw.1
  · exact (curl.own fd (List.mem_append_right _ hin)).1
  · exact (h.opened x hx).resolve_left hw.1

/-- The walk of `monikor_io_handler_poll`: from any state the agent comes
to, whatever select reports and whatever the callbacks do, each handler
that was registered when select was called, waits for a descriptor that is
reported and has a callback is called once, in the order of the list, with
the mode it waits in; no other handler is called, no handler that is not
live is read, and the walk ends. -/
theorem ioHandlerPoll_calls (s : PollState μ) (hs : s.Reachable)
    (curl : CurlFds s) (select : Select) (κ : Callbacks μ s.opened) :
    ∃ xs sets ndfs, IsDlist s.list.handlers xs
      ∧ ∃ bound ret s', s'.Reachable
      ∧ ∀ fuel, bound < fuel →
        setFdSets fuel s.list curl.sets curl.ndfs = some (sets, ndfs)
        ∧ ioHandlerPoll fuel s curl select κ = some (ret,
          xs.filterMap (dueReady (select.reported sets ndfs)), s') := by
  obtain ⟨xs, h⟩ := hs.holds
  let r := requested xs curl.sets curl.ndfs
  let ready := select.reported r.1 (r.2 + 1)
  have hwithin := select.reported_within r.1 (r.2 + 1)
  have hready : ∀ fd, fd ∈ ready.rdfds ∨ fd ∈ ready.wrfds → fd ∈ s.opened :=
    fun fd hfd => h.requested_opened curl
      (hfd.imp (hwithin fd).1 (hwithin fd).2)
  have hxs : ∀ x ∈ xs, pollCall ready x.1 x.2 = dueReady ready x :=
    fun x hx => pollCall_eq
      (fun hin => (h.requested_own curl hx).1 ((hwithin _).1 hin))
      fun hin => (h.requested_own curl hx).2 ((hwithin _).2 hin)
  have hsets : ∀ fuel, xs.length < fuel →
      setFdSets fuel s.list curl.sets curl.ndfs = some (r.1, r.2 + 1) :=
    fun fuel hfuel => setFdSets_eq h.list hfuel
  have hnone : ready = .zero → xs.filterMap (dueReady ready) = [] := by
    intro e
    rw [e]
    exact List.filterMap_eq_nil_iff.mpr fun x _ => dueReady_zero x
  let err := (select.answer (r.2 + 1) r.1).1
  refine ⟨xs, r.1, r.2 + 1, h.list, ?_⟩
  by_cases hnd : r.2 + 1 ≤ 0
  · -- nothing is waited for
    refine ⟨xs.length, r.2 + 1, s, hs, fun fuel hfuel => ⟨hsets fuel hfuel, ?_⟩⟩
    rw [ioHandlerPoll_eq (hsets fuel hfuel), if_pos hnd, hnone (if_pos hnd)]
  by_cases herr : err ≤ 0
  · -- select fails, or reports nothing in time
    refine ⟨xs.length, err, s, hs, fun fuel hfuel => ⟨hsets fuel hfuel, ?_⟩⟩
    rw [ioHandlerPoll_eq (hsets fuel hfuel), if_neg hnd, if_pos herr,
      hnone ((if_neg hnd).trans (if_pos herr))]
  · have hsel : (select.answer (r.2 + 1) r.1).2 = ready :=
      ((if_neg hnd).trans (if_neg herr)).symm
    obtain ⟨bound, s', hs', hrun⟩ := dispatchLoop_calls κ hready xs s [] []
      s.list.handlers.first [] hs (by simpa using h) hxs (by simp)
      (.inl (by rw [List.append_nil, h.list.first_eq]))
    refine ⟨max bound xs.length, err, s', hs', fun fuel hfuel => ?_⟩
    have hfuel' := hsets fuel (by omega)
    refine ⟨hfuel', ?_⟩
    rw [ioHandlerPoll_eq hfuel', if_neg hnd, if_neg herr, hsel,
      hrun fuel (by omega)]
    rfl

/-- Select reports all it was asked for. -/
def Select.all : Select where
  answer ndfs sets :=
    (1, ⟨sets.rdfds.filter (· < ndfs), sets.wrfds.filter (· < ndfs)⟩)
  within := fun ndfs sets =>
    ⟨fun fd h => by simpa using h, fun fd h => by simpa using h⟩

/-- The listening handler accepts a client, and the client in front of the
signal pipe, in the middle of the list, disconnects. -/
theorem ioHandlerPoll_calls_three :
    let v : Int → IoHandler := fun fd => ⟨fd, 1, some 100, 0⟩
    let start : PollState Unit := ⟨ioHandlerListInit (), []⟩
    ∃ s curl, ∃ κ : Callbacks Unit s.opened,
      HandlerAct.runAll start [.register 1 (v 3), .register 2 (v 5),
        .register 3 (v 6)] = some s
      ∧ κ.acts [] s ⟨1, 100, 1⟩ = [.register 4 (v 7)]
      ∧ (∀ s', s'.list.handlers.node 2 ≠ none →
        κ.acts [⟨1, 100, 1⟩] s' ⟨2, 100, 1⟩ = [.release 2 true])
      ∧ ∃ bound ret s', ∀ fuel, bound < fuel →
        ioHandlerPoll fuel s curl .all κ
          = some (ret, [⟨1, 100, 1⟩, ⟨2, 100, 1⟩, ⟨3, 100, 1⟩], s') := by
  intro v start
  let acts : List (HandlerAct Unit) :=
    [.register 1 (v 3), .register 2 (v 5), .register 3 (v 6)]
  let s : PollState Unit := (HandlerAct.runAll start acts).get rfl
  have hs : s.Reachable := by
    have hlegal : (HandlerAct.register 1 (v 3)).Legal start :=
      ⟨rfl, by decide, by decide⟩
    refine .act (.act (.act (.start () []) hlegal rfl)
      (?_ : (HandlerAct.register 2 (v 5)).Legal _) rfl)
      (?_ : (HandlerAct.register 3 (v 6)).Legal _) rfl
    · exact ⟨rfl, by decide, by decide⟩
    · exact ⟨rfl, by decide, by decide⟩
  have hlist : IsDlist s.list.handlers [(1, v 3), (2, v 5), (3, v 6)] :=
    ⟨⟨rfl, _, rfl, rfl, rfl, _, rfl, rfl, rfl, _, rfl, rfl, rfl⟩,
      ⟨rfl, _, rfl, rfl, rfl, _, rfl, rfl, rfl, _, rfl, rfl, rfl⟩, by decide⟩
  have hnew : (7 : Int) ∉ s.opened := by decide
  let curl : CurlFds s := ⟨.zero, -1, by simp [FdSets.zero]⟩
  let κ : Callbacks Unit s.opened := by
    refine ⟨fun _ s' call =>
      if call.handler = 1 then
        if s'.list.handlers.node 4 = none ∧ 7 ∉ s'.opened then
          [.register 4 (v 7)] else []
      else if s'.list.handlers.node call.handler = none then []
      else [.release call.handler true], fun _ s' call => ?_⟩
    by_cases hone : call.handler = 1
    · rw [if_pos hone]
      split
      · next hfree =>
        exact ⟨⟨⟨hfree.1, by decide, hfree.2⟩, hnew⟩, fun _ _ => trivial⟩
      · trivial
    · rw [if_neg hone]
      split
      · trivial
      · next hlive => exact ⟨⟨hlive, rfl⟩, fun _ _ => trivial⟩
  have hfree : s.list.handlers.node 4 = none := rfl
  refine ⟨s, curl, κ, rfl, by simp [κ, hfree, hnew],
    fun s' hlive => if_neg hlive, ?_⟩
  obtain ⟨xs, sets, ndfs, hxs, bound, ret, s', -, hpoll⟩ :=
    ioHandlerPoll_calls s hs curl .all κ
  obtain rfl := hxs.forward.unique hlist.forward
  have hsets := (hpoll (bound + 4) (by omega)).1
  rw [setFdSets_eq hlist (by simp)] at hsets
  obtain ⟨rfl, rfl⟩ := Prod.mk.inj (Option.some.inj hsets)
  refine ⟨bound, ret, s', fun fuel hfuel => ?_⟩
  have hcalls : [(1, v 3), (2, v 5), (3, v 6)].filterMap
      (dueReady (Select.all.reported
        (requested [(1, v 3), (2, v 5), (3, v 6)] .zero (-1)).1
        ((requested [(1, v 3), (2, v 5), (3, v 6)] .zero (-1)).2 + 1)))
      = [⟨1, 100, 1⟩, ⟨2, 100, 1⟩, ⟨3, 100, 1⟩] := by decide
  rw [← hcalls]
  exact (hpoll fuel hfuel).2

end Monikor
