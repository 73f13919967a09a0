/-
Who is told that a process has exited.

The walk reads the link of the handler it has just called. A command's
handler is still there; a reaper is not, so the walk goes through exactly
when no reaper is registered for the process.
-/
import Monikor.IoHandler.Process

namespace Monikor

open Linked

variable {μ : Type} {l l' : HandlerList μ} {pid status : Int}
  {xs ys zs : List (Addr × ProcessHandler)} {p : Option Addr} {fuel : Nat}

/-- A reaper of the process. -/
def IsReaperOf (pid : Int) (x : Addr × ProcessHandler) : Prop :=
  x.2.pid = pid ∧ x.2.callback = some .reapProcessCallback

instance (pid : Int) (x : Addr × ProcessHandler) :
    Decidable (IsReaperOf pid x) :=
  inferInstanceAs (Decidable (_ ∧ _))

/-- The processes whose handlers are left: those of other processes, in
their order. -/
def othersOf (pid : Int) (xs : List (Addr × ProcessHandler)) :
    List (Addr × ProcessHandler) :=
  xs.filter (·.2.pid ≠ pid)

/-- What a process exit is to do with the handlers `xs`: each handler of
the process is called once, no other is, and the handlers of the other
processes stay registered in their order. -/
def Dispatched (xs : List (Addr × ProcessHandler)) (pid status : Int)
    (res : Option (List ExitCall × HandlerList μ)) : Prop :=
  ∃ calls l', res = some (calls, l')
    ∧ calls.Perm (xs.filterMap (dueCall pid status))
    ∧ ∃ ys, IsDlist l'.processes ys ∧ othersOf pid ys = othersOf pid xs

-- ================================================================ watched

/-- The search ends with the answer. -/
theorem processWatchedFrom_eq (zs : List (Addr × ProcessHandler)) :
    ∀ (p : Option Addr) (fuel : Nat),
      Chain DNode.next DNode.val l.processes.node p zs none → zs.length < fuel →
      processWatchedFrom l pid fuel p
        = some (decide (∃ x ∈ zs, x.2.pid = pid)) := by
  induction zs with
  | nil =>
      intro p fuel h hfuel
      obtain ⟨fuel, rfl⟩ : ∃ k, fuel = k + 1 := ⟨fuel - 1, by omega⟩
      obtain rfl : p = none := h
      simp [processWatchedFrom]
  | cons x zs ih =>
      intro p fuel h hfuel
      obtain ⟨fuel, rfl⟩ : ∃ k, fuel = k + 1 := ⟨fuel - 1, by omega⟩
      obtain ⟨rfl, n, hn, hval, hrest⟩ := h
      have hlen : zs.length < fuel := by simpa using hfuel
      unfold processWatchedFrom
      rw [hn]
      by_cases hpid : x.2.pid = pid
      · simp [hval, hpid]
      · simp [hval, hpid, ih _ _ hrest hlen]

theorem processWatched_eq (h : IsDlist l.processes xs)
    (hfuel : xs.length < fuel) :
    processWatched fuel l pid = some (decide (∃ x ∈ xs, x.2.pid = pid)) :=
  processWatchedFrom_eq xs _ _ h.forward hfuel

-- =============================================================== one call

/-- A reaper is gone once its callback has run. -/
theorem reapProcessCallback_gone {a : Addr}
    (h : reapProcessCallback l a = some l') : l'.processes.node a = none := by
  unfold reapProcessCallback at h
  obtain ⟨l₁, -, h⟩ := Option.bind_eq_some_iff.mp h
  obtain ⟨d, hfree, h⟩ := Option.bind_eq_some_iff.mp h
  obtain rfl := Option.some.inj h
  obtain ⟨n, -, hd⟩ := Option.bind_eq_some_iff.mp hfree
  obtain rfl := Option.some.inj hd
  simp

/-- A handler that is no reaper of the process: it is called if it is due,
and the list stays. -/
theorem exitedHandler_stays (status : Int) {x : Addr × ProcessHandler}
    {n : DNode Addr ProcessHandler} (hn : l.processes.node x.1 = some n)
    (hval : n.val = x.2) (hx : ¬ IsReaperOf pid x) :
    exitedHandler pid status l x.1
      = some ((dueCall pid status x).toList, l) := by
  unfold exitedHandler
  rw [hn]
  by_cases hpid : x.2.pid = pid
  · cases hcb : x.2.callback with
    | none => simp [hval, hpid, hcb, dueCall]
    | some cb =>
        cases cb with
        | handleProcessExit =>
            simp [hval, hpid, hcb, dueCall, ProcessCallback.run]
        | reapProcessCallback => exact absurd ⟨hpid, hcb⟩ hx
  · simp [hval, hpid, dueCall]

/-- After a reaper of the process its own link cannot be read. -/
theorem exitedHandler_gone {x : Addr × ProcessHandler}
    {n : DNode Addr ProcessHandler} {calls : List ExitCall}
    (hn : l.processes.node x.1 = some n) (hval : n.val = x.2)
    (hx : IsReaperOf pid x)
    (hrun : exitedHandler pid status l x.1 = some (calls, l')) :
    l'.processes.node x.1 = none := by
  unfold exitedHandler at hrun
  rw [hn] at hrun
  simp only [hval, hx.1, hx.2, ProcessCallback.run, ne_eq, not_true_eq_false,
    if_false, Option.bind_eq_bind, Option.bind_some] at hrun
  obtain ⟨l₁, hcb, hrun⟩ := Option.bind_eq_some_iff.mp hrun
  obtain ⟨-, rfl⟩ := Prod.mk.inj (Option.some.inj hrun)
  exact reapProcessCallback_gone hcb

-- =============================================================== the walk

/-- Without a reaper of the process, the walk calls the handlers that are
due, in order. -/
theorem processExitedLoop_calls (zs : List (Addr × ProcessHandler)) :
    ∀ (p : Option Addr) (fuel : Nat),
      Chain DNode.next DNode.val l.processes.node p zs none → zs.length < fuel →
      (∀ x ∈ zs, ¬ IsReaperOf pid x) →
      processExitedLoop pid status fuel l p
        = some (zs.filterMap (dueCall pid status), l) := by
  induction zs with
  | nil =>
      intro p fuel h hfuel _
      obtain ⟨fuel, rfl⟩ : ∃ k, fuel = k + 1 := ⟨fuel - 1, by omega⟩
      obtain rfl : p = none := h
      simp [processExitedLoop]
  | cons x zs ih =>
      intro p fuel h hfuel hx
      obtain ⟨fuel, rfl⟩ : ∃ k, fuel = k + 1 := ⟨fuel - 1, by omega⟩
      obtain ⟨rfl, n, hn, hval, hrest⟩ := h
      have hlen : zs.length < fuel := by simpa using hfuel
      have hhead := exitedHandler_stays status hn hval
        (hx x (List.mem_cons_self ..))
      have htail := ih _ _ hrest hlen fun y hy =>
        hx y (List.mem_cons_of_mem _ hy)
      unfold processExitedLoop
      rw [hhead]
      simp only [hn, htail, Option.bind_eq_bind, Option.bind_some,
        Option.pure_def]
      cases hdue : dueCall pid status x with
      | none => simp [hdue]
      | some c => simp [hdue]

/-- With a reaper of the process among the handlers, the walk faults. -/
theorem processExitedLoop_faults (zs : List (Addr × ProcessHandler)) :
    ∀ (p : Option Addr) (fuel : Nat),
      Chain DNode.next DNode.val l.processes.node p zs none →
      (∃ x ∈ zs, IsReaperOf pid x) →
      processExitedLoop pid status fuel l p = none := by
  induction zs with
  | nil => exact fun p fuel h hx => by simp at hx
  | cons x zs ih =>
      intro p fuel h hx
      cases fuel with
      | zero => rfl
      | succ fuel =>
          obtain ⟨rfl, n, hn, hval, hrest⟩ := h
          unfold processExitedLoop
          by_cases hrx : IsReaperOf pid x
          · cases hrun : exitedHandler pid status l x.1 with
            | none => rfl
            | some r =>
                have hgone := exitedHandler_gone hn hval hrx hrun
                simp [hgone]
          · have hzs : ∃ y ∈ zs, IsReaperOf pid y := by
              obtain ⟨y, hy, hry⟩ := hx
              rcases List.mem_cons.mp hy with rfl | hy
              · exact absurd hry hrx
              · exact ⟨y, hy, hry⟩
            rw [exitedHandler_stays status hn hval hrx]
            simp [hn, ih _ fuel hrest hzs]

variable {waited : Option Int}

/-- A process that is watched: the walk is made, from the first handler. -/
theorem processExited_eq (h : IsDlist l.processes xs)
    (hwatched : ∃ x ∈ xs, x.2.pid = pid) (hfuel : xs.length < fuel) :
    processExited fuel l pid waited
      = processExitedLoop pid (waited.getD 0) fuel l l.processes.first := by
  unfold processExited
  rw [processWatched_eq h hfuel]
  simp [hwatched]

/-- Without a reaper, the calls are those due, and the list stays. -/
theorem processExited_calls (h : IsDlist l.processes xs)
    (hwatched : ∃ x ∈ xs, x.2.pid = pid) (hfuel : xs.length < fuel)
    (hx : ∀ x ∈ xs, ¬ IsReaperOf pid x) :
    processExited fuel l pid waited
      = some (xs.filterMap (dueCall pid (waited.getD 0)), l) := by
  rw [processExited_eq h hwatched hfuel]
  exact processExitedLoop_calls xs _ fuel h.forward hfuel hx

/-- A watched process that has exited: its handlers are told, and the
others stay, exactly when no reaper is registered for it. -/
theorem processExited_dispatched_iff (l : HandlerList μ)
    (xs : List (Addr × ProcessHandler)) (pid : Int) (waited : Option Int)
    (fuel : Nat) (h : IsDlist l.processes xs)
    (hwatched : ∃ x ∈ xs, x.2.pid = pid) (hfuel : xs.length < fuel) :
    Dispatched xs pid (waited.getD 0) (processExited fuel l pid waited)
      ↔ ∀ x ∈ xs, ¬ IsReaperOf pid x := by
  constructor
  · intro hd
    by_contra hreap
    push Not at hreap
    obtain ⟨calls, l', hrun, -⟩ := hd
    rw [processExited_eq h hwatched hfuel,
      processExitedLoop_faults xs _ fuel h.forward hreap] at hrun
    exact absurd hrun (by simp)
  · intro hx
    exact ⟨_, l, processExited_calls h hwatched hfuel hx, List.Perm.refl _,
      xs, h, rfl⟩

/-- A command's handler, and behind it the reaper of another process. -/
theorem processExited_dispatched_command :
    let command : ProcessHandler := ⟨42, some .handleProcessExit, 100⟩
    let reaper : ProcessHandler := ⟨7, some .reapProcessCallback, 0⟩
    let l : HandlerList Unit := { ioHandlerListInit () with
      processes :=
        { node := fun a =>
            if a = 1 then some ⟨some 2, none, command⟩
            else if a = 2 then some ⟨none, some 1, reaper⟩ else none
          first := some 1
          last := some 2 } }
    Dispatched [(1, command), (2, reaper)] 42 0
      (processExited 3 l 42 (some 0)) := by
  intro command reaper l
  have hl : IsDlist l.processes [(1, command), (2, reaper)] :=
    ⟨⟨rfl, _, rfl, rfl, rfl, _, rfl, rfl, rfl⟩,
      ⟨rfl, _, rfl, rfl, rfl, _, rfl, rfl, rfl⟩, by decide⟩
  exact (processExited_dispatched_iff l _ 42 (some 0) 3 hl (by decide)
    (by decide)).mpr (by decide)

/-- Process 42 is to be reaped, and is killed: the handler is freed before
the walk reads its link. -/
theorem reapProcess_not_dispatched :
    let reaper : ProcessHandler := ⟨42, some .reapProcessCallback, 0⟩
    ∃ l, reapProcess (ioHandlerListInit ()) 42 0 (some 1) = some (some l)
      ∧ IsDlist l.processes [(1, reaper)]
      ∧ ¬ Dispatched [(1, reaper)] 42 9 (processExited 2 l 42 (some 9)) := by
  refine ⟨_, rfl, ⟨⟨rfl, _, rfl, rfl, rfl⟩, ⟨rfl, _, rfl, rfl, rfl⟩,
    by decide⟩, ?_⟩
  intro hd
  obtain ⟨calls, l', hrun, -⟩ := hd
  have hfault : (none : Option (List ExitCall × HandlerList Unit))
      = some (calls, l') := hrun
  exact absurd hfault (by simp)

end Monikor
