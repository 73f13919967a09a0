/-
Runs of a machine that may fault, and forward simulation of it by one
that does not.

A machine takes an operation in a state and answers with an output and
the next state; `run` chains a partial one (`none` is a fault), `exec` a
total one. If a relation is kept by every step, with equal outputs, the
partial machine never faults and the outputs of the two agree on every
run (`Simulates.run`). If an invariant is enough for every step that a
condition `G` allows, the runs whose steps all meet `G` go through and
keep it (`Guarded.run`). Where the condition is also necessary, it holds
along a run exactly when the invariant does (`visited_iff_meets`), and
related machines meet related conditions together (`guarded_iff_meets`).
-/
import Mathlib.Data.List.Basic

namespace Machine

variable {Op : Type*} {S T O : Type}

/-- The outputs and the last state of a run; `none` once a step faults. -/
def run (step : Op → S → Option (O × S)) : List Op → S → Option (List O × S)
  | [], s => some ([], s)
  | op :: ops, s => do
      let (o, s) ← step op s
      let (os, s) ← run step ops s
      return (o :: os, s)

/-- The outputs and the last state of a run that cannot fault. -/
def exec (step : Op → T → O × T) : List Op → T → List O × T
  | [], t => ([], t)
  | op :: ops, t =>
      let r := step op t
      let rest := exec step ops r.2
      (r.1 :: rest.1, rest.2)

variable {step : Op → S → Option (O × S)} {tstep : Op → T → O × T}
  {R : S → T → Prop}

/-- In related states every operation goes through, answers the same and
leads to related states. -/
def Simulates (R : S → T → Prop) (step : Op → S → Option (O × S))
    (tstep : Op → T → O × T) : Prop :=
  ∀ op s t, R s t →
    ∃ s', step op s = some ((tstep op t).1, s') ∧ R s' (tstep op t).2

/-- Step by step, whole runs go through and answer the same. -/
theorem Simulates.run (hsim : Simulates R step tstep) (ops : List Op) :
    ∀ s t, R s t → ∃ s', Machine.run step ops s
      = some ((exec tstep ops t).1, s') ∧ R s' (exec tstep ops t).2 := by
  induction ops with
  | nil => exact fun s t hR => ⟨s, rfl, hR⟩
  | cons op ops ih =>
      intro s t hR
      obtain ⟨s₁, hstep, hR₁⟩ := hsim op s t hR
      obtain ⟨s₂, hrun, hR₂⟩ := ih s₁ _ hR₁
      exact ⟨s₂, by simp [Machine.run, exec, hstep, hrun], hR₂⟩

/-- Every step of a run is taken in a state that allows it. -/
def Guarded (step : Op → S → Option (O × S)) (G : Op → S → Prop) :
    List Op → S → Prop
  | [], _ => True
  | op :: ops, s =>
      G op s ∧ ∀ o s', step op s = some (o, s') → Guarded step G ops s'

/-- A run without conditions. -/
theorem guarded_true (ops : List Op) :
    ∀ s : S, Guarded step (fun _ _ => True) ops s := by
  induction ops with
  | nil => exact fun s => trivial
  | cons op ops ih => exact fun s => ⟨trivial, fun _ s' _ => ih s'⟩

/-- The condition holds along every beginning of a run. -/
theorem Guarded.take {G : Op → S → Prop} (ops : List Op) :
    ∀ (n : Nat) (s : S), Guarded step G ops s →
      Guarded step G (ops.take n) s := by
  induction ops with
  | nil => exact fun n s h => by simpa using h
  | cons op ops ih =>
      intro n s h
      cases n with
      | zero => trivial
      | succ n => exact ⟨h.1, fun o s' hstep => ih n s' (h.2 o s' hstep)⟩

/-- If every allowed step from the invariant goes through and keeps it,
every allowed run does. The invariant may speak of the operations so
far. -/
theorem Guarded.run {G : Op → S → Prop} {I : List Op → S → Prop}
    (hstep : ∀ past op s, I past s → G op s →
      ∃ o s', step op s = some (o, s') ∧ I (past ++ [op]) s')
    (ops : List Op) : ∀ past s, I past s → Guarded step G ops s →
      ∃ os s', Machine.run step ops s = some (os, s')
          ∧ I (past ++ ops) s' := by
  induction ops with
  | nil => exact fun past s hI _ => ⟨[], s, rfl, by simpa using hI⟩
  | cons op ops ih =>
      intro past s hI hG
      obtain ⟨o, s₁, hs₁, hI₁⟩ := hstep past op s hI hG.1
      obtain ⟨os, s₂, hrun, hI₂⟩ := ih _ s₁ hI₁ (hG.2 o s₁ hs₁)
      exact ⟨o :: os, s₂, by simp [Machine.run, hs₁, hrun], by simpa using hI₂⟩

/-- Simulation of the steps that a condition allows, over the runs whose steps
all meet it. -/
theorem Guarded.simulates {G : Op → S → Prop}
    (hstep : ∀ op s t, R s t → G op s →
      ∃ s', step op s = some ((tstep op t).1, s') ∧ R s' (tstep op t).2)
    (ops : List Op) : ∀ s t, R s t → Guarded step G ops s →
      ∃ s', Machine.run step ops s = some ((exec tstep ops t).1, s')
        ∧ R s' (exec tstep ops t).2 := by
  induction ops with
  | nil => exact fun s t hR _ => ⟨s, rfl, hR⟩
  | cons op ops ih =>
      intro s t hR hG
      obtain ⟨s₁, hs₁, hR₁⟩ := hstep op s t hR hG.1
      obtain ⟨s₂, hrun, hR₂⟩ := ih s₁ _ hR₁ (hG.2 _ s₁ hs₁)
      exact ⟨s₂, by simp [Machine.run, exec, hs₁, hrun], hR₂⟩

/-- A run goes on from where another one ends. -/
theorem exec_append_snd (ops ops' : List Op) : ∀ t : T,
    (exec tstep (ops ++ ops') t).2
      = (exec tstep ops' (exec tstep ops t).2).2 := by
  induction ops with
  | nil => exact fun t => rfl
  | cons op ops ih => exact fun t => ih _

/-- The states of a run that cannot fault, the first one included. -/
def visited (tstep : Op → T → O × T) : List Op → T → List T
  | [], t => [t]
  | op :: ops, t => t :: visited tstep ops (tstep op t).2

/-- Every step of a run that cannot fault is taken in a state that allows
it. -/
def Meets (tstep : Op → T → O × T) (G : Op → T → Prop) : List Op → T → Prop
  | [], _ => True
  | op :: ops, t => G op t ∧ Meets tstep G ops (tstep op t).2

instance Meets.decidable (tstep : Op → T → O × T) (G : Op → T → Prop)
    [∀ op t, Decidable (G op t)] :
    (ops : List Op) → (t : T) → Decidable (Meets tstep G ops t)
  | [], _ => .isTrue trivial
  | op :: ops, t =>
      have := Meets.decidable tstep G ops (tstep op t).2
      inferInstanceAs (Decidable (G op t ∧ Meets tstep G ops (tstep op t).2))

/-- Let related states allow the same operations, and let an operation that
is allowed go through and lead to related states. Then a run of the one
machine is allowed step by step exactly when that of the other is. -/
theorem guarded_iff_meets {G : Op → S → Prop} {H : Op → T → Prop}
    (hstep : ∀ op s t, R s t → (G op s ↔ H op t)
      ∧ (G op s → ∃ o s', step op s = some (o, s') ∧ R s' (tstep op t).2))
    (ops : List Op) :
    ∀ s t, R s t → (Guarded step G ops s ↔ Meets tstep H ops t) := by
  induction ops with
  | nil => exact fun s t _ => Iff.rfl
  | cons op ops ih =>
      intro s t hR
      obtain ⟨hiff, hgo⟩ := hstep op s t hR
      unfold Guarded Meets
      rw [← hiff]
      constructor
      · intro h
        obtain ⟨o, s', hs', hR'⟩ := hgo h.1
        exact ⟨h.1, (ih s' _ hR').mp (h.2 o s' hs')⟩
      · intro h
        obtain ⟨o, s', hs', hR'⟩ := hgo h.1
        refine ⟨h.1, fun o₁ s₁ hs₁ => ?_⟩
        rw [hs'] at hs₁
        cases hs₁
        exact (ih s' _ hR').mpr h.2

/-- A run ends in a state it visits. -/
theorem exec_mem_visited (ops : List Op) :
    ∀ t : T, (exec tstep ops t).2 ∈ visited tstep ops t := by
  induction ops with
  | nil => exact fun t => List.mem_singleton_self t
  | cons op ops ih => exact fun t => List.mem_cons_of_mem _ (ih _)

/-- If a condition is exactly what a step needs to keep a property, and
enough to keep an invariant that this rests on, a run keeps the property
throughout exactly when its steps all meet the condition. -/
theorem visited_iff_meets_of {G : Op → T → Prop} {I P : T → Prop}
    (hstep : ∀ op t, I t → P t →
      (P (tstep op t).2 ↔ G op t) ∧ (G op t → I (tstep op t).2))
    (ops : List Op) : ∀ t, I t → P t →
      ((∀ u ∈ visited tstep ops t, P u) ↔ Meets tstep G ops t) := by
  induction ops with
  | nil => exact fun t _ hP => by simpa [visited, Meets] using hP
  | cons op ops ih =>
      intro t hI hP
      obtain ⟨hiff, hkeep⟩ := hstep op t hI hP
      unfold visited
      rw [List.forall_mem_cons, Meets]
      constructor
      · intro h
        have hnext : P (tstep op t).2 := h.2 _ (by
          cases ops <;> exact List.mem_cons_self ..)
        have hG := hiff.mp hnext
        exact ⟨hG, (ih _ (hkeep hG) hnext).mp h.2⟩
      · intro h
        exact ⟨hP, (ih _ (hkeep h.1) (hiff.mpr h.1)).mpr h.2⟩

/-- The same, of a property that needs no other. -/
theorem visited_iff_meets {G : Op → T → Prop} {P : T → Prop}
    (hstep : ∀ op t, P t → (P (tstep op t).2 ↔ G op t)) (ops : List Op) (t : T)
    (hP : P t) : (∀ u ∈ visited tstep ops t, P u) ↔ Meets tstep G ops t :=
  visited_iff_meets_of (I := fun _ => True)
    (fun op t _ hP => ⟨hstep op t hP, fun _ => trivial⟩) ops t trivial hP

end Machine
