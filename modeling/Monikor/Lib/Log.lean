/-
Logs of a machine whose steps answer with what they did, and what holds of
every entry of a log given the entries before it (`Along`).

A run lemma for a property of the log and the state (`run_logged`): what an
operation has to say for itself (`f`) may be restricted by the one before
(`C`), as the readings of a clock are that never goes back.
-/
import Mathlib.Data.List.Chain
import Monikor.Lib.Simulation

namespace Machine

variable {Op D S : Type} {P Q : List D → D → Prop} {l r : List D}
  {x y : D}

/-- Every entry is as `P` says, given what was before it. -/
def Along (P : List D → D → Prop) (l : List D) : Prop :=
  ∀ pre x post, l = pre ++ x :: post → P pre x

theorem along_nil : Along P [] := by
  intro pre x post h
  exact absurd h.symm (by simp)

theorem along_append :
    Along P (l ++ r) ↔ Along P l ∧ Along (fun pre => P (l ++ pre)) r := by
  constructor
  · intro h
    refine ⟨fun pre x post hl => ?_, fun pre x post hr => ?_⟩
    · apply h pre x (post ++ r)
      rw [hl, List.append_assoc, List.cons_append]
    · apply h (l ++ pre) x post
      rw [hr, List.append_assoc]
  · intro h pre x post hlog
    obtain ⟨hl, hr⟩ := h
    rcases List.append_eq_append_iff.mp hlog with
      ⟨as, hpre, hcons⟩ | ⟨bs, hpre, hcons⟩
    · rw [hpre]
      exact hr as x post hcons
    · cases bs with
      | nil =>
          have hr₀ := hr [] x post hcons.symm
          rw [hpre] at hr₀
          simpa using hr₀
      | cons b bs =>
          obtain ⟨rfl, -⟩ := List.cons.inj hcons
          exact hl pre x bs hpre

theorem along_cons :
    Along P (x :: l) ↔ P [] x ∧ Along (fun pre => P (x :: pre)) l := by
  constructor
  · exact fun h => ⟨h [] x l rfl, fun pre y post hl => h (x :: pre) y post
      (by rw [hl, List.cons_append])⟩
  · intro h pre y post hlog
    cases pre with
    | nil =>
        obtain ⟨rfl, -⟩ := List.cons.inj hlog
        exact h.1
    | cons z pre =>
        obtain ⟨rfl, hl⟩ := List.cons.inj hlog
        exact h.2 pre y post hl

theorem along_singleton : Along P [x] ↔ P [] x := by
  rw [along_cons]
  exact and_iff_left along_nil

theorem Along.imp (h : Along P l) (hPQ : ∀ pre, ∀ x ∈ l, P pre x → Q pre x) :
    Along Q l := by
  intro pre x post hl
  exact hPQ pre x (by simp [hl]) (h pre x post hl)

/-- Nothing is asked of the entries that `P` lets be. -/
theorem along_of_forall (h : ∀ x ∈ l, ∀ pre, P pre x) : Along P l := by
  intro pre x post hl
  exact h x (by simp [hl]) pre

/-- If each step keeps a property of the last value of `f`, the log and the
state, a run does. -/
theorem run_logged {K : Type} {step : Op → S → Option (List D × S)}
    {f : Op → K} {C : K → K → Prop} {I : K → List D → S → Prop}
    (hstep : ∀ k op past s did s', C k (f op) → I k past s →
      step op s = some (did, s') → I (f op) (past ++ did) s')
    (ops : List Op) : ∀ k past s outs s', List.IsChain C (k :: ops.map f) →
      I k past s → run step ops s = some (outs, s') →
      I ((ops.map f).getLastD k) (past ++ outs.flatten) s' := by
  induction ops with
  | nil =>
      intro k past s outs s' _ hI hrun
      obtain ⟨rfl, rfl⟩ := Prod.mk.inj (Option.some.inj hrun)
      simpa using hI
  | cons op ops ih =>
      intro k past s outs s' hC hI hrun
      rw [List.map_cons, List.isChain_cons_cons] at hC
      simp only [run, Option.bind_eq_bind, Option.bind_eq_some_iff] at hrun
      obtain ⟨⟨did, s₁⟩, hs₁, ⟨rest, s₂⟩, hrest, hout⟩ := hrun
      obtain ⟨rfl, rfl⟩ := Prod.mk.inj (Option.some.inj hout)
      have hI' := ih (f op) (past ++ did) s₁ rest s₂ hC.2
        (hstep k op past s did s₁ hC.1 hI hs₁) hrest
      rw [List.map_cons, List.getLastD_cons]
      simpa using hI'

instance Guarded.decidable {step : Op → S → Option (List D × S)}
    {G : Op → S → Prop} [∀ op s, Decidable (G op s)] :
    (ops : List Op) → (s : S) → Decidable (Guarded step G ops s)
  | [], _ => .isTrue trivial
  | op :: ops, s =>
      match h : step op s with
      | none => decidable_of_iff (G op s)
          ⟨fun hG => ⟨hG, fun _ _ hs => nomatch h.symm.trans hs⟩, And.left⟩
      | some (_, s') =>
          have : Decidable (Guarded step G ops s') := Guarded.decidable ops s'
          decidable_of_iff (G op s ∧ Guarded step G ops s')
            ⟨fun hG => ⟨hG.1, fun _ _ hs => by
                obtain ⟨rfl, rfl⟩ := Prod.mk.inj
                  (Option.some.inj (h.symm.trans hs))
                exact hG.2⟩,
              fun hG => ⟨hG.1, hG.2 _ _ h⟩⟩

/-- The same of runs whose steps all meet a condition, which makes them go
through. -/
theorem Guarded.run_logged {step : Op → S → Option (List D × S)}
    {G : Op → S → Prop} {I : List Op → List D → S → Prop}
    (hstep : ∀ past op log s, I past log s → G op s →
      ∃ did s', step op s = some (did, s') ∧ I (past ++ [op]) (log ++ did) s')
    (ops : List Op) : ∀ past log s, I past log s → Guarded step G ops s →
      ∃ outs s', Machine.run step ops s = some (outs, s')
        ∧ I (past ++ ops) (log ++ outs.flatten) s' := by
  induction ops with
  | nil => exact fun past log s hI _ => ⟨[], s, rfl, by simpa using hI⟩
  | cons op ops ih =>
      intro past log s hI hG
      obtain ⟨did, s₁, hs₁, hI₁⟩ := hstep past op log s hI hG.1
      obtain ⟨outs, s₂, hrun, hI₂⟩ := ih _ _ s₁ hI₁ (hG.2 did s₁ hs₁)
      exact ⟨did :: outs, s₂, by simp [Machine.run, hs₁, hrun],
        by simpa using hI₂⟩

end Machine
