/-
The shape of every log of the main loop.

Between two turns the loop waits, and if a SIGHUP came it reloads right in
front of the next turn; a signal that ends the agent is the last entry
(`Shaped`). The invariant is that the flag of the reload is set exactly if
there is a SIGHUP in what was logged since the last turn.
-/
import Monikor.Core.Proofs.Schedule

namespace Monikor

open Machine

variable {ω : Type} {F : FloatOps} {s s' : Loop ω (Seq.Agent Metric)}
  {p : Pass ω} {did past : List Did}

/-- What the loop does up to and with a turn. -/
structure Segment where
  waits : List Did
  turn : Turn

/-- It waits, reloads if a SIGHUP came, and turns. -/
def Segment.log (g : Segment) : List Did :=
  g.waits ++ (if .signalled .hup ∈ g.waits then [.reloaded] else [])
    ++ [.turn g.turn]

/-- Nothing is logged after a signal that ends the agent. -/
def Final (log : List Did) : Prop :=
  Along (fun pre _ => ∀ d ∈ pre, ¬ d.quits) log

/-- The waits of a segment: none of them ends the agent. -/
def OnlyWaits (log : List Did) : Prop := ∀ d ∈ log, d.ofWait ∧ ¬ d.quits

/-- The turns and what is in front of each, then what came since; `exited` is
left by a reload that failed. -/
structure Shaped (log : List Did) (segments : List Segment)
    (rest : List Did) (failed : Bool) : Prop where
  log_eq : log = segments.flatMap Segment.log ++ rest
    ++ if failed then [.exited 1] else []
  waiting : ∀ g ∈ segments, OnlyWaits g.waits
  ofWait : ∀ d ∈ rest, d.ofWait
  final : Final rest
  failed : failed = true → .signalled .hup ∈ rest ∧ OnlyWaits rest

-- ================================================================== signals

/-- One event logs one entry, or none. -/
theorem handle_length {e : IoEvent ω}
    (hrun : s.handle (seqOps F) e = some (did, s')) : did.length ≤ 1 := by
  cases e with
  | signal signo listOk sendOk =>
      simp only [Loop.handle, Option.bind_eq_bind,
        Option.bind_eq_some_iff] at hrun
      obtain ⟨s₁, -, hout⟩ := hrun
      obtain ⟨rfl, rfl⟩ := Prod.mk.inj (Option.some.inj hout)
      exact Nat.le_refl 1
  | response i result httpCode =>
      simp only [Loop.handle, Option.bind_eq_bind,
        Option.bind_eq_some_iff] at hrun
      obtain ⟨a, -, hout⟩ := hrun
      obtain ⟨rfl, rfl⟩ := Prod.mk.inj (Option.some.inj hout)
      exact Nat.le_refl 1
  | client ms =>
      simp only [Loop.handle, Option.bind_eq_bind,
        Option.bind_eq_some_iff] at hrun
      obtain ⟨a, -, hout⟩ := hrun
      obtain ⟨rfl, rfl⟩ := Prod.mk.inj (Option.some.inj hout)
      exact Nat.zero_le 1
  | push m =>
      simp only [Loop.handle, Option.bind_eq_bind,
        Option.bind_eq_some_iff] at hrun
      obtain ⟨a, -, hout⟩ := hrun
      obtain ⟨rfl, rfl⟩ := Prod.mk.inj (Option.some.inj hout)
      exact Nat.zero_le 1
  | host f =>
      obtain ⟨rfl, rfl⟩ := Prod.mk.inj (Option.some.inj hrun)
      exact Nat.zero_le 1

theorem final_append {l r : List Did} (hl : ∀ d ∈ l, ¬ d.quits)
    (hr : Final r) : Final (l ++ r) := by
  refine along_append.mpr ⟨?_, ?_⟩
  · intro pre x post hsplit d hd
    exact hl d (by simp [hsplit, hd])
  · refine hr.imp fun pre x _ hpre d hd => ?_
    exact (List.mem_append.mp hd).elim (hl d) (hpre d)

/-- A signal that ends the agent is the last event of a wait. -/
theorem handleAll_final (events : List (IoEvent ω)) :
    ∀ (s : Loop ω (Seq.Agent Metric)) (did : List Did),
      s.handleAll (seqOps F) events = some (did, s') → Final did := by
  induction events with
  | nil =>
      intro s did hrun
      obtain ⟨rfl, rfl⟩ := Prod.mk.inj (Option.some.inj hrun)
      exact along_nil
  | cons e events ih =>
      intro s did hrun
      unfold Loop.handleAll at hrun
      split at hrun
      · obtain ⟨rfl, rfl⟩ := Prod.mk.inj (Option.some.inj hrun)
        exact along_nil
      · simp only [Option.bind_eq_bind, Option.bind_eq_some_iff] at hrun
        obtain ⟨⟨did₁, s₁⟩, hs₁, ⟨rest, s₂⟩, hrest, hout⟩ := hrun
        obtain ⟨rfl, rfl⟩ := Prod.mk.inj (Option.some.inj hout)
        by_cases hquit : ∃ d ∈ did₁, d.quits
        · have hexit : s₁.point = .exited :=
            (handle_waits hs₁).quits.mpr (.inr hquit)
          have hnone : rest = [] := by
            cases events with
            | nil => exact (Prod.mk.inj (Option.some.inj hrest)).1.symm
            | cons e' events =>
                have hstop : s₁.handleAll (seqOps F) (e' :: events)
                  = some ([], s₁) := if_pos hexit
                rw [hstop] at hrest
                exact (Prod.mk.inj (Option.some.inj hrest)).1.symm
          have hlen : did₁.length ≤ 1 := handle_length hs₁
          intro pre x post hsplit d hd
          have hsplit : did₁ ++ rest = pre ++ x :: post := hsplit
          rw [hnone, List.append_nil] at hsplit
          rw [hsplit] at hlen
          simp only [List.length_append, List.length_cons] at hlen
          obtain rfl := List.eq_nil_of_length_eq_zero (l := pre) (by omega)
          exact absurd hd List.not_mem_nil
        · exact final_append (fun d hd hq => hquit ⟨d, hd, hq⟩)
            (ih s₁ rest hrest)

theorem wait_final (hrun : s.wait (seqOps F) p = some (did, s')) :
    Final did := by
  simp only [Loop.wait, Option.bind_eq_bind, Option.bind_eq_some_iff] at hrun
  obtain ⟨⟨events, s₁⟩, hevents, hout⟩ := hrun
  obtain ⟨rfl, rfl⟩ := Prod.mk.inj (Option.some.inj hout)
  apply final_append (l := [_])
  · intro d hd
    rw [List.mem_singleton.mp hd]
    exact id
  · exact handleAll_final p.events s events hevents

-- ================================================================= the shape

/-- What the loop has logged, and what it has yet to do. -/
def Answers (past : List Did) (s : Loop ω (Seq.Agent Metric)) : Prop :=
  ∃ segments rest failed, Shaped past segments rest failed
    ∧ (s.point ≠ .exited → failed = false ∧ OnlyWaits rest
      ∧ (s.Pending ↔ .signalled .hup ∈ rest))

theorem Answers.turn {segments : List Segment} {rest : List Did} {t : Turn}
    (h : Shaped past segments rest false) (hw : OnlyWaits rest)
    (ht : LoopTurns p s s' t) (reloads : List Did)
    (hreloads : reloads
      = if .signalled .hup ∈ rest then [.reloaded] else []) :
    Answers (past ++ (reloads ++ [.turn t])) s' := by
  refine ⟨segments ++ [⟨rest, t⟩], [], false, ⟨?_, ?_, ?_, along_nil, ?_⟩,
    fun _ => ⟨rfl, ?_, ?_⟩⟩
  · rw [h.log_eq, hreloads]
    simp [Segment.log]
  · intro g hg
    rcases List.mem_append.mp hg with hg | hg
    · exact h.waiting g hg
    · rw [List.mem_singleton.mp hg]
      exact hw
  · exact fun d hd => absurd hd List.not_mem_nil
  · exact fun hf => nomatch hf
  · exact fun d hd => absurd hd List.not_mem_nil
  · exact iff_of_false ht.pending List.not_mem_nil

theorem step_answers (h : Answers past s)
    (hrun : s.step (seqOps F) p = some (did, s')) : Answers (past ++ did) s' := by
  obtain ⟨segments, rest, failed, hshape, hin⟩ := h
  unfold Loop.step at hrun
  cases hpoint : s.point with
  | top =>
      rw [hpoint] at hrun
      obtain ⟨rfl, hw, hpending⟩ := hin (by simp [hpoint])
      rcases top_turns hpoint hrun with
        ⟨hp, rfl, rfl⟩ | ⟨t, ht, ⟨hp, rfl⟩ | ⟨hp, rfl⟩⟩
      · have hhup := hpending.mp hp
        refine ⟨segments, rest, true, ⟨?_, hshape.waiting, hshape.ofWait,
          hshape.final, fun _ => ⟨hhup, hw⟩⟩, fun hout => absurd rfl hout⟩
        rw [hshape.log_eq]
        simp
      · have hhup := hpending.mp hp
        exact .turn hshape hw ht [.reloaded] (if_pos hhup).symm
      · have hhup := mt hpending.mpr hp
        exact .turn hshape hw ht [] (if_neg hhup).symm
  | wait =>
      rw [hpoint] at hrun
      obtain ⟨rfl, hw, hpending⟩ := hin (by simp [hpoint])
      obtain ⟨hdid, -⟩ := wait_waits hpoint hrun
      refine ⟨segments, rest ++ did, false, ⟨?_, hshape.waiting, ?_,
        final_append (fun d hd => (hw d hd).2) (wait_final hrun),
        fun hf => nomatch hf⟩, fun hgo => ⟨rfl, ?_, ?_⟩⟩
      · rw [hshape.log_eq]
        simp
      · intro d hd
        exact (List.mem_append.mp hd).elim (hshape.ofWait d) (hdid.ofWait d)
      · intro d hd
        rcases List.mem_append.mp hd with hd | hd
        · exact hw d hd
        · exact ⟨hdid.ofWait d hd,
            fun hq => hgo (hdid.quits.mpr (.inr ⟨d, hd, hq⟩))⟩
      · rw [hdid.pending, hpending, List.mem_append]
  | exited =>
      rw [hpoint] at hrun
      obtain ⟨rfl, rfl⟩ := Prod.mk.inj (Option.some.inj hrun)
      rw [List.append_nil]
      exact ⟨segments, rest, failed, hshape,
        fun hout => absurd hpoint hout⟩

/-- Reloads, and the end of the agent: whatever the system answers, the main
loop reloads right in front of the turns that a SIGHUP has come before since
the last one, once however many came, and never else; a reload that fails
ends it, and so does a SIGINT, a SIGTERM or a SIGQUIT, which is the last
thing it sees. -/
theorem reloads_answer (F : FloatOps) (config : RunConfig)
    (modules : List (PushMod ω)) (host : ω) (update : Update) (now : Timeval)
    (time : Int) (passes : List (Pass ω)) :
    ∃ outs s, Machine.run (Loop.step (lifeOps F)) passes
        (Loop.start (lifeOps F) config modules host (Life.start update) now
          time) = some (outs, s)
      ∧ ∃ segments rest failed, Shaped outs.flatten segments rest failed := by
  obtain ⟨outs, s, a, hrun, hseq, -⟩ :=
    start_together F config modules host update now time passes
  refine ⟨outs, s, hrun, ?_⟩
  obtain ⟨segments, rest, failed, hshape, -⟩ := run_logged
    (K := Unit) (f := fun _ => ()) (C := fun _ _ => True)
    (I := fun _ past s => Answers past s)
    (fun _ _ _ _ _ _ _ hI hstep => step_answers hI hstep)
    passes () [] _ outs _ (List.pairwise_of_forall fun _ _ => trivial).isChain
    ⟨[], [], false, ⟨rfl, by simp, by simp, along_nil, by simp⟩,
      fun _ => ⟨rfl, by simp [OnlyWaits], by simp [Loop.Pending, Loop.start]⟩⟩
    hseq
  exact ⟨segments, rest, failed, hshape⟩

end Monikor
