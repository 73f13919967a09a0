/-
The main loop polls its modules in time.

The tick is no longer than any interval, so a loop that goes by its ticks
never lets a second slot of a module begin before a turn is due: the
invariant is that `next_update` is less than an interval and a tick ahead of
the slot a module was last polled for (`InTime`), which is as many intervals
ahead of its load as it was polled.
-/
import Monikor.Core.Proofs.Counted
import Monikor.Core.Proofs.Load
import Monikor.Core.Proofs.Schedule

namespace Monikor

open Machine

variable {ω : Type} {F : FloatOps} {s s' : Loop ω (Seq.Agent Metric)}
  {p : Pass ω} {did past : List Did} {clock : Int}

-- ================================================================= the tick

theorem getTickInterval_le {config : IntervalConfig} {modules : List (Mod ω)}
    {mod : Mod ω} (hmod : mod ∈ modules) :
    (getTickInterval config modules).toInt ≤ mod.pollInterval.toInt := by
  have hgo : ∀ (modules : List (Mod ω)) (tick : Int32),
      (modules.foldl (fun tick mod =>
        if mod.pollInterval < tick then mod.pollInterval else tick) tick).toInt
        ≤ tick.toInt
      ∧ ∀ mod ∈ modules, (modules.foldl (fun tick mod =>
        if mod.pollInterval < tick then mod.pollInterval else tick) tick).toInt
        ≤ mod.pollInterval.toInt := by
    intro modules
    induction modules with
    | nil => exact fun tick => ⟨Int.le_refl _, by simp⟩
    | cons first modules ih =>
        intro tick
        rw [List.foldl_cons]
        obtain ⟨htick, hall⟩ :=
          ih (if first.pollInterval < tick then first.pollInterval else tick)
        have hmin : (if first.pollInterval < tick then first.pollInterval
            else tick).toInt ≤ tick.toInt
            ∧ (if first.pollInterval < tick then first.pollInterval
              else tick).toInt ≤ first.pollInterval.toInt := by
          split
          case isTrue h =>
              have hlt := Int32.lt_iff_toInt_lt.mp h
              exact ⟨by omega, Int.le_refl _⟩
          case isFalse h =>
              have hnlt := mt Int32.lt_iff_toInt_lt.mpr h
              exact ⟨Int.le_refl _, by omega⟩
        refine ⟨by omega, fun mod hmod => ?_⟩
        rcases List.mem_cons.mp hmod with rfl | hmod
        · omega
        · exact hall mod hmod
  exact (hgo modules _).2 mod hmod

theorem Mod.after_pollInterval (mod : Mod ω) :
    (mod.after clock).pollInterval = mod.pollInterval := by
  rw [Mod.after_eq]

-- ============================================================= the invariant

/-- The loop goes by its ticks: it does not reload, no response delays a
turn, and no turn is later than its tick. -/
structure Steady (log : List Did) : Prop where
  reloads : .reloaded ∉ log
  delays : ∀ d ∈ log, d.delay = 0
  turns : ∀ t, .turn t ∈ log → t.now ≤ t.due + t.tick

theorem Steady.left (h : Steady (past ++ did)) : Steady past where
  reloads := fun hr => h.reloads (List.mem_append_left _ hr)
  delays := fun d hd => h.delays d (List.mem_append_left _ hd)
  turns := fun t ht => h.turns t (List.mem_append_left _ ht)

theorem delays_eq_zero (h : ∀ d ∈ did, d.delay = 0) :
    (did.map Did.delay).sum = 0 := by
  induction did with
  | nil => rfl
  | cons d did ih =>
      rw [List.map_cons, List.sum_cons, h d (List.mem_cons_self ..),
        ih fun e he => h e (List.mem_cons_of_mem _ he)]
      rfl

/-- A module was polled for all slots but those of the last tick. -/
structure InTime (s : Loop ω (Seq.Agent Metric)) (clock : Int)
    (mod : PushMod ω) : Prop where
  past : mod.lastClock ≤ clock
  next : s.next < mod.lastClock + mod.pollInterval.toInt + s.tick.toInt

/-- The modules are in time, and the tick is the shortest interval. -/
structure Polls (clock : Int) (s : Loop ω (Seq.Agent Metric)) : Prop where
  tick : s.tick = getTickInterval s.config.toIntervalConfig s.modules
  modules : ∀ mod ∈ s.modules, InTime s clock mod

/-- A turn polls what is due. -/
theorem Polls.turn (h : Polls clock s) (hclock : clock ≤ p.sec)
    (hpolls : PollTurns p s s') {t : Turn} (ht : LoopTurns p s s' t)
    (htick : t.tick = s.tick.toInt) (hbegan : s.next ≤ p.sec)
    (hlate : t.now ≤ t.due + t.tick) : Polls p.sec s' := by
  have hintervals : (s.modules.map (Mod.after p.sec)).map Mod.pollInterval
      = s.modules.map Mod.pollInterval := by
    rw [List.map_map]
    exact List.map_congr_left fun mod _ => mod.after_pollInterval
  refine ⟨?_, fun mod' hmod' => ?_⟩
  · rw [hpolls.tick, hpolls.config, hpolls.modules, h.tick,
      getTickInterval_congr hintervals]
  · rw [hpolls.modules] at hmod'
    obtain ⟨mod, hmod, rfl⟩ := List.mem_map.mp hmod'
    obtain ⟨hpast, hnext⟩ := h.modules mod hmod
    have hle : s.tick.toInt ≤ mod.pollInterval.toInt := by
      rw [h.tick]
      exact getTickInterval_le hmod
    have hdue := ht.due
    have hnow := ht.now
    have hset := ht.nextUpdate
    have hnext' := ht.next
    unfold Mod.after Mod.nextUpdate
    split
    case isTrue hpoll => exact ⟨hpoll, by
      rw [hpolls.tick]
      dsimp only
      omega⟩
    case isFalse hpoll => exact ⟨by omega, by
      rw [hpolls.tick]
      omega⟩

-- ================================================================= the run

/-- The loop after the log `past`, its last reading being `clock`. -/
def Punctual (clock : Int) (past : List Did) (s : Loop ω (Seq.Agent Metric)) :
    Prop :=
  Steady past → Polls clock s ∧ (s.point = .top → s.next ≤ clock)

/-- What leaves the modules and `next_update` as they are. -/
theorem Polls.frame (h : Polls clock s) (hclock : clock ≤ p.sec)
    (hconfig : s'.config = s.config) (htick : s'.tick = s.tick)
    (hmodules : s'.modules = s.modules) (hnext : s'.next = s.next) :
    Polls p.sec s' := by
  refine ⟨by rw [hconfig, htick, hmodules, h.tick], fun mod hmod => ?_⟩
  rw [hmodules] at hmod
  obtain ⟨hpast, hslots⟩ := h.modules mod hmod
  exact ⟨Int.le_trans hpast hclock, by rwa [hnext, htick]⟩

theorem step_punctual (h : Punctual clock past s) (hclock : clock ≤ p.sec)
    (hrun : s.step (seqOps F) p = some (did, s')) :
    Punctual p.sec (past ++ did) s' := by
  intro hsteady
  obtain ⟨hpolls, hreached⟩ := h hsteady.left
  unfold Loop.step at hrun
  cases hpoint : s.point with
  | top =>
      rw [hpoint] at hrun
      have hbegan := Int.le_trans (hreached hpoint) hclock
      by_cases hpending : s.Pending
      case pos =>
          rcases top_turns hpoint hrun with
            ⟨-, rfl, rfl⟩ | ⟨t, ht, ⟨-, rfl⟩ | ⟨hnone, rfl⟩⟩
          · exact ⟨hpolls.frame hclock rfl rfl rfl rfl, fun hp => nomatch hp⟩
          · exact absurd (by simp) hsteady.reloads
          · exact absurd hpending hnone
      case neg =>
          have hrun : s.turn (seqOps F) p = some (did, s') :=
            (if_neg hpending).symm.trans hrun
          obtain ⟨t, rfl, ht⟩ := turn_turns hpending hrun
          obtain ⟨hturn, made, hlog⟩ := turn_polls hrun
          obtain rfl := Did.turn.inj (List.singleton_inj.mp hlog)
          exact ⟨hpolls.turn hclock hturn ht rfl hbegan
            (hsteady.turns _ (by simp)),
            fun hp => nomatch ht.point.symm.trans hp⟩
  | wait =>
      rw [hpoint] at hrun
      obtain ⟨hw, hend⟩ := wait_waits hpoint hrun
      obtain ⟨hconfig, htick, hmodules⟩ := wait_modules hrun
      have hzero : (did.map Did.delay).sum = 0 :=
        delays_eq_zero fun d hd =>
          hsteady.delays d (List.mem_append_right _ hd)
      have hnext := hw.next
      rw [hzero, Int.add_zero] at hnext
      exact ⟨hpolls.frame hclock hconfig htick hmodules hnext, hend⟩
  | exited =>
      rw [hpoint] at hrun
      obtain ⟨rfl, rfl⟩ := Prod.mk.inj (Option.some.inj hrun)
      exact ⟨hpolls.frame hclock rfl rfl rfl rfl,
        fun hp => nomatch hpoint.symm.trans hp⟩

/-- No module is left behind: in a loop that goes by its ticks, on a clock
that never goes back, a module that was loaded less than a tick before the
loop began is at any time polled once for every slot but those that begin
less than a tick before the next turn, and for none that has not begun. -/
theorem modules_on_schedule (F : FloatOps) (config : RunConfig)
    (modules : List (PushMod ω)) (host : ω) (update : Update) (now : Timeval)
    (time : Int) (passes : List (Pass ω))
    (hclock : List.IsChain (· ≤ ·) (time :: passes.map Pass.sec))
    (hloaded : ∀ mod ∈ modules, mod.lastClock ≤ time
      ∧ time < mod.nextUpdate
        + (getTickInterval config.toIntervalConfig modules).toInt) :
    let start := Loop.start (lifeOps F) config modules host (Life.start update)
      now time
    ∃ outs s, Machine.run (Loop.step (lifeOps F)) passes start = some (outs, s)
      ∧ (Steady outs.flatten → ∀ i mod, modules[i]? = some mod →
        ∃ polls, loopPolls (lifeOps F) i passes start = some polls
          ∧ s.modules[i]? = some (mod.moved polls)
          ∧ (mod.moved polls).lastClock
            ≤ (passes.map Pass.sec).getLastD time
          ∧ s.store.agent.update.nextUpdate
            < (mod.moved polls).nextUpdate + s.tick.toInt) := by
  intro start
  obtain ⟨outs, s, a, hrun, hseq, hshows⟩ :=
    start_together F config modules host update now time passes
  refine ⟨outs, s, hrun, fun hsteady i mod hmod => ?_⟩
  have hstart : Punctual time [] (Loop.start (seqOps F) config modules host
      (Seq.Agent.start update) now time) := fun _ =>
    ⟨⟨rfl, fun mod hmod => ⟨(hloaded mod hmod).1, (hloaded mod hmod).2⟩⟩,
      fun _ => Int.le_refl _⟩
  have hend := run_logged
    (I := fun clock past s => Punctual clock past s)
    (fun _ _ _ _ _ _ hle hI hstep => step_punctual hI hle hstep)
    passes time [] _ outs _ hclock hstart hseq
  have hupdate : s.store.agent.update = a.update :=
    (lifeOps_agree F).update _ _ hshows
  obtain ⟨polls, hpolls, hmoves⟩ := loopPolls_moved i hrun
  have hmoved : s.modules[i]? = some (mod.moved polls) :=
    hmoves hsteady.reloads mod hmod
  obtain ⟨hpast, hnext⟩ :=
    (hend hsteady).1.modules _ (List.mem_of_getElem? hmoved)
  refine ⟨polls, hpolls, hmoved, hpast, ?_⟩
  rw [hupdate]
  exact hnext

/-- Half a minute of an agent with two modules, polled every five and every
seven seconds by turns that are up to three seconds late. -/
theorem modules_on_schedule_late :
    let pass (sec : Int64) : Pass Unit :=
      ⟨⟨sec, 0⟩, fun _ => none, ⟨sec, 1⟩, true, true, []⟩
    let modules : List (PushMod Unit) :=
      [⟨CString.a, .null, 5, 95, fun mon => (0, mon)⟩,
        ⟨CString.a, .null, 7, 93, fun mon => (-1, mon)⟩]
    let passes := List.map pass [100, 100, 108, 108, 110, 111, 115]
    let start := Loop.start (lifeOps hostFloat) ⟨⟨30, 60⟩, 1000, 1000⟩ modules ()
      (Life.start ⟨0, 0⟩) ⟨100, 0⟩ 100
    ∃ outs s, Machine.run (Loop.step (lifeOps hostFloat)) passes start
        = some (outs, s)
      ∧ (Steady outs.flatten → ∀ i mod, modules[i]? = some mod →
        ∃ polls, loopPolls (lifeOps hostFloat) i passes start = some polls
          ∧ s.modules[i]? = some (mod.moved polls)
          ∧ (mod.moved polls).lastClock
            ≤ (passes.map Pass.sec).getLastD 100
          ∧ s.store.agent.update.nextUpdate
            < (mod.moved polls).nextUpdate + s.tick.toInt) := by
  intro pass modules passes start
  refine modules_on_schedule hostFloat _ _ _ _ _ _ _ (by decide) ?_
  intro mod hmod
  have htwo : mod = ⟨CString.a, .null, 5, 95, fun mon => (0, mon)⟩
      ∨ mod = ⟨CString.a, .null, 7, 93, fun mon => (-1, mon)⟩ := by
    simpa [modules] using hmod
  rcases htwo with rfl | rfl <;> decide

end Monikor
