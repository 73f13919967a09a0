/-
The main loop beside a count of the polls of one module.

The module at `i` counts its polls in the host (`countAt`), and nothing else
looks at the count: a step of the counted loop is a step of the loop
(`step_counted`), which moves the clock of the module on by an interval for
each poll it has counted, as long as the modules are not reloaded.
-/
import Monikor.Core.Proofs.Poll
import Monikor.Core.Run

namespace Monikor

variable {ω ω' σ : Type} {ops : StoreOps σ} {s s' : Loop ω σ} {p : Pass ω}
  {did : List Did} {clock : Int} {i k : Nat}

-- =============================================================== the count

/-- A module beside a count, which it leaves alone. -/
def PushMod.beside (mod : PushMod ω) : PushMod (ω × Nat) where
  name := mod.name
  config := mod.config
  pollInterval := mod.pollInterval
  lastClock := mod.lastClock
  poll := fun ((host, k), pushed) =>
    let (n, host, pushed) := mod.poll (host, pushed)
    (n, (host, k), pushed)

/-- A module whose polls are counted. -/
def PushMod.counted (mod : PushMod ω) : PushMod (ω × Nat) where
  name := mod.name
  config := mod.config
  pollInterval := mod.pollInterval
  lastClock := mod.lastClock
  poll := fun ((host, k), pushed) =>
    let (n, host, pushed) := mod.poll (host, pushed)
    (n, (host, k + 1), pushed)

/-- The modules, the polls of the one at `i` being counted. -/
def countAt : Nat → List (PushMod ω) → List (PushMod (ω × Nat))
  | _, [] => []
  | 0, mod :: modules => PushMod.counted mod :: modules.map PushMod.beside
  | i + 1, mod :: modules => PushMod.beside mod :: countAt i modules

def IoEvent.beside : IoEvent ω → IoEvent (ω × Nat)
  | .signal signo listOk sendOk => .signal signo listOk sendOk
  | .response i result httpCode => .response i result httpCode
  | .client ms => .client ms
  | .push m => .push m
  | .host f => .host fun (rest, k) => (f rest, k)

/-- What the system answers, of the modules at `i` of a reload too. -/
def Pass.counted (i : Nat) (p : Pass ω) : Pass (ω × Nat) where
  now := p.now
  loaded := fun (host, k) => (p.loaded host).map fun (config, modules, host) =>
    (config, countAt i modules, host, k)
  evictClock := p.evictClock
  listOk := p.listOk
  sendOk := p.sendOk
  events := p.events.map IoEvent.beside

/-- The loop, with `k` polls of the module at `i` counted. -/
def Loop.counted (i k : Nat) (s : Loop ω σ) : Loop (ω × Nat) σ where
  config := s.config
  modules := countAt i s.modules
  host := (s.host, k)
  store := s.store
  lastClock := s.lastClock
  flags := s.flags
  tick := s.tick
  point := s.point

/-- How often a run polls the module at `i`. -/
def loopPolls (ops : StoreOps σ) (i : Nat) (passes : List (Pass ω))
    (s : Loop ω σ) : Option Nat :=
  (Machine.run (Loop.step ops) (passes.map (Pass.counted i))
    (s.counted i 0)).map fun (_, s) => s.host.2

-- =============================================================== the polls

/-- How often a call polls the module at `i`. -/
def dueAt (clock : Int) (i : Nat) (modules : List (Mod ω)) : Nat :=
  match modules[i]? with
  | none => 0
  | some mod => if mod.nextUpdate ≤ clock then 1 else 0

/-- A module after `n` polls. -/
def Mod.moved (n : Nat) (mod : Mod ω) : Mod ω :=
  { mod with lastClock := mod.lastClock + n * mod.pollInterval.toInt }

theorem Mod.moved_zero (mod : Mod ω) : mod.moved 0 = mod := by
  simp [Mod.moved]

theorem Mod.moved_moved (m n : Nat) (mod : Mod ω) :
    (mod.moved m).moved n = mod.moved (m + n) := by
  simp only [Mod.moved, Mod.mk.injEq, true_and, and_true]
  push_cast
  ring

theorem Mod.after_moved (mod : Mod ω) : mod.after clock
    = mod.moved (if mod.nextUpdate ≤ clock then 1 else 0) := by
  unfold Mod.after
  split
  · simp [Mod.moved, Mod.nextUpdate]
  · exact mod.moved_zero.symm

theorem pollModules_modules (clock : Int) (modules : List (Mod ω)) (mon : ω) :
    (pollModules clock modules mon).2.1 = modules.map (Mod.after clock) := by
  induction modules generalizing mon with
  | nil => rfl
  | cons mod modules ih =>
      unfold pollModules
      simp only
      split
      case isTrue hdue =>
          have hafter : mod.after clock
              = { mod with lastClock := mod.nextUpdate } := if_pos hdue
          rw [List.map_cons, hafter, ← ih]
          rfl
      case isFalse hdue =>
          have hafter : mod.after clock = mod := if_neg hdue
          rw [List.map_cons, hafter, ← ih]

/-- A call moves the module at `i` on by as many slots as it polls it for. -/
theorem after_dueAt {modules : List (Mod ω)} {mod : Mod ω}
    (h : modules[i]? = some mod) : (modules.map (Mod.after clock))[i]?
      = some (mod.moved (dueAt clock i modules)) := by
  rw [List.getElem?_map, h, Option.map_some, mod.after_moved]
  unfold dueAt
  rw [h]

theorem pollModule_beside (mod : PushMod ω) (host : ω) (pushed : List Metric) :
    pollModule (PushMod.beside mod) ((host, k), pushed)
      = let (err, host, pushed) := pollModule mod (host, pushed)
        (err, (host, k), pushed) := by
  unfold pollModule PushMod.beside
  dsimp only
  split <;> rfl

theorem pollModule_counted (mod : PushMod ω) (host : ω) (pushed : List Metric) :
    pollModule (PushMod.counted mod) ((host, k), pushed)
      = let (err, host, pushed) := pollModule mod (host, pushed)
        (err, (host, k + 1), pushed) := by
  unfold pollModule PushMod.counted
  dsimp only
  split <;> rfl

/-- What a call does beside a count. -/
def besideCount (f : List (PushMod ω) → List (PushMod (ω × Nat))) (k : Nat) :
    Int × List (PushMod ω) × ω × List Metric →
      Int × List (PushMod (ω × Nat)) × (ω × Nat) × List Metric
  | (errs, modules, host, pushed) => (errs, f modules, (host, k), pushed)

theorem pollModules_besides (modules : List (PushMod ω)) :
    ∀ (host : ω) (pushed : List Metric),
      pollModules clock (modules.map PushMod.beside) ((host, k), pushed)
        = besideCount (List.map PushMod.beside) k
          (pollModules clock modules (host, pushed)) := by
  induction modules with
  | nil => exact fun host pushed => rfl
  | cons mod modules ih =>
      intro host pushed
      have hsame : (PushMod.beside mod).lastClock = mod.lastClock
          ∧ (PushMod.beside mod).pollInterval = mod.pollInterval := ⟨rfl, rfl⟩
      simp only [List.map_cons, pollModules, hsame.1, hsame.2,
        pollModule_beside, ih]
      split <;> rfl

theorem pollModules_countAt (clock : Int) (modules : List (PushMod ω)) :
    ∀ (i k : Nat) (host : ω) (pushed : List Metric),
      pollModules clock (countAt i modules) ((host, k), pushed)
        = besideCount (countAt i) (k + dueAt clock i modules)
          (pollModules clock modules (host, pushed)) := by
  induction modules with
  | nil => exact fun i k host pushed => by cases i <;> rfl
  | cons mod modules ih =>
      intro i k host pushed
      cases i with
      | zero =>
          have hsame : (PushMod.counted mod).lastClock = mod.lastClock
              ∧ (PushMod.counted mod).pollInterval = mod.pollInterval :=
            ⟨rfl, rfl⟩
          have hdue : dueAt clock 0 (mod :: modules)
              = if mod.lastClock + mod.pollInterval.toInt ≤ clock then 1
                else 0 := rfl
          rw [hdue]
          simp only [countAt, pollModules, hsame.1, hsame.2,
            pollModule_counted, pollModules_besides]
          split <;> rfl
      | succ i =>
          have hsame : (PushMod.beside mod).lastClock = mod.lastClock
              ∧ (PushMod.beside mod).pollInterval = mod.pollInterval :=
            ⟨rfl, rfl⟩
          have hdue : dueAt clock (i + 1) (mod :: modules)
              = dueAt clock i modules := rfl
          rw [hdue]
          simp only [countAt, pollModules, hsame.1, hsame.2,
            pollModule_beside, ih]
          split <;> rfl

-- ================================================================ the loop

theorem getTickInterval_congr {config : IntervalConfig}
    {modules : List (Mod ω)} {modules' : List (Mod ω')}
    (h : modules'.map Mod.pollInterval = modules.map Mod.pollInterval) :
    getTickInterval config modules' = getTickInterval config modules := by
  have hfold : ∀ {ω : Type} (l : List (Mod ω)) (tick : Int32),
      l.foldl (fun tick mod =>
        if mod.pollInterval < tick then mod.pollInterval else tick) tick
      = (l.map Mod.pollInterval).foldl (fun tick interval =>
        if interval < tick then interval else tick) tick := by
    intro ω l tick
    rw [List.foldl_map]
  unfold getTickInterval
  rw [hfold, hfold, h]

theorem countAt_pollInterval (i : Nat) (modules : List (PushMod ω)) :
    (countAt i modules).map Mod.pollInterval
      = modules.map Mod.pollInterval := by
  have hbesides : ∀ modules : List (PushMod ω),
      (modules.map PushMod.beside).map Mod.pollInterval
        = modules.map Mod.pollInterval := by
    intro modules
    rw [List.map_map]
    rfl
  induction modules generalizing i with
  | nil => cases i <;> rfl
  | cons mod modules ih =>
      cases i with
      | zero => exact congrArg (mod.pollInterval :: ·) (hbesides modules)
      | succ i => exact congrArg (mod.pollInterval :: ·) (ih i)

/-- What a part of the loop logs, and its loop with `k` polls counted. -/
def countedOut {β : Type} (i k : Nat) :
    β × Loop ω σ → β × Loop (ω × Nat) σ :=
  Prod.map id (Loop.counted i k)

theorem update_counted : (s.counted i k).update ops (p.counted i)
    = (s.update ops p).map (countedOut i k) := by
  have hdue : (s.counted i k).updateDue (p.counted i).now
      = s.updateDue p.now := rfl
  unfold Loop.update
  rw [hdue]
  split
  · show (ops.logged [.evict s.config.pollInterval s.config.cacheMaxSize
      p.evictClock, .send s.config.maxSendSize.toNat p.listOk p.sendOk]
      s.store).bind _ = _
    cases ops.logged [.evict s.config.pollInterval s.config.cacheMaxSize
      p.evictClock, .send s.config.maxSendSize.toNat p.listOk p.sendOk]
      s.store <;> rfl
  · rfl

theorem turn_counted : (s.counted i k).turn ops (p.counted i)
    = (s.turn ops p).map (countedOut i (k + dueAt p.sec i s.modules)) := by
  have hpolls := pollModules_countAt p.sec s.modules i k s.host []
  rcases hpoll : pollModules p.sec s.modules (s.host, [])
    with ⟨errs, modules, host, pushed⟩
  rw [hpoll] at hpolls
  have hpolls : pollModules (p.counted i).sec (s.counted i k).modules
      ((s.counted i k).host, []) = (errs, countAt i modules,
        (host, k + dueAt p.sec i s.modules), pushed) := hpolls
  have hstore : (ops.setUpdate ((ops.update (s.counted i k).store).advance
      (s.counted i k).tick.toInt (p.counted i).sec) (s.counted i k).store)
      = ops.setUpdate ((ops.update s.store).advance s.tick.toInt p.sec)
        s.store := rfl
  simp only [Loop.turn, hpoll, hpolls, hstore, Option.bind_eq_bind]
  cases ops.calls (pushed.map .push) (ops.setUpdate
      ((ops.update s.store).advance s.tick.toInt p.sec) s.store) with
  | none => rfl
  | some store =>
      let s₁ : Loop ω σ := { s with store, modules, host }
      let n := k + dueAt p.sec i s.modules
      have hupdate : (s₁.counted i n).update ops (p.counted i)
          = (s₁.update ops p).map (countedOut i n) := update_counted
      have hupdate : Loop.update ops (p.counted i) { s.counted i k with
          store, modules := countAt i modules, host := (host, n) } = _ := hupdate
      simp only [Option.bind_some]
      rw [hupdate]
      cases s₁.update ops p <;> rfl

/-- What a turn does to the modules. -/
structure PollTurns (p : Pass ω) (s s' : Loop ω σ) : Prop where
  config : s'.config = s.config
  tick : s'.tick = s.tick
  modules : s'.modules = s.modules.map (Mod.after p.sec)

theorem turn_polls (hrun : s.turn ops p = some (did, s')) :
    PollTurns p s s' ∧ ∃ made, did = [.turn (s.turnOf ops p made)] := by
  unfold Loop.turn at hrun
  have hmodules := pollModules_modules p.sec s.modules (s.host, [])
  rcases hpoll : pollModules p.sec s.modules (s.host, [])
    with ⟨errs, modules, host, pushed⟩
  rw [hpoll] at hmodules
  simp only [hpoll, Option.bind_eq_bind, Option.bind_eq_some_iff] at hrun
  obtain ⟨a, ha, ⟨made, s₁⟩, hs₁, hout⟩ := hrun
  obtain ⟨rfl, rfl⟩ := Prod.mk.inj (Option.some.inj hout)
  unfold Loop.update at hs₁
  split at hs₁
  · simp only [Option.bind_eq_bind, Option.bind_eq_some_iff] at hs₁
    obtain ⟨b, hb, hout⟩ := hs₁
    obtain ⟨rfl, rfl⟩ := Prod.mk.inj (Option.some.inj hout)
    exact ⟨⟨rfl, rfl, hmodules⟩, _, rfl⟩
  · obtain ⟨rfl, rfl⟩ := Prod.mk.inj (Option.some.inj hs₁)
    exact ⟨⟨rfl, rfl, hmodules⟩, _, rfl⟩

/-- What a wait does to the modules. -/
theorem handle_modules {e : IoEvent ω}
    (hrun : s.handle ops e = some (did, s')) :
    s'.config = s.config ∧ s'.tick = s.tick ∧ s'.modules = s.modules := by
  cases e with
  | signal signo listOk sendOk =>
      cases signo with
      | int | term | quit | chld | hup =>
          obtain ⟨rfl, rfl⟩ := Prod.mk.inj (Option.some.inj hrun)
          exact ⟨rfl, rfl, rfl⟩
      | usr1 | usr2 =>
          simp only [Loop.handle, Loop.handleSignal, Option.bind_eq_bind,
            Option.bind_eq_some_iff] at hrun
          obtain ⟨s₁, ⟨a, ha, hs₁⟩, hout⟩ := hrun
          obtain rfl := Option.some.inj hs₁
          obtain ⟨rfl, rfl⟩ := Prod.mk.inj (Option.some.inj hout)
          exact ⟨rfl, rfl, rfl⟩
  | response i result httpCode =>
      simp only [Loop.handle, Option.bind_eq_bind,
        Option.bind_eq_some_iff] at hrun
      obtain ⟨a, ha, hout⟩ := hrun
      obtain ⟨rfl, rfl⟩ := Prod.mk.inj (Option.some.inj hout)
      exact ⟨rfl, rfl, rfl⟩
  | client ms =>
      simp only [Loop.handle, Option.bind_eq_bind,
        Option.bind_eq_some_iff] at hrun
      obtain ⟨a, ha, hout⟩ := hrun
      obtain ⟨rfl, rfl⟩ := Prod.mk.inj (Option.some.inj hout)
      exact ⟨rfl, rfl, rfl⟩
  | push m =>
      simp only [Loop.handle, Option.bind_eq_bind,
        Option.bind_eq_some_iff] at hrun
      obtain ⟨a, ha, hout⟩ := hrun
      obtain ⟨rfl, rfl⟩ := Prod.mk.inj (Option.some.inj hout)
      exact ⟨rfl, rfl, rfl⟩
  | host f =>
      obtain ⟨rfl, rfl⟩ := Prod.mk.inj (Option.some.inj hrun)
      exact ⟨rfl, rfl, rfl⟩

theorem handleAll_modules (events : List (IoEvent ω)) :
    ∀ (s : Loop ω σ) (did : List Did),
      s.handleAll ops events = some (did, s') →
      s'.config = s.config ∧ s'.tick = s.tick ∧ s'.modules = s.modules := by
  induction events with
  | nil =>
      intro s did hrun
      obtain ⟨rfl, rfl⟩ := Prod.mk.inj (Option.some.inj hrun)
      exact ⟨rfl, rfl, rfl⟩
  | cons e events ih =>
      intro s did hrun
      unfold Loop.handleAll at hrun
      split at hrun
      · obtain ⟨rfl, rfl⟩ := Prod.mk.inj (Option.some.inj hrun)
        exact ⟨rfl, rfl, rfl⟩
      · simp only [Option.bind_eq_bind, Option.bind_eq_some_iff] at hrun
        obtain ⟨⟨did₁, s₁⟩, hs₁, ⟨rest, s₂⟩, hrest, hout⟩ := hrun
        obtain ⟨rfl, rfl⟩ := Prod.mk.inj (Option.some.inj hout)
        obtain ⟨hconfig₁, htick₁, hmodules₁⟩ := handle_modules hs₁
        obtain ⟨hconfig, htick, hmodules⟩ := ih s₁ rest hrest
        exact ⟨hconfig.trans hconfig₁, htick.trans htick₁,
          hmodules.trans hmodules₁⟩

theorem wait_modules (hrun : s.wait ops p = some (did, s')) :
    s'.config = s.config ∧ s'.tick = s.tick ∧ s'.modules = s.modules := by
  simp only [Loop.wait, Option.bind_eq_bind, Option.bind_eq_some_iff] at hrun
  obtain ⟨⟨events, s₁⟩, hevents, hout⟩ := hrun
  obtain ⟨rfl, rfl⟩ := Prod.mk.inj (Option.some.inj hout)
  obtain ⟨hconfig, htick, hmodules⟩ := handleAll_modules p.events s events hevents
  exact ⟨hconfig, htick, hmodules⟩

-- ======================================================= the counted loop

theorem handle_counted (e : IoEvent ω) : (s.counted i k).handle ops e.beside
    = (s.handle ops e).map (countedOut i k) := by
  cases e with
  | signal signo listOk sendOk =>
      cases signo with
      | int | term | quit | chld | hup => rfl
      | usr1 =>
          simp only [Loop.handle, Loop.handleSignal, IoEvent.beside,
            Option.bind_eq_bind]
          show ((ops.calls [.send s.config.maxSendSize.toNat listOk sendOk]
            s.store).bind _).bind _ = _
          cases ops.calls [.send s.config.maxSendSize.toNat listOk sendOk]
            s.store <;> rfl
      | usr2 =>
          simp only [Loop.handle, Loop.handleSignal, IoEvent.beside,
            Option.bind_eq_bind]
          show ((ops.calls [.flush] s.store).bind _).bind _ = _
          cases ops.calls [.flush] s.store <;> rfl
  | response i' result httpCode =>
      simp only [Loop.handle, IoEvent.beside, Option.bind_eq_bind]
      show (ops.calls [.respond s.config.updateInterval.toInt i' result
        httpCode] s.store).bind _ = _
      cases ops.calls [.respond s.config.updateInterval.toInt i' result
        httpCode] s.store <;> rfl
  | client ms =>
      simp only [Loop.handle, IoEvent.beside, Option.bind_eq_bind]
      show (ops.calls [.receive ms] s.store).bind _ = _
      cases ops.calls [.receive ms] s.store <;> rfl
  | push m =>
      simp only [Loop.handle, IoEvent.beside, Option.bind_eq_bind]
      show (ops.calls [.push m] s.store).bind _ = _
      cases ops.calls [.push m] s.store <;> rfl
  | host f => rfl

theorem handleAll_counted (events : List (IoEvent ω)) : ∀ s : Loop ω σ,
    (s.counted i k).handleAll ops (events.map IoEvent.beside)
      = (s.handleAll ops events).map (countedOut i k) := by
  induction events with
  | nil => exact fun s => rfl
  | cons e events ih =>
      intro s
      have hpoint : (s.counted i k).point = s.point := rfl
      rw [List.map_cons]
      unfold Loop.handleAll
      rw [hpoint]
      split
      · rfl
      · rw [handle_counted]
        cases s.handle ops e with
        | none => rfl
        | some r =>
            obtain ⟨did, s₁⟩ := r
            have hrest := ih s₁
            simp only [Option.bind_eq_bind, Option.map_some, Option.bind_some,
              countedOut, Prod.map_apply, id_eq, hrest]
            cases s₁.handleAll ops events <;> rfl

theorem wait_counted : (s.counted i k).wait ops (p.counted i)
    = (s.wait ops p).map (countedOut i k) := by
  unfold Loop.wait
  have hevents : (s.counted i k).handleAll ops (p.counted i).events
      = (s.handleAll ops p.events).map (countedOut i k) :=
    handleAll_counted p.events s
  rw [hevents]
  cases s.handleAll ops p.events <;> rfl

/-- A step that does not reload moves the module at `i` on by as many slots as
it polls it for. -/
def Moves (i n : Nat) (s s' : Loop ω σ) (did : List Did) : Prop :=
  .reloaded ∉ did → ∀ mod, s.modules[i]? = some mod →
    s'.modules[i]? = some (mod.moved n)

theorem Moves.none (hmodules : s'.modules = s.modules) : Moves i 0 s s' did := by
  intro _ mod hmod
  rw [mod.moved_zero, hmodules]
  exact hmod

theorem turn_moves (hrun : s.turn ops p = some (did, s')) :
    Moves i (dueAt p.sec i s.modules) s s' did := by
  intro _ mod hmod
  rw [(turn_polls hrun).1.modules]
  exact after_dueAt hmod

theorem reload_counted : (s.counted i k).reload ops (p.counted i)
    = (s.reload ops p).map (countedOut i k) := by
  have hloaded : (p.counted i).loaded (s.counted i k).host
      = (p.loaded s.host).map fun (config, modules, host) =>
        (config, countAt i modules, host, k) := rfl
  unfold Loop.reload
  rw [hloaded]
  cases p.loaded s.host with
  | none => rfl
  | some r =>
      obtain ⟨config, modules, host⟩ := r
      have htick : getTickInterval config.toIntervalConfig (countAt i modules)
          = getTickInterval config.toIntervalConfig modules :=
        getTickInterval_congr (countAt_pollInterval i modules)
      simp only [Option.map_some, htick, Option.bind_eq_bind]
      show (ops.call .reload s.store).bind _ = _
      cases ops.call .reload s.store <;> rfl

/-- A reload says so, or the loop returns. -/
theorem reload_logs (hrun : s.reload ops p = some (did, s')) :
    .reloaded ∈ did ∨ s'.point = .exited ∧ s'.modules = s.modules := by
  unfold Loop.reload at hrun
  cases hload : p.loaded s.host with
  | none =>
      rw [hload] at hrun
      obtain ⟨rfl, rfl⟩ := Prod.mk.inj (Option.some.inj hrun)
      exact .inr ⟨rfl, rfl⟩
  | some r =>
      simp only [hload, Option.bind_eq_bind, Option.bind_eq_some_iff] at hrun
      obtain ⟨⟨n, store⟩, -, hout⟩ := hrun
      obtain ⟨rfl, rfl⟩ := Prod.mk.inj (Option.some.inj hout)
      exact .inl (List.mem_singleton_self _)

theorem top_counted (ops : StoreOps σ) (s : Loop ω σ) (p : Pass ω) (i : Nat) :
    ∃ n, (∀ k, (s.counted i k).top ops (p.counted i)
        = (s.top ops p).map (countedOut i (k + n)))
      ∧ ∀ did s', s.top ops p = some (did, s') → Moves i n s s' did := by
  have hflags : ∀ k, (s.counted i k).flags = s.flags := fun _ => rfl
  unfold Loop.top
  simp only [hflags]
  split
  case isFalse =>
      exact ⟨_, fun k => turn_counted, fun did s' hrun => turn_moves hrun⟩
  case isTrue =>
      simp only [reload_counted, Option.bind_eq_bind]
      cases hreload : s.reload ops p with
      | none => exact ⟨0, fun k => rfl, fun _ _ hrun => nomatch hrun⟩
      | some r =>
          obtain ⟨reloaded, s₁⟩ := r
          have hpoint : ∀ k, (s₁.counted i k).point = s₁.point := fun _ => rfl
          simp only [Option.map_some, Option.bind_some, countedOut,
            Prod.map_apply, id_eq, hpoint]
          split
          case isTrue =>
              refine ⟨0, fun k => rfl, ?_⟩
              rintro did s' hrun
              obtain ⟨rfl, rfl⟩ := Prod.mk.inj (Option.some.inj hrun)
              intro hno
              rcases reload_logs hreload with hin | ⟨-, hmodules⟩
              · exact absurd hin hno
              · exact Moves.none hmodules hno
          case isFalse hgoes =>
              refine ⟨dueAt p.sec i s₁.modules, fun k => ?_, ?_⟩
              · rw [turn_counted]
                cases s₁.turn ops p <;> rfl
              · intro did s' hrun hno
                rw [Option.bind_eq_some_iff] at hrun
                obtain ⟨⟨rest, s₂⟩, -, hout⟩ := hrun
                obtain ⟨rfl, rfl⟩ := Prod.mk.inj (Option.some.inj hout)
                rcases reload_logs hreload with hin | ⟨hexited, -⟩
                · exact absurd (List.mem_append_left _ hin) hno
                · exact absurd hexited hgoes

/-- A step of the counted loop is a step of the loop. -/
theorem step_counted (ops : StoreOps σ) (s : Loop ω σ) (p : Pass ω) (i : Nat) :
    ∃ n, (∀ k, (s.counted i k).step ops (p.counted i)
        = (s.step ops p).map (countedOut i (k + n)))
      ∧ ∀ did s', s.step ops p = some (did, s') → Moves i n s s' did := by
  have hcounted : ∀ k, (s.counted i k).point = s.point := fun _ => rfl
  unfold Loop.step
  simp only [hcounted]
  cases s.point with
  | top => exact top_counted ops s p i
  | wait =>
      refine ⟨0, fun k => wait_counted, fun did s' hrun => ?_⟩
      obtain ⟨-, -, hmodules⟩ := wait_modules hrun
      exact Moves.none hmodules
  | exited =>
      refine ⟨0, fun k => rfl, fun did s' hrun => ?_⟩
      obtain ⟨rfl, rfl⟩ := Prod.mk.inj (Option.some.inj hrun)
      exact Moves.none rfl

/-- A run of the counted loop is a run of the loop, and the count is how far
the module at `i` has come. -/
theorem run_counted (ops : StoreOps σ) (i : Nat) (passes : List (Pass ω)) :
    ∀ s : Loop ω σ, ∃ n, (∀ k, Machine.run (Loop.step ops)
          (passes.map (Pass.counted i)) (s.counted i k)
        = (Machine.run (Loop.step ops) passes s).map (countedOut i (k + n)))
      ∧ ∀ outs s', Machine.run (Loop.step ops) passes s = some (outs, s') →
        Moves i n s s' outs.flatten := by
  induction passes with
  | nil =>
      intro s
      refine ⟨0, fun k => rfl, fun outs s' hrun => ?_⟩
      obtain ⟨rfl, rfl⟩ := Prod.mk.inj (Option.some.inj hrun)
      exact Moves.none rfl
  | cons p passes ih =>
      intro s
      obtain ⟨m, hstep, hmoves⟩ := step_counted ops s p i
      cases hs : s.step ops p with
      | none =>
          refine ⟨0, fun k => ?_, fun outs s' hrun => ?_⟩
          · simp [Machine.run, hstep, hs]
          · simp [Machine.run, hs] at hrun
      | some r =>
          obtain ⟨did, s₁⟩ := r
          obtain ⟨n, hrest, hmoves'⟩ := ih s₁
          refine ⟨m + n, fun k => ?_, fun outs s' hrun hno mod hmod => ?_⟩
          · simp only [List.map_cons, Machine.run, hstep, hs, Option.map_some,
              Option.bind_eq_bind, Option.bind_some, countedOut, Prod.map_apply,
              id_eq, hrest, Nat.add_assoc]
            cases Machine.run (Loop.step ops) passes s₁ <;> rfl
          · simp only [Machine.run, hs, Option.bind_eq_bind, Option.bind_some,
              Option.bind_eq_some_iff] at hrun
            obtain ⟨⟨rest, s₂⟩, hrun, hout⟩ := hrun
            obtain ⟨rfl, rfl⟩ := Prod.mk.inj (Option.some.inj hout)
            rw [List.flatten_cons, List.mem_append, not_or] at hno
            have hmod₁ := hmoves did s₁ hs hno.1 mod hmod
            have hmod₂ := hmoves' rest s₂ hrun hno.2 _ hmod₁
            rwa [mod.moved_moved] at hmod₂

/-- The polls of a run, and the module at `i` after them. -/
theorem loopPolls_moved {outs : List (List Did)} {passes : List (Pass ω)}
    (i : Nat) (hrun : Machine.run (Loop.step ops) passes s = some (outs, s')) :
    ∃ polls, loopPolls ops i passes s = some polls
      ∧ Moves i polls s s' outs.flatten := by
  obtain ⟨n, hcounted, hmoves⟩ := run_counted ops i passes s
  refine ⟨n, ?_, hmoves outs s' hrun⟩
  unfold loopPolls
  rw [hcounted 0, hrun, Nat.zero_add]
  rfl

end Monikor
