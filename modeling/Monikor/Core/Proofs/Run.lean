/-
The main loop on pointers does what the main loop on sequences does.

All the loop asks of its store is calls and the `update` member. On stores
that agree (`StoreOps.Agree`) the two loops stay together: they log the
same, and differ in their stores only (`Together`).
-/
import Monikor.Core.Proofs.LifeRuns
import Monikor.Core.Run

namespace Monikor

open Machine

variable {ω σ τ : Type} {R : σ → τ → Prop} {A : StoreOps σ} {B : StoreOps τ}

/-- Two stores that answer the same. -/
structure StoreOps.Agree (R : σ → τ → Prop) (A : StoreOps σ) (B : StoreOps τ) :
    Prop where
  call : ∀ c s t, R s t → ∃ n s' t', A.call c s = some (n, s')
    ∧ B.call c t = some (n, t') ∧ R s' t'
  update : ∀ s t, R s t → A.update s = B.update t
  setUpdate : ∀ u s t, R s t → R (A.setUpdate u s) (B.setUpdate u t)

theorem StoreOps.Agree.calls (h : A.Agree R B) (cs : List Call) :
    ∀ s t, R s t → ∃ s' t', A.calls cs s = some s' ∧ B.calls cs t = some t'
      ∧ R s' t' := by
  induction cs with
  | nil => exact fun s t hR => ⟨s, t, rfl, rfl, hR⟩
  | cons c cs ih =>
      intro s t hR
      obtain ⟨n, s₁, t₁, hs, ht, hR₁⟩ := h.call c s t hR
      obtain ⟨s', t', hs', ht', hR'⟩ := ih s₁ t₁ hR₁
      unfold StoreOps.calls at hs' ht' ⊢
      exact ⟨s', t', by simp [hs, hs'], by simp [ht, ht'], hR'⟩

theorem StoreOps.logged_eq (ops : StoreOps σ) (cs : List Call) :
    ∀ store, ops.logged cs store = (ops.calls cs store).map (cs, ·) := by
  induction cs with
  | nil => exact fun store => rfl
  | cons c cs ih =>
      intro store
      have hcalls : ops.calls (c :: cs) store
          = ((ops.call c store).map Prod.snd).bind (ops.calls cs) := rfl
      rw [hcalls]
      cases hcall : ops.call c store with
      | none => simp [StoreOps.logged, hcall]
      | some r =>
          simp only [StoreOps.logged, hcall, ih, Option.bind_eq_bind,
            Option.bind_some, Option.map_some]
          cases ops.calls cs r.2 <;> rfl

-- =============================================================== two loops

/-- A loop with another store. -/
def Loop.swap (s : Loop ω σ) (store : τ) : Loop ω τ where
  config := s.config
  modules := s.modules
  host := s.host
  store := store
  lastClock := s.lastClock
  flags := s.flags
  tick := s.tick
  point := s.point

/-- Both loops go on: they log the same, and are the same but for their
stores. -/
def Together (R : σ → τ → Prop) (x : Option (List Did × Loop ω σ))
    (y : Option (List Did × Loop ω τ)) : Prop :=
  ∃ did s st, x = some (did, s) ∧ y = some (did, s.swap st) ∧ R s.store st

variable {s : Loop ω σ} {st : τ}

theorem update_together (h : A.Agree R B) (p : Pass ω) (hR : R s.store st) :
    ∃ made s' st', s.update A p = some (made, s') ∧ (s.swap st).update B p
      = some (made, s'.swap st') ∧ R s'.store st' := by
  have hdue : (s.swap st).updateDue p.now = s.updateDue p.now := rfl
  unfold Loop.update
  rw [hdue]
  split
  · obtain ⟨store, store', hs, ht, hR'⟩ := h.calls
      [.evict s.config.pollInterval s.config.cacheMaxSize p.evictClock,
        .send s.config.maxSendSize.toNat p.listOk p.sendOk] s.store st hR
    refine ⟨[.evict s.config.pollInterval s.config.cacheMaxSize p.evictClock,
        .send s.config.maxSendSize.toNat p.listOk p.sendOk],
      { s with store, lastClock := p.now }, store', ?_, ?_, hR'⟩
    · simp only [A.logged_eq, hs, Option.map_some, Option.bind_eq_bind,
        Option.bind_some]
      rfl
    · have ht : B.calls [.evict (s.swap st).config.pollInterval
        (s.swap st).config.cacheMaxSize p.evictClock, .send
        (s.swap st).config.maxSendSize.toNat p.listOk p.sendOk]
        (s.swap st).store = some store' := ht
      simp only [B.logged_eq, ht, Option.map_some, Option.bind_eq_bind,
        Option.bind_some]
      rfl
  · exact ⟨[], s, st, rfl, rfl, hR⟩

theorem turn_together (h : A.Agree R B) (p : Pass ω) (hR : R s.store st) :
    Together R (s.turn A p) ((s.swap st).turn B p) := by
  have hu := h.update _ _ hR
  have hdid : ∀ made, (s.swap st).turnOf B p made = s.turnOf A p made := by
    intro made
    unfold Loop.turnOf
    rw [hu]
    rfl
  rcases hpoll : pollModules p.sec s.modules (s.host, [])
    with ⟨errs, modules, host, pushed⟩
  have hpoll' : pollModules p.sec (s.swap st).modules ((s.swap st).host, [])
    = (errs, modules, host, pushed) := hpoll
  obtain ⟨store, store', hs, ht, hR₁⟩ := h.calls (pushed.map .push) _ _
    (h.setUpdate ((A.update s.store).advance s.tick.toInt p.sec) _ _ hR)
  obtain ⟨made, s', st', hs', ht', hR'⟩ := update_together
    (s := { s with store, modules, host }) h p hR₁
  have hset : B.setUpdate ((B.update (s.swap st).store).advance
      (s.swap st).tick.toInt p.sec) (s.swap st).store
      = B.setUpdate ((A.update s.store).advance s.tick.toInt p.sec) st := by
    rw [hu]
    rfl
  refine ⟨[.turn (s.turnOf A p made)], { s' with point := .wait }, st', ?_, ?_,
    hR'⟩
  · simp only [Loop.turn, hpoll, Option.bind_eq_bind, hs, Option.bind_some, hs']
    rfl
  · simp only [Loop.turn, hpoll', Option.bind_eq_bind, hset, ht,
      Option.bind_some, hdid]
    have ht' : Loop.update B p { s.swap st with
      store := store', modules, host } = some (made, s'.swap st') := ht'
    rw [ht']
    rfl

theorem top_together (h : A.Agree R B) (p : Pass ω) (hR : R s.store st) :
    Together R (s.top A p) ((s.swap st).top B p) := by
  have hflags : (s.swap st).flags = s.flags := rfl
  unfold Loop.top
  rw [hflags]
  split
  case isFalse => exact turn_together h p hR
  case isTrue =>
      have hhost : p.loaded (s.swap st).host = p.loaded s.host := rfl
      unfold Loop.reload
      rw [hhost]
      cases p.loaded s.host with
      | none => exact ⟨_, _, st, rfl, rfl, hR⟩
      | some r =>
          obtain ⟨config, modules, host⟩ := r
          obtain ⟨n, store, store', hs, ht, hR₁⟩ :=
            h.call .reload s.store st hR
          have ht : B.call .reload (s.swap st).store = some (n, store') := ht
          let s₁ : Loop ω σ := { s with
            config
            modules
            host
            store
            flags := s.flags &&& ~~~flagReload
            tick := getTickInterval config.toIntervalConfig modules }
          have hpoint : (s₁.swap store').point = s₁.point := rfl
          simp only [Option.bind_eq_bind, hs, ht, Option.bind_some]
          show Together R
            (if s₁.point = .exited then some ([.reloaded], s₁)
              else (s₁.turn A p).bind fun r => some ([.reloaded] ++ r.1, r.2))
            (if (s₁.swap store').point = .exited then
                some ([.reloaded], s₁.swap store')
              else ((s₁.swap store').turn B p).bind
                fun r => some ([.reloaded] ++ r.1, r.2))
          rw [hpoint]
          split
          · exact ⟨_, s₁, store', rfl, rfl, hR₁⟩
          · obtain ⟨did, s', st', hs', ht', hR'⟩ :=
              turn_together (s := s₁) h p hR₁
            rw [hs', ht']
            exact ⟨[.reloaded] ++ did, s', st', rfl, rfl, hR'⟩

theorem handle_together (h : A.Agree R B) (e : IoEvent ω) (hR : R s.store st) :
    Together R (s.handle A e) ((s.swap st).handle B e) := by
  have hone : ∀ c, ∃ store store', A.calls [c] s.store = some store
      ∧ B.calls [c] (s.swap st).store = some store' ∧ R store store' :=
    fun c => h.calls [c] s.store st hR
  cases e with
  | signal signo listOk sendOk =>
      unfold Loop.handle Loop.handleSignal
      cases signo with
      | int | term | quit | chld | hup => exact ⟨_, _, st, rfl, rfl, hR⟩
      | usr1 =>
          obtain ⟨store, store', hs, ht, hR'⟩ :=
            hone (.send s.config.maxSendSize.toNat listOk sendOk)
          have ht : B.calls [.send (s.swap st).config.maxSendSize.toNat listOk
            sendOk] (s.swap st).store = some store' := ht
          simp only [Option.bind_eq_bind, hs, ht, Option.bind_some]
          exact ⟨_, { s with store }, store', rfl, rfl, hR'⟩
      | usr2 =>
          obtain ⟨store, store', hs, ht, hR'⟩ := hone .flush
          simp only [Option.bind_eq_bind, hs, ht, Option.bind_some]
          exact ⟨_, { s with store }, store', rfl, rfl, hR'⟩
  | response i result httpCode =>
      obtain ⟨store, store', hs, ht, hR'⟩ :=
        hone (.respond s.config.updateInterval.toInt i result httpCode)
      have ht : B.calls [.respond (s.swap st).config.updateInterval.toInt i
        result httpCode] (s.swap st).store = some store' := ht
      have hu : B.update (s.swap st).store = A.update s.store :=
        (h.update s.store st hR).symm
      unfold Loop.handle
      simp only [Option.bind_eq_bind, hs, ht, Option.bind_some,
        hu, ← h.update store store' hR']
      exact ⟨_, { s with store }, store', rfl, rfl, hR'⟩
  | client ms =>
      obtain ⟨store, store', hs, ht, hR'⟩ := hone (.receive ms)
      unfold Loop.handle
      simp only [Option.bind_eq_bind, hs, ht, Option.bind_some]
      exact ⟨_, { s with store }, store', rfl, rfl, hR'⟩
  | push m =>
      obtain ⟨store, store', hs, ht, hR'⟩ := hone (.push m)
      unfold Loop.handle
      simp only [Option.bind_eq_bind, hs, ht, Option.bind_some]
      exact ⟨_, { s with store }, store', rfl, rfl, hR'⟩
  | host f => exact ⟨_, { s with host := f s.host }, st, rfl, rfl, hR⟩

theorem handleAll_together (h : A.Agree R B) (events : List (IoEvent ω)) :
    ∀ (s : Loop ω σ) (st : τ), R s.store st →
      Together R (s.handleAll A events) ((s.swap st).handleAll B events) := by
  induction events with
  | nil => exact fun s st hR => ⟨[], s, st, rfl, rfl, hR⟩
  | cons e events ih =>
      intro s st hR
      have hpoint : (s.swap st).point = s.point := rfl
      unfold Loop.handleAll
      rw [hpoint]
      split
      · exact ⟨[], s, st, rfl, rfl, hR⟩
      · obtain ⟨did, s₁, st₁, hs, ht, hR₁⟩ := handle_together h e hR
        obtain ⟨rest, s', st', hs', ht', hR'⟩ := ih s₁ st₁ hR₁
        simp only [Option.bind_eq_bind, hs, ht, Option.bind_some, hs', ht']
        exact ⟨did ++ rest, s', st', rfl, rfl, hR'⟩

theorem wait_together (h : A.Agree R B) (p : Pass ω) (hR : R s.store st) :
    Together R (s.wait A p) ((s.swap st).wait B p) := by
  have hu : B.update (s.swap st).store = A.update s.store :=
    (h.update s.store st hR).symm
  obtain ⟨did, s', st', hs, ht, hR'⟩ := handleAll_together h p.events s st hR
  have hu' : B.update (s'.swap st').store = A.update s'.store :=
    (h.update s'.store st' hR').symm
  have hpoint : (s'.swap st').point = s'.point := rfl
  unfold Loop.wait
  simp only [Option.bind_eq_bind, hs, ht, Option.bind_some, hu, hu', hpoint]
  exact ⟨_, { s' with point := _ }, st', rfl, rfl, hR'⟩

/-- The two loops stay together. -/
theorem step_together (h : A.Agree R B) (p : Pass ω) (hR : R s.store st) :
    Together R (s.step A p) ((s.swap st).step B p) := by
  have hpoint : (s.swap st).point = s.point := rfl
  unfold Loop.step
  rw [hpoint]
  cases s.point with
  | top => exact top_together h p hR
  | wait => exact wait_together h p hR
  | exited => exact ⟨[], s, st, rfl, rfl, hR⟩

theorem run_together (h : A.Agree R B) (passes : List (Pass ω)) :
    ∀ (s : Loop ω σ) (st : τ), R s.store st →
      ∃ did s' st', Machine.run (Loop.step A) passes s = some (did, s')
        ∧ Machine.run (Loop.step B) passes (s.swap st)
          = some (did, s'.swap st')
        ∧ R s'.store st' := by
  induction passes with
  | nil => exact fun s st hR => ⟨[], s, st, rfl, rfl, hR⟩
  | cons p passes ih =>
      intro s st hR
      obtain ⟨did, s₁, st₁, hs, ht, hR₁⟩ := step_together h p hR
      obtain ⟨rest, s', st', hs', ht', hR'⟩ := ih s₁ st₁ hR₁
      exact ⟨did :: rest, s', st', by simp [Machine.run, hs, hs'],
        by simp [Machine.run, ht, ht'], hR'⟩

-- ============================================================ the two stores

theorem lifeOps_agree (F : FloatOps) :
    (lifeOps F).Agree Life.Shows (seqOps F) where
  call := by
    intro c s a hs
    obtain ⟨s', hrun, hs'⟩ := life_simulates F c s a hs
    exact ⟨_, s', _, hrun, rfl, hs'⟩
  update := by
    intro s a hs
    obtain ⟨A, kept, q, hl, rfl⟩ := hs
    exact hl.viewed.update
  setUpdate := by
    intro u s a hs
    obtain ⟨A, kept, q, hl, rfl⟩ := hs
    refine ⟨A, kept, { q with update := u }, ⟨?_, hl.length⟩, rfl⟩
    exact { hl.viewed with update := rfl }

/-- The two main loops, from the start of the agent. -/
theorem start_together (F : FloatOps) (config : RunConfig)
    (modules : List (PushMod ω)) (host : ω) (update : Update) (now : Timeval)
    (time : Int) (passes : List (Pass ω)) :
    ∃ did s a, Machine.run (Loop.step (lifeOps F)) passes
        (Loop.start (lifeOps F) config modules host (Life.start update) now
          time) = some (did, s)
      ∧ Machine.run (Loop.step (seqOps F)) passes
        (Loop.start (seqOps F) config modules host (Seq.Agent.start update) now
          time) = some (did, s.swap a)
      ∧ s.store.Shows a := by
  obtain ⟨A, q, hl, -, hq⟩ := start_lives update
  exact run_together (lifeOps_agree F) passes
    (Loop.start (lifeOps F) config modules host (Life.start update) now time) _
    ((lifeOps_agree F).setUpdate { update with nextUpdate := time }
      (Life.start update) (Seq.Agent.start update) ⟨A, [], q, hl, hq⟩)

/-- The main loop on the agent's store never faults: whatever the system
answers, it logs what it logs on sequences of metrics, and its lists hold
what the sequences hold. -/
theorem run_refines (F : FloatOps) (config : RunConfig)
    (modules : List (PushMod ω)) (host : ω) (update : Update) (now : Timeval)
    (time : Int) (passes : List (Pass ω)) :
    ∃ did s a, Machine.run (Loop.step (lifeOps F)) passes
        (Loop.start (lifeOps F) config modules host (Life.start update) now
          time) = some (did, s)
      ∧ Machine.run (Loop.step (seqOps F)) passes
        (Loop.start (seqOps F) config modules host (Seq.Agent.start update) now
          time) = some (did, s.swap a)
      ∧ s.store.contents = some a := by
  obtain ⟨did, s, a, hs, ht, hR⟩ :=
    start_together F config modules host update now time passes
  exact ⟨did, s, a, hs, ht, hR.contents_eq⟩

end Monikor
