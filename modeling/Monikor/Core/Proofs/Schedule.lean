/-
When the main loop does what.

A turn sets `next_update`, responses delay it, and a wait ends at a reading
that has reached it; `LoopTurns` and `LoopWaits` say once what the two do to the
times and the flags. From them come the invariants of the log: each turn is
due where the turns and delays before it have moved `next_update`
(`OnTime`), and a reload stands in front of the turn that follows a SIGHUP
(`Reloads`).
-/
import Monikor.Core.Proofs.Run
import Monikor.Lib.Log

namespace Monikor

open Machine

variable {ω : Type} {F : FloatOps} {s s' s₁ : Loop ω (Seq.Agent Metric)}
  {p : Pass ω} {did did' : List Did} {a a' : Seq.Agent Metric}

-- ============================================================= vocabulary

/-- `next_update`. -/
def Loop.next (s : Loop ω (Seq.Agent Metric)) : Int := s.store.update.nextUpdate

/-- A reload is asked for. -/
def Loop.Pending (s : Loop ω (Seq.Agent Metric)) : Prop :=
  s.flags &&& flagReload ≠ 0

/-- What a wait logs. -/
def Did.ofWait : Did → Prop
  | .waited .. | .signalled _ | .responded _ => True
  | _ => False

/-- The signals that end the agent. -/
def Did.quits : Did → Prop
  | .signalled .int | .signalled .term | .signalled .quit => True
  | _ => False

/-- A turn updates: it evicts, and then it sends. -/
def Turn.updated (t : Turn) : Bool :=
  match t.calls with
  | [.evict .., .send ..] => true
  | _ => false

/-- What a response moved `next_update` by. -/
def Did.delay : Did → Int
  | .responded delay => delay
  | _ => 0

-- ============================================================ no response

/-- The calls other than responses leave `next_update` alone. -/
theorem call_update {c : Call} (hc : ∀ i r k u, c ≠ .respond u i r k) :
    (Seq.call F c a).2.update = a.update := by
  cases c with
  | send maxSendSize listOk sendOk =>
      rcases Seq.sendAllMetrics_cases (w := metricNodeSize) a maxSendSize listOk
        sendOk with hrun | hrun | ⟨batch, rest, -, hrun⟩
      · exact congrArg Seq.Agent.update hrun
      · exact (congrArg Seq.Agent.update hrun).trans rfl
      · exact (congrArg Seq.Agent.update hrun).trans rfl
  | respond updateInterval i result httpCode =>
      exact absurd rfl (hc i result httpCode updateInterval)
  | push m => rfl
  | receive ms => rfl
  | evict pollInterval maxSize now => rfl
  | flush => rfl
  | reload => rfl

theorem calls_update {cs : List Call}
    (hcs : ∀ c ∈ cs, ∀ i r k u, c ≠ .respond u i r k) :
    ∀ a : Seq.Agent Metric, (seqOps F).calls cs a = some a' →
      a'.update = a.update := by
  induction cs with
  | nil =>
      intro a hrun
      rw [← Option.some.inj hrun]
  | cons c cs ih =>
      intro a hrun
      have hrun : (seqOps F).calls cs (Seq.call F c a).2 = some a' := hrun
      rw [ih (fun d hd => hcs d (List.mem_cons_of_mem _ hd)) _ hrun]
      exact call_update (hcs c (List.mem_cons_self ..))

theorem flags_set (f k : UInt8) : (f ||| k) &&& k = k := by
  apply UInt8.toBitVec_inj.mp
  ext i hi
  simp only [UInt8.toBitVec_or, UInt8.toBitVec_and, BitVec.getElem_or,
    BitVec.getElem_and]
  cases f.toBitVec[i] <;> cases k.toBitVec[i] <;> rfl

theorem flags_unset (f k : UInt8) : (f &&& ~~~k) &&& k = 0 := by
  apply UInt8.toBitVec_inj.mp
  ext i hi
  simp only [UInt8.toBitVec_and, UInt8.toBitVec_not, BitVec.getElem_and,
    BitVec.getElem_not]
  cases f.toBitVec[i] <;> cases k.toBitVec[i] <;> simp

-- ================================================================ one wait

/-- What a part of a wait does to the times and the flags. -/
structure LoopWaits (s s' : Loop ω (Seq.Agent Metric)) (did : List Did) :
    Prop where
  ofWait : ∀ d ∈ did, d.ofWait
  next : s'.next = s.next + (did.map Did.delay).sum
  lastClock : s'.lastClock = s.lastClock
  pending : s'.Pending ↔ s.Pending ∨ .signalled .hup ∈ did
  quits : s'.point = .exited ↔ s.point = .exited ∨ ∃ d ∈ did, d.quits

theorem LoopWaits.refl (s : Loop ω (Seq.Agent Metric)) : LoopWaits s s [] where
  ofWait := by simp
  next := by simp
  lastClock := rfl
  pending := by simp
  quits := by simp

theorem LoopWaits.trans (h : LoopWaits s s₁ did) (h' : LoopWaits s₁ s' did') :
    LoopWaits s s' (did ++ did') where
  ofWait := by
    intro d hd
    exact (List.mem_append.mp hd).elim (h.ofWait d) (h'.ofWait d)
  next := by
    rw [h'.next, h.next, List.map_append, List.sum_append, Int.add_assoc]
  lastClock := h'.lastClock.trans h.lastClock
  pending := by
    rw [h'.pending, h.pending, List.mem_append, or_assoc]
  quits := by
    rw [h'.quits, h.quits, or_assoc]
    simp only [List.mem_append, or_and_right, exists_or]

/-- An event that only makes calls, none of them a response. -/
theorem waits_of_calls {cs : List Call}
    (hcs : ∀ c ∈ cs, ∀ i r k u, c ≠ .respond u i r k)
    (hrun : (seqOps F).calls cs s.store = some a)
    (hdid : ∀ d ∈ did, d.ofWait ∧ ¬ d.quits ∧ d ≠ .signalled .hup)
    (hsum : (did.map Did.delay).sum = 0) :
    LoopWaits s { s with store := a } did where
  ofWait := fun d hd => (hdid d hd).1
  next := by
    rw [hsum, Int.add_zero]
    exact congrArg Update.nextUpdate (calls_update hcs _ hrun)
  lastClock := rfl
  pending := by
    refine (or_iff_left ?_).symm
    exact fun hhup => (hdid _ hhup).2.2 rfl
  quits := by
    refine (or_iff_left ?_).symm
    rintro ⟨d, hd, hq⟩
    exact (hdid d hd).2.1 hq

theorem handle_waits {e : IoEvent ω}
    (hrun : s.handle (seqOps F) e = some (did, s')) : LoopWaits s s' did := by
  cases e with
  | signal signo listOk sendOk =>
      cases signo with
      | int | term | quit =>
          obtain ⟨rfl, rfl⟩ := Prod.mk.inj (Option.some.inj hrun)
          exact ⟨by simp [Did.ofWait], by simp [Did.delay, Loop.next], rfl,
            by simp [Loop.Pending], by simp [Did.quits]⟩
      | chld =>
          obtain ⟨rfl, rfl⟩ := Prod.mk.inj (Option.some.inj hrun)
          exact ⟨by simp [Did.ofWait], by simp [Did.delay], rfl, by simp,
            by simp [Did.quits]⟩
      | hup =>
          obtain ⟨rfl, rfl⟩ := Prod.mk.inj (Option.some.inj hrun)
          refine ⟨by simp [Did.ofWait], by simp [Did.delay, Loop.next], rfl, ?_,
            by simp [Did.quits]⟩
          simp only [Loop.Pending, flags_set, List.mem_singleton, or_true,
            iff_true]
          decide
      | usr1 =>
          simp only [Loop.handle, Loop.handleSignal, Option.bind_eq_bind,
            Option.bind_eq_some_iff] at hrun
          obtain ⟨s₁, ⟨a, ha, hs₁⟩, hout⟩ := hrun
          obtain rfl := Option.some.inj hs₁
          obtain ⟨rfl, rfl⟩ := Prod.mk.inj (Option.some.inj hout)
          exact waits_of_calls (by simp) ha
            (by simp [Did.ofWait, Did.quits]) (by simp [Did.delay])
      | usr2 =>
          simp only [Loop.handle, Loop.handleSignal, Option.bind_eq_bind,
            Option.bind_eq_some_iff] at hrun
          obtain ⟨s₁, ⟨a, ha, hs₁⟩, hout⟩ := hrun
          obtain rfl := Option.some.inj hs₁
          obtain ⟨rfl, rfl⟩ := Prod.mk.inj (Option.some.inj hout)
          exact waits_of_calls (by simp) ha
            (by simp [Did.ofWait, Did.quits]) (by simp [Did.delay])
  | response i result httpCode =>
      simp only [Loop.handle, Option.bind_eq_bind,
        Option.bind_eq_some_iff] at hrun
      obtain ⟨a, ha, hout⟩ := hrun
      obtain ⟨rfl, rfl⟩ := Prod.mk.inj (Option.some.inj hout)
      refine ⟨by simp [Did.ofWait], ?_, rfl, by simp [Loop.Pending],
        by simp [Did.quits]⟩
      simp only [List.map_cons, List.map_nil, Did.delay, List.sum_cons,
        List.sum_nil, Loop.next, seqOps]
      omega
  | client ms =>
      simp only [Loop.handle, Option.bind_eq_bind,
        Option.bind_eq_some_iff] at hrun
      obtain ⟨a, ha, hout⟩ := hrun
      obtain ⟨rfl, rfl⟩ := Prod.mk.inj (Option.some.inj hout)
      exact waits_of_calls (by simp) ha (by simp) rfl
  | push m =>
      simp only [Loop.handle, Option.bind_eq_bind,
        Option.bind_eq_some_iff] at hrun
      obtain ⟨a, ha, hout⟩ := hrun
      obtain ⟨rfl, rfl⟩ := Prod.mk.inj (Option.some.inj hout)
      exact waits_of_calls (by simp) ha (by simp) rfl
  | host f =>
      obtain ⟨rfl, rfl⟩ := Prod.mk.inj (Option.some.inj hrun)
      exact ⟨by simp, by simp [Loop.next], rfl, by simp [Loop.Pending],
        by simp⟩

theorem handleAll_waits (events : List (IoEvent ω)) :
    ∀ (s : Loop ω (Seq.Agent Metric)) (did : List Did),
      s.handleAll (seqOps F) events = some (did, s') → LoopWaits s s' did := by
  induction events with
  | nil =>
      intro s did hrun
      obtain ⟨rfl, rfl⟩ := Prod.mk.inj (Option.some.inj hrun)
      exact .refl s
  | cons e events ih =>
      intro s did hrun
      unfold Loop.handleAll at hrun
      split at hrun
      · obtain ⟨rfl, rfl⟩ := Prod.mk.inj (Option.some.inj hrun)
        exact .refl s
      · simp only [Option.bind_eq_bind, Option.bind_eq_some_iff] at hrun
        obtain ⟨⟨did₁, s₁⟩, hs₁, ⟨rest, s₂⟩, hrest, hout⟩ := hrun
        obtain ⟨rfl, rfl⟩ := Prod.mk.inj (Option.some.inj hout)
        exact (handle_waits hs₁).trans (ih s₁ rest hrest)

/-- A wait ends at a reading that has reached `next_update`. -/
theorem wait_waits (hpoint : s.point = .wait)
    (hrun : s.wait (seqOps F) p = some (did, s')) :
    LoopWaits s s' did ∧ (s'.point = .top → s'.next ≤ p.sec) := by
  simp only [Loop.wait, Option.bind_eq_bind, Option.bind_eq_some_iff] at hrun
  obtain ⟨⟨events, s₁⟩, hevents, hout⟩ := hrun
  obtain ⟨rfl, rfl⟩ := Prod.mk.inj (Option.some.inj hout)
  have hw := handleAll_waits p.events s events hevents
  refine ⟨⟨?_, ?_, hw.lastClock, ?_, ?_⟩, ?_⟩
  · intro d hd
    rcases List.mem_cons.mp hd with rfl | hd
    · trivial
    · exact hw.ofWait d hd
  · show s₁.next = _
    rw [hw.next, List.map_cons, List.sum_cons]
    exact congrArg (s.next + ·) (Int.zero_add _).symm
  · show s₁.Pending ↔ _
    rw [hw.pending]
    simp
  · have hq := hw.quits
    simp only [hpoint, reduceCtorEq, false_or] at hq
    simp only [hpoint, reduceCtorEq, false_or, List.mem_cons,
      exists_eq_or_imp]
    show _ ↔ False ∨ _
    rw [false_or, ← hq]
    by_cases hout : s₁.point = .exited
    · simp only [hout, if_true]
    · simp only [hout, if_false, iff_false]
      split
      · exact fun h => nomatch h
      · exact fun h => nomatch h
  · show (if s₁.point = .exited then _ else if p.sec < s₁.next then _ else _)
      = RunPoint.top → s₁.next ≤ p.sec
    split
    · exact fun h => nomatch h
    · split
      · exact fun h => nomatch h
      · intro _
        omega

-- ================================================================ one turn

/-- What a turn does to the times and the flags. -/
structure LoopTurns (p : Pass ω) (s s' : Loop ω (Seq.Agent Metric)) (t : Turn) :
    Prop where
  due : t.due = s.next
  now : t.now = p.sec
  nextUpdate : t.nextUpdate = max (t.due + t.tick) t.now
  next : s'.next = t.nextUpdate
  updated : t.updated = true
    ↔ s.lastClock.sec.toInt + t.updateInterval ≤ t.now
  still : t.updated = false → t.calls = []
  lastClock : s'.lastClock.sec.toInt
    = if t.updated then t.now else s.lastClock.sec.toInt
  pending : ¬ s'.Pending
  point : s'.point = .wait

theorem advance_nextUpdate (tick now : Int) (u : Update) :
    (u.advance tick now).nextUpdate = max (u.nextUpdate + tick) now := by
  show (if (_ : Int) < _ then _ else _) = _
  rw [max_def]
  split <;> split <;> omega

/-- An update, and what it called: both calls if it was due, and nothing if
it was not. -/
theorem update_times {made : List Call}
    (hrun : s.update (seqOps F) p = some (made, s')) :
    s'.next = s.next ∧ s'.flags = s.flags
      ∧ s'.lastClock = (if s.updateDue p.now then p.now else s.lastClock)
      ∧ made = if s.updateDue p.now then
          [.evict s.config.pollInterval s.config.cacheMaxSize p.evictClock,
            .send s.config.maxSendSize.toNat p.listOk p.sendOk]
        else [] := by
  unfold Loop.update at hrun
  split at hrun
  case isTrue hdue =>
      simp only [StoreOps.logged_eq, Option.bind_eq_bind,
        Option.bind_eq_some_iff, Option.map_eq_some_iff] at hrun
      obtain ⟨r, ⟨a, ha, rfl⟩, hout⟩ := hrun
      obtain ⟨rfl, rfl⟩ := Prod.mk.inj (Option.some.inj hout)
      exact ⟨congrArg Update.nextUpdate (calls_update (by simp) _ ha), rfl,
        by rw [if_pos hdue], by rw [if_pos hdue]⟩
  case isFalse hdue =>
      obtain ⟨rfl, rfl⟩ := Prod.mk.inj (Option.some.inj hrun)
      exact ⟨rfl, rfl, by rw [if_neg hdue], by rw [if_neg hdue]⟩

theorem turn_turns (hpending : ¬ s.Pending)
    (hrun : s.turn (seqOps F) p = some (did, s')) :
    ∃ t, did = [.turn t] ∧ LoopTurns p s s' t := by
  unfold Loop.turn at hrun
  rcases hpoll : pollModules p.sec s.modules (s.host, [])
    with ⟨errs, modules, host, pushed⟩
  simp only [hpoll, Option.bind_eq_bind, Option.bind_eq_some_iff] at hrun
  obtain ⟨a, ha, ⟨made, s₁⟩, hs₁, hout⟩ := hrun
  obtain ⟨rfl, rfl⟩ := Prod.mk.inj (Option.some.inj hout)
  obtain ⟨hnext, hflags, hlast, hmade⟩ := update_times hs₁
  have hpush := calls_update (by simp) _ ha
  have hdue : Loop.updateDue p.now
      { s with store := a, modules := modules, host := host }
      = s.updateDue p.now := rfl
  rw [hdue] at hlast hmade
  have hupdated : (s.turnOf (seqOps F) p made).updated = s.updateDue p.now := by
    show (match made with | [.evict .., .send ..] => true | _ => false) = _
    rw [hmade]
    cases s.updateDue p.now <;> rfl
  refine ⟨_, rfl, rfl, rfl, advance_nextUpdate .., ?_, ?_, ?_, ?_, ?_, rfl⟩
  · show s₁.next = _
    rw [hnext]
    exact congrArg Update.nextUpdate hpush
  · rw [hupdated]
    show decide _ = true ↔ _
    rw [decide_eq_true_iff]
    rfl
  · rw [hupdated]
    intro hno
    show made = []
    rw [hmade, hno]
    rfl
  · show s₁.lastClock.sec.toInt = _
    rw [hlast, hupdated]
    split
    · rfl
    · rfl
  · show ¬ s₁.flags &&& flagReload ≠ 0
    rw [hflags]
    exact hpending

/-- A turn, and the reload in front of it if one was asked for; if it fails,
the loop returns. -/
theorem top_turns (hpoint : s.point = .top)
    (hrun : s.top (seqOps F) p = some (did, s')) :
    (s.Pending ∧ did = [.exited 1] ∧ s' = { s with point := .exited })
      ∨ ∃ t, LoopTurns p s s' t
        ∧ (s.Pending ∧ did = [.reloaded, .turn t]
          ∨ ¬ s.Pending ∧ did = [.turn t]) := by
  unfold Loop.top at hrun
  split at hrun
  case isFalse hpending =>
      obtain ⟨t, rfl, ht⟩ := turn_turns hpending hrun
      exact .inr ⟨t, ht, .inr ⟨hpending, rfl⟩⟩
  case isTrue hpending =>
      unfold Loop.reload at hrun
      cases hload : p.loaded s.host with
      | none =>
          simp only [hload, Option.bind_eq_bind, Option.bind_some,
            if_true] at hrun
          obtain ⟨rfl, rfl⟩ := Prod.mk.inj (Option.some.inj hrun)
          exact .inl ⟨hpending, rfl, rfl⟩
      | some r =>
          obtain ⟨config, modules, host⟩ := r
          let s₁ : Loop ω (Seq.Agent Metric) := { s with
            config
            modules
            host
            store := (Seq.call F .reload s.store).2
            flags := s.flags &&& ~~~flagReload
            tick := getTickInterval config.toIntervalConfig modules }
          simp only [hload] at hrun
          have hrun : (if s₁.point = .exited then some ([.reloaded], s₁)
            else (s₁.turn (seqOps F) p).bind
              fun r => some ([.reloaded] ++ r.1, r.2)) = some (did, s') := hrun
          have hin : s₁.point ≠ .exited := fun h => nomatch hpoint.symm.trans h
          rw [if_neg hin, Option.bind_eq_some_iff] at hrun
          obtain ⟨⟨rest, s₂⟩, hturn, hout⟩ := hrun
          obtain ⟨rfl, rfl⟩ := Prod.mk.inj (Option.some.inj hout)
          have hclear : ¬ s₁.Pending := fun h => h (flags_unset ..)
          obtain ⟨t, rfl, ht⟩ := turn_turns hclear hturn
          exact .inr ⟨t, { ht with }, .inl ⟨hpending, rfl⟩⟩

-- ============================================================== the schedule

/-- How far an entry moves `next_update`: a turn by its tick, or as far as it
is late if that is more. -/
def Did.ahead : Did → Int
  | .turn t => max t.tick (t.now - t.due)
  | .responded delay => delay
  | _ => 0

/-- How far an entry was to move `next_update`. -/
def Did.planned : Did → Int
  | .turn t => t.tick
  | .responded delay => delay
  | _ => 0

/-- The second of the last update after an entry, given that before it. -/
def Did.lastUpdate (last : Int) : Did → Int
  | .turn t => if t.updated then t.now else last
  | _ => last

/-- The second of the last update of the loop; `start` if there was none. -/
def lastUpdate (start : Int) (did : List Did) : Int :=
  did.foldl Did.lastUpdate start

def Did.isTurn : Did → Bool
  | .turn _ => true
  | _ => false

/-- A turn comes when it is due, and updates when that is due. -/
structure TurnOk (time start : Int) (pre : List Did) (t : Turn) : Prop where
  due : t.due = time + (pre.map Did.ahead).sum
  began : t.due ≤ t.now
  nextUpdate : t.nextUpdate = max (t.due + t.tick) t.now
  updated : t.updated = true
    ↔ lastUpdate start pre + t.updateInterval ≤ t.now
  still : t.updated = false → t.calls = []
  after : ∀ t', .turn t' ∈ pre → t'.now ≤ t.now

/-- The loop after the log `past`, its last reading being `clock`. -/
structure OnTime (time start clock : Int) (past : List Did)
    (s : Loop ω (Seq.Agent Metric)) : Prop where
  next : s.next = time + (past.map Did.ahead).sum
  last : s.lastClock.sec.toInt = lastUpdate start past
  reached : s.point = .top → s.next ≤ clock
  clock : ∀ t, .turn t ∈ past → t.now ≤ clock
  turns : Along (fun pre d => ∀ t, d = .turn t → TurnOk time start pre t) past

theorem ahead_of_not_turn {d : Did} (h : d.isTurn = false) :
    d.ahead = d.delay := by
  cases d with
  | turn t => cases h
  | reloaded => rfl
  | waited => rfl
  | signalled => rfl
  | responded => rfl
  | exited => rfl

theorem lastUpdate_append {start : Int} {pre : List Did}
    (h : ∀ d ∈ did, d.isTurn = false) :
    lastUpdate start (pre ++ did) = lastUpdate start pre := by
  have hskip : ∀ (last : Int) {d : Did}, d.isTurn = false →
      d.lastUpdate last = last := by
    intro last d hd
    cases d with
    | turn t => cases hd
    | reloaded => rfl
    | waited => rfl
    | signalled => rfl
    | responded => rfl
    | exited => rfl
  unfold lastUpdate
  rw [List.foldl_append]
  generalize pre.foldl Did.lastUpdate start = last
  induction did with
  | nil => rfl
  | cons d did ih =>
      rw [List.foldl_cons, hskip last (h d (List.mem_cons_self ..))]
      exact ih fun e he => h e (List.mem_cons_of_mem _ he)

variable {time start clock : Int} {past : List Did} {t : Turn}

/-- What is logged beside turns. -/
theorem OnTime.append (h : OnTime time start clock past s)
    (hdid : ∀ d ∈ did, d.isTurn = false)
    (hnext : s'.next = s.next + (did.map Did.delay).sum)
    (hlast : s'.lastClock = s.lastClock) (hclock : clock ≤ p.sec)
    (hreached : s'.point = .top → s'.next ≤ p.sec) :
    OnTime time start p.sec (past ++ did) s' where
  next := by
    have hahead : did.map Did.ahead = did.map Did.delay :=
      List.map_congr_left fun d hd => ahead_of_not_turn (hdid d hd)
    rw [hnext, h.next, List.map_append, List.sum_append, hahead, Int.add_assoc]
  last := by rw [hlast, h.last, lastUpdate_append hdid]
  reached := hreached
  clock := by
    intro t ht
    rcases List.mem_append.mp ht with ht | ht
    · exact Int.le_trans (h.clock t ht) hclock
    · exact nomatch hdid _ ht
  turns := by
    refine along_append.mpr ⟨h.turns, along_of_forall ?_⟩
    rintro d hd pre t rfl
    exact nomatch hdid _ hd

theorem OnTime.turn (h : OnTime time start clock past s) (hs : s.point = .top)
    (hclock : clock ≤ p.sec) (ht : LoopTurns p s s' t) :
    OnTime time start p.sec (past ++ [.turn t]) s' := by
  have hdue := Int.le_trans (h.reached hs) hclock
  have hok : TurnOk time start past t :=
    { due := ht.due.trans h.next
      began := by
        rw [ht.due, ht.now]
        exact hdue
      nextUpdate := ht.nextUpdate
      updated := by
        rw [ht.updated, h.last]
      still := ht.still
      after := by
        intro t' ht'
        rw [ht.now]
        exact Int.le_trans (h.clock t' ht') hclock }
  refine ⟨?_, ?_, ?_, ?_, ?_⟩
  · rw [ht.next, ht.nextUpdate, hok.due, List.map_append, List.sum_append]
    simp only [List.map_cons, List.map_nil, Did.ahead, hok.due, List.sum_cons,
      List.sum_nil]
    omega
  · rw [ht.lastClock, h.last]
    unfold lastUpdate
    rw [List.foldl_append]
    rfl
  · exact fun hp => nomatch ht.point.symm.trans hp
  · intro t' ht'
    rcases List.mem_append.mp ht' with ht' | ht'
    · exact Int.le_trans (h.clock t' ht') hclock
    · obtain rfl := Did.turn.inj (List.mem_singleton.mp ht')
      exact Int.le_of_eq ht.now
  · refine along_append.mpr ⟨h.turns, along_singleton.mpr ?_⟩
    intro t' ht'
    obtain rfl := Did.turn.inj ht'
    rwa [List.append_nil]

theorem step_onTime (h : OnTime time start clock past s) (hclock : clock ≤ p.sec)
    (hrun : s.step (seqOps F) p = some (did, s')) :
    OnTime time start p.sec (past ++ did) s' := by
  unfold Loop.step at hrun
  cases hpoint : s.point with
  | top =>
      rw [hpoint] at hrun
      rcases top_turns hpoint hrun with
        ⟨-, rfl, rfl⟩ | ⟨t, ht, ⟨-, rfl⟩ | ⟨-, rfl⟩⟩
      · exact h.append (by simp [Did.isTurn])
          (by simp [Did.delay, Loop.next]) rfl hclock fun hp => nomatch hp
      · have hreload : OnTime time start p.sec (past ++ [.reloaded]) s :=
          h.append (by simp [Did.isTurn]) (by simp [Did.delay]) rfl hclock
            fun hp => Int.le_trans (h.reached hp) hclock
        have hturn := hreload.turn hpoint (Int.le_refl _) ht
        rwa [List.append_assoc] at hturn
      · exact h.turn hpoint hclock ht
  | wait =>
      rw [hpoint] at hrun
      obtain ⟨hw, hreached⟩ := wait_waits hpoint hrun
      refine h.append (fun d hd => ?_) hw.next hw.lastClock hclock hreached
      have hd := hw.ofWait d hd
      cases d with
      | turn t => cases hd
      | reloaded => rfl
      | waited => rfl
      | signalled => rfl
      | responded => rfl
      | exited => rfl
  | exited =>
      rw [hpoint] at hrun
      obtain ⟨rfl, rfl⟩ := Prod.mk.inj (Option.some.inj hrun)
      exact h.append (by simp) (by simp) rfl hclock
        fun hp => nomatch hpoint.symm.trans hp

/-- The log of a run whose clock never goes back. -/
theorem run_onTime {config : RunConfig} {modules : List (PushMod ω)} {host : ω}
    {update : Update} {now : Timeval} {passes : List (Pass ω)}
    {outs : List (List Did)}
    (hclock : List.IsChain (· ≤ ·) (time :: passes.map Pass.sec))
    (hrun : Machine.run (Loop.step (seqOps F)) passes (Loop.start (seqOps F)
      config modules host (Seq.Agent.start update) now time) = some (outs, s)) :
    Along (fun pre d => ∀ t, d = .turn t → TurnOk time now.sec.toInt pre t)
      outs.flatten := by
  have hk := run_logged
    (I := fun clock past s => OnTime time now.sec.toInt clock past s)
    (fun _ _ _ _ _ _ hle hI hstep => step_onTime hI hle hstep)
    passes time [] _ outs s hclock
    { next := by simp [Loop.start, Loop.next, seqOps]
      last := rfl
      reached := fun _ => Int.le_refl _
      clock := fun _ ht => absurd ht List.not_mem_nil
      turns := along_nil } hrun
  exact hk.turns

-- =================================================================== turns

theorem planned_le_ahead (pre : List Did) :
    (pre.map Did.planned).sum ≤ (pre.map Did.ahead).sum := by
  induction pre with
  | nil => exact Int.le_refl _
  | cons d pre ih =>
      have hd : d.planned ≤ d.ahead := by
        cases d with
        | turn t => exact Int.le_max_left ..
        | reloaded => exact Int.le_refl _
        | waited => exact Int.le_refl _
        | signalled => exact Int.le_refl _
        | responded => exact Int.le_refl _
        | exited => exact Int.le_refl _
      simp only [List.map_cons, List.sum_cons]
      omega

/-- Where no turn is later than its tick, plan and schedule are one. -/
theorem planned_eq_ahead {pre : List Did}
    (h : ∀ t, .turn t ∈ pre → t.now ≤ t.due + t.tick) :
    pre.map Did.planned = pre.map Did.ahead := by
  refine List.map_congr_left fun d hd => ?_
  cases d with
  | turn t =>
      have ht := h t hd
      simp only [Did.planned, Did.ahead]
      omega
  | reloaded => rfl
  | waited => rfl
  | signalled => rfl
  | responded => rfl
  | exited => rfl

/-- A turn begins when it is due, at the earliest, and sets the next one for
its tick after that, at the latest; it is not ahead of the plan of ticks and
delays, and where no turn was later than its tick, there is no drift. -/
structure OnSchedule (time : Int) (pre : List Did) (t : Turn) : Prop where
  begun : t.due ≤ t.now
  sets : t.now ≤ t.nextUpdate ∧ t.nextUpdate ≤ t.now + max t.tick 0
  notAhead : time + (pre.map Did.planned).sum ≤ t.now
  noDrift : (∀ t', .turn t' ∈ pre → t'.now ≤ t'.due + t'.tick) →
    t.due = time + (pre.map Did.planned).sum

/-- The turns of the main loop are on schedule, on a clock that never goes
back, whatever else happens. -/
theorem turns_on_schedule (F : FloatOps) (config : RunConfig)
    (modules : List (PushMod ω)) (host : ω) (update : Update) (now : Timeval)
    (time : Int) (passes : List (Pass ω))
    (hclock : List.IsChain (· ≤ ·) (time :: passes.map Pass.sec)) :
    ∃ outs s, Machine.run (Loop.step (lifeOps F)) passes
        (Loop.start (lifeOps F) config modules host (Life.start update) now
          time) = some (outs, s)
      ∧ Along (fun pre d => ∀ t, d = .turn t → OnSchedule time pre t)
        outs.flatten := by
  obtain ⟨outs, s, a, hrun, hseq, -⟩ :=
    start_together F config modules host update now time passes
  refine ⟨outs, s, hrun, (run_onTime hclock hseq).imp ?_⟩
  intro pre d _ hall t ht
  obtain ⟨hdue, hbegan, hnext, -, -, -⟩ := hall t ht
  have hplanned := planned_le_ahead pre
  refine ⟨hbegan, by omega, by omega, fun hlate => ?_⟩
  rw [planned_eq_ahead hlate]
  exact hdue

/-- A minute of an agent that is up to four seconds late. -/
theorem turns_on_schedule_minute :
    let pass (sec : Int64) : Pass Unit :=
      ⟨⟨sec, 0⟩, fun _ => none, ⟨sec, 1⟩, true, true, []⟩
    ∃ outs s, Machine.run (Loop.step (lifeOps hostFloat))
        (List.map pass [100, 101, 134, 134, 135, 161])
        (Loop.start (lifeOps hostFloat) ⟨⟨60, 30⟩, 1000, 1000⟩ [] ()
          (Life.start ⟨0, 0⟩) ⟨100, 0⟩ 100) = some (outs, s)
      ∧ Along (fun pre d => ∀ t, d = .turn t → OnSchedule 100 pre t)
        outs.flatten :=
  turns_on_schedule hostFloat _ _ _ _ _ _ _ (by decide)

-- ================================================================= updates

/-- The last turn of a log. -/
theorem split_lastTurn (pre : List Did) : (∀ d ∈ pre, d.isTurn = false)
    ∨ ∃ pre₁ t mid, pre = pre₁ ++ .turn t :: mid
      ∧ ∀ d ∈ mid, d.isTurn = false := by
  induction pre using List.reverseRecOn with
  | nil => exact .inl fun d hd => absurd hd List.not_mem_nil
  | append_singleton pre d ih =>
      cases hd : d.isTurn with
      | true =>
          cases d with
          | turn t => exact .inr ⟨pre, t, [], rfl, by simp⟩
          | reloaded | waited | signalled | responded | exited => cases hd
      | false =>
          rcases ih with hnone | ⟨pre₁, t, mid, rfl, hmid⟩
          · refine .inl fun e he => ?_
            rcases List.mem_append.mp he with he | he
            · exact hnone e he
            · rwa [List.mem_singleton.mp he]
          · refine .inr ⟨pre₁, t, mid ++ [d], by simp, fun e he => ?_⟩
            rcases List.mem_append.mp he with he | he
            · exact hmid e he
            · rwa [List.mem_singleton.mp he]

/-- The updates of the past are not after the last one. -/
theorem le_lastUpdate {pre : List Did}
    (h : Along (fun pre d => ∀ t, d = .turn t → TurnOk time start pre t) pre) :
    ∀ t, .turn t ∈ pre → t.updated = true → t.now ≤ lastUpdate start pre := by
  induction pre using List.reverseRecOn with
  | nil => exact fun t ht => absurd ht List.not_mem_nil
  | append_singleton pre d ih =>
      intro t ht hup
      obtain ⟨hpre, hd⟩ := along_append.mp h
      have hlast : lastUpdate start (pre ++ [d])
          = d.lastUpdate (lastUpdate start pre) := by
        unfold lastUpdate
        rw [List.foldl_append]
        rfl
      rw [hlast]
      rcases List.mem_append.mp ht with hin | hin
      · have hle := ih hpre t hin hup
        cases d with
        | turn t' =>
            have hafter := (along_singleton.mp hd t' rfl).after t
              (by simpa using hin)
            simp only [Did.lastUpdate]
            split
            · exact hafter
            · exact hle
        | reloaded | waited | signalled | responded | exited => exact hle
      · obtain rfl := List.mem_singleton.mp hin
        simp only [Did.lastUpdate, hup, if_true]
        exact Int.le_refl _

/-- An update comes when its interval has passed since the last one, a turn
without one calls nothing for it, and two are never closer than that. -/
structure UpdateOk (start : Int) (pre : List Did) (t : Turn) : Prop where
  due : t.updated = true ↔ lastUpdate start pre + t.updateInterval ≤ t.now
  still : t.updated = false → t.calls = []
  apart : t.updated = true → ∀ t', .turn t' ∈ pre → t'.updated = true →
    t'.now + t.updateInterval ≤ t.now

/-- The loop is prompt: no tick is over `tick` and no interval over
`interval`, turns are not more than `late` after they are due, and no
response delays one. -/
structure Prompt (tick interval late : Int) (log : List Did) : Prop where
  turns : ∀ t, .turn t ∈ log → t.tick ≤ tick ∧ t.updateInterval ≤ interval
    ∧ t.now ≤ t.due + late
  delays : ∀ d ∈ log, d.delay = 0

theorem ahead_eq_zero {mid : List Did} (h : ∀ d ∈ mid, d.isTurn = false)
    (hdelay : ∀ d ∈ mid, d.delay = 0) : (mid.map Did.ahead).sum = 0 := by
  induction mid with
  | nil => rfl
  | cons d mid ih =>
      have hd := ahead_of_not_turn (h d (List.mem_cons_self ..))
      rw [List.map_cons, List.sum_cons, hd, hdelay d (List.mem_cons_self ..),
        ih (fun e he => h e (List.mem_cons_of_mem _ he))
          fun e he => hdelay e (List.mem_cons_of_mem _ he)]
      rfl

/-- How long a prompt loop may be without an update. -/
theorem turn_near {tick interval late : Int} {pre post : List Did}
    (hlog : Along (fun pre d => ∀ t, d = .turn t → TurnOk time start pre t)
      (pre ++ .turn t :: post))
    (hp : Prompt tick interval late (pre ++ .turn t :: post)) (htick : 0 ≤ tick)
    (hinterval : 1 ≤ interval) (htime : time ≤ start + tick) :
    t.now < lastUpdate start pre + interval + tick + late := by
  have ht := hlog pre _ post rfl t rfl
  obtain ⟨-, -, hlate⟩ := hp.turns t (by simp)
  have hdue := ht.due
  rcases split_lastTurn pre with hnone | ⟨pre₁, t', mid, rfl, hmid⟩
  · have hlast : lastUpdate start ([] ++ pre) = lastUpdate start [] :=
      lastUpdate_append hnone
    have hlast : lastUpdate start pre = start := hlast
    have hzero := ahead_eq_zero hnone fun d hd => hp.delays d (by simp [hd])
    omega
  · have ht' := hlog pre₁ _ (mid ++ .turn t :: post) (by simp) t' rfl
    obtain ⟨htick', hint', -⟩ := hp.turns t' (by simp)
    have hzero := ahead_eq_zero hmid fun d hd => hp.delays d (by simp [hd])
    have hsum : ((pre₁ ++ .turn t' :: mid).map Did.ahead).sum
        = (pre₁.map Did.ahead).sum + max t'.tick (t'.now - t'.due) := by
      rw [List.map_append, List.sum_append, List.map_cons, List.sum_cons, hzero,
        Int.add_zero]
      rfl
    have hlast : lastUpdate start (pre₁ ++ .turn t' :: mid)
        = if t'.updated then t'.now else lastUpdate start pre₁ := by
      rw [List.append_cons, lastUpdate_append hmid]
      unfold lastUpdate
      rw [List.foldl_append]
      rfl
    have hnear : t.now ≤ t'.now + tick + late := by
      have hbegan := ht'.began
      have hdue' := ht'.due
      omega
    rw [hlast]
    split
    case isTrue => omega
    case isFalse hno =>
        have hno := mt ht'.updated.mpr hno
        omega

/-- The updates of the main loop are on schedule, on a clock that never goes
back: they come as soon as a turn finds that their interval has passed, and
a prompt loop goes less than an interval, a tick and its lateness without
one. -/
theorem updates_on_schedule (F : FloatOps) (config : RunConfig)
    (modules : List (PushMod ω)) (host : ω) (update : Update) (now : Timeval)
    (time : Int) (passes : List (Pass ω))
    (hclock : List.IsChain (· ≤ ·) (time :: passes.map Pass.sec)) :
    ∃ outs s, Machine.run (Loop.step (lifeOps F)) passes
        (Loop.start (lifeOps F) config modules host (Life.start update) now
          time) = some (outs, s)
      ∧ Along (fun pre d => ∀ t, d = .turn t → UpdateOk now.sec.toInt pre t)
        outs.flatten
      ∧ ∀ tick interval late, 0 ≤ tick → 1 ≤ interval →
        time ≤ now.sec.toInt + tick → Prompt tick interval late outs.flatten →
        Along (fun pre d => ∀ t, d = .turn t →
          t.now < lastUpdate now.sec.toInt pre + interval + tick + late)
          outs.flatten := by
  obtain ⟨outs, s, a, hrun, hseq, -⟩ :=
    start_together F config modules host update now time passes
  have hlog := run_onTime hclock hseq
  refine ⟨outs, s, hrun, ?_, ?_⟩
  · rintro pre d post hsplit t rfl
    have ht := hlog pre _ post hsplit t rfl
    refine ⟨ht.updated, ht.still, fun hup t' ht' hup' => ?_⟩
    rw [hsplit] at hlog
    have hle := le_lastUpdate (along_append.mp hlog).1 t' ht' hup'
    have hdue := ht.updated.mp hup
    omega
  · rintro tick interval late htick hinterval htime hprompt pre d post hsplit t
      rfl
    rw [hsplit] at hlog hprompt
    exact turn_near hlog hprompt htick hinterval htime

/-- Two minutes of an agent that updates every minute. -/
theorem updates_on_schedule_minutes :
    let pass (sec : Int64) : Pass Unit :=
      ⟨⟨sec, 0⟩, fun _ => none, ⟨sec, 1⟩, true, true, []⟩
    ∃ outs s, Machine.run (Loop.step (lifeOps hostFloat))
        (List.map pass [100, 101, 131, 131, 162, 163, 190, 193])
        (Loop.start (lifeOps hostFloat) ⟨⟨30, 60⟩, 1000, 1000⟩ [] ()
          (Life.start ⟨0, 0⟩) ⟨100, 0⟩ 100) = some (outs, s)
      ∧ Along (fun pre d => ∀ t, d = .turn t → UpdateOk 100 pre t)
        outs.flatten
      ∧ ∀ tick interval late, 0 ≤ tick → 1 ≤ interval → (100 : Int) ≤ 100 + tick →
        Prompt tick interval late outs.flatten →
        Along (fun pre d => ∀ t, d = .turn t →
          t.now < lastUpdate 100 pre + interval + tick + late) outs.flatten :=
  updates_on_schedule hostFloat _ _ _ _ _ _ _ (by decide)

end Monikor
