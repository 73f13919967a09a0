/-
When the redis instances keep their credentials to themselves.

The pointer they share holds the command that was built last. `RedisLedger`
keeps what the order of the calls says about it, without addresses: whose
password it has and whether a cleanup has freed it, and what becomes of a
command an instance has been handed (`Waiting`). A call is sound in a
state of the pointers exactly when the ledger allows it (`redisAgrees_step`),
so a run is sound exactly when its calls come in an order that the ledger
allows.
-/
import Monikor.Lib.Simulation
import Monikor.Modules.Redis

namespace Monikor

open Machine

-- =============================================================== commands

/-- No digit is a carriage return. -/
theorem cr_not_mem_decimal (n : Nat) : (13 : UInt8) ∉ decimal n := by
  intro h
  obtain ⟨c, hc, h13⟩ := List.mem_map.mp h
  have hdigit := Nat.isDigit_of_mem_toDigits (by decide) (by decide) hc
  unfold Char.isDigit at hdigit
  simp only [Bool.and_eq_true, decide_eq_true_eq] at hdigit
  obtain ⟨hlo, hhi⟩ := hdigit
  have hlo : 48 ≤ c.toNat := UInt32.le_iff_toNat_le.mp hlo
  have hhi : c.toNat ≤ 57 := UInt32.le_iff_toNat_le.mp hhi
  have h13 := congrArg UInt8.toNat h13
  rw [UInt8.toNat_ofNat', Nat.mod_eq_of_lt (by omega)] at h13
  have : (13 : UInt8).toNat = 13 := rfl
  omega

/-- The parts of a list before and after the first carriage return. -/
theorem append_cr_inj {l₁ l₂ r₁ r₂ : List UInt8} (h₁ : (13 : UInt8) ∉ l₁)
    (h₂ : (13 : UInt8) ∉ l₂) (h : l₁ ++ 13 :: r₁ = l₂ ++ 13 :: r₂) :
    r₁ = r₂ := by
  induction l₁ generalizing l₂ with
  | nil =>
      cases l₂ with
      | nil => exact (List.cons.inj h).2
      | cons b l₂ =>
          have hb : 13 = b := (List.cons.inj h).1
          exact absurd (hb ▸ List.mem_cons_self ..) h₂
  | cons b l₁ ih =>
      cases l₂ with
      | nil =>
          have hb : b = 13 := (List.cons.inj h).1
          exact absurd (hb ▸ List.mem_cons_self ..) h₁
      | cons c l₂ =>
          exact ih (fun hm => h₁ (List.mem_cons_of_mem _ hm))
            (fun hm => h₂ (List.mem_cons_of_mem _ hm)) (List.cons.inj h).2

/-- The command tells the password. -/
theorem authCommand_inj {a b : CString} (h : authCommand a = authCommand b) :
    a = b := by
  unfold authCommand at h
  simp only [List.append_assoc, List.cons_append, List.nil_append,
    List.cons.injEq, true_and] at h
  have hrest := append_cr_inj (cr_not_mem_decimal _) (cr_not_mem_decimal _) h
  apply CString.ext_bytes
  exact List.append_cancel_right (List.cons.inj hrest).2

theorem authCommand_ne_info (a : CString) : authCommand a ≠ infoCommandText := by
  intro h
  have := congrArg List.head? h
  simp [authCommand, infoCommandText] at this

/-- Instances have the same command if and only if they have the same
password, or none. -/
theorem RedisModule.command_inj {m n : RedisModule} :
    m.command = n.command ↔ m.auth = n.auth := by
  unfold RedisModule.command
  cases hm : m.auth with
  | none =>
      cases hn : n.auth with
      | none => simp
      | some b => simpa using (authCommand_ne_info b).symm
  | some a =>
      cases hn : n.auth with
      | none => simpa using authCommand_ne_info a
      | some b => simpa using ⟨authCommand_inj, congrArg authCommand⟩

-- ================================================================= the ledger

/-- What becomes of what an instance has been handed to send: the literal,
or the command that is in the pointer now, or one that was in it and will
not be freed any more, or one that has been freed. -/
inductive Waiting where
  | plain
  | current
  | kept
  | lost
deriving DecidableEq

structure RedisEntry where
  auth : Option CString
  waiting : Option Waiting

/-- The password of the command built last, with whether a cleanup has
come since, and the instances. -/
structure RedisLedger where
  last : Option (CString × Bool)
  entry : Nat → Option RedisEntry
  count : Nat

/-- The pointer is given another value, without a cleanup. -/
def Waiting.keep : Waiting → Waiting
  | .current => .kept
  | w => w

/-- A cleanup. -/
def Waiting.lose : Waiting → Waiting
  | .current => .lost
  | w => w

namespace RedisLedger

def start : RedisLedger := ⟨none, fun _ => none, 0⟩

/-- What each instance waits for changes. -/
def mapWaiting (f : Waiting → Waiting) (t : RedisLedger) : RedisLedger :=
  { t with entry := fun i => (t.entry i).map fun n =>
      { n with waiting := n.waiting.map f } }

/-- A command is built, or fails to be. -/
def build (result : Asprintf) (auth : CString) (t : RedisLedger) : RedisLedger :=
  match result with
  | .built => { t.mapWaiting Waiting.keep with last := some (auth, false) }
  | .null => { t.mapWaiting Waiting.keep with last := none }
  | .kept => t

def init (auth : Option CString) (memory : Bool) (result : Asprintf)
    (t : RedisLedger) : RedisLedger :=
  if memory then
    let t := { t with
      entry := Function.update t.entry t.count (some ⟨auth, none⟩)
      count := t.count + 1 }
    match auth with
    | some auth => t.build result auth
    | none => t
  else { t with count := t.count + 1 }

/-- The instance waits to send something else, or nothing. -/
def await (i : Nat) (waiting : Option Waiting) (t : RedisLedger) : RedisLedger :=
  match t.entry i with
  | none => t
  | some n =>
      { t with entry := Function.update t.entry i (some { n with waiting }) }

def poll (i : Nat) (exchange : Bool) (t : RedisLedger) : RedisLedger :=
  t.await i (if exchange then
    some (if t.last = none then .plain else .current) else none)

def cleanup (i : Nat) (t : RedisLedger) : RedisLedger :=
  match t.entry i with
  | none => t
  | some _ =>
      let t := { t with entry := Function.update t.entry i none }
      { t.mapWaiting Waiting.lose with last := t.last.map fun c => (c.1, true) }

def unload (t : RedisLedger) : RedisLedger :=
  if ∀ i < t.count, t.entry i = none then { t with last := none } else t

/-- What a call does to the ledger. -/
def next : RedisOp → RedisLedger → RedisLedger
  | .init auth memory result, t => t.init auth memory result
  | .poll i exchange, t => t.poll i exchange
  | .connected i _, t => t.await i none
  | .cleanup i, t => t.cleanup i
  | .unload, t => t.unload

/-- A call; the ledger tells nobody anything. -/
def step (op : RedisOp) (t : RedisLedger) : Option (List UInt8) × RedisLedger :=
  (none, t.next op)

/-- The order of the calls allows this one. A poll: the command built last
has the instance's own password, and no cleanup has come since; or there
is none, and the instance has no password. A connection that writes: what
it was handed has not been freed. A cleanup: none has come since the
command was built. -/
def Allows : RedisOp → RedisLedger → Prop
  | .poll i _, t => ∀ n, t.entry i = some n →
      t.last = n.auth.map fun auth => (auth, false)
  | .connected i writes, t => ∀ n, t.entry i = some n → writes = true →
      n.waiting ≠ some .lost
  | .cleanup i, t => ∀ n c, t.entry i = some n → t.last = some c → c.2 = false
  | _, _ => True

end RedisLedger

/-- A call uses no command that has been freed; what a poll hands over, and
what a connection writes, is the instance's own command. -/
def RedisSound (op : RedisOp) (s : Redis) : Prop :=
  ∃ o s', s.step op = some (o, s') ∧
    match op with
    | .poll i _ => ∀ m, s.mods i = some m → s.chars s.command = some m.command
    | .connected i _ => ∀ m, s.mods i = some m → ∀ bytes, o = some bytes →
        bytes = m.command
    | _ => True

-- ================================================================ agreement

/-- What an instance is to send is what the ledger says. -/
def Waits (s : Redis) (m : RedisModule) : Option Waiting → Prop
  | none => m.sending = none
  | some .plain => m.sending = some .literal ∧ m.command = infoCommandText
  | some .current => ∃ p, m.sending = some (.buffer p)
      ∧ s.infoCommand = some p ∧ s.buffers p = some m.command
  | some .kept => ∃ p, m.sending = some (.buffer p) ∧ p < s.brk
      ∧ s.infoCommand ≠ some p ∧ s.buffers p = some m.command
  | some .lost => ∃ p, m.sending = some (.buffer p) ∧ p < s.brk
      ∧ s.buffers p = none

/-- An instance and its entry. -/
def EntryAgrees (s : Redis) : Option RedisModule → Option RedisEntry → Prop
  | none, none => True
  | some m, some n => m.auth = n.auth ∧ Waits s m n.waiting
  | _, _ => False

/-- The pointer and the command built last. -/
def LastAgrees (s : Redis) : Option (CString × Bool) → Prop
  | none => s.infoCommand = none
  | some (auth, freed) => ∃ p, s.infoCommand = some p ∧ p < s.brk
      ∧ s.buffers p = if freed then none else some (authCommand auth)

structure RedisAgrees (s : Redis) (t : RedisLedger) : Prop where
  last : LastAgrees s t.last
  entry : ∀ i, EntryAgrees s (s.mods i) (t.entry i)
  count : t.count = s.count
  fresh : ∀ i, s.count ≤ i → s.mods i = none

variable {s s' : Redis} {t : RedisLedger} {m : RedisModule} {w : Option Waiting}
  {i : Nat}

theorem redisAgrees_start : RedisAgrees Redis.start RedisLedger.start :=
  ⟨rfl, fun _ => trivial, rfl, fun _ _ => rfl⟩

theorem LastAgrees.lt {c : Option (CString × Bool)} (h : LastAgrees s c)
    {p : Addr} (hp : s.infoCommand = some p) : p < s.brk := by
  cases c with
  | none =>
      have hnone : s.infoCommand = none := h
      rw [hnone] at hp
      cases hp
  | some c =>
      obtain ⟨q, hq, hlt, -⟩ := h
      rw [hq] at hp
      cases hp
      exact hlt

/-- An instance and its entry are there together. -/
theorem RedisAgrees.none_iff (h : RedisAgrees s t) :
    s.mods i = none ↔ t.entry i = none := by
  have he := h.entry i
  cases hm : s.mods i with
  | none =>
      cases hn : t.entry i with
      | none => simp
      | some n =>
          rw [hm, hn] at he
          exact he.elim
  | some m =>
      cases hn : t.entry i with
      | none =>
          rw [hm, hn] at he
          exact he.elim
      | some n => simp

theorem RedisAgrees.entry_of (h : RedisAgrees s t) (hm : s.mods i = some m) :
    ∃ n, t.entry i = some n ∧ m.auth = n.auth ∧ Waits s m n.waiting := by
  have he := h.entry i
  cases hn : t.entry i with
  | none =>
      rw [h.none_iff.mpr hn] at hm
      cases hm
  | some n =>
      rw [hm, hn] at he
      exact ⟨n, rfl, he⟩

/-- A change of what the instances wait for. -/
theorem EntryAgrees.map {f : Waiting → Waiting} {o : Option RedisModule}
    {n : Option RedisEntry}
    (hf : ∀ m w, Waits s m w → Waits s' m (w.map f)) (h : EntryAgrees s o n) :
    EntryAgrees s' o (n.map fun n => { n with waiting := n.waiting.map f }) := by
  cases o with
  | none =>
      cases n with
      | none => trivial
      | some n => exact h.elim
  | some m =>
      cases n with
      | none => exact h.elim
      | some n => exact ⟨h.1, hf m _ h.2⟩

/-- One instance and its entry change, and the rest does not. -/
theorem RedisAgrees.update (h : RedisAgrees s t) {o : Option RedisModule}
    {n : Option RedisEntry} (hi : i < s.count) (ho : EntryAgrees s o n) :
    RedisAgrees { s with mods := Function.update s.mods i o }
      { t with entry := Function.update t.entry i n } := by
  refine ⟨h.last, fun j => ?_, h.count, fun j hj => ?_⟩
  · by_cases hij : j = i
    · subst hij
      simp only [Function.update_self]
      exact ho
    · simp only [Function.update_of_ne hij]
      exact h.entry j
  · have hij : j ≠ i := Nat.ne_of_gt (Nat.lt_of_lt_of_le hi hj)
    simp only [Function.update_of_ne hij]
    exact h.fresh j hj

theorem RedisAgrees.lt_count (h : RedisAgrees s t) (hm : s.mods i = some m) :
    i < s.count := by
  by_contra hge
  rw [h.fresh i (Nat.not_lt.mp hge)] at hm
  cases hm

-- ============================================================ the pointer

/-- The pointer gets a new command. -/
theorem waits_built (auth : CString)
    (hlt : ∀ p, s.infoCommand = some p → p < s.brk) (h : Waits s m w) :
    Waits (s.buildCommand .built auth) m (w.map Waiting.keep) := by
  unfold Redis.buildCommand
  match w, h with
  | none, h => exact h
  | some .plain, h => exact h
  | some .current, ⟨p, hs, hp, hb⟩ =>
      have hne : p ≠ s.brk := Nat.ne_of_lt (hlt p hp)
      refine ⟨p, hs, Nat.lt_succ_of_lt (hlt p hp), ?_, ?_⟩
      · simpa using hne.symm
      · simpa [Function.update_of_ne hne] using hb
  | some .kept, ⟨p, hs, hp, _, hb⟩ =>
      have hne : p ≠ s.brk := Nat.ne_of_lt hp
      refine ⟨p, hs, Nat.lt_succ_of_lt hp, ?_, ?_⟩
      · simpa using hne.symm
      · simpa [Function.update_of_ne hne] using hb
  | some .lost, ⟨p, hs, hp, hb⟩ =>
      have hne : p ≠ s.brk := Nat.ne_of_lt hp
      exact ⟨p, hs, Nat.lt_succ_of_lt hp,
        by simpa [Function.update_of_ne hne] using hb⟩

/-- The pointer gets NULL. -/
theorem waits_null (hlt : ∀ p, s.infoCommand = some p → p < s.brk)
    (h : Waits s m w) :
    Waits { s with infoCommand := none } m (w.map Waiting.keep) := by
  match w, h with
  | none, h => exact h
  | some .plain, h => exact h
  | some .current, ⟨p, hs, hp, hb⟩ =>
      exact ⟨p, hs, hlt p hp, by simp, hb⟩
  | some .kept, ⟨p, hs, hp, _, hb⟩ => exact ⟨p, hs, hp, by simp, hb⟩
  | some .lost, h => exact h

/-- The command in the pointer is freed. -/
theorem waits_freed {q : Addr} (hq : s.infoCommand = some q)
    (hlt : q < s.brk) (h : Waits s m w) :
    Waits { s with buffers := Function.update s.buffers q none } m
      (w.map Waiting.lose) := by
  match w, h with
  | none, h => exact h
  | some .plain, h => exact h
  | some .current, ⟨p, hs, hp, hb⟩ =>
      rw [hq] at hp
      cases hp
      exact ⟨q, hs, hlt, by simp⟩
  | some .kept, ⟨p, hs, hp, hne, hb⟩ =>
      have hpq : p ≠ q := fun he => hne (he ▸ hq)
      exact ⟨p, hs, hp, hne, by simpa [Function.update_of_ne hpq] using hb⟩
  | some .lost, ⟨p, hs, hp, hb⟩ =>
      refine ⟨p, hs, hp, ?_⟩
      by_cases hpq : p = q
      · simp [hpq]
      · simpa [Function.update_of_ne hpq] using hb

/-- There is no command in the pointer to be freed. -/
theorem waits_unfreed (hnone : s.infoCommand = none) (h : Waits s m w) :
    Waits s m (w.map Waiting.lose) := by
  match w, h with
  | none, h => exact h
  | some .plain, h => exact h
  | some .current, ⟨p, _, hp, _⟩ =>
      rw [hnone] at hp
      cases hp
  | some .kept, h => exact h
  | some .lost, h => exact h

theorem redisAgrees_build (result : Asprintf) (auth : CString)
    (h : RedisAgrees s t) :
    RedisAgrees (s.buildCommand result auth) (t.build result auth) := by
  have hlt : ∀ p, s.infoCommand = some p → p < s.brk := fun p => h.last.lt
  cases result with
  | built =>
      refine ⟨⟨s.brk, rfl, Nat.lt_succ_self _, by simp [Redis.buildCommand]⟩,
        fun i => ?_, h.count, h.fresh⟩
      exact EntryAgrees.map (fun m w => waits_built auth hlt) (h.entry i)
  | null =>
      refine ⟨rfl, fun i => ?_, h.count, h.fresh⟩
      exact EntryAgrees.map (fun m w => waits_null hlt) (h.entry i)
  | kept => exact h

-- ================================================================== calls

theorem redisAgrees_init (auth : Option CString) (memory : Bool)
    (result : Asprintf) (h : RedisAgrees s t) :
    RedisAgrees (s.init auth memory result)
      (t.init auth memory result) := by
  unfold Redis.init RedisLedger.init
  cases memory with
  | false =>
      rw [if_neg Bool.false_ne_true, if_neg Bool.false_ne_true]
      exact ⟨h.last, h.entry, by simp only [h.count],
        fun i hi => h.fresh i (Nat.le_of_succ_le hi)⟩
  | true =>
      rw [if_pos rfl, if_pos rfl]
      have hadd : RedisAgrees
          { s with
            mods := Function.update s.mods s.count (some ⟨auth, none⟩)
            count := s.count + 1 }
          { t with
            entry := Function.update t.entry t.count (some ⟨auth, none⟩)
            count := t.count + 1 } := by
        refine ⟨h.last, fun j => ?_, by simp only [h.count], fun j hj => ?_⟩
        · simp only [h.count]
          by_cases hj : j = s.count
          · subst hj
            simp only [Function.update_self]
            exact ⟨rfl, rfl⟩
          · simp only [Function.update_of_ne hj]
            exact h.entry j
        · have hne : j ≠ s.count := Nat.ne_of_gt hj
          simp only [Function.update_of_ne hne]
          exact h.fresh j (Nat.le_of_succ_le hj)
      cases auth with
      | none => exact hadd
      | some auth => exact redisAgrees_build result auth hadd

/-- What a poll hands over is the instance's own command exactly if the
command built last has its password, and has not been freed. -/
theorem handed_iff (h : LastAgrees s t.last) :
    s.chars s.command = some m.command
      ↔ t.last = m.auth.map fun auth => (auth, false) := by
  unfold Redis.chars Redis.command
  cases hl : t.last with
  | none =>
      rw [hl] at h
      have hnone : s.infoCommand = none := h
      rw [hnone]
      show some (RedisModule.command ⟨none, none⟩) = some m.command ↔ _
      rw [Option.some.injEq, RedisModule.command_inj]
      cases m.auth <;> simp
  | some c =>
      obtain ⟨auth, freed⟩ := c
      rw [hl] at h
      obtain ⟨p, hp, -, hb⟩ := h
      rw [hp]
      simp only [hb]
      cases freed with
      | true => cases m.auth <;> simp
      | false =>
          show some (RedisModule.command ⟨some auth, none⟩) = some m.command ↔ _
          rw [Option.some.injEq, RedisModule.command_inj]
          cases m.auth <;> simp

theorem redis_poll_agrees (i : Nat) (exchange : Bool) (h : RedisAgrees s t) :
    (RedisSound (.poll i exchange) s ↔ t.Allows (.poll i exchange))
      ∧ (RedisSound (.poll i exchange) s →
        ∃ o s', s.step (.poll i exchange) = some (o, s')
          ∧ RedisAgrees s' (t.next (.poll i exchange))) := by
  have hsound : RedisSound (.poll i exchange) s
      ↔ ∀ m, s.mods i = some m → s.chars s.command = some m.command :=
    ⟨fun ⟨_, _, _, hc⟩ => hc, fun hc => ⟨_, _, rfl, hc⟩⟩
  rw [hsound]
  cases hm : s.mods i with
  | none =>
      have hn := h.none_iff.mp hm
      refine ⟨⟨fun _ n hn' => ?_, fun _ m hm' => ?_⟩, fun _ => ⟨_, _, rfl, ?_⟩⟩
      · rw [hn] at hn'
        cases hn'
      · cases hm'
      · simpa only [Redis.poll, RedisLedger.next, RedisLedger.poll,
          RedisLedger.await, hm, hn] using h
  | some m =>
      obtain ⟨n, hn, hauth, hwaits⟩ := h.entry_of hm
      have hiff := handed_iff (m := m) h.last
      rw [hauth] at hiff
      constructor
      · constructor
        · intro hc n' hn'
          rw [hn] at hn'
          cases hn'
          exact hiff.mp (hc m rfl)
        · intro ha m' hm'
          cases hm'
          exact hiff.mpr (ha n hn)
      · intro hc
        refine ⟨_, _, rfl, ?_⟩
        have hchars := hc m rfl
        have hlast := h.last
        simp only [Redis.poll, RedisLedger.next, RedisLedger.poll,
          RedisLedger.await, hm, hn]
        apply h.update (h.lt_count hm)
        refine ⟨hauth, ?_⟩
        cases exchange with
        | false => exact rfl
        | true =>
            unfold Redis.chars Redis.command at hchars
            unfold Redis.command
            cases hl : t.last with
            | none =>
                rw [hl] at hlast
                have hnone : s.infoCommand = none := hlast
                rw [hnone] at hchars ⊢
                exact ⟨rfl, (Option.some.inj hchars).symm⟩
            | some c =>
                rw [hl] at hlast
                obtain ⟨p, hp, -, -⟩ := hlast
                rw [hp] at hchars ⊢
                exact ⟨p, rfl, hp, hchars⟩

/-- What an instance is to send is its own command unless it has been
freed. -/
theorem Waits.chars {ptr : SendPtr} (h : Waits s m w)
    (hs : m.sending = some ptr) :
    (w ≠ some .lost → s.chars ptr = some m.command)
      ∧ (w = some .lost → s.chars ptr = none) := by
  match w, h with
  | none, h =>
      have hnone : m.sending = none := h
      rw [hs] at hnone
      cases hnone
  | some .plain, ⟨hp, hc⟩ =>
      rw [hs] at hp
      cases hp
      exact ⟨fun _ => congrArg some hc.symm, fun hl => by cases hl⟩
  | some .current, ⟨p, hp, _, hb⟩ =>
      rw [hs] at hp
      cases hp
      exact ⟨fun _ => hb, fun hl => by cases hl⟩
  | some .kept, ⟨p, hp, _, _, hb⟩ =>
      rw [hs] at hp
      cases hp
      exact ⟨fun _ => hb, fun hl => by cases hl⟩
  | some .lost, ⟨p, hp, _, hb⟩ =>
      rw [hs] at hp
      cases hp
      exact ⟨fun hl => absurd rfl hl, fun _ => hb⟩

/-- The connection of an instance is made or given up. -/
def Redis.settle (s : Redis) (i : Nat) (m : RedisModule) : Redis :=
  { s with mods := Function.update s.mods i (some { m with sending := none }) }

theorem step_idle (writes : Bool)
    (h : ∀ m, s.mods i = some m → m.sending = none) :
    s.step (.connected i writes) = some (none, s) := by
  simp only [Redis.step, Redis.connected]
  cases hm : s.mods i with
  | none => rfl
  | some m => simp only [h m hm]

theorem step_connected {ptr : SendPtr} (writes : Bool)
    (hm : s.mods i = some m) (hs : m.sending = some ptr) :
    s.step (.connected i writes)
      = if writes then (s.chars ptr).map fun bytes => (some bytes, s.settle i m)
        else some (none, s.settle i m) := by
  simp only [Redis.step, Redis.connected, hm, hs]
  cases writes with
  | false => rfl
  | true => cases s.chars ptr <;> rfl

theorem await_none (hn : t.entry i = none) (w : Option Waiting) :
    t.await i w = t := by
  simp only [RedisLedger.await, hn]

theorem await_some {n : RedisEntry} (hn : t.entry i = some n)
    (w : Option Waiting) :
    t.await i w
      = { t with
          entry := Function.update t.entry i (some { n with waiting := w }) } := by
  simp only [RedisLedger.await, hn]

/-- An instance without a connection in the making, or no instance. -/
theorem redis_idle_agrees (writes : Bool) (h : RedisAgrees s t)
    (hidle : ∀ m, s.mods i = some m → m.sending = none) :
    (RedisSound (.connected i writes) s ↔ t.Allows (.connected i writes))
      ∧ (RedisSound (.connected i writes) s →
        ∃ o s', s.step (.connected i writes) = some (o, s')
          ∧ RedisAgrees s' (t.next (.connected i writes))) := by
  have hrun := step_idle writes hidle
  have hsound : RedisSound (.connected i writes) s :=
    ⟨none, s, hrun, fun m _ bytes hbytes => by cases hbytes⟩
  refine ⟨⟨fun _ n hn _ hlost => ?_, fun _ => hsound⟩,
    fun _ => ⟨none, s, hrun, ?_⟩⟩
  · cases hm : s.mods i with
    | none =>
        rw [h.none_iff.mp hm] at hn
        cases hn
    | some m =>
        obtain ⟨n', hn', -, hwaits⟩ := h.entry_of hm
        rw [hn] at hn'
        cases hn'
        rw [hlost] at hwaits
        obtain ⟨p, hp, -⟩ := hwaits
        rw [hidle m hm] at hp
        cases hp
  · show RedisAgrees s (t.await i none)
    cases hm : s.mods i with
    | none => rwa [await_none (h.none_iff.mp hm)]
    | some m =>
        obtain ⟨n, hn, hauth, -⟩ := h.entry_of hm
        have hupdate := h.update (o := some m)
          (n := some { n with waiting := none }) (h.lt_count hm)
          ⟨hauth, hidle m hm⟩
        rw [← hm, Function.update_eq_self] at hupdate
        rwa [await_some hn]

theorem redis_connected_agrees (i : Nat) (writes : Bool) (h : RedisAgrees s t) :
    (RedisSound (.connected i writes) s ↔ t.Allows (.connected i writes))
      ∧ (RedisSound (.connected i writes) s →
        ∃ o s', s.step (.connected i writes) = some (o, s')
          ∧ RedisAgrees s' (t.next (.connected i writes))) := by
  by_cases hidle : ∀ m, s.mods i = some m → m.sending = none
  case pos => exact redis_idle_agrees writes h hidle
  push Not at hidle
  obtain ⟨m, hm, hne⟩ := hidle
  obtain ⟨ptr, hs⟩ := Option.ne_none_iff_exists'.mp hne
  obtain ⟨n, hn, hauth, hwaits⟩ := h.entry_of hm
  obtain ⟨hlive, hdead⟩ := hwaits.chars hs
  have hrun := step_connected writes hm hs
  have hnext : RedisAgrees (s.settle i m) (t.next (.connected i writes)) := by
    show RedisAgrees _ (t.await i none)
    rw [await_some hn]
    exact h.update (h.lt_count hm) ⟨hauth, rfl⟩
  cases writes with
  | false =>
      have hsound : RedisSound (.connected i false) s :=
        ⟨none, s.settle i m, hrun, fun m _ bytes hbytes => by cases hbytes⟩
      exact ⟨⟨fun _ n' _ hw => absurd hw Bool.false_ne_true, fun _ => hsound⟩,
        fun _ => ⟨none, s.settle i m, hrun, hnext⟩⟩
  | true =>
      rw [if_pos rfl] at hrun
      by_cases hlost : n.waiting = some .lost
      · -- the command has been freed
        have hno : ¬ RedisSound (.connected i true) s := by
          rintro ⟨o, s', hs', -⟩
          rw [hrun, hdead hlost] at hs'
          cases hs'
        exact ⟨⟨fun hc => absurd hc hno, fun ha => absurd hlost (ha n hn rfl)⟩,
          fun hc => absurd hc hno⟩
      · rw [hlive hlost, Option.map_some] at hrun
        have hsound : RedisSound (.connected i true) s := by
          refine ⟨some m.command, s.settle i m, hrun, fun m' hm' bytes hb => ?_⟩
          rw [hm] at hm'
          cases hm'
          cases hb
          rfl
        refine ⟨⟨fun _ n' hn' _ => ?_, fun _ => hsound⟩,
          fun _ => ⟨some m.command, s.settle i m, hrun, hnext⟩⟩
        rw [hn] at hn'
        cases hn'
        exact hlost

/-- A cleanup that goes through, and one that does not. -/
theorem redis_cleanup_agrees (i : Nat) (h : RedisAgrees s t) :
    (RedisSound (.cleanup i) s ↔ t.Allows (.cleanup i))
      ∧ (RedisSound (.cleanup i) s →
        ∃ o s', s.step (.cleanup i) = some (o, s')
          ∧ RedisAgrees s' (t.next (.cleanup i))) := by
  have hgo : ∀ s', s.cleanup i = some s' → RedisAgrees s' (t.cleanup i) →
      t.Allows (.cleanup i) →
      (RedisSound (.cleanup i) s ↔ t.Allows (.cleanup i))
        ∧ (RedisSound (.cleanup i) s →
          ∃ o s', s.step (.cleanup i) = some (o, s')
            ∧ RedisAgrees s' (t.next (.cleanup i))) := by
    intro s' hs' hnext hallows
    have hrun : s.step (.cleanup i) = some (none, s') := by
      rw [Redis.step, hs', Option.map_some]
    exact ⟨⟨fun _ => hallows, fun _ => ⟨none, s', hrun, trivial⟩⟩,
      fun _ => ⟨none, s', hrun, hnext⟩⟩
  cases hm : s.mods i with
  | none =>
      have hn := h.none_iff.mp hm
      apply hgo s
      · simp only [Redis.cleanup, hm]
      · simpa only [RedisLedger.cleanup, hn] using h
      · intro n c hn'
        rw [hn] at hn'
        cases hn'
  | some m =>
  obtain ⟨n, hn, -⟩ := h.entry_of hm
  have hgone : RedisAgrees { s with mods := Function.update s.mods i none }
      { t with entry := Function.update t.entry i none } :=
    h.update (o := none) (n := none) (h.lt_count hm) trivial
  have hlast := h.last
  cases hl : t.last with
  | none =>
      rw [hl] at hlast
      have hnone : s.infoCommand = none := hlast
      apply hgo { s with mods := Function.update s.mods i none }
      · simp only [Redis.cleanup, hm, hnone]
      · simp only [RedisLedger.cleanup, hn, hl]
        exact ⟨hnone, fun j => EntryAgrees.map
          (fun m w => waits_unfreed hnone) (hgone.entry j), h.count, hgone.fresh⟩
      · intro n' c _ hc
        rw [hl] at hc
        cases hc
  | some c =>
      obtain ⟨auth, freed⟩ := c
      rw [hl] at hlast
      obtain ⟨p, hp, hlt, hb⟩ := hlast
      cases freed with
      | true =>
          -- the second cleanup since the command was built
          rw [if_pos rfl] at hb
          have hfault : s.cleanup i = none := by
            simp only [Redis.cleanup, hm, hp, hb, if_true]
          have hno : ¬ RedisSound (.cleanup i) s := by
            rintro ⟨o, s', hs', -⟩
            rw [Redis.step, hfault] at hs'
            cases hs'
          refine ⟨⟨fun hc => absurd hc hno, fun ha => ?_⟩,
            fun hc => absurd hc hno⟩
          have := ha n (auth, true) hn hl
          cases this
      | false =>
          rw [if_neg Bool.false_ne_true] at hb
          apply hgo
            { s with
              mods := Function.update s.mods i none
              buffers := Function.update s.buffers p none }
          · simp only [Redis.cleanup, hm, hp, hb, reduceCtorEq, if_false]
          · simp only [RedisLedger.cleanup, hn, hl]
            refine ⟨⟨p, hp, hlt, by simp⟩, fun j => ?_, h.count, hgone.fresh⟩
            exact EntryAgrees.map (fun m w => waits_freed hp hlt)
              (hgone.entry j)
          · intro n' c _ hc
            rw [hl] at hc
            cases hc
            rfl

theorem redisAgrees_unload (h : RedisAgrees s t) :
    RedisAgrees s.unload t.unload := by
  unfold Redis.unload RedisLedger.unload
  have hiff : (∀ j < s.count, s.mods j = none)
      ↔ ∀ j < t.count, t.entry j = none := by
    rw [h.count]
    exact forall_congr' fun j => imp_congr_right fun _ => h.none_iff
  by_cases hempty : ∀ j < s.count, s.mods j = none
  · rw [if_pos hempty, if_pos (hiff.mp hempty)]
    refine ⟨rfl, fun j => ?_, h.count, h.fresh⟩
    have hj : s.mods j = none := by
      by_cases hlt : j < s.count
      · exact hempty j hlt
      · exact h.fresh j (Nat.not_lt.mp hlt)
    simp only [hj, h.none_iff.mp hj]
    trivial
  · rw [if_neg hempty, if_neg fun he => hempty (hiff.mpr he)]
    exact h

/-- A call is sound exactly if the ledger allows it, and then the two go
on in agreement. -/
theorem redisAgrees_step (op : RedisOp) (s : Redis) (t : RedisLedger)
    (h : RedisAgrees s t) :
    (RedisSound op s ↔ t.Allows op)
      ∧ (RedisSound op s → ∃ o s', s.step op = some (o, s')
          ∧ RedisAgrees s' (t.next op)) := by
  cases op with
  | init auth memory result =>
      exact ⟨⟨fun _ => trivial, fun _ => ⟨_, _, rfl, trivial⟩⟩,
        fun _ => ⟨_, _, rfl, redisAgrees_init auth memory result h⟩⟩
  | poll i exchange => exact redis_poll_agrees i exchange h
  | connected i writes => exact redis_connected_agrees i writes h
  | cleanup i => exact redis_cleanup_agrees i h
  | unload =>
      exact ⟨⟨fun _ => trivial, fun _ => ⟨_, _, rfl, trivial⟩⟩,
        fun _ => ⟨_, _, rfl, redisAgrees_unload h⟩⟩

-- =================================================================== runs

/-- Redis credentials, exactly: in a run of calls for any number of
instances every poll hands over, and every connection writes, the
instance's own command, and no command is used once it has been freed, if
and only if the order of the calls is one the ledger allows throughout. -/
theorem redis_sound_iff (ops : List RedisOp) :
    Guarded Redis.step RedisSound ops Redis.start
      ↔ Meets RedisLedger.step RedisLedger.Allows ops RedisLedger.start :=
  guarded_iff_meets (R := RedisAgrees) redisAgrees_step ops _ _ redisAgrees_start

/-- Two instances, the first with the password "a". -/
def twoInstances : List RedisOp :=
  [.init (some CString.a) true .built, .init none true .built]

/-- The second instance is handed, and sends, the first one's AUTH; and the
cleanup of the second frees the command once more. -/
theorem redis_shared :
    (∃ s, run Redis.step (twoInstances ++ [.poll 1 true, .connected 1 true])
        Redis.start = some ([none, none, none, some (authCommand CString.a)], s))
      ∧ ¬ Guarded Redis.step RedisSound (twoInstances ++ [.poll 1 true])
        Redis.start
      ∧ run Redis.step (twoInstances ++ [.cleanup 0, .cleanup 1]) Redis.start
        = none := by
  refine ⟨⟨_, rfl⟩, ?_, rfl⟩
  intro h
  obtain ⟨o, s', -, hpoll⟩ := ((h.2 _ _ rfl).2 _ _ rfl).1
  have hhanded : some (authCommand CString.a) = some infoCommandText :=
    hpoll ⟨none, none⟩ rfl
  exact authCommand_ne_info _ (Option.some.inj hhanded)

end Monikor
