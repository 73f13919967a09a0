/-
The backoff counter.

Only the responses change `backoff_count`, so it follows the number of
rejections since the last response that was none (`Lawful`), if it starts
at 0. Start-up does not set it: `monikor_init` and `monikor_update_init`
leave it as the stack had it (`monikorInit_update`).
-/
import Mathlib.Tactic.Linarith
import Monikor.Core.Proofs.Reload

namespace Monikor

variable {ω μ : Type} {host : Host ω μ} {mon mon' mem : Mon ω μ}
  {loaded : Option Config} {a a' : Agent} {metrics : Addr} {result : Nat}
  {httpCode updateInterval : Int} {rc : Int} {past : List (Nat × Int)}

/-- The response rejects a batch. -/
def Rejects (r : Nat × Int) : Prop := r.1 = curleOk ∧ 400 ≤ r.2 ∧ r.2 < 500

/-- The response ends a series of rejections: a transport error, a success,
or an error of the server. -/
def Resets (r : Nat × Int) : Prop := r.1 ≠ curleOk ∨ r.2 = 200 ∨ 500 ≤ r.2

instance (r : Nat × Int) : Decidable (Rejects r) :=
  inferInstanceAs (Decidable (_ ∧ _))

instance (r : Nat × Int) : Decidable (Resets r) :=
  inferInstanceAs (Decidable (_ ∨ _))

/-- The rejections of a series, with one more response. -/
def countRejections (n : Nat) (r : Nat × Int) : Nat :=
  if Resets r then 0 else if Rejects r then n + 1 else n

/-- The rejections since the last response that ended a series, or since
the start. -/
def rejections (past : List (Nat × Int)) : Nat := past.foldl countRejections 0

/-- A number of seconds that `time_t` holds. -/
def FitsTime (sec : Int) : Prop := -2 ^ 63 ≤ sec ∧ sec < 2 ^ 63

/-- What a response does to the time of the next update, and a first
rejection to the store. -/
def DelayedAs (past : List (Nat × Int)) (mon : Mon ω μ) (metrics : Addr)
    (r : Nat × Int) (mon' : Mon ω μ) : Prop :=
  let delay := mon.config.updateInterval.toInt * 2 ^ mon.update.backoffCount
  if Rejects r then
    if rejections past = 0 then
      mon'.update.nextUpdate = mon.update.nextUpdate
        ∧ mon.heap.metricListFree metrics = some mon'.heap
    else
      mon'.update.nextUpdate = mon.update.nextUpdate + delay
        ∧ 1 ≤ mon.update.backoffCount
        ∧ mon.update.backoffCount ≤ updateBackoffCountMax ∧ FitsTime delay
  else mon'.update.nextUpdate = mon.update.nextUpdate

/-- The counter follows the responses over a run, and so do the delays. -/
def Lawful (host : Host ω μ) : List (Nat × Int) → List MonOp → Mon ω μ → Prop
  | past, [], mon =>
      mon.update.backoffCount = min updateBackoffCountMax (rejections past)
  | past, op :: ops, mon =>
      mon.update.backoffCount = min updateBackoffCountMax (rejections past)
        ∧ ∀ mon', mon.step host op = some mon' →
          match op with
          | .respond metrics result httpCode =>
              DelayedAs past mon metrics (result, httpCode) mon'
                ∧ Lawful host (past ++ [(result, httpCode)]) ops mon'
          | _ => Lawful host past ops mon'

-- ============================================================== the response

/-- A response is a failure, a rejection, or neither; the batch is freed
last. -/
theorem handleServerResponse_cases_some
    (hrun : a.handleServerResponse updateInterval metrics result httpCode
      = some a') :
    ∃ a₁, (a₁.heap.metricListFree metrics = some a'.heap
        ∧ a'.update = a₁.update)
      ∧ ((result ≠ curleOk ∨ httpCode ≥ 500) ∧ a₁.update = a.update.success
        ∨ Rejects (result, httpCode)
          ∧ a.updateBackoff updateInterval = some a₁
        ∨ result = curleOk ∧ httpCode = 200
          ∧ a₁.update = a.update.success
        ∨ ¬ Resets (result, httpCode) ∧ ¬ Rejects (result, httpCode)
          ∧ a₁.update = a.update) := by
  by_cases hfail : result ≠ curleOk ∨ httpCode ≥ 500
  · unfold Agent.handleServerResponse at hrun
    simp only [if_pos hfail] at hrun
    obtain ⟨heap, -, hrun⟩ := Option.bind_eq_some_iff.mp hrun
    obtain ⟨a₁, hmid, hrun⟩ := Option.bind_eq_some_iff.mp hrun
    obtain ⟨heap', hfree, hrun⟩ := Option.bind_eq_some_iff.mp hrun
    obtain rfl := Option.some.inj hrun
    obtain rfl := Option.some.inj hmid
    refine ⟨_, ⟨hfree, rfl⟩, .inl ⟨hfail, ?_⟩⟩
    dsimp only
    split <;> rfl
  · have hok : result = curleOk := by
      by_contra hne
      exact hfail (.inl hne)
    have hlt : httpCode < 500 := by
      by_contra hge
      exact hfail (.inr (Int.not_lt.mp hge))
    by_cases hrej : httpCode ≥ 400
    · have hne : ¬ (result = curleOk ∧ httpCode = 200) := by omega
      unfold Agent.handleServerResponse at hrun
      simp only [if_neg hfail, if_pos hrej, if_neg hne] at hrun
      obtain ⟨a₁, hmid, hrun⟩ := Option.bind_eq_some_iff.mp hrun
      obtain ⟨heap, hfree, hrun⟩ := Option.bind_eq_some_iff.mp hrun
      obtain rfl := Option.some.inj hrun
      exact ⟨a₁, ⟨hfree, rfl⟩, .inr (.inl ⟨⟨hok, hrej, hlt⟩, hmid⟩)⟩
    · unfold Agent.handleServerResponse at hrun
      simp only [if_neg hfail, if_neg hrej] at hrun
      obtain ⟨a₁, hmid, hrun⟩ := Option.bind_eq_some_iff.mp hrun
      obtain ⟨heap, hfree, hrun⟩ := Option.bind_eq_some_iff.mp hrun
      obtain rfl := Option.some.inj hrun
      obtain rfl := Option.some.inj hmid
      refine ⟨_, ⟨hfree, rfl⟩, .inr (.inr ?_)⟩
      by_cases h200 : httpCode = 200
      · exact .inl ⟨hok, h200, by rw [if_pos ⟨hok, h200⟩]⟩
      · refine .inr ⟨?_, fun h => hrej h.2.1, by rw [if_neg fun h => h200 h.2]⟩
        intro hres
        rcases hres with h | h | h
        · exact h hok
        · exact h200 h
        · exact absurd h (Int.not_le.mpr hlt)

/-- A backoff moves the counters, and the first failure does not flush. -/
theorem updateBackoff_some (hrun : a.updateBackoff updateInterval = some a') :
    a'.update = a.update.backoff updateInterval
      ∧ (a.update.backoffCount = 0 → a'.heap = a.heap) := by
  by_cases hcount : a.update.backoffCount > 0
  · unfold Agent.updateBackoff at hrun
    simp only [if_pos hcount] at hrun
    obtain ⟨heap, -, hrun⟩ := Option.bind_eq_some_iff.mp hrun
    obtain rfl := Option.some.inj hrun
    exact ⟨rfl, fun hz => absurd hz (Nat.ne_of_gt hcount)⟩
  · unfold Agent.updateBackoff at hrun
    simp only [if_neg hcount] at hrun
    obtain rfl := Option.some.inj hrun
    exact ⟨rfl, fun _ => rfl⟩

theorem not_resets_of_rejects {r : Nat × Int} (h : Rejects r) : ¬ Resets r := by
  intro hres
  obtain ⟨hok, hge, hlt⟩ := h
  rcases hres with hne | h200 | h500
  · exact hne hok
  · omega
  · omega

/-- What a response leaves of the counters. -/
theorem handleServerResponse_update
    (hrun : a.handleServerResponse updateInterval metrics result httpCode
      = some a') :
    a'.update = if Resets (result, httpCode) then a.update.success
      else if Rejects (result, httpCode) then a.update.backoff updateInterval
      else a.update := by
  obtain ⟨a₁, ⟨-, hupd⟩, hcases⟩ := handleServerResponse_cases_some hrun
  rw [hupd]
  rcases hcases with
    ⟨hfail, h₁⟩ | ⟨hrej, h₁⟩ | ⟨hok, h200, h₁⟩ | ⟨hres, hrej, h₁⟩
  · have hres : Resets (result, httpCode) := hfail.imp_right .inr
    rw [if_pos hres, h₁]
  · rw [if_neg (not_resets_of_rejects hrej), if_pos hrej,
      (updateBackoff_some h₁).1]
  · have hres : Resets (result, httpCode) := .inr (.inl h200)
    rw [if_pos hres, h₁]
  · rw [if_neg hres, if_neg hrej, h₁]

-- ================================================================ the counter

/-- The counter after one more response. -/
theorem count_step (r : Nat × Int) {u : Update}
    (hcount : u.backoffCount = min updateBackoffCountMax (rejections past)) :
    (if Resets r then u.success
      else if Rejects r then u.backoff updateInterval else u).backoffCount
      = min updateBackoffCountMax (rejections (past ++ [r])) := by
  unfold rejections
  rw [List.foldl_append, List.foldl_cons, List.foldl_nil, countRejections]
  by_cases hres : Resets r
  · rw [if_pos hres, if_pos hres]
    rfl
  · rw [if_neg hres, if_neg hres]
    by_cases hrej : Rejects r
    · rw [if_pos hrej, if_pos hrej]
      unfold Update.backoff
      simp only [hcount, rejections, updateBackoffCountMax]
      split <;> omega
    · rw [if_neg hrej, if_neg hrej]
      exact hcount

/-- A delay of at most the largest backoff is one `time_t` holds. -/
theorem fitsTime_delay (i : Int32) {k : Nat} (hk : k ≤ updateBackoffCountMax) :
    FitsTime (i.toInt * 2 ^ k) := by
  have hlo := i.le_toInt
  have hhi := i.toInt_lt
  have hpow : (2 : Int) ^ k ≤ 2 ^ 15 := pow_le_pow_right₀ (by decide) hk
  have hpos : (0 : Int) < 2 ^ k := pow_pos (by decide) k
  constructor <;> nlinarith

-- ==================================================================== a run

/-- A response, along a run that is lawful so far. -/
theorem respond_delayedAs
    (hcount : mon.update.backoffCount
      = min updateBackoffCountMax (rejections past))
    (hstep : mon.step host (.respond metrics result httpCode) = some mon') :
    DelayedAs past mon metrics (result, httpCode) mon'
      ∧ mon'.update.backoffCount = min updateBackoffCountMax
        (rejections (past ++ [(result, httpCode)])) := by
  obtain ⟨a, hagent, hstep⟩ := Option.bind_eq_some_iff.mp hstep
  obtain ⟨a', hrun, hstep⟩ := Option.bind_eq_some_iff.mp hstep
  obtain rfl := Option.some.inj hstep
  obtain ⟨st, -, ha⟩ := Option.bind_eq_some_iff.mp hagent
  obtain rfl := Option.some.inj ha
  have hupd := handleServerResponse_update hrun
  refine ⟨?_, by rw [hupd]; exact count_step _ hcount⟩
  by_cases hrej : Rejects (result, httpCode)
  · rw [if_neg (not_resets_of_rejects hrej), if_pos hrej] at hupd
    obtain ⟨a₁, ⟨hfree, -⟩, hcases⟩ := handleServerResponse_cases_some hrun
    by_cases hfirst : rejections past = 0
    · have hzero : mon.update.backoffCount = 0 := by
        rw [hcount, hfirst]
        rfl
      unfold DelayedAs
      rw [if_pos hrej, if_pos hfirst]
      refine ⟨by simp [hupd, Update.backoff, hzero], ?_⟩
      -- of the four ways only a rejection is left
      rcases hcases with ⟨hfail, -⟩ | ⟨-, hback⟩ | ⟨-, h200, -⟩ | ⟨-, hno, -⟩
      · exact absurd (hfail.imp_right .inr) (not_resets_of_rejects hrej)
      · rw [(updateBackoff_some hback).2 hzero] at hfree
        exact hfree
      · exact absurd (.inr (.inl h200)) (not_resets_of_rejects hrej)
      · exact absurd hrej hno
    · have hpos : 1 ≤ mon.update.backoffCount := by
        rw [hcount, updateBackoffCountMax]
        omega
      have hmax : mon.update.backoffCount ≤ updateBackoffCountMax := by
        rw [hcount]
        exact Nat.min_le_left ..
      unfold DelayedAs
      rw [if_pos hrej, if_neg hfirst]
      refine ⟨?_, hpos, hmax, fitsTime_delay _ hmax⟩
      have hgt : mon.update.backoffCount > 0 := hpos
      simp [hupd, Update.backoff, hgt, updateBackoffExp]
  · unfold DelayedAs
    rw [if_neg hrej]
    dsimp only
    rw [hupd, if_neg hrej]
    split <;> rfl

/-- No other event changes the counter. -/
theorem step_backoffCount {op : MonOp}
    (hop : ∀ metrics result httpCode, op ≠ .respond metrics result httpCode)
    (hstep : mon.step host op = some mon') :
    mon'.update.backoffCount = mon.update.backoffCount := by
  cases op with
  | respond metrics result httpCode => exact (hop _ _ _ rfl).elim
  | turn tick now =>
      obtain rfl := Option.some.inj hstep
      rfl
  | store heap inFlight =>
      obtain rfl := Option.some.inj hstep
      rfl
  | reload loaded =>
      obtain ⟨⟨rc, mon₁⟩, hrun, hstep⟩ := Option.bind_eq_some_iff.mp hstep
      have hmon' : mon' = mon₁ := by
        dsimp only at hstep
        split at hstep
        · exact absurd hstep (by simp)
        · exact (Option.some.inj hstep).symm
      subst hmon'
      cases loaded with
      | none =>
          obtain ⟨-, rfl⟩ := Prod.mk.inj (Option.some.inj hrun)
          rfl
      | some config =>
          obtain ⟨rc₂, mon₂, hinit, hmon'⟩ := monikorReload_some hrun
          have hset := (initModules_spec hinit).2
          have hsame : mon'.update = mon₂.update := by
            rcases hmon' with rfl | rfl <;> rfl
          rw [hsame, hset.update]
          rfl

/-- From a counter that agrees with the responses so far, a run is
lawful. -/
theorem lawful_of_count (ops : List MonOp) :
    ∀ (past : List (Nat × Int)) (mon : Mon ω μ),
      mon.update.backoffCount = min updateBackoffCountMax (rejections past) →
      Lawful host past ops mon := by
  induction ops with
  | nil => exact fun past mon hcount => hcount
  | cons op ops ih =>
      intro past mon hcount
      refine ⟨hcount, fun mon' hstep => ?_⟩
      cases op with
      | respond metrics result httpCode =>
          obtain ⟨hdelay, hnext⟩ := respond_delayedAs hcount hstep
          exact ⟨hdelay, ih _ _ hnext⟩
      | turn tick now =>
          exact ih _ _ ((step_backoffCount (by simp) hstep).trans hcount)
      | reload loaded =>
          exact ih _ _ ((step_backoffCount (by simp) hstep).trans hcount)
      | store heap inFlight =>
          exact ih _ _ ((step_backoffCount (by simp) hstep).trans hcount)

/-- Start-up leaves the counter as it found it. -/
theorem monikorInit_update
    (hrun : monikorInit host loaded mem = some (rc, mon)) :
    mon.update = mem.update := by
  cases loaded with
  | none =>
      obtain ⟨-, rfl⟩ := Prod.mk.inj (Option.some.inj hrun)
      rfl
  | some config =>
      cases hsetup : host.setup config mem.rest with
      | none =>
          unfold monikorInit at hrun
          simp only [hsetup] at hrun
          obtain ⟨-, rfl⟩ := Prod.mk.inj (Option.some.inj hrun)
          rfl
      | some rest =>
          unfold monikorInit at hrun
          simp only [hsetup] at hrun
          obtain ⟨⟨rc₁, mon₁⟩, hinit, hrun⟩ := Option.bind_eq_some_iff.mp hrun
          have hset := (initModules_spec hinit).2
          have hsame : mon.update = mon₁.update := by
            dsimp only at hrun
            split at hrun
            · obtain ⟨-, rfl⟩ := Prod.mk.inj (Option.some.inj hrun)
              rfl
            · obtain ⟨-, rfl⟩ := Prod.mk.inj (Option.some.inj hrun)
              rfl
          rw [hsame, hset.update]

/-- The backoff: over every run of an agent that has started, the counter
is the number of rejections in a row, at most 15, a first rejection neither
delays nor flushes, and any other delays by the interval times two to the
counter, which `time_t` holds; exactly when the memory of the `monikor_t`
had 0 where the counter is. -/
theorem backoff_lawful_iff (host : Host ω μ) (loaded : Option Config)
    (mem mon : Mon ω μ) (now : Timeval) (time : Int)
    (hinit : monikorInit host loaded mem = some (0, mon)) :
    (∀ ops, Lawful host [] ops (updateInit now time mon))
      ↔ mem.update.backoffCount = 0 := by
  have hcount : (updateInit now time mon).update.backoffCount
      = mem.update.backoffCount := by
    rw [← monikorInit_update hinit]
    rfl
  constructor
  · intro hlaw
    rw [← hcount]
    exact hlaw []
  · intro hzero
    refine fun ops => lawful_of_count ops [] _ ?_
    rw [hcount, hzero]
    rfl

/-- A stack that happens to hold 0. -/
theorem backoff_lawful_zero :
    ∃ mon, monikorInit Host.plain (some Config.plain) (Mon.one fun _ => true)
        = some (0, mon)
      ∧ ∀ ops, Lawful Host.plain [] ops (updateInit ⟨100, 0⟩ 100 mon) :=
  ⟨_, rfl, (backoff_lawful_iff Host.plain (some Config.plain)
    (Mon.one fun _ => true) _ ⟨100, 0⟩ 100 rfl).mpr rfl⟩

/-- A stack that holds 3: the counter is 3 before any response, so that the
first rejection delays by eight intervals. -/
theorem backoff_not_lawful :
    let mem := { Mon.one (fun _ => true) with update := ⟨3, 0⟩ }
    ∃ mon, monikorInit Host.plain (some Config.plain) mem = some (0, mon)
      ∧ ¬ ∀ ops, Lawful Host.plain [] ops (updateInit ⟨100, 0⟩ 100 mon) := by
  refine ⟨_, rfl, fun hlaw => ?_⟩
  have hcount : 3 = min updateBackoffCountMax (rejections []) := hlaw []
  exact absurd hcount (by decide)

end Monikor
