/-
Which address an exchange ends connected to.

While it connects, the handler has a socket for the first of the addresses
that are left. Each time the socket is writable the exchange is settled or
an address is dropped (`Connecting.writable`), so it ends where `lands` says:
at the first address that succeeds, unless one before it fails at once.
-/
import Monikor.Utils.Net

namespace Monikor

variable {α : Type} {outcome : α → Connect} {ais : List α} {ai : α}
  {handler : NetHandler α}

-- ================================================================== outcomes

/-- Sockets whose connections come to the given ends, and are good for
sending. -/
def NetSystem.ofOutcomes (outcome : α → Connect) : NetSystem α where
  connect := outcome
  sends := fun _ => true

/-- The handler waits for the response from an address. -/
structure NetHandler.ConnectedTo (handler : NetHandler α) (ai : α) : Prop where
  fd : handler.fd = some ai
  mode : handler.mode = ioHandlerRd
  callback : handler.callback = some .read

/-- The exchange reports a failure: it has no handler, or one without a
socket. -/
def NetFailed (outcome : α → Connect) (ais : List α) : Prop :=
  ∀ handler ∈ netConnected (.ofOutcomes outcome) ais, handler.fd = none

/-- An exchange ends connected to the first address that succeeds, and fails
only if none does. -/
structure FallsBack (outcome : α → Connect) (ais : List α) : Prop where
  connected : ∀ ai, ais.find? (fun ai => outcome ai = .succeeds) = some ai →
    ∃ handler ∈ netConnected (.ofOutcomes outcome) ais, handler.ConnectedTo ai
  failed : NetFailed outcome ais → ∀ ai ∈ ais, outcome ai ≠ .succeeds

/-- No address before the first that succeeds fails at once, if one
succeeds. -/
def NoneAtOnce (outcome : α → Connect) (ais : List α) : Prop :=
  .succeeds ∈ ais.map outcome →
    .failsAtOnce ∉ (ais.map outcome).takeWhile (· ≠ .succeeds)

instance (outcome : α → Connect) (ais : List α) :
    Decidable (NoneAtOnce outcome ais) :=
  inferInstanceAs (Decidable (_ → _))

/-- Where an exchange ends that works its way through addresses. -/
def lands (outcome : α → Connect) : List α → Option α
  | [] => none
  | ai :: ais =>
      match outcome ai with
      | .succeeds => some ai
      | .failsAtOnce => none
      | .failsLater => lands outcome ais

-- ================================================================== the steps

/-- The handler of a socket that is connecting to the first of the
addresses. -/
structure Connecting (outcome : α → Connect) (handler : NetHandler α) (ai : α)
    (ais : List α) : Prop where
  fd : handler.fd = some ai
  callback : handler.callback = some .connect
  aiCur : handler.aiCur = ai :: ais
  started : outcome ai ≠ .failsAtOnce

/-- The exchange is over: connected to an address, or closed. -/
def NetHandler.EndsAt (handler : NetHandler α) : Option α → Prop
  | some ai => handler.ConnectedTo ai
  | none => handler = .closed

theorem NetHandler.EndsAt.socket {last : Option α} (h : handler.EndsAt last) :
    handler.fd = last := by
  cases last with
  | none => exact congrArg NetHandler.fd h
  | some ai => exact h.fd

/-- Nothing happens to an exchange that is over. -/
theorem NetHandler.EndsAt.writable {last : Option α} (h : handler.EndsAt last)
    (sys : NetSystem α) (n : Nat) :
    (NetHandler.writable sys)^[n] handler = handler := by
  have hcallback : handler.callback ≠ some .connect := by
    cases last with
    | none =>
        obtain rfl : handler = .closed := h
        exact fun hnone => by cases hnone
    | some ai =>
        rw [h.callback]
        decide
  have hfix : handler.writable sys = handler := if_neg hcallback
  exact Function.iterate_fixed hfix n

/-- A socket whose connection succeeds is the one to read from. -/
theorem Connecting.succeeds (h : Connecting outcome handler ai ais)
    (hai : outcome ai = .succeeds) :
    (handler.writable (.ofOutcomes outcome)).ConnectedTo ai := by
  have hok : handler.connectFailed (.ofOutcomes outcome) = false := by
    simp [NetHandler.connectFailed, h.fd, NetSystem.ofOutcomes, hai]
  have hsends : handler.fd.any (NetSystem.ofOutcomes outcome).sends = true := by
    simp [h.fd, NetSystem.ofOutcomes]
  unfold NetHandler.writable handleIoConnect
  rw [if_pos h.callback, hok, if_neg Bool.false_ne_true, if_pos hsends]
  exact ⟨h.fd, rfl, rfl⟩

/-- Past a socket whose connection fails is the next address, if there is one
and it does not fail at once. -/
theorem Connecting.fails (h : Connecting outcome handler ai ais)
    (hai : outcome ai = .failsLater) :
    match ais with
    | [] => handler.writable (.ofOutcomes outcome) = .closed
    | b :: rest =>
        if outcome b = .failsAtOnce then
          handler.writable (.ofOutcomes outcome) = .closed
        else
          Connecting outcome (handler.writable (.ofOutcomes outcome)) b
            rest := by
  have hfailed : handler.connectFailed (.ofOutcomes outcome) = true := by
    simp [NetHandler.connectFailed, h.fd, NetSystem.ofOutcomes, hai]
  have htail : handler.aiCur.tail = ais := by rw [h.aiCur, List.tail_cons]
  unfold NetHandler.writable handleIoConnect
  rw [if_pos h.callback, hfailed, if_pos rfl, htail]
  cases ais with
  | nil => rfl
  | cons b rest =>
      by_cases hb : outcome b = .failsAtOnce
      · have hnone : netConnect (.ofOutcomes outcome) b = none := if_pos hb
        simp [hb, hnone]
      · have hsome : netConnect (.ofOutcomes outcome) b = some b := if_neg hb
        simp only [hb, if_false, hsome]
        exact ⟨rfl, h.callback, rfl, hb⟩

/-- The exchange ends where the addresses land, once its socket has been
writable for each of them. -/
theorem Connecting.ends :
    ∀ {ais : List α} {ai : α} {handler : NetHandler α} {n : Nat},
      Connecting outcome handler ai ais → ais.length < n →
      ((NetHandler.writable (.ofOutcomes outcome))^[n] handler).EndsAt
        (lands outcome (ai :: ais)) := by
  intro ais
  induction ais with
  | nil =>
      intro ai handler n h hn
      obtain ⟨m, rfl⟩ : ∃ m, n = m + 1 := ⟨n - 1, by omega⟩
      rw [Function.iterate_succ_apply]
      unfold lands
      cases hai : outcome ai with
      | failsAtOnce => exact absurd hai h.started
      | succeeds =>
          have hend : NetHandler.EndsAt _ (some ai) := h.succeeds hai
          rw [hend.writable]
          exact hend
      | failsLater =>
          have hend : NetHandler.EndsAt _ none := h.fails hai
          rw [hend.writable]
          exact hend
  | cons b rest ih =>
      intro ai handler n h hn
      obtain ⟨m, rfl⟩ : ∃ m, n = m + 1 := ⟨n - 1, by omega⟩
      rw [Function.iterate_succ_apply]
      unfold lands
      cases hai : outcome ai with
      | failsAtOnce => exact absurd hai h.started
      | succeeds =>
          have hend : NetHandler.EndsAt _ (some ai) := h.succeeds hai
          rw [hend.writable]
          exact hend
      | failsLater =>
          have hnext := h.fails hai
          dsimp only at hnext ⊢
          split at hnext
          case isTrue hb =>
              have hend : NetHandler.EndsAt _ none := hnext
              rw [hend.writable, lands, hb]
              exact hend
          case isFalse => exact ih hnext (by simpa using hn)

/-- What an exchange comes to. -/
theorem netConnected_lands (outcome : α → Connect) (ais : List α) :
    (∃ handler, netConnected (.ofOutcomes outcome) ais = some handler
        ∧ handler.EndsAt (lands outcome ais))
      ∨ netConnected (.ofOutcomes outcome) ais = none
        ∧ lands outcome ais = none := by
  cases ais with
  | nil => exact .inr ⟨rfl, rfl⟩
  | cons ai rest =>
      by_cases hai : outcome ai = .failsAtOnce
      · have hnone : netConnect (.ofOutcomes outcome) ai = none := if_pos hai
        refine .inr ⟨?_, by simp [lands, hai]⟩
        simp [netConnected, netExchange, hnone]
      · have hsome : netConnect (.ofOutcomes outcome) ai = some ai := if_neg hai
        have hwait : Connecting outcome
            ⟨some ai, ioHandlerWr, some .connect, ai :: rest⟩ ai rest :=
          ⟨rfl, rfl, rfl, hai⟩
        refine .inl ⟨_, ?_, hwait.ends (Nat.lt_succ_self rest.length)⟩
        simp [netConnected, netExchange, hsome]

-- ================================================================== addresses

/-- Addresses land at one that succeeds. -/
theorem lands_some (h : lands outcome ais = some ai) :
    ai ∈ ais ∧ outcome ai = .succeeds := by
  induction ais with
  | nil => cases h
  | cons b rest ih =>
      unfold lands at h
      cases hb : outcome b with
      | failsAtOnce => simp [hb] at h
      | succeeds =>
          obtain rfl : b = ai := by simpa [hb] using h
          exact ⟨by simp, hb⟩
      | failsLater =>
          obtain ⟨hmem, hai⟩ := ih (by simpa [hb] using h)
          exact ⟨List.mem_cons_of_mem b hmem, hai⟩

/-- Addresses land at the first that succeeds exactly if none before it fails
at once. -/
theorem lands_find_iff (outcome : α → Connect) (ais : List α) :
    lands outcome ais = ais.find? (fun ai => outcome ai = .succeeds)
      ↔ NoneAtOnce outcome ais := by
  unfold NoneAtOnce
  induction ais with
  | nil => simp [lands]
  | cons b rest ih =>
      unfold lands
      cases hb : outcome b with
      | succeeds => simp [hb]
      | failsLater => simpa [hb] using ih
      | failsAtOnce =>
          have hskip : (b :: rest).find? (fun ai => outcome ai = .succeeds)
              = rest.find? fun ai => outcome ai = .succeeds := by simp [hb]
          rw [hskip]
          dsimp only
          rw [eq_comm, List.find?_eq_none]
          simp [hb]

/-- The exchange falls back to the first address that succeeds exactly if no
address before it fails at once. -/
theorem fallsBack_iff (outcome : α → Connect) (ais : List α) :
    FallsBack outcome ais ↔ NoneAtOnce outcome ais := by
  rw [← lands_find_iff]
  have hends := netConnected_lands outcome ais
  constructor
  case mp =>
      intro h
      cases hfind : ais.find? (fun ai => outcome ai = .succeeds) with
      | none =>
          by_contra hne
          obtain ⟨ai, hai⟩ := Option.ne_none_iff_exists'.mp hne
          obtain ⟨hmem, hok⟩ := lands_some hai
          simpa [hok] using List.find?_eq_none.mp hfind ai hmem
      | some ai =>
          obtain ⟨handler, hrun, hconn⟩ := h.connected ai hfind
          rcases hends with ⟨handler', hrun', hend⟩ | ⟨hnone, -⟩
          · obtain rfl : handler = handler' :=
              Option.some.inj (hrun.symm.trans hrun')
            rw [← hend.socket, hconn.fd]
          · rw [hnone] at hrun
            cases hrun
  case mpr =>
      intro heq
      have hconnected : ∀ ai,
          ais.find? (fun ai => outcome ai = .succeeds) = some ai →
          ∃ handler ∈ netConnected (.ofOutcomes outcome) ais,
            handler.ConnectedTo ai := by
        intro ai hfind
        rw [heq, hfind] at hends
        rcases hends with ⟨handler, hrun, hend⟩ | ⟨-, hnone⟩
        · exact ⟨handler, hrun, hend⟩
        · cases hnone
      refine ⟨hconnected, fun hfailed ai hmem hok => ?_⟩
      have hsome : (ais.find? fun ai => outcome ai = .succeeds).isSome := by
        rw [List.find?_isSome]
        exact ⟨ai, hmem, by simpa using hok⟩
      obtain ⟨b, hb⟩ := Option.isSome_iff_exists.mp hsome
      obtain ⟨handler, hrun, hconn⟩ := hconnected b hb
      have hfd := hfailed handler hrun
      rw [hconn.fd] at hfd
      cases hfd

/-- The first of two addresses refuses at once and the second one accepts:
there is no handler. -/
theorem not_fallsBack :
    ¬ FallsBack (fun ai : Bool => if ai then .succeeds else .failsAtOnce)
      [false, true] := by
  intro h
  obtain ⟨handler, hrun, -⟩ := h.connected true rfl
  cases hrun

end Monikor
