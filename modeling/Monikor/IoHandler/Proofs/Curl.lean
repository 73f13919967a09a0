/-
Every transfer that is done has its callback called once.

The easy handles of the list are those of the multi handle and those there
are (`CurlState.Holds`), so the search finds the handler of each message.
While a callback runs, its handler is unlinked and not yet freed (`held`).
-/
import Monikor.IoHandler.Curl

namespace Monikor

open Linked Machine

variable {μ ε : Type} {C : Libcurl μ ε} {D : CurlDoc C}

/-- The easy handles of some handlers. -/
def easies (xs : List (Addr × CurlHandler)) : List Addr :=
  xs.map fun x => x.2.curl

/-- What libcurl has in a state. -/
def CurlState.view (D : CurlDoc C) (s : CurlState μ) : CurlView :=
  D.view s.list.multi

/-- The list has the handlers `xs`; those of `held` are unlinked. -/
structure CurlState.Holds (D : CurlDoc C) (s : CurlState μ)
    (held xs : List (Addr × CurlHandler)) : Prop where
  list : IsDlist s.list.curl xs
  live : ∀ a, s.list.curl.node a ≠ none ↔ a ∈ (held ++ xs).map Prod.fst
  addrs : ((held ++ xs).map Prod.fst).Nodup
  handles : (s.view D).handles = (easies xs).toFinset
  easy : (s.view D).easies = (easies (held ++ xs)).toFinset
  nodup : (easies (held ++ xs)).Nodup
  callback : ∀ x ∈ xs, x.2.callback ≠ none
  count : s.count = (held ++ xs).length

variable {κ : CurlCallbacks D} {s s' : CurlState μ} {a easy : Addr}
  {v : CurlHandler} {held xs ys zs : List (Addr × CurlHandler)}
  {ends : List (Addr × Nat)}

-- =================================================================== starts

theorem startedOf_append (l r : List CurlDid) :
    startedOf (l ++ r) = startedOf l ++ startedOf r := List.filterMap_append ..

theorem endedOf_append (l r : List CurlDid) :
    endedOf (l ++ r) = endedOf l ++ endedOf r := List.filterMap_append ..

theorem calledOf_append (l r : List CurlDid) :
    calledOf (l ++ r) = calledOf l ++ calledOf r := List.filterMap_append ..

/-- What has become of the handlers `xs`, by a log: those that were started
are in `ys`, or their callback was called. -/
def Balanced (xs ys : List (Addr × CurlHandler)) (log : List CurlDid) : Prop :=
  (xs.map Prod.snd ++ startedOf log).Perm
    (ys.map Prod.snd ++ (calledOf log).map CurlCall.handler)

/-- The ends that a log has told the callbacks of. -/
def toldOf (log : List CurlDid) : List (Addr × Nat) :=
  (calledOf log).map fun c => (c.handler.curl, c.result)

theorem toldOf_append (l r : List CurlDid) :
    toldOf (l ++ r) = toldOf l ++ toldOf r := by
  unfold toldOf
  rw [calledOf_append, List.map_append]

theorem Balanced.refl (xs : List (Addr × CurlHandler)) : Balanced xs xs [] := by
  unfold Balanced
  rfl

theorem Balanced.trans {ws : List (Addr × CurlHandler)} {log rest : List CurlDid}
    (h : Balanced ws xs log) (h' : Balanced xs ys rest) :
    Balanced ws ys (log ++ rest) := by
  unfold Balanced at h h' ⊢
  rw [startedOf_append, calledOf_append, List.map_append, ← List.append_assoc]
  refine (h.append_right _).trans ?_
  rw [List.append_assoc]
  refine (List.perm_append_comm.append_left _).trans ?_
  rw [← List.append_assoc, ← List.append_assoc]
  refine (h'.append_right _).trans ?_
  rw [List.append_assoc, List.append_assoc]
  exact List.perm_append_comm.append_left _

/-- What is logged of one message. -/
def messageLog (v : CurlHandler) (result told : Nat)
    (starts : List (Addr × CurlHandler)) : List CurlDid :=
  .ended v.curl result :: .called ⟨v, told⟩
    :: starts.map fun x => .started x.2

/-- What the loop logs of the messages of `ends`, and the handlers it leaves
of `xs`; a callback is told the result of its message, if messages survive. -/
inductive Handles (κ : CurlCallbacks D) : List (Addr × CurlHandler) →
    List (Addr × Nat) → List CurlDid → List (Addr × CurlHandler) → Prop
  | nil (xs : List (Addr × CurlHandler)) : Handles κ xs [] [] xs
  | cons (t : CurlState μ) (ys : List (Addr × CurlHandler)) (a : Addr)
      (v : CurlHandler) (zs : List (Addr × CurlHandler)) (result told : Nat)
      {ends : List (Addr × Nat)} {log : List CurlDid}
      {xs : List (Addr × CurlHandler)}
      (nodup : (easies (ys ++ (a, v) :: zs)).Nodup)
      (survives : C.Survives → told = result)
      (rest : Handles κ (ys ++ zs ++ κ.starts t ⟨v, told⟩) ends log xs) :
      Handles κ (ys ++ (a, v) :: zs) ((v.curl, result) :: ends)
        (messageLog v result told (κ.starts t ⟨v, told⟩) ++ log) xs

theorem calledOf_message (v : CurlHandler) (result told : Nat)
    (starts : List (Addr × CurlHandler)) :
    calledOf (messageLog v result told starts) = [⟨v, told⟩] := by
  show ⟨v, told⟩ :: calledOf (starts.map fun x => .started x.2) = _
  unfold calledOf
  rw [List.filterMap_map]
  simp

theorem endedOf_message (v : CurlHandler) (result told : Nat)
    (starts : List (Addr × CurlHandler)) :
    endedOf (messageLog v result told starts) = [(v.curl, result)] := by
  show (v.curl, result) :: endedOf (starts.map fun x => .started x.2) = _
  unfold endedOf
  rw [List.filterMap_map]
  simp

theorem toldOf_message (v : CurlHandler) (result told : Nat)
    (starts : List (Addr × CurlHandler)) :
    toldOf (messageLog v result told starts) = [(v.curl, told)] := by
  unfold toldOf
  rw [calledOf_message]
  rfl

/-- The callbacks called are those of the messages read, in their order. -/
theorem Handles.told {log : List CurlDid} (h : Handles κ xs ends log ys) :
    endedOf log = ends ∧ (toldOf log).map Prod.fst = ends.map Prod.fst
      ∧ (C.Survives → toldOf log = ends) := by
  induction h with
  | nil xs => exact ⟨rfl, rfl, fun _ => rfl⟩
  | cons t ys a v zs result told _ hsurvives rest ih =>
      obtain ⟨hended, heasies, htold⟩ := ih
      refine ⟨?_, ?_, fun hs => ?_⟩
      · rw [endedOf_append, endedOf_message, hended]
        rfl
      · rw [toldOf_append, toldOf_message, List.map_append, heasies]
        rfl
      · rw [toldOf_append, toldOf_message, htold hs, hsurvives hs]
        rfl

instance (v : CurlView) (a : Addr) : Decidable (v.Quiet a) :=
  inferInstanceAs (Decidable (a ∉ v.ends.map Prod.fst))

/-- The transfers of the multi handle that end, once each. -/
def CurlView.finish : List (Addr × Nat) → CurlView → CurlView
  | [], v => v
  | x :: e, v =>
      if x.1 ∈ v.handles ∧ v.Quiet x.1 then
        finish e { v with ends := v.ends ++ [x] }
      else finish e v

end Monikor
