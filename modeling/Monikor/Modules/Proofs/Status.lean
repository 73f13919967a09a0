/-
What the modules make of the body of a response.

The callbacks of nginx, of apache and of the instance id parse the body of a
response that is good. Only the first looks whether there is one, so the others
need a last chunk that finds memory (`HttpTransfer.Answers`); and what they
parse is the body if nothing was lost in front of it (`HttpTransfer.Kept`).
-/
import Monikor.Modules.Apache
import Monikor.Modules.Info
import Monikor.Modules.Nginx
import Monikor.Utils.Proofs.Http

namespace Monikor

open Bytes

/-- `handle_cloud_instance_id`, on a response. -/
def cloudCallback (clock : Timeval) (mon : InfoMon) (status : HttpResponse)
    (result : Nat) : Option (Option Metric × InfoMon) :=
  handleCloudInstanceId result status.code (status.data.map cString) clock mon

/-- The response that is left is without a body, or has the chunks and a
terminator, and no callback hands NULL to a string function. -/
structure HttpTransfer.Safe (t : HttpTransfer) (r : HttpResponse) : Prop where
  data : r.data = none ∨ r.data = some (t.body ++ [0])
  nginx : ∀ clock,
    (handleServerResponse (nginxPollMetrics clock) t.code r t.result).isSome
  apache : ∀ clock,
    (handleServerResponse (apacheFetchMetrics clock) t.code r t.result).isSome
  cloud : ∀ clock mon,
    (handleServerResponse (cloudCallback clock mon) t.code r t.result).isSome

/-- Whatever memory holds, the chunks leave a safe response. -/
def HttpTransfer.LeavesSafe (t : HttpTransfer) : Prop :=
  ∀ junk, ∃ r, receiveChunks junk t.chunks newResponse = some r ∧ t.Safe r

/-- A good response has a last chunk, and that finds memory. -/
def HttpTransfer.Answers (t : HttpTransfer) : Prop :=
  t.result = curleOk → t.code = 200 → t.Filled

-- =================================================================== callbacks

variable {clock : Timeval} {mon : InfoMon} {status : HttpResponse} {result : Nat}
  {t : HttpTransfer}

theorem nginxPollMetrics_isSome :
    (nginxPollMetrics clock status result).isSome := by
  unfold nginxPollMetrics
  split
  case isTrue h =>
      obtain ⟨data, hdata⟩ := Option.ne_none_iff_exists'.mp h.2.2
      simp [hdata]
  case isFalse => rfl

/-- A callback that looks at the result and the code only is safe if a good
response has a body. -/
theorem isSome_unless_bad {α β : Type} {code : Int} {data : Option α} (b : β)
    (parse : α → β) :
    (if result ≠ curleOk ∨ code ≠ 200 then some b
        else data.bind fun a => some (parse a)).isSome
      ↔ (result = curleOk → code = 200 → data ≠ none) := by
  split
  case isTrue h =>
      apply iff_of_true rfl
      intro hok hcode
      rcases h with h | h
      · exact absurd hok h
      · exact absurd hcode h
  case isFalse h =>
      rw [not_or, not_not, not_not] at h
      cases data with
      | none => simp [h.1, h.2]
      | some a => simp

theorem apacheFetchMetrics_isSome :
    (apacheFetchMetrics clock status result).isSome
      ↔ (result = curleOk → status.code = 200 → status.data ≠ none) :=
  isSome_unless_bad _ _

theorem cloudCallback_isSome :
    (cloudCallback clock mon status result).isSome
      ↔ (result = curleOk → status.code = 200 → status.data ≠ none) := by
  have hbody : status.data.map cString ≠ none ↔ status.data ≠ none :=
    Option.map_eq_none_iff.not
  rw [← hbody]
  exact isSome_unless_bad _ _

/-- The callbacks are safe if a good response has a body. -/
theorem HttpTransfer.safe_iff (t : HttpTransfer) (r : HttpResponse) :
    t.Safe r ↔ (r.data = none ∨ r.data = some (t.body ++ [0]))
      ∧ (t.result = curleOk → t.code = 200 → r.data ≠ none) := by
  constructor
  · intro h
    exact ⟨h.data, apacheFetchMetrics_isSome.mp (h.apache ⟨0, 0⟩)⟩
  · rintro ⟨hdata, hanswers⟩
    exact ⟨hdata, fun _ => nginxPollMetrics_isSome,
      fun _ => apacheFetchMetrics_isSome.mpr hanswers,
      fun _ _ => cloudCallback_isSome.mpr hanswers⟩

-- =================================================================== transfers

/-- Memory that does not hold the first of some bytes. -/
theorem exists_junk (bytes rest : List UInt8) :
    ∃ junk, held junk bytes.length ++ rest = bytes ++ rest → bytes = [] := by
  cases bytes with
  | nil => exact ⟨fun _ => 0, fun _ => rfl⟩
  | cons b bytes =>
      refine ⟨fun _ => b + 1, fun h => ?_⟩
      rw [List.append_left_inj, held, List.length_cons, List.range_succ_eq_map,
        List.map_cons, List.cons.injEq] at h
      exact absurd h.1 (by simp)

/-- A transfer leaves a safe response, whatever memory holds, exactly if a good
one has a body and nothing is lost in front of the body. -/
theorem leavesSafe_iff (t : HttpTransfer) :
    t.LeavesSafe ↔ t.Kept ∧ t.Answers := by
  obtain ⟨lost, rest, hloses⟩ := t.exists_loses
  constructor
  case mp =>
      intro h
      constructor
      · intro before c after hchunks hc hfilled
        obtain ⟨junk, hjunk⟩ := exists_junk lost rest
        obtain ⟨r, hrun, hsafe⟩ := h junk
        obtain ⟨r', hrun', hdata, -⟩ := hloses.received junk
        obtain rfl := Option.some.inj (hrun.symm.trans hrun')
        have hblock := hdata hfilled
        rcases hsafe.data with hnone | hsome
        · rw [hnone] at hblock
          cases hblock
        · rw [hsome, hloses.body hfilled] at hblock
          have hsame := List.append_cancel_right (Option.some.inj hblock)
          have hkept := (hloses.kept hfilled).mp (hjunk hsame.symm)
          exact hkept before c after hchunks hc hfilled
      · intro hok hcode
        obtain ⟨r, hrun, hsafe⟩ := h fun _ => 0
        obtain ⟨r', hrun', -, hdata⟩ := hloses.received fun _ => 0
        obtain rfl := Option.some.inj (hrun.symm.trans hrun')
        by_contra hno
        exact ((t.safe_iff r).mp hsafe).2 hok hcode (hdata hno)
  case mpr =>
      rintro ⟨hkept, hanswers⟩ junk
      obtain ⟨r, hrun, hsome, hnone⟩ := hloses.received junk
      refine ⟨r, hrun, (t.safe_iff r).mpr ?_⟩
      by_cases hfilled : t.Filled
      case pos =>
          obtain rfl := (hloses.kept hfilled).mpr hkept
          have hdata : r.data = some (t.body ++ [0]) := by
            rw [hsome hfilled, hloses.body hfilled]
            rfl
          refine ⟨.inr hdata, fun _ _ => ?_⟩
          rw [hdata]
          exact Option.some_ne_none _
      case neg =>
          refine ⟨.inl (hnone hfilled), fun hok hcode => ?_⟩
          exact absurd (hanswers hok hcode) hfilled

/-- A good response without a body is parsed. -/
theorem not_leavesSafe :
    ¬ (HttpTransfer.mk [] curleOk 200 (by simp)).LeavesSafe := by
  intro h
  obtain ⟨r, hrun, hsafe⟩ := h fun _ => 0
  obtain rfl := Option.some.inj hrun
  exact absurd (hsafe.apache ⟨0, 0⟩) (by decide)

end Monikor
