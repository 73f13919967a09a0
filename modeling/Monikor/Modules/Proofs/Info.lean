/-
When the cloud's instance id is still the host id after reloads.

`set_instance_id_as_hostid` takes an id for known when the static buffer
holds it. The buffer outlives the configuration that pointed at it, so
the id that was the host id before a reload is not made the host id after
it (`hostid_answer`). `InfoMon.trail` is the invariant of a run: the buffer
holds the last id answered, and the host id is unset only if a configuration
without one has been loaded since.
-/
import Mathlib.Data.List.Induction
import Monikor.Lib.Simulation
import Monikor.Modules.Info

namespace Monikor

open Machine

variable {mon : InfoMon} {dict : ConfigDict} {ops : List InfoOp}

-- ============================================================ vocabulary

/-- The id of a successful response. -/
def InfoOp.id : InfoOp → Option CString
  | .answer id _ _ => some id
  | _ => none

/-- The configuration a reload installs. -/
def InfoOp.loaded : InfoOp → Option ConfigDict
  | .reload loaded => loaded
  | _ => none

/-- The configuration in place after events, if they installed one. -/
def lastLoaded (ops : List InfoOp) : Option ConfigDict :=
  (ops.filterMap InfoOp.loaded).getLast?

/-- The host id is there and right: the configured one, or else the
instance id. -/
def InfoMon.Identified (mon : InfoMon) (id : CString) : Prop :=
  mon.hostid = some (mon.config.fullConfig.hostid.getD id.truncated)
    ∧ mon.header = mon.config.fullConfig.hostid.getD id.truncated

/-- From each successful response on, until the next one or until another
configuration is installed, the host id is there and right. -/
def StaysIdentified (dict : ConfigDict) (ops : List InfoOp) : Prop :=
  ∀ pre op id mid post, ops = pre ++ op :: (mid ++ post) → op.id = some id →
    (∀ op ∈ mid, op.id = none ∧ op.loaded = none) →
    ∃ out mon, run InfoMon.step (pre ++ op :: mid) (InfoMon.start dict)
        = some (out, mon) ∧ mon.Identified id

/-- No response repeats the id of the one before it (as far as the buffer
holds that) after a configuration without a host id has been installed
between the two. -/
def NoneRepeated (ops : List InfoOp) : Prop :=
  ∀ pre op₁ id₁ mid op₂ id₂ post d, ops = pre ++ op₁ :: (mid ++ op₂ :: post) →
    op₁.id = some id₁ → op₂.id = some id₂ → (∀ op ∈ mid, op.id = none) →
    lastLoaded mid = some d → d.hostid = none → id₂ ≠ id₁.truncated

-- ================================================================== steps

/-- What an event leaves. -/
def InfoMon.next (mon : InfoMon) : InfoOp → InfoMon
  | .answer id _ _ => setInstanceIdAsHostid mon id
  | .refusal .. => mon
  | .reload loaded => mon.reload loaded

/-- Every event goes through. -/
theorem InfoMon.step_next (op : InfoOp) (mon : InfoMon) :
    ∃ o, mon.step op = some (o, mon.next op) := by
  cases op with
  | answer id clock nonempty => exact ⟨_, rfl⟩
  | refusal result code data clock bad =>
      exact ⟨none, if_pos bad⟩
  | reload loaded => exact ⟨none, rfl⟩

/-- So does every run. -/
theorem InfoMon.run_next (ops : List InfoOp) :
    ∀ mon, ∃ out, run InfoMon.step ops mon
      = some (out, ops.foldl InfoMon.next mon) := by
  induction ops with
  | nil => exact fun mon => ⟨[], rfl⟩
  | cons op ops ih =>
      intro mon
      obtain ⟨o, hstep⟩ := InfoMon.step_next op mon
      obtain ⟨os, hrun⟩ := ih (mon.next op)
      exact ⟨o :: os, by simp [run, hstep, hrun]⟩

/-- A configuration with a host id has it in place, and one without has
the buffer, or nothing. -/
def InfoMon.Settled (mon : InfoMon) : Prop :=
  match mon.config.fullConfig.hostid with
  | some s => mon.config.hostid = some (.scalar s)
  | none => mon.config.hostid = none ∨ mon.config.hostid = some .instanceId

theorem loadHostidConfig_hostid (dict : ConfigDict) :
    (loadHostidConfig dict).fullConfig = dict
      ∧ (loadHostidConfig dict).hostid = dict.hostid.map .scalar := by
  unfold loadHostidConfig setupHostid
  cases dict.hostid with
  | none => simp
  | some s => simp

theorem settled_load (dict : ConfigDict) (buf : CString) :
    InfoMon.Settled ⟨loadHostidConfig dict, buf⟩ := by
  obtain ⟨hdict, hhostid⟩ := loadHostidConfig_hostid dict
  unfold InfoMon.Settled
  simp only [hdict, hhostid]
  cases dict.hostid with
  | none => exact .inl rfl
  | some s => rfl

/-- A response with a new id sets the host id if it is unset. -/
theorem next_new {id : CString} (hid : id.strlen ≠ 0)
    (hnew : id ≠ mon.instanceId) :
    (setInstanceIdAsHostid mon id).instanceId = id.truncated
      ∧ (setInstanceIdAsHostid mon id).config.fullConfig
        = mon.config.fullConfig
      ∧ (setInstanceIdAsHostid mon id).config.hostid
        = some (mon.config.hostid.getD .instanceId) := by
  unfold setInstanceIdAsHostid
  rw [if_pos ⟨hid, hnew⟩]
  simp only
  by_cases hunset : mon.config.hostid = none
  · rw [if_pos hunset, hunset]
    exact ⟨rfl, rfl, rfl⟩
  · obtain ⟨p, hp⟩ := Option.ne_none_iff_exists'.mp hunset
    rw [if_neg hunset, hp]
    exact ⟨rfl, rfl, rfl⟩

/-- A response with the id the buffer holds does nothing. -/
theorem next_known {id : CString} (hknown : id = mon.instanceId) :
    setInstanceIdAsHostid mon id = mon := by
  unfold setInstanceIdAsHostid
  rw [if_neg fun h => h.2 hknown]

theorem InfoMon.next_settled (op : InfoOp) (h : mon.Settled) :
    (mon.next op).Settled := by
  cases op with
  | answer id clock nonempty =>
      by_cases hknown : id = mon.instanceId
      · rw [InfoMon.next, next_known hknown]
        exact h
      · obtain ⟨-, hdict, hhostid⟩ :=
          next_new (List.length_pos_iff.mpr nonempty).ne' hknown
        unfold InfoMon.Settled InfoMon.next at *
        simp only [hdict, hhostid]
        cases hs : mon.config.fullConfig.hostid with
        | some s =>
            simp only [hs] at h ⊢
            rw [h]
            rfl
        | none =>
            simp only [hs] at h ⊢
            rcases h with h | h <;> rw [h] <;> exact .inr rfl
  | refusal result code data clock bad => exact h
  | reload loaded =>
      cases loaded with
      | none => exact h
      | some d => exact settled_load d _

theorem InfoMon.foldl_settled (ops : List InfoOp) :
    ∀ mon : InfoMon, mon.Settled → (ops.foldl InfoMon.next mon).Settled := by
  induction ops with
  | nil => exact fun mon h => h
  | cons op ops ih => exact fun mon h => ih _ (InfoMon.next_settled op h)

theorem truncated_of_le {s : CString} (h : s.strlen ≤ 255) :
    s.truncated = s :=
  CString.ext_bytes (List.take_of_length_le h)

/-- A response leaves the host id right exactly if it was set before, or
the id is not the one in the buffer. -/
theorem hostid_answer {id : CString} (hid : id.bytes ≠ [])
    (hsettled : mon.Settled) (hbuf : mon.instanceId.strlen ≤ 255) :
    (setInstanceIdAsHostid mon id).Identified id
      ↔ mon.config.hostid ≠ none ∨ id ≠ mon.instanceId := by
  have hlen : id.strlen ≠ 0 := (List.length_pos_iff.mpr hid).ne'
  by_cases hknown : id = mon.instanceId
  · rw [next_known hknown, or_iff_left (not_not.mpr hknown)]
    have htrunc : id.truncated = mon.instanceId := by
      rw [truncated_of_le (hknown ▸ hbuf), hknown]
    unfold InfoMon.Identified InfoMon.header InfoMon.hostid
    rw [htrunc]
    unfold InfoMon.Settled at hsettled
    cases hs : mon.config.fullConfig.hostid with
    | some s =>
        simp only [hs] at hsettled
        simp [hsettled]
    | none =>
        simp only [hs] at hsettled
        rcases hsettled with h | h <;> simp [h]
  · obtain ⟨hinstance, hdict, hhostid⟩ := next_new hlen hknown
    refine ⟨fun _ => .inr hknown, fun _ => ?_⟩
    unfold InfoMon.Identified InfoMon.header InfoMon.hostid
    rw [hdict, hhostid, hinstance]
    unfold InfoMon.Settled at hsettled
    cases hs : mon.config.fullConfig.hostid with
    | some s =>
        simp only [hs] at hsettled
        simp [hsettled]
    | none =>
        simp only [hs] at hsettled
        rcases hsettled with h | h <;> simp [h]

-- =================================================================== runs

theorem strlen_truncated_le (s : CString) : s.truncated.strlen ≤ 255 := by
  unfold CString.strlen CString.truncated
  rw [List.length_take]
  exact Nat.min_le_left ..

/-- A response leaves its id in the buffer. -/
theorem InfoMon.next_buffer {op : InfoOp} {id : CString} (hop : op.id = some id)
    (hbuf : mon.instanceId.strlen ≤ 255) :
    (mon.next op).instanceId = id.truncated := by
  cases op with
  | answer id' clock nonempty =>
      cases hop
      by_cases hknown : id = mon.instanceId
      · rw [InfoMon.next, next_known hknown, truncated_of_le (hknown ▸ hbuf),
          hknown]
      · exact (next_new (List.length_pos_iff.mpr nonempty).ne' hknown).1
  | refusal result code data clock bad => cases hop
  | reload loaded => cases hop

/-- Other events leave the buffer as it is, and the configuration unless
they install one. -/
theorem InfoMon.next_quiet (mon : InfoMon) {op : InfoOp}
    (hop : op.id = none) :
    (mon.next op).instanceId = mon.instanceId
      ∧ (mon.next op).config
        = (op.loaded.map loadHostidConfig).getD mon.config := by
  cases op with
  | answer id clock nonempty => cases hop
  | refusal result code data clock bad => exact ⟨rfl, rfl⟩
  | reload loaded => cases loaded <;> exact ⟨rfl, rfl⟩

theorem InfoMon.foldl_buffer_le (ops : List InfoOp) :
    ∀ mon : InfoMon, mon.instanceId.strlen ≤ 255 →
      (ops.foldl InfoMon.next mon).instanceId.strlen ≤ 255 := by
  induction ops with
  | nil => exact fun mon h => h
  | cons op ops ih =>
      intro mon h
      apply ih
      cases hid : op.id with
      | none => rwa [(InfoMon.next_quiet mon hid).1]
      | some id =>
          rw [InfoMon.next_buffer hid h]
          exact strlen_truncated_le id

theorem lastLoaded_snoc (ops : List InfoOp) (op : InfoOp) :
    lastLoaded (ops ++ [op]) = op.loaded.or (lastLoaded ops) := by
  unfold lastLoaded
  rw [List.filterMap_append]
  cases h : op.loaded with
  | none => simp [h]
  | some d => simp [h]

/-- Between two responses the buffer stays, and the configuration is the
last one installed. -/
theorem InfoMon.foldl_quiet (mid : List InfoOp) (mon : InfoMon)
    (hmid : ∀ op ∈ mid, op.id = none) :
    (mid.foldl InfoMon.next mon).instanceId = mon.instanceId
      ∧ (mid.foldl InfoMon.next mon).config
        = ((lastLoaded mid).map loadHostidConfig).getD mon.config := by
  induction mid using List.reverseRecOn with
  | nil => exact ⟨rfl, rfl⟩
  | append_singleton mid op ih =>
      obtain ⟨hinstance, hconfig⟩ := ih fun o ho => hmid o (by simp [ho])
      obtain ⟨hinstance', hconfig'⟩ := InfoMon.next_quiet
        (mid.foldl InfoMon.next mon) (hmid op (by simp))
      rw [List.foldl_append, List.foldl_cons, List.foldl_nil, lastLoaded_snoc]
      refine ⟨hinstance'.trans hinstance, ?_⟩
      rw [hconfig', hconfig]
      cases op.loaded <;> rfl

/-- The buffer holds the last id answered; if the host id is unset, a
configuration without one has been installed since. -/
def InfoMon.Trail (past : List InfoOp) (mon : InfoMon) : Prop :=
  mon.instanceId.bytes ≠ [] →
    ∃ pre op id mid, past = pre ++ op :: mid ∧ op.id = some id
      ∧ (∀ o ∈ mid, o.id = none) ∧ mon.instanceId = id.truncated
      ∧ (mon.config.hostid = none →
          ∃ d, lastLoaded mid = some d ∧ d.hostid = none)

theorem NoneRepeated.of_append {more : List InfoOp}
    (h : NoneRepeated (ops ++ more)) : NoneRepeated ops := by
  intro pre op₁ id₁ mid op₂ id₂ post d hops
  apply h pre op₁ id₁ mid op₂ id₂ (post ++ more) d
  simp [hops]

/-- In a run without repetitions, a response finds the host id set or
brings a new id. -/
theorem InfoMon.Trail.fresh {op : InfoOp} {id : CString} {past : List InfoOp}
    (htrail : mon.Trail past) (hnone : NoneRepeated (past ++ [op]))
    (hop : op.id = some id) (hid : id.bytes ≠ []) :
    mon.config.hostid ≠ none ∨ id ≠ mon.instanceId := by
  by_contra hno
  rw [not_or, not_not, not_not] at hno
  obtain ⟨hunset, rfl⟩ := hno
  obtain ⟨pre, op₁, id₁, mid, rfl, hop₁, hmid, hbuf, hlast⟩ := htrail hid
  obtain ⟨d, hd, hd'⟩ := hlast hunset
  exact hnone pre op₁ id₁ mid op _ [] d (by simp) hop₁ hop hmid hd hd' hbuf

theorem answer_nonempty {op : InfoOp} {id : CString} (hop : op.id = some id) :
    id.bytes ≠ [] := by
  cases op with
  | answer id' clock nonempty =>
      cases hop
      exact nonempty
  | refusal result code data clock bad => cases hop
  | reload loaded => cases hop

/-- One event more. -/
theorem InfoMon.trail_step {op : InfoOp} {past : List InfoOp}
    (htrail : mon.Trail past) (hbuf : mon.instanceId.strlen ≤ 255)
    (hnone : NoneRepeated (past ++ [op])) :
    (mon.next op).Trail (past ++ [op]) := by
  intro hne
  cases hop : op.id with
  | some id =>
      refine ⟨past, op, id, [], rfl, hop, by simp,
        InfoMon.next_buffer hop hbuf, ?_⟩
      intro hunset
      exfalso
      have hid := answer_nonempty hop
      have hlen : id.strlen ≠ 0 := (List.length_pos_iff.mpr hid).ne'
      have hnext : mon.next op = setInstanceIdAsHostid mon id := by
        cases op with
        | answer id' clock nonempty =>
            cases hop
            rfl
        | refusal result code data clock bad => cases hop
        | reload loaded => cases hop
      rw [hnext] at hunset
      by_cases hknown : id = mon.instanceId
      · rw [next_known hknown] at hunset
        rcases htrail.fresh hnone hop hid with h | h
        · exact h hunset
        · exact h hknown
      · rw [(next_new hlen hknown).2.2] at hunset
        cases hunset
  | none =>
      obtain ⟨hinstance, hconfig⟩ := InfoMon.next_quiet mon hop
      rw [hinstance] at hne
      obtain ⟨pre, op₁, id₁, mid, rfl, hop₁, hmid, hid₁, hlast⟩ := htrail hne
      refine ⟨pre, op₁, id₁, mid ++ [op], by simp, hop₁, ?_,
        hinstance.trans hid₁, ?_⟩
      · intro o ho
        rcases List.mem_append.mp ho with ho | ho
        · exact hmid o ho
        · rw [List.mem_singleton.mp ho, hop]
      · intro hunset
        rw [hconfig] at hunset
        rw [lastLoaded_snoc]
        cases hl : op.loaded with
        | none =>
            rw [hl] at hunset
            exact hlast hunset
        | some d =>
            rw [hl] at hunset
            refine ⟨d, rfl, ?_⟩
            rw [Option.map_some, Option.getD_some,
              (loadHostidConfig_hostid d).2, Option.map_eq_none_iff] at hunset
            exact hunset

theorem InfoMon.start_buffer (dict : ConfigDict) :
    (InfoMon.start dict).instanceId.strlen ≤ 255 := Nat.zero_le _

/-- A run without repetitions. -/
theorem InfoMon.trail (dict : ConfigDict) (ops : List InfoOp)
    (hnone : NoneRepeated ops) :
    (ops.foldl InfoMon.next (InfoMon.start dict)).Trail ops := by
  induction ops using List.reverseRecOn with
  | nil => exact fun h => absurd rfl h
  | append_singleton ops op ih =>
      rw [List.foldl_append]
      exact InfoMon.trail_step (ih hnone.of_append)
        (InfoMon.foldl_buffer_le ops _ (InfoMon.start_buffer dict)) hnone

/-- What follows a response and neither answers nor installs changes
nothing. -/
theorem InfoMon.foldl_idle (mid : List InfoOp) (mon : InfoMon)
    (hmid : ∀ op ∈ mid, op.id = none ∧ op.loaded = none) :
    mid.foldl InfoMon.next mon = mon := by
  induction mid with
  | nil => rfl
  | cons op mid ih =>
      obtain ⟨hop, hl⟩ := hmid op (List.mem_cons_self ..)
      obtain ⟨hinstance, hconfig⟩ := InfoMon.next_quiet mon hop
      rw [hl] at hconfig
      have hnext : mon.next op = mon := by
        cases hm : mon.next op
        rw [hm] at hinstance hconfig
        cases mon
        cases hinstance
        cases hconfig
        rfl
      rw [List.foldl_cons, hnext]
      exact ih fun o ho => hmid o (List.mem_cons_of_mem _ ho)

theorem InfoMon.start_settled (dict : ConfigDict) :
    (InfoMon.start dict).Settled :=
  settled_load dict _

/-- What the response at the end of a run leaves. -/
theorem hostid_after {pre : List InfoOp} {op : InfoOp} {id : CString}
    (hop : op.id = some id) :
    ((pre ++ [op]).foldl InfoMon.next (InfoMon.start dict)).Identified id
      ↔ (pre.foldl InfoMon.next (InfoMon.start dict)).config.hostid ≠ none
        ∨ id ≠ (pre.foldl InfoMon.next (InfoMon.start dict)).instanceId := by
  have hid := answer_nonempty hop
  rw [List.foldl_append, List.foldl_cons, List.foldl_nil]
  cases op with
  | answer id' clock nonempty =>
      cases hop
      exact hostid_answer hid
        (InfoMon.foldl_settled pre _ (InfoMon.start_settled dict))
        (InfoMon.foldl_buffer_le pre _ (InfoMon.start_buffer dict))
  | refusal result code data clock bad => cases hop
  | reload loaded => cases hop

/-- The cloud's host id across reloads, exactly: from every successful
response on it is there and right until the next one or another
configuration, if and only if no response repeats the id of the one
before it after a configuration without a host id has been installed
between the two. -/
theorem hostid_stays_iff (dict : ConfigDict) (ops : List InfoOp) :
    StaysIdentified dict ops ↔ NoneRepeated ops := by
  constructor
  · rintro hstays pre op₁ id₁ mid op₂ id₂ post d rfl hop₁ hop₂ hmid hd hd' rfl
    -- after the second response the id is known and the host id unset
    obtain ⟨out, mon, hrun, hmon⟩ := hstays (pre ++ op₁ :: mid) op₂ _ [] post
      (by simp) hop₂ (by simp)
    obtain ⟨out', hrun'⟩ := InfoMon.run_next (pre ++ op₁ :: mid ++ [op₂])
      (InfoMon.start dict)
    rw [hrun'] at hrun
    cases hrun
    rw [hostid_after hop₂] at hmon
    obtain ⟨hinstance, hconfig⟩ := InfoMon.foldl_quiet mid
      ((pre ++ [op₁]).foldl InfoMon.next (InfoMon.start dict)) hmid
    have hbuf : ((pre ++ [op₁]).foldl InfoMon.next
        (InfoMon.start dict)).instanceId = id₁.truncated := by
      rw [List.foldl_append]
      exact InfoMon.next_buffer hop₁
        (InfoMon.foldl_buffer_le pre _ (InfoMon.start_buffer dict))
    rw [← List.foldl_append, ← List.append_cons] at hinstance hconfig
    rw [hinstance, hbuf, hconfig, hd, Option.map_some, Option.getD_some,
      (loadHostidConfig_hostid d).2, hd'] at hmon
    simp at hmon
  · rintro hnone pre op id mid post rfl hop hmid
    obtain ⟨out, hrun⟩ := InfoMon.run_next (pre ++ op :: mid)
      (InfoMon.start dict)
    refine ⟨out, _, hrun, ?_⟩
    rw [List.append_cons, List.foldl_append, InfoMon.foldl_idle mid _ hmid,
      hostid_after hop]
    rw [← List.cons_append, ← List.append_assoc, List.append_cons,
      List.append_assoc] at hnone
    exact InfoMon.Trail.fresh
      (InfoMon.trail dict pre hnone.of_append.of_append) hnone.of_append hop
      (answer_nonempty hop)

/-- The instance id "i-1". -/
def instanceOne : CString := ⟨[105, 45, 49], by decide⟩

/-- The id, a reload without a host id, and the same id again: the header
says "unknown". -/
theorem hostid_lost :
    let answer := InfoOp.answer instanceOne ⟨1, 0⟩ (by decide)
    let ops := [answer, .reload (some configDictNew), answer]
    (∃ out mon, run InfoMon.step ops (InfoMon.start configDictNew)
        = some (out, mon) ∧ mon.hostid = none ∧ mon.header = unknownHostid)
      ∧ ¬ StaysIdentified configDictNew ops := by
  intro answer ops
  have hrun : ∃ out mon, run InfoMon.step ops (InfoMon.start configDictNew)
      = some (out, mon) ∧ mon.hostid = none ∧ mon.header = unknownHostid :=
    ⟨_, _, rfl, rfl, rfl⟩
  refine ⟨hrun, ?_⟩
  intro hstays
  obtain ⟨out, mon, hrun, hunset, -⟩ := hrun
  obtain ⟨out', mon', hrun', hset, -⟩ := hstays
    [answer, .reload (some configDictNew)] answer instanceOne [] [] rfl rfl
    (by simp)
  have hsame : some (out, mon) = some (out', mon') := hrun.symm.trans hrun'
  cases hsame
  rw [hunset] at hset
  cases hset

end Monikor
