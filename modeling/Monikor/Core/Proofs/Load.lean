/-
The tick of the main loop.

The settings of the configuration and the intervals of the modules are read
in two ways, `_is_number` with `atoi` and `strtol` with its end pointer, and
each of them takes for a number what is none: the empty string, 0, and a
number an `int` does not hold. `Ticks` is what the loop needs of them.
-/
import Monikor.Core.Load
import Monikor.Core.Mon

namespace Monikor

open Numerals

variable {ω : Type} {host : ModHost ω} {s : CString} {value : Option CString}
  {default poll : Int32} {config : ConfigDict}

-- ================================================================= numbers

/-- The number a whole string is, as `strtol` reads it. -/
def wholeNumber (s : CString) : Option Int :=
  (scan 10 s.bytes).bind fun n => if n.rest = [] then some n.toInt else none

/-- A positive number that an `int` holds. -/
def PositiveInt (s : CString) : Prop :=
  ∃ v ∈ wholeNumber s, 1 ≤ v ∧ v < 2 ^ 31

instance (s : CString) : Decidable (PositiveInt s) :=
  inferInstanceAs (Decidable (∃ v ∈ wholeNumber s, _))

/-- What is left of a number in an `int`, by way of `long`. -/
def narrow (v : Int) : Int := (clampLong v).bmod (2 ^ 32)

/-- Where a value is no positive number, the default takes its place. -/
def Replaced (value : Option CString) (default v : Int32) : Prop :=
  (¬ ∃ s ∈ value, PositiveInt s) → v = default

theorem isDigit_eq (b : UInt8) : isDigit b = isDigitIn 10 b := by
  rw [Bool.eq_iff_iff, isDigitIn_ten]
  simp [isDigit]

theorem isNumber_digits : isNumber (some s) = true
    ↔ ∀ b ∈ s.bytes, isDigitIn 10 b = true := by
  simp [isNumber, isDigit_eq]

/-- The digits `_is_number` lets through make the same number here and
there. -/
theorem strtol_digits (h : isNumber (some s) = true) :
    strtol s = min (2 ^ 63 - 1) (Numerals.value 10 s.bytes) := by
  have hdigits := isNumber_digits.mp h
  have htake : s.bytes.takeWhile isDigit = s.bytes := by
    rw [List.takeWhile_eq_self_iff]
    intro b hb
    rw [isDigit_eq]
    exact hdigits b hb
  have hvalue : ∀ (ds : List UInt8) (v : Nat),
      (∀ b ∈ ds, isDigitIn 10 b = true) →
      ds.foldl (fun v b => 10 * v + (b.toNat - 48)) v
        = ds.foldl (fun v b => 10 * v + digitValue b) v := by
    intro ds
    induction ds with
    | nil => exact fun _ _ => rfl
    | cons b ds ih =>
        intro v hds
        have hb : 48 ≤ b ∧ b ≤ 57 := isDigitIn_ten.mp (hds b (by simp))
        have hd : digitValue b = b.toNat - 48 := if_pos hb
        rw [List.foldl_cons, List.foldl_cons, hd]
        exact ih _ fun c hc => hds c (by simp [hc])
  unfold strtol
  rw [htake, hvalue _ _ hdigits]
  rfl

/-- `atoi` of digits. -/
theorem atoi_digits (h : isNumber (some s) = true) :
    (atoi s).toInt = narrow (Numerals.value 10 s.bytes) := by
  have hclamp : clampLong (Numerals.value 10 s.bytes)
      = (min (2 ^ 63 - 1) (Numerals.value 10 s.bytes) : Nat) := by
    unfold clampLong
    omega
  unfold atoi narrow
  rw [strtol_digits h, Int32.toInt_ofNat', hclamp]
  rfl

/-- Digits are a number, unless there are none. -/
theorem wholeNumber_digits (h : isNumber (some s) = true) :
    wholeNumber s = if s.bytes = [] then none
      else some (Numerals.value 10 s.bytes : Int) := by
  unfold wholeNumber
  split
  case isTrue hnil => simp [hnil, scan, sign, radix]
  case isFalse hne =>
      have hscan := scan_numeral [] (by simp)
        ⟨hne, isNumber_digits.mp h⟩ stops_nil
      rw [List.nil_append, List.append_nil] at hscan
      simp [hscan, Scan.toInt]

-- ================================================================ settings

/-- The positive number a setting is written as in digits, or the default. -/
def settingOf (default : Int) (value : Option CString) : Int :=
  match value with
  | none => default
  | some s =>
      if isNumber (some s) ∧ PositiveInt s then Numerals.value 10 s.bytes
      else default

/-- A setting that the default replaces when it is no positive number: it is
one, or has something else than digits, or an `int` makes -1 of it, or the
default itself. -/
def SettingOk (default : Int) (value : Option CString) : Prop :=
  ∀ s ∈ value, isNumber (some s) → PositiveInt s
    ∨ narrow (Numerals.value 10 s.bytes) = -1
    ∨ narrow (Numerals.value 10 s.bytes) = default

/-- A number that an `int` holds is narrowed to itself. -/
theorem narrow_of_fits {v : Int} (h : -2 ^ 31 ≤ v ∧ v < 2 ^ 31) :
    narrow v = v := by
  unfold narrow clampLong
  rw [show max (-2 ^ 63) (min (2 ^ 63 - 1) v) = v by omega]
  apply Int.bmod_eq_of_le <;> omega

/-- The setting of digits, whatever they are. -/
theorem intervalOr_digits (default : Int32) (h : isNumber (some s) = true) :
    (intervalOr (some s) default).toInt
      = if narrow (Numerals.value 10 s.bytes) = -1 then default.toInt
        else narrow (Numerals.value 10 s.bytes) := by
  have hget : getInterval (some s) = atoi s := by
    unfold getInterval numberOr
    exact if_pos h
  have hminus : atoi s = -1 ↔ narrow (Numerals.value 10 s.bytes) = -1 := by
    rw [← atoi_digits h, ← Int32.toInt_inj]
    rfl
  unfold intervalOr
  rw [hget]
  dsimp only
  rw [← atoi_digits h] at hminus ⊢
  split_ifs <;> simp_all

/-- Digits are a positive number or not by their value. -/
theorem positiveInt_digits (h : isNumber (some s) = true) :
    PositiveInt s ↔ 1 ≤ Numerals.value 10 s.bytes
      ∧ Numerals.value 10 s.bytes < 2 ^ 31 := by
  unfold PositiveInt
  rw [wholeNumber_digits h]
  split
  case isTrue hnil => simp [hnil]
  case isFalse =>
      simp only [Option.mem_some_iff, exists_eq_left']
      omega

theorem intervalOr_other (h : isNumber value = false) :
    intervalOr value default = default := by
  have hget : getInterval value = -1 := by
    unfold getInterval numberOr
    split
    · exact if_neg (by simp [h])
    · rfl
  unfold intervalOr
  rw [hget]
  rfl

/-- A setting that is no positive number is replaced exactly if it is one of
those the conversion leaves out. -/
theorem replaced_iff (value : Option CString) (default : Int32) :
    Replaced value default (intervalOr value default)
    ↔ SettingOk default.toInt value := by
  by_cases hnum : isNumber value = true
  case neg =>
      have hfalse : isNumber value = false := by simpa using hnum
      refine iff_of_true (fun _ => intervalOr_other hfalse) ?_
      rintro s hs hdigits
      rw [Option.mem_def] at hs
      rw [hs] at hnum
      exact absurd hdigits hnum
  case pos =>
      obtain _ | s := value
      · cases hnum
      have hset := intervalOr_digits default hnum
      unfold Replaced SettingOk
      simp only [Option.mem_some_iff, exists_eq_left', forall_eq', hnum,
        true_implies]
      rw [← Int32.toInt_inj, hset]
      split_ifs with hminus
      · simp [hminus]
      · simp only [hminus, false_or]
        tauto

/-- A setting that is replaced where it has to be is what it says. -/
theorem intervalOr_settingOf (default : Int32)
    (h : SettingOk default.toInt value) :
    (intervalOr value default).toInt = settingOf default.toInt value := by
  by_cases hnum : isNumber value = true
  case neg =>
      have hfalse : isNumber value = false := by simpa using hnum
      rw [intervalOr_other hfalse]
      obtain _ | s := value
      · rfl
      · exact (if_neg fun hs => hnum hs.1).symm
  case pos =>
      obtain _ | s := value
      · cases hnum
      have hcases := h s rfl hnum
      have hset := intervalOr_digits default hnum
      unfold settingOf
      simp only [hnum, true_and]
      rw [hset]
      by_cases hpos : PositiveInt s
      · have hfits := (positiveInt_digits hnum).mp hpos
        have hnarrow : narrow (Numerals.value 10 s.bytes)
            = Numerals.value 10 s.bytes := narrow_of_fits (by omega)
        rw [if_pos hpos, hnarrow, if_neg (by omega)]
      · rw [if_neg hpos]
        rcases hcases with h | h | h
        · exact absurd h hpos
        · exact if_pos h
        · split_ifs with hminus
          · rfl
          · exact h

theorem settingOf_pos {default : Int} (h : 1 ≤ default) :
    1 ≤ settingOf default value := by
  unfold settingOf
  split
  · exact h
  · split
    case isTrue hs =>
        have hv := (positiveInt_digits hs.1).mp hs.2
        omega
    case isFalse => exact h

-- ================================================================= modules

/-- The interval of a module is positive, at most that of the agent, and that
of the agent where the configuration of the module has no positive number
for it. -/
structure ModTicks (poll : Int32) (config : ConfigDict) (interval : Int32) :
    Prop where
  pos : 1 ≤ interval
  le : interval ≤ poll
  replaced : Replaced (config.getScalar intervalKey) poll interval

/-- An interval of a module that ticks: it is not the empty string, and if it
is a number, it is a positive one of an `int`, or an `int` makes a negative
one of it, or one that is not below the interval of the agent. -/
def ModIntervalOk (poll : Int) (config : ConfigDict) : Prop :=
  ∀ s ∈ config.getScalar intervalKey, s.bytes ≠ []
    ∧ ∀ v ∈ wholeNumber s,
      1 ≤ v ∧ v < 2 ^ 31 ∨ narrow v < 0 ∨ poll ≤ narrow v

/-- The interval of a module whose configuration has one. -/
theorem modInterval_some (hs : config.getScalar intervalKey = some s)
    (hpoll : 1 ≤ poll.toInt) :
    (modInterval poll config).toInt = match wholeNumber s with
      | none => if s.bytes = [] then 0 else poll.toInt
      | some v => if narrow v < 0 then poll.toInt
          else if poll.toInt < narrow v then poll.toInt else narrow v := by
  have hown : ∀ v : Int, (Int32.ofInt (clampLong v)).toInt = narrow v :=
    fun v => Int32.toInt_ofInt
  unfold modInterval wholeNumber
  simp only [hs, Int32.lt_iff_toInt_lt, gt_iff_lt]
  cases hscan : scan 10 s.bytes with
  | none =>
      simp only [strtol_none hscan, Option.bind_none]
      by_cases hnil : s.bytes = []
      · have hnot : ¬ poll.toInt < 0 := by omega
        simp [hnil, hnot]
      · simp [hnil]
  | some n =>
      simp only [strtol_some hscan, Option.bind_some, hown]
      by_cases hrest : n.rest = []
      case neg =>
          have hne : s.bytes ≠ [] := by
            intro hnil
            rw [hnil] at hscan
            cases hscan
          simp [hrest, hne]
      case pos =>
          have hzero : (0 : Int32).toInt = 0 := rfl
          simp only [hrest, ne_eq, not_true_eq_false, false_or, if_true, hzero]
          split_ifs
          · rfl
          · rfl
          · exact hown _

theorem modInterval_none (hs : config.getScalar intervalKey = none) :
    modInterval poll config = poll := by
  unfold modInterval
  rw [hs]

/-- A module ticks exactly if its configuration says so. -/
theorem modTicks_iff (hpoll : 1 ≤ poll.toInt) :
    ModTicks poll config (modInterval poll config)
      ↔ ModIntervalOk poll.toInt config := by
  have hticks : ModTicks poll config (modInterval poll config)
      ↔ 1 ≤ (modInterval poll config).toInt
        ∧ (modInterval poll config).toInt ≤ poll.toInt
        ∧ ((¬ ∃ s ∈ config.getScalar intervalKey, PositiveInt s) →
          (modInterval poll config).toInt = poll.toInt) :=
    ⟨fun ⟨hpos, hle, hrep⟩ => ⟨Int32.le_iff_toInt_le.mp hpos,
        Int32.le_iff_toInt_le.mp hle, fun h => congrArg Int32.toInt (hrep h)⟩,
      fun ⟨hpos, hle, hrep⟩ => ⟨Int32.le_iff_toInt_le.mpr hpos,
        Int32.le_iff_toInt_le.mpr hle, fun h => Int32.toInt_inj.mp (hrep h)⟩⟩
  rw [hticks]
  cases hs : config.getScalar intervalKey with
  | none => simp [modInterval_none hs, ModIntervalOk, hs, hpoll]
  | some s =>
      rw [modInterval_some hs hpoll]
      unfold ModIntervalOk PositiveInt
      simp only [hs, Option.mem_some_iff, exists_eq_left', forall_eq']
      cases hw : wholeNumber s with
      | none =>
          by_cases hnil : s.bytes = []
          · simp [hnil]
          · simp [hnil, hpoll]
      | some v =>
          have hne : s.bytes ≠ [] := by
            intro hnil
            simp [wholeNumber, hnil, scan, sign, radix] at hw
          simp only [Option.mem_some_iff, exists_eq_left', forall_eq', hne,
            ne_eq, not_false_iff, true_and]
          by_cases hfits : 1 ≤ v ∧ v < 2 ^ 31
          case pos =>
              have hnarrow : narrow v = v := narrow_of_fits (by omega)
              rw [hnarrow]
              refine iff_of_true ⟨?_, ?_, fun h => absurd hfits h⟩ (.inl hfits)
              · split_ifs <;> omega
              · split_ifs <;> omega
          case neg =>
              simp only [hfits, not_false_iff, true_implies, false_or]
              split_ifs <;> omega

/-- What holds of the modules a list of names loads, by the configuration each
is loaded with. -/
theorem forall_loadAllModules (host : ModHost ω) (poll : Int32)
    (P : ConfigDict → Int32 → Prop) (names : List CString) :
    (∀ mod ∈ loadAllModules host poll names, P mod.config mod.pollInterval)
      ↔ ∀ name ∈ names, ∀ mod ∈ modToLoad host name,
        P mod.config (modInterval poll mod.config) := by
  suffices hgo : ∀ modules : List (Mod ω),
      (∀ mod ∈ names.foldl (loadOneModule host poll) modules,
          P mod.config mod.pollInterval)
        ↔ (∀ mod ∈ modules, P mod.config mod.pollInterval)
          ∧ ∀ name ∈ names, ∀ mod ∈ modToLoad host name,
            P mod.config (modInterval poll mod.config) by
    simpa [loadAllModules] using hgo []
  induction names with
  | nil => simp
  | cons name names ih =>
      intro modules
      rw [List.foldl_cons, ih]
      cases hload : modToLoad host name with
      | none => simp [loadOneModule, hload]
      | some mod =>
          simp only [loadOneModule, hload, List.mem_append, or_imp,
            forall_and, forall_eq, List.mem_cons, Option.mem_some_iff, forall_eq',
            setIntervalAndClock]
          tauto

-- ==================================================================== ticks

theorem getTickInterval_pos {config : IntervalConfig} {modules : List (Mod ω)}
    (hpoll : 1 ≤ config.pollInterval) (hupdate : 1 ≤ config.updateInterval)
    (hmods : ∀ mod ∈ modules, 1 ≤ mod.pollInterval) :
    1 ≤ getTickInterval config modules := by
  have hgo : ∀ tick : Int32, 1 ≤ tick →
      1 ≤ modules.foldl (fun tick mod =>
        if mod.pollInterval < tick then mod.pollInterval else tick) tick := by
    clear hpoll hupdate
    induction modules with
    | nil => exact fun _ h => h
    | cons mod modules ih =>
        intro tick htick
        rw [List.foldl_cons]
        apply ih fun m hm => hmods m (by simp [hm])
        split
        · exact hmods mod (by simp)
        · exact htick
  apply hgo
  split
  · exact hupdate
  · exact hpoll

/-- The modules of the agent, the one for itself included. -/
def allModules (host : ModHost ω) (poll : Int32) (names : List CString)
    (info : Mod ω) : List (Mod ω) :=
  infoModuleLoad host poll (loadAllModules host poll names) info

/-- What the main loop needs of the settings, and what the settings promise:
positive intervals, a positive tick, so that the next update moves on with
every turn, and defaults for what is no positive number. -/
structure Ticks (scalar : String → Option CString) (host : ModHost ω)
    (names : List CString) (info : Mod ω) : Prop where
  poll : 1 ≤ (setupConfigInterval scalar).pollInterval
  update : 1 ≤ (setupConfigInterval scalar).updateInterval
  modules : ∀ mod ∈ allModules host (setupConfigInterval scalar).pollInterval
      names info,
    ModTicks (setupConfigInterval scalar).pollInterval mod.config
      mod.pollInterval
  tick : 1 ≤ getTickInterval (setupConfigInterval scalar)
    (allModules host (setupConfigInterval scalar).pollInterval names info)
  rises : ∀ (now : Int) (u : Update), u.nextUpdate
    < (u.advance (getTickInterval (setupConfigInterval scalar)
        (allModules host (setupConfigInterval scalar).pollInterval names
          info)).toInt now).nextUpdate
  pollReplaced : Replaced (scalar "poll_interval") defaultPollInterval
    (setupConfigInterval scalar).pollInterval
  updateReplaced : Replaced (scalar "update_interval") defaultUpdateInterval
    (setupConfigInterval scalar).updateInterval

/-- The module of the agent itself has its interval. -/
theorem modTicks_null (hpoll : 1 ≤ poll) :
    ModTicks poll .null (modInterval poll .null) := by
  have hnone : ConfigDict.null.getScalar intervalKey = none := rfl
  rw [modInterval_none hnone]
  exact ⟨hpoll, Int32.le_refl poll, fun _ => rfl⟩

theorem forall_allModules (names : List CString) (info : Mod ω)
    (hpoll : 1 ≤ poll) :
    (∀ mod ∈ allModules host poll names info,
        ModTicks poll mod.config mod.pollInterval)
      ↔ ∀ name ∈ names, ∀ mod ∈ modToLoad host name,
        ModIntervalOk poll.toInt mod.config := by
  have hloaded := forall_loadAllModules host poll (ModTicks poll) names
  simp only [modTicks_iff (Int32.le_iff_toInt_le.mp hpoll)] at hloaded
  rw [← hloaded]
  unfold allModules infoModuleLoad
  constructor
  · intro h mod hmod
    exact h mod (List.mem_append_left _ hmod)
  · intro h mod hmod
    rcases List.mem_append.mp hmod with hmod | hmod
    · exact h mod hmod
    · obtain rfl := List.mem_singleton.mp hmod
      exact modTicks_null hpoll

/-- The main loop ticks exactly if every setting and every interval of a
module that is loaded is one that a default replaces where it has to. -/
theorem ticks_iff (scalar : String → Option CString) (host : ModHost ω)
    (names : List CString) (info : Mod ω) :
    Ticks scalar host names info
      ↔ SettingOk 60 (scalar "poll_interval")
        ∧ SettingOk 30 (scalar "update_interval")
        ∧ ∀ name ∈ names, ∀ mod ∈ modToLoad host name,
          ModIntervalOk (settingOf 60 (scalar "poll_interval"))
            mod.config := by
  have hpollIff := replaced_iff (scalar "poll_interval") defaultPollInterval
  have hupdateIff :=
    replaced_iff (scalar "update_interval") defaultUpdateInterval
  constructor
  case mp =>
      intro h
      have hpollOk := hpollIff.mp h.pollReplaced
      refine ⟨hpollOk, hupdateIff.mp h.updateReplaced, ?_⟩
      have hset : (setupConfigInterval scalar).pollInterval.toInt
          = settingOf 60 (scalar "poll_interval") :=
        intervalOr_settingOf defaultPollInterval hpollOk
      rw [← hset]
      exact (forall_allModules names info h.poll).mp h.modules
  case mpr =>
      rintro ⟨hpollOk, hupdateOk, hmods⟩
      have hone : (1 : Int32).toInt = 1 := rfl
      have hpollSet : (setupConfigInterval scalar).pollInterval.toInt
          = settingOf 60 (scalar "poll_interval") :=
        intervalOr_settingOf defaultPollInterval hpollOk
      have hpoll : 1 ≤ (setupConfigInterval scalar).pollInterval := by
        rw [Int32.le_iff_toInt_le, hpollSet, hone]
        exact settingOf_pos (by decide)
      have hupdateSet : (setupConfigInterval scalar).updateInterval.toInt
          = settingOf 30 (scalar "update_interval") :=
        intervalOr_settingOf defaultUpdateInterval hupdateOk
      have hupdate : 1 ≤ (setupConfigInterval scalar).updateInterval := by
        rw [Int32.le_iff_toInt_le, hupdateSet, hone]
        exact settingOf_pos (by decide)
      rw [← hpollSet] at hmods
      have hmodules := (forall_allModules names info hpoll).mpr hmods
      have htick := getTickInterval_pos hpoll hupdate
        fun mod hmod => (hmodules mod hmod).pos
      refine ⟨hpoll, hupdate, hmodules, htick, fun now u => ?_,
        hpollIff.mpr hpollOk, hupdateIff.mpr hupdateOk⟩
      have hpos := Int32.le_iff_toInt_le.mp htick
      unfold Update.advance
      dsimp only
      split <;> omega

/-- A poll interval of "0" is a number to `_is_number`, and no default takes
its place. -/
theorem ticks_not_zero :
    let scalar : String → Option CString := fun key =>
      if key = "poll_interval" then some ⟨[48], by decide⟩ else none
    let host : ModHost Unit := ⟨fun _ => none, fun _ _ => none, fun _ => 0⟩
    ¬ Ticks scalar host [] ⟨CString.a, .null, 0, 0, fun mon => (0, mon)⟩ := by
  intro scalar host h
  exact absurd h.poll (by decide)

end Monikor
