/-
load_all_modules.c: the modules of the agent as they are loaded, and the
tick of run.c.

`modConfig` is `monikor_load_mod_config`, `loadModule` what
`monikor_load_module` and the `init` callback make of a name and a
configuration, and `now n` what `gettimeofday` gives for the n-th module.
-/
import Monikor.Config.Setup
import Monikor.Core.Poll
import Monikor.Lib.Numerals

namespace Monikor

/-- What loading a module asks of the system. -/
structure ModHost (ω : Type) where
  modConfig : CString → Option ConfigDict
  loadModule : CString → ConfigDict → Option (Mod ω)
  now : Nat → Int

/-- The string "interval". -/
def intervalKey : CString :=
  ⟨[105, 110, 116, 101, 114, 118, 97, 108], by decide⟩

/-- The string "enabled". -/
def enabledKey : CString := ⟨[101, 110, 97, 98, 108, 101, 100], by decide⟩

/-- The string "module". -/
def moduleKey : CString := ⟨[109, 111, 100, 117, 108, 101], by decide⟩

/-- The strings "no" and "false". -/
def disabledValues : List CString :=
  [⟨[110, 111], by decide⟩, ⟨[102, 97, 108, 115, 101], by decide⟩]

variable {ω : Type} (host : ModHost ω)

/-- The interval that `set_interval_and_clock` sets: `pollInterval` is that of
`mon->config`. -/
def modInterval (pollInterval : Int32) (config : ConfigDict) : Int32 :=
  match config.getScalar intervalKey with
  | none => pollInterval
  | some interval =>
      let (value, rest) := Numerals.strtol 10 interval.bytes
      let own := Int32.ofInt value
      if rest ≠ [] ∨ own < 0 then pollInterval
      else if own > pollInterval then pollInterval
      else own

/-- `set_interval_and_clock`. -/
def setIntervalAndClock (pollInterval : Int32) (now : Int) (mod : Mod ω) :
    Mod ω :=
  let pollInterval := modInterval pollInterval mod.config
  { mod with pollInterval, lastClock := now - pollInterval.toInt }

/-- The checks of `monikor_load_one_module`: the module with its
configuration, if there is one and it is not disabled. -/
def modToLoad (name : CString) : Option (Mod ω) := do
  let config ← host.modConfig name
  let modName := (config.getScalar moduleKey).getD name
  if (config.getScalar enabledKey).any (· ∈ disabledValues) then none
  else
    let mod ← host.loadModule modName config
    return { mod with config }

/-- `monikor_load_one_module`. -/
def loadOneModule (pollInterval : Int32) (modules : List (Mod ω))
    (name : CString) : List (Mod ω) :=
  match modToLoad host name with
  | none => modules
  | some mod =>
      modules ++ [setIntervalAndClock pollInterval (host.now modules.length) mod]

/-- `monikor_load_all_modules`. -/
def loadAllModules (pollInterval : Int32) (names : List CString) :
    List (Mod ω) :=
  names.foldl (loadOneModule host pollInterval) []

/-- `monikor_info_module_load`, of the module `info`; it has no
configuration. -/
def infoModuleLoad (pollInterval : Int32) (modules : List (Mod ω))
    (info : Mod ω) : List (Mod ω) :=
  modules ++ [setIntervalAndClock pollInterval (host.now modules.length)
    { info with config := .null }]

/-- `get_tick_interval`. -/
def getTickInterval (config : IntervalConfig) (modules : List (Mod ω)) :
    Int32 :=
  modules.foldl (fun tick mod =>
      if mod.pollInterval < tick then mod.pollInterval else tick)
    (if config.updateInterval < config.pollInterval then config.updateInterval
      else config.pollInterval)

end Monikor
