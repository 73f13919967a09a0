/-
setup_config.c, config.c and load_all_modules.c: the names of the modules,
which are those of the files in a directory, and the files that are opened
for them.

`none` is a write through NULL. Memory is there for the names and paths, and
the directory can be opened.
-/
import Monikor.Core.Load
import Monikor.Lib.Search

namespace Monikor

open Search

/-- `MONIKOR_CONFIG_EXT`: the string ".yml". -/
def configExt : CString := .ofString ".yml"

/-- `MONIKOR_DEFAULT_MODULES_CONFIG_PATH`. -/
def defaultModulesConfigPath : CString := .ofString "/etc/monikor/mod.d"

/-- A path without the slash at its end. -/
def withoutSlash (path : CString) : CString :=
  if path.bytes.getLast? = some 47 then cString path.bytes.dropLast else path

/-- `monikor_setup_config_modules_path`: `modules.config_path`. -/
def setupConfigModulesPath (scalar : String → Option CString) : CString :=
  withoutSlash ((scalar "modules.config_path").getD defaultModulesConfigPath)

/-- `is_module_config`. -/
def isModuleConfig (name : CString) : Bool :=
  if name.strlen ≤ configExt.strlen then false
  else name.bytes.drop (name.strlen - configExt.strlen) == configExt.bytes

/-- A name up to its extension. -/
def moduleStem (name : CString) : Option CString :=
  (strstr configExt.bytes name.bytes).map fun (stem, _) => cString stem

/-- The loop of `monikor_setup_config_modules` over the entries of the
directory. -/
def setupConfigModules (entries : List CString) : Option (List CString) :=
  entries.foldlM (fun modules name =>
    if isModuleConfig name then do
      let stem ← moduleStem name
      return modules ++ [stem]
    else some modules) []

/-- The path of `monikor_load_mod_config`. -/
def modConfigPath (configPath modName : CString) : CString :=
  configPath ++ .ofString "/" ++ modName ++ configExt

variable {ω : Type}

/-- The configurations of modules from files: `files` is what
`monikor_load_config_dict` makes of a path. -/
def ModHost.fromFiles (host : ModHost ω) (configPath : CString)
    (files : CString → Option ConfigDict) : ModHost ω :=
  { host with modConfig := fun name => files (modConfigPath configPath name) }

/-- `monikor_load_one_module` after others: the files opened, and the
modules. -/
def openModule (host : ModHost ω) (configPath : CString)
    (files : CString → Option ConfigDict) (pollInterval : Int32)
    (s : List CString × List (Mod ω)) (name : CString) :
    List CString × List (Mod ω) :=
  (s.1 ++ [modConfigPath configPath name],
    loadOneModule (host.fromFiles configPath files) pollInterval s.2 name)

/-- `monikor_load_all_modules`, with the files it opens. -/
def openAllModules (host : ModHost ω) (configPath : CString)
    (files : CString → Option ConfigDict) (pollInterval : Int32)
    (names : List CString) : List CString × List (Mod ω) :=
  names.foldl (openModule host configPath files pollInterval) ([], [])

end Monikor
