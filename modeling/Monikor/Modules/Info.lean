/-
The host id: setup_config.c takes it from the configuration, and
info_module.c from a cloud's metadata server when the configuration has
none.

`config->hostid` points into the configuration or at the buffer
`instance_id`, which is static in `set_instance_id_as_hostid` and so
outlives every configuration; it is empty when the agent starts. What a
reload does beside replacing the configuration is in Core/Mon.lean.

`none` is a dereference of NULL: the body of a response without one.
-/
import Monikor.Config.Dict
import Monikor.Send.Agent

namespace Monikor

-- ========================================================== setup_config.c

/-- What `config->hostid` points at. -/
inductive Hostid where
  | scalar (s : CString)
  | instanceId
deriving DecidableEq

/-- `monikor_config_t`, as far as the host id goes. -/
structure HostidConfig where
  fullConfig : ConfigDict
  hostid : Option Hostid

/-- The string "hostid". -/
def hostidKey : CString := ⟨[104, 111, 115, 116, 105, 100], by decide⟩

/-- The host id a configuration sets: not the empty string. -/
def ConfigDict.hostid (dict : ConfigDict) : Option CString :=
  (dict.getScalar hostidKey).filter (·.bytes ≠ [])

/-- `monikor_setup_hostid`. -/
def setupHostid (cfg : HostidConfig) : HostidConfig :=
  match cfg.fullConfig.hostid with
  | some s => { cfg with hostid := some (.scalar s) }
  | none => cfg

/-- `monikor_load_config`, on what the file parses to. -/
def loadHostidConfig (fullConfig : ConfigDict) : HostidConfig :=
  setupHostid ⟨fullConfig, none⟩

-- =========================================================== info_module.c

/-- The configuration, and the static buffer. -/
structure InfoMon where
  config : HostidConfig
  instanceId : CString

/-- The string that `strncpy` of 255 bytes and the terminator leave. -/
def CString.truncated (s : CString) : CString :=
  ⟨s.bytes.take 255, fun h => s.nul_free (List.mem_of_mem_take h)⟩

/-- `set_instance_id_as_hostid`. -/
def setInstanceIdAsHostid (mon : InfoMon) (id : CString) : InfoMon :=
  if id.strlen ≠ 0 ∧ id ≠ mon.instanceId then
    let mon := { mon with instanceId := id.truncated }
    if mon.config.hostid = none then
      { mon with config := { mon.config with hostid := some .instanceId } }
    else mon
  else mon

/-- The string "sysinfo.cloud.instance_id". -/
def instanceIdName : CString :=
  ⟨[115, 121, 115, 105, 110, 102, 111, 46, 99, 108, 111, 117, 100, 46,
    105, 110, 115, 116, 97, 110, 99, 101, 95, 105, 100], by decide⟩

/-- `handle_cloud_instance_id`, at a time: the metric handed to
`monikor_metric_push`, and the agent. -/
def handleCloudInstanceId (result : Nat) (code : Int) (data : Option CString)
    (clock : Timeval) (mon : InfoMon) : Option (Option Metric × InfoMon) :=
  if result ≠ curleOk ∨ code ≠ 200 then some (none, mon)
  else do
    let id ← data
    return (some ⟨instanceIdName, 0, clock, .string id, 0⟩,
      setInstanceIdAsHostid mon id)

-- =========================================================== reload.c, send.c

/-- `monikor_reload`; `loaded` is what the file parses to, if it can be
loaded. -/
def InfoMon.reload (loaded : Option ConfigDict) (mon : InfoMon) : InfoMon :=
  match loaded with
  | none => mon
  | some dict => { mon with config := loadHostidConfig dict }

/-- The characters `config->hostid` points at. -/
def InfoMon.hostid (mon : InfoMon) : Option CString :=
  mon.config.hostid.map fun
    | .scalar s => s
    | .instanceId => mon.instanceId

/-- The string "unknown". -/
def unknownHostid : CString :=
  ⟨[117, 110, 107, 110, 111, 119, 110], by decide⟩

/-- The host id of the header `X-Quanta-Hostid`. -/
def InfoMon.header (mon : InfoMon) : CString :=
  mon.hostid.getD unknownHostid

-- ================================================================== runs

/-- What happens to the host id: a response with an instance id, one
without, and a reload. -/
inductive InfoOp where
  | answer (id : CString) (clock : Timeval) (nonempty : id.bytes ≠ [])
  | refusal (result : Nat) (code : Int) (data : Option CString)
      (clock : Timeval) (bad : result ≠ curleOk ∨ code ≠ 200)
  | reload (loaded : Option ConfigDict)

/-- One event. -/
def InfoMon.step : InfoOp → InfoMon → Option (Option Metric × InfoMon)
  | .answer id clock _, mon =>
      handleCloudInstanceId curleOk 200 (some id) clock mon
  | .refusal result code data clock _, mon =>
      handleCloudInstanceId result code data clock mon
  | .reload loaded, mon => some (none, mon.reload loaded)

/-- The agent once it has its first configuration. -/
def InfoMon.start (dict : ConfigDict) : InfoMon :=
  ⟨loadHostidConfig dict, CString.nil⟩

end Monikor
