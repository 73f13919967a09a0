/-
info_module.c: what is polled of the host, and of the tags of the
configuration.

What is returned is the metrics that are pushed; for the cloud, also the
request that is started. A text is the bytes up to the terminator, and a
value that is cut out of it is the part of the text that is read of it. C
leaves the order of the parts of a poll open; here it is the one they are
written in. A tag fits the buffer its name is printed to (`tagName_fits`).
-/
import Monikor.Lib.Numerals
import Monikor.Lib.Search
import Monikor.Modules.Info

namespace Monikor

open Search

/-- `struct utsname`, as far as it is read. -/
structure Utsname where
  sysname : CString
  release : CString
  machine : CString
deriving DecidableEq

/-- What `monikor_read_file` and uname(2) answer. -/
structure InfoSystem where
  read : CString → Option CString
  uname : Option Utsname

-- ======================================================================= host

/-- `poll_uname`. -/
def pollUname (sys : InfoSystem) (clock : Timeval) : List Metric :=
  match sys.uname with
  | none => []
  | some name =>
      [metricString (.ofString "sysinfo.uname.kernel") clock name.sysname,
        metricString (.ofString "sysinfo.uname.kernel_version") clock
          name.release,
        metricString (.ofString "sysinfo.uname.arch") clock name.machine]

/-- `infos`: how the line of a value begins, and the name of its metric. -/
def osInfos : List (CString × CString) :=
  [(.ofString "ID=", .ofString "sysinfo.os.distribution"),
    (.ofString "VERSION_ID=", .ofString "sysinfo.os.version")]

/-- What is read of a value: if it begins with a quote, what is behind that
and in front of the last one, which may be the same. -/
def osValue (value : List UInt8) : List UInt8 :=
  if value.head? = some 34 then
    match strrchr 34 value with
    | some ([], behind) => behind
    | some (_ :: front, _) => front
    | none => value
  else value

/-- `poll_os_info`. -/
def pollOsInfo (clock : Timeval) (value : List UInt8) : List Metric :=
  match osInfos.find? fun info => info.1.bytes.isPrefixOf value with
  | none => []
  | some (osrName, name) =>
      [metricString name clock (cString (osValue (value.drop osrName.strlen)))]

/-- "/etc/os-release". -/
def osReleasePath : CString := .ofString "/etc/os-release"

/-- `poll_os`: the tokens of `strtok_r` are the lines that are not empty. -/
def pollOs (sys : InfoSystem) (clock : Timeval) : List Metric :=
  match sys.read osReleasePath with
  | none => []
  | some osrelease =>
      ((osrelease.bytes.splitOn 10).filter (· ≠ [])).flatMap (pollOsInfo clock)

/-- "/proc/uptime". -/
def uptimePath : CString := .ofString "/proc/uptime"

/-- `poll_uptime`. -/
def pollUptime (sys : InfoSystem) (clock : Timeval) : List Metric :=
  match sys.read uptimePath with
  | none => []
  | some uptime =>
      [metricInteger (.ofString "sysinfo.uptime") clock
        (Numerals.strtoull 10 uptime.bytes).1 0]

-- ====================================================================== cloud

/-- The arguments of a `monikor_http_get_with_headers`. -/
structure CloudRequest where
  url : CString
  timeout : Nat
  header : Option CString
deriving DecidableEq

/-- The request for an `AWS_INSTANCE_ID_URL`. -/
def ec2Request : CloudRequest :=
  ⟨.ofString "http://169.254.169.254/latest/meta-data/instance-id", 15, none⟩

/-- The request for a `GCE_INSTANCE_ID_URL`. -/
def gceRequest : CloudRequest :=
  ⟨.ofString "http://metadata.google.internal/computeMetadata/v1/instance/id",
    15, some (.ofString "Metadata-Flavor: Google")⟩

/-- "/sys/devices/virtual/dmi/id/bios_version". -/
def biosVersionPath : CString :=
  .ofString "/sys/devices/virtual/dmi/id/bios_version"

/-- "sysinfo.cloud.provider". -/
def providerName : CString := .ofString "sysinfo.cloud.provider"

/-- `poll_cloud`. -/
def pollCloud (sys : InfoSystem) (clock : Timeval) :
    List Metric × List CloudRequest :=
  match sys.read biosVersionPath with
  | none => ([], [])
  | some hypUuid =>
      if (strstr (CString.ofString "amazon").bytes hypUuid.bytes).isSome then
        ([metricString providerName clock (.ofString "ec2")], [ec2Request])
      else if
          (strstr (CString.ofString "Google").bytes hypUuid.bytes).isSome then
        ([metricString providerName clock (.ofString "gce")], [gceRequest])
      else ([], [])

-- ======================================================================= tags

/-- "tags". -/
def tagsKey : CString := .ofString "tags"

/-- `MONIKOR_MAX_TAG_NAME_LENGH`. -/
def maxTagNameLengh : Nat := 512

/-- "sysinfo.agent.tags.%s". -/
def tagName (key : CString) : CString := .ofString "sysinfo.agent.tags." ++ key

/-- The loop of `poll_tags`. -/
def pollTagsLoop (clock : Timeval) : ConfigDict → List Metric
  | .null => []
  | .node (some key) (.scalar value) next =>
      if maxTagNameLengh < key.strlen then pollTagsLoop clock next
      else
        metricString (tagName key) clock value :: pollTagsLoop clock next
  | .node _ _ next => pollTagsLoop clock next

/-- `poll_tags`. -/
def pollTags (fullConfig : ConfigDict) (clock : Timeval) : List Metric :=
  match fullConfig.getDict tagsKey with
  | some (.node _ (.dict tags) _) => pollTagsLoop clock tags
  | _ => []

/-- The name of a tag fits `metric_name`. -/
theorem tagName_fits {key : CString} (h : ¬ maxTagNameLengh < key.strlen) :
    (tagName key).strlen < maxTagNameLengh + 20 + 1 := by
  have hprefix : (CString.ofString "sysinfo.agent.tags.").strlen = 19 := by
    decide
  rw [tagName, CString.append_strlen, hprefix]
  omega

-- ======================================================================= runs

/-- What a call pushes, and the requests it starts. -/
abbrev InfoDid := List Metric × List CloudRequest

/-- `monikor_info_module_poll`, at a time. -/
def infoModulePoll (sys : InfoSystem) (clock : Timeval) (mon : InfoMon) :
    InfoDid :=
  let (cloud, requests) := pollCloud sys clock
  (pollUptime sys clock ++ pollUname sys clock ++ pollOs sys clock ++ cloud
      ++ pollTags mon.config.fullConfig clock,
    requests)

/-- `monikor_load_config_dict`, of the events of the file if it can be
opened. -/
def loadConfigDict (file : Option (List YamlEvent)) : Option ConfigDict := do
  let evs ← file
  match ← monikorParseConfigFile evs configDictNew with
  | (0, cfg) => cfg
  | _ => none

/-- What happens to the module: a poll, the end of a request, a reload. -/
inductive InfoEvent where
  | poll (sys : InfoSystem) (clock : Timeval)
  | response (result : Nat) (code : Int) (data : Option CString)
      (clock : Timeval)
  | reload (file : Option (List YamlEvent))

/-- One event. -/
def InfoMon.handle : InfoEvent → InfoMon → Option (InfoDid × InfoMon)
  | .poll sys clock, mon => some (infoModulePoll sys clock mon, mon)
  | .response result code data clock, mon => do
      let (pushed, mon) ← handleCloudInstanceId result code data clock mon
      return ((pushed.toList, []), mon)
  | .reload file, mon => some (([], []), mon.reload (loadConfigDict file))

end Monikor
