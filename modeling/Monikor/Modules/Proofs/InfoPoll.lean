/-
What the info module polls, over whole runs.

The abstract side knows the host by its files (`PolledHost`): how long it is
up, lines of /etc/os-release that give a value for a key or say something
else, the name of a bios. It knows the configuration as the document of the
last file that could be loaded. The module, on the texts of these files and
on the events of these documents, pushes just what a host and its document
say (`PolledHost.polled`), and starts just the request of its cloud.
-/
import Monikor.Config.Proofs.Lookup
import Monikor.Lib.Simulation
import Monikor.Lib.Tagged
import Monikor.Modules.InfoPoll
import Monikor.Modules.Proofs.Info

namespace Monikor

open Machine Numerals Search

-- ===================================================================== uptime

/-- /proc/uptime: the seconds, and what is behind them. -/
structure UptimeFile where
  seconds : Figure
  behind : CString
  stops : Stops 10 behind.bytes

def UptimeFile.text (t : UptimeFile) : CString :=
  cString (t.seconds.digits ++ t.behind.bytes)

theorem UptimeFile.text_bytes (t : UptimeFile) :
    t.text.bytes = t.seconds.digits ++ t.behind.bytes := by
  apply cString_of_nul_free
  rw [List.mem_append]
  rintro (hdigit | hbehind)
  · exact t.seconds.notMem (by decide) hdigit
  · exact t.behind.nul_free hbehind

theorem UptimeFile.strtoull (t : UptimeFile) :
    (strtoull 10 t.text.bytes).1 = UInt64.ofNat t.seconds.number := by
  have hrun := strtoull_numeral [] (fun _ h => nomatch h) t.seconds.numeral
    t.seconds.fits t.stops
  rw [List.nil_append] at hrun
  rw [t.text_bytes, hrun]
  rfl

-- ================================================================= os-release

/-- The keys that are looked for. -/
inductive OsKey where
  | id
  | versionId

/-- Its entry in the table of the source. -/
def OsKey.info : OsKey → CString × CString
  | .id => (.ofString "ID=", .ofString "sysinfo.os.distribution")
  | .versionId => (.ofString "VERSION_ID=", .ofString "sysinfo.os.version")

/-- A value, in quotes or not. -/
structure OsValue where
  value : CString
  quoted : Bool
  newline : 10 ∉ value.bytes
  plain : quoted = false → value.bytes.head? ≠ some 34

def OsValue.text (v : OsValue) : List UInt8 :=
  if v.quoted then 34 :: (v.value.bytes ++ [34]) else v.value.bytes

/-- A line: a value of a key, or anything else. -/
inductive OsLine where
  | assign (key : OsKey) (v : OsValue)
  | other (bytes : List UInt8)

def OsLine.line : OsLine → List UInt8
  | .assign key v => key.info.1.bytes ++ v.text
  | .other bytes => bytes

/-- What a line says. -/
def OsLine.assignment : OsLine → Option (OsKey × CString)
  | .assign key v => some (key, v.value)
  | .other _ => none

/-- A line without a newline, which does not begin as that of a key. -/
structure OtherLine (bytes : List UInt8) : Prop where
  nul : 0 ∉ bytes
  newline : 10 ∉ bytes
  keys : ∀ info ∈ osInfos, ¬ info.1.bytes <+: bytes

/-- /etc/os-release, with or without a newline at its end. -/
structure OsRelease where
  lines : List OsLine
  plain : ∀ bytes, .other bytes ∈ lines → OtherLine bytes

def OsRelease.text (t : OsRelease) : CString :=
  cString ([10].intercalate (t.lines.map OsLine.line))

/-- The values it gives, in order. -/
def OsRelease.assignments (t : OsRelease) : List (OsKey × CString) :=
  t.lines.filterMap OsLine.assignment

/-- A value is read without its quotes. -/
theorem OsValue.read (v : OsValue) : osValue v.text = v.value.bytes := by
  cases hquoted : v.quoted with
  | true =>
      have htext : v.text = 34 :: (v.value.bytes ++ [34]) := by
        rw [OsValue.text, hquoted, if_pos rfl]
      have hlast : strrchr 34 (34 :: v.value.bytes ++ [34])
          = some (34 :: v.value.bytes, []) :=
        strrchr_append (34 :: v.value.bytes) (by simp)
      rw [htext, osValue, List.head?_cons, if_pos rfl, ← List.cons_append,
        hlast]
  | false =>
      have htext : v.text = v.value.bytes := by
        rw [OsValue.text, hquoted, if_neg Bool.false_ne_true]
      rw [htext, osValue, if_neg (v.plain hquoted)]

theorem OsKey.find (key : OsKey) (text : List UInt8) :
    (osInfos.find? fun info =>
        info.1.bytes.isPrefixOf (key.info.1.bytes ++ text))
      = some key.info := by
  have hid : (CString.ofString "ID=").bytes = [73, 68, 61] := by decide
  have hversion : (CString.ofString "VERSION_ID=").bytes
      = [86, 69, 82, 83, 73, 79, 78, 95, 73, 68, 61] := by decide
  cases key with
  | id => simp [osInfos, OsKey.info, hid]
  | versionId => simp [osInfos, OsKey.info, hid, hversion]

/-- The metric of what a line says. -/
def osMetric (clock : Timeval) (said : OsKey × CString) : Metric :=
  metricString said.1.info.2 clock said.2

theorem OsLine.polled {t : OsRelease} {l : OsLine} (hl : l ∈ t.lines)
    (clock : Timeval) :
    pollOsInfo clock l.line = l.assignment.toList.map (osMetric clock) := by
  cases l with
  | assign key v =>
      rw [OsLine.line, pollOsInfo, key.find]
      simp [CString.strlen, v.read, cString_bytes, OsLine.assignment, osMetric]
  | other bytes =>
      have hnone : (osInfos.find? fun info => info.1.bytes.isPrefixOf bytes)
          = none := by
        rw [List.find?_eq_none]
        intro info hinfo
        rw [List.isPrefixOf_iff_prefix]
        exact (t.plain bytes hl).keys info hinfo
      rw [OsLine.line, pollOsInfo, hnone]
      rfl

/-- What is neither in the key nor in the value, and no quote. -/
theorem OsLine.notMem_assign {key : OsKey} {v : OsValue} {b : UInt8}
    (hkey : b ∉ key.info.1.bytes) (hvalue : b ∉ v.value.bytes) (hb : b ≠ 34) :
    b ∉ (OsLine.assign key v).line := by
  simp only [OsLine.line, OsValue.text, List.mem_append, not_or]
  refine ⟨hkey, ?_⟩
  split
  · simp [hvalue, hb]
  · exact hvalue

theorem OsLine.newline_notMem {t : OsRelease} {l : OsLine} (hl : l ∈ t.lines) :
    10 ∉ l.line := by
  cases l with
  | assign key v =>
      have hkey : 10 ∉ key.info.1.bytes := by cases key <;> decide
      exact OsLine.notMem_assign hkey v.newline (by decide)
  | other bytes => exact (t.plain bytes hl).newline

theorem OsLine.nul_notMem {t : OsRelease} {l : OsLine} (hl : l ∈ t.lines) :
    0 ∉ l.line := by
  cases l with
  | assign key v =>
      exact OsLine.notMem_assign key.info.1.nul_free v.value.nul_free
        (by decide)
  | other bytes => exact (t.plain bytes hl).nul

theorem OsRelease.text_bytes (t : OsRelease) :
    t.text.bytes = [10].intercalate (t.lines.map OsLine.line) := by
  apply cString_of_nul_free
  apply notMem_intercalate (by decide)
  intro line hline
  obtain ⟨l, hl, rfl⟩ := List.mem_map.mp hline
  exact OsLine.nul_notMem hl

/-- A line that is empty pushes nothing. -/
theorem pollOsInfo_filter (clock : Timeval) (ls : List (List UInt8)) :
    (ls.filter (· ≠ [])).flatMap (pollOsInfo clock)
      = ls.flatMap (pollOsInfo clock) := by
  induction ls with
  | nil => rfl
  | cons l ls ih =>
      cases l with
      | nil =>
          have hempty : pollOsInfo clock [] = [] := rfl
          rw [List.filter_cons_of_neg (by simp), List.flatMap_cons, hempty, ih]
          rfl
      | cons b l =>
          rw [List.filter_cons_of_pos (by simp), List.flatMap_cons,
            List.flatMap_cons, ih]

/-- The values are pushed, in order. -/
theorem OsRelease.polled (t : OsRelease) (clock : Timeval) :
    ((t.text.bytes.splitOn 10).filter (· ≠ [])).flatMap (pollOsInfo clock)
      = t.assignments.map (osMetric clock) := by
  have hlines : ∀ l ∈ t.lines.map OsLine.line, 10 ∉ l := by
    intro line hline
    obtain ⟨l, hl, rfl⟩ := List.mem_map.mp hline
    exact OsLine.newline_notMem hl
  rw [t.text_bytes, pollOsInfo_filter, OsRelease.assignments]
  by_cases hnil : t.lines = []
  · rw [hnil]
    rfl
  · rw [List.splitOn_intercalate 10 hlines (by simpa using hnil),
      List.flatMap_map]
    have hpolled : ∀ l ∈ t.lines, pollOsInfo clock l.line
        = l.assignment.toList.map (osMetric clock) :=
      fun l hl => OsLine.polled hl clock
    rw [List.flatMap_congr hpolled, List.filterMap_eq_flatMap_toList,
      List.map_flatMap]

-- ======================================================================= host

/-- A host: its files, as far as they can be read, and its names. -/
structure PolledHost where
  uptime : Option UptimeFile
  uname : Option Utsname
  osRelease : Option OsRelease
  bios : Option CString

/-- What the system answers there. -/
def PolledHost.system (h : PolledHost) : InfoSystem where
  uname := h.uname
  read path :=
    if path = uptimePath then h.uptime.map UptimeFile.text
    else if path = osReleasePath then h.osRelease.map OsRelease.text
    else if path = biosVersionPath then h.bios
    else none

/-- The clouds that are told apart. -/
inductive Cloud where
  | ec2
  | gce
deriving DecidableEq

def Cloud.name : Cloud → CString
  | .ec2 => .ofString "ec2"
  | .gce => .ofString "gce"

def Cloud.request : Cloud → CloudRequest
  | .ec2 => ec2Request
  | .gce => gceRequest

/-- The cloud a bios is of. -/
def cloudOf (bios : CString) : Option Cloud :=
  if (CString.ofString "amazon").bytes <:+: bios.bytes then some .ec2
  else if (CString.ofString "Google").bytes <:+: bios.bytes then some .gce
  else none

/-- What there is to push about a host, and about the tags. -/
def PolledHost.metrics (h : PolledHost) (tags : List (CString × CString))
    (clock : Timeval) : List Metric :=
  h.uptime.toList.map (fun t => metricInteger (.ofString "sysinfo.uptime") clock
      (UInt64.ofNat t.seconds.number) 0)
    ++ h.uname.toList.flatMap (fun u =>
      [metricString (.ofString "sysinfo.uname.kernel") clock u.sysname,
        metricString (.ofString "sysinfo.uname.kernel_version") clock u.release,
        metricString (.ofString "sysinfo.uname.arch") clock u.machine])
    ++ h.osRelease.toList.flatMap (fun t =>
      t.assignments.map (osMetric clock))
    ++ (h.bios.bind cloudOf).toList.map (fun c =>
      metricString providerName clock c.name)
    ++ tags.map (fun tag => metricString (tagName tag.1) clock tag.2)

def PolledHost.polled (h : PolledHost) (tags : List (CString × CString))
    (clock : Timeval) : InfoDid :=
  (h.metrics tags clock, (h.bios.bind cloudOf).toList.map Cloud.request)

theorem PolledHost.pollCloud (h : PolledHost) (clock : Timeval) :
    pollCloud h.system clock
      = ((h.bios.bind cloudOf).toList.map (fun c =>
          metricString providerName clock c.name),
        (h.bios.bind cloudOf).toList.map Cloud.request) := by
  have hread : h.system.read biosVersionPath = h.bios := by
    have hne : biosVersionPath ≠ uptimePath := by decide
    have hne' : biosVersionPath ≠ osReleasePath := by decide
    simp only [PolledHost.system, if_neg hne, if_neg hne', if_pos]
  rw [Monikor.pollCloud, hread]
  cases h.bios with
  | none => rfl
  | some bios =>
      simp only [strstr_isSome, Option.bind_some, cloudOf]
      split
      · rfl
      · split <;> rfl

theorem PolledHost.pollOs (h : PolledHost) (clock : Timeval) :
    pollOs h.system clock
      = h.osRelease.toList.flatMap fun t =>
        t.assignments.map (osMetric clock) := by
  have hread : h.system.read osReleasePath
      = h.osRelease.map OsRelease.text := by
    have hne : osReleasePath ≠ uptimePath := by decide
    simp only [PolledHost.system, if_neg hne, if_pos]
  rw [Monikor.pollOs, hread]
  cases h.osRelease with
  | none => rfl
  | some t => simpa using t.polled clock

theorem PolledHost.pollUptime (h : PolledHost) (clock : Timeval) :
    pollUptime h.system clock
      = h.uptime.toList.map fun t =>
        metricInteger (.ofString "sysinfo.uptime") clock
          (UInt64.ofNat t.seconds.number) 0 := by
  have hread : h.system.read uptimePath = h.uptime.map UptimeFile.text := by
    simp only [PolledHost.system, if_pos]
  rw [Monikor.pollUptime, hread]
  cases h.uptime with
  | none => rfl
  | some t => simp [t.strtoull]

theorem PolledHost.pollUname (h : PolledHost) (clock : Timeval) :
    pollUname h.system clock
      = h.uname.toList.flatMap fun u =>
        [metricString (.ofString "sysinfo.uname.kernel") clock u.sysname,
          metricString (.ofString "sysinfo.uname.kernel_version") clock
            u.release,
          metricString (.ofString "sysinfo.uname.arch") clock u.machine] := by
  have huname : h.system.uname = h.uname := rfl
  rw [Monikor.pollUname, huname]
  cases h.uname with
  | none => rfl
  | some u => rfl

-- ======================================================================= tags

/-- The tag an entry is: a scalar under a key that is not too long. -/
def tagOf (e : YamlNode × YamlNode) : Option (CString × CString) :=
  match e.1.string?, e.2.string? with
  | some key, some value =>
      if maxTagNameLengh < key.strlen then none else some (key, value)
  | _, _ => none

/-- The tags of a document, under the first key that is theirs. -/
def tagsOf (doc : YamlEntries) : List (CString × CString) :=
  match doc.find? fun e => e.1.string? = some tagsKey with
  | some (_, .mapping entries) => entries.filterMap tagOf
  | _ => []

/-- The entry of a key is the first one. -/
theorem findKey_first (k : CString) (entries : YamlEntries) :
    ConfigDict.findKey k (configChain entries) = .null
        ∧ entries.find? (fun e => e.1.string? = some k) = none
      ∨ ∃ e next, entries.find? (fun e => e.1.string? = some k) = some e
        ∧ ConfigDict.findKey k (configChain entries)
          = .node (some k) e.2.configValue next := by
  induction entries with
  | nil => exact Or.inl ⟨by simp [configChain, ConfigDict.findKey], rfl⟩
  | cons e entries ih =>
      obtain ⟨key, v⟩ := e
      by_cases hkey : key.string? = some k
      · refine Or.inr ⟨(key, v), configChain entries, by simp [hkey], ?_⟩
        simp [configChain, ConfigDict.findKey, hkey]
      · have hskip : ConfigDict.findKey k (configChain ((key, v) :: entries))
            = ConfigDict.findKey k (configChain entries) := by
          simp [configChain, ConfigDict.findKey, hkey]
        have hfind : ((key, v) :: entries).find? (fun e => e.1.string? = some k)
            = entries.find? fun e => e.1.string? = some k := by
          simp [hkey]
        rw [hskip, hfind]
        exact ih

/-- The tags of a mapping are pushed, in order. -/
theorem pollTagsLoop_chain (clock : Timeval) (entries : YamlEntries) :
    pollTagsLoop clock (configChain entries)
      = (entries.filterMap tagOf).map fun tag =>
        metricString (tagName tag.1) clock tag.2 := by
  induction entries with
  | nil => simp [configChain, pollTagsLoop]
  | cons e entries ih =>
      obtain ⟨key, v⟩ := e
      rw [configChain, List.filterMap_cons]
      cases hkey : key.string? with
      | none => simp [pollTagsLoop, tagOf, hkey, ih]
      | some k =>
          cases v with
          | scalar value =>
              have htag : tagOf (key, .scalar value)
                  = if maxTagNameLengh < k.strlen then none
                    else some (k, cString value) := by
                rw [tagOf, hkey]
                rfl
              rw [htag, YamlNode.configValue, pollTagsLoop]
              split
              · exact ih
              · rw [List.map_cons, ih]
          | reference =>
              simp [YamlNode.configValue, pollTagsLoop, tagOf,
                YamlNode.string?, ih]
          | sequence items =>
              simp [YamlNode.configValue, pollTagsLoop, tagOf,
                YamlNode.string?, ih]
          | mapping sub =>
              simp [YamlNode.configValue, pollTagsLoop, tagOf,
                YamlNode.string?, ih]

theorem pollTagsLoop_orNew (clock : Timeval) (d : ConfigDict) :
    pollTagsLoop clock d.orNew = pollTagsLoop clock d := by
  cases d with
  | null => simp [ConfigDict.orNew, configDictNew, pollTagsLoop]
  | node key value next => rfl

/-- The tags of a document are pushed, in order. -/
theorem pollTags_configDict (doc : YamlEntries) (clock : Timeval) :
    pollTags (configDict doc) clock
      = (tagsOf doc).map fun tag =>
        metricString (tagName tag.1) clock tag.2 := by
  have hpath : IsPath [tagsKey] := by
    refine ⟨by simp, fun k hk => ?_⟩
    obtain rfl := List.mem_singleton.mp hk
    decide
  have hdotted : dotted [tagsKey] = tagsKey := by decide
  have hsub : (configDict doc).getSubdict
      (strlFromSeparatedString (dotted [tagsKey]) ConfigDict.dot)
      = ConfigDict.getSubdictLoop [tagsKey] (configDict doc) :=
    getSubdict_dotted hpath
  rw [hdotted] at hsub
  unfold pollTags ConfigDict.getDict tagsOf
  rw [hsub, ConfigDict.getSubdictLoop, findKey_configDict]
  rcases findKey_first tagsKey doc with
    ⟨hnull, hnone⟩ | ⟨⟨key, v⟩, next, hfirst, hnode⟩
  · rw [hnull, hnone]
    rfl
  · rw [hnode, hfirst]
    cases v with
    | mapping sub =>
        simp only [YamlNode.configValue, if_pos, pollTagsLoop_orNew,
          pollTagsLoop_chain]
    | reference => simp [YamlNode.configValue, pollTagsLoop]
    | scalar value => simp [YamlNode.configValue]
    | sequence items => simp [YamlNode.configValue]

-- ====================================================================== loads

theorem parse_not_mapping {root : YamlNode} (h : ∀ es, root ≠ .mapping es) :
    monikorParseConfigFile (stream root) configDictNew = some (1, none) := by
  cases root with
  | mapping entries => exact absurd rfl (h entries)
  | reference => rfl
  | scalar value => rfl
  | sequence items =>
      simp [monikorParseConfigFile, stream, YamlNode.events, parseConfigLoop]

/-- The document that a load leaves: that of the file, if it can be opened and
holds a configuration. -/
def documentOf (file : Option YamlNode) (doc : YamlEntries) : YamlEntries :=
  match file with
  | some (.mapping entries) => if plainEntries entries then entries else doc
  | _ => doc

theorem setInstanceIdAsHostid_fullConfig (mon : InfoMon) (id : CString) :
    (setInstanceIdAsHostid mon id).config.fullConfig
      = mon.config.fullConfig := by
  unfold setInstanceIdAsHostid
  dsimp only
  split
  · split <;> rfl
  · rfl

theorem loadConfigDict_mapping (entries : YamlEntries) :
    loadConfigDict (some (stream (.mapping entries)))
      = if plainEntries entries then some (configDict entries) else none := by
  cases hplain : plainEntries entries with
  | true => simp [loadConfigDict, monikorParseConfigFile_stream, hplain]
  | false => simp [loadConfigDict, monikorParseConfigFile_stream, hplain]

theorem reload_fullConfig {mon : InfoMon} {doc : YamlEntries}
    (h : mon.config.fullConfig = configDict doc) (file : Option YamlNode) :
    (mon.reload (loadConfigDict (file.map stream))).config.fullConfig
      = configDict (documentOf file doc) := by
  cases file with
  | none => exact h
  | some root =>
      by_cases hroot : ∃ es, root = .mapping es
      · obtain ⟨es, rfl⟩ := hroot
        rw [Option.map_some, loadConfigDict_mapping, documentOf]
        split
        · exact (loadHostidConfig_hostid _).1
        · exact h
      · have hnot : ∀ es, root ≠ .mapping es := fun es he => hroot ⟨es, he⟩
        have hload : loadConfigDict (some (stream root)) = none := by
          simp [loadConfigDict, parse_not_mapping hnot]
        have hdoc : documentOf (some root) doc = doc := by
          cases root with
          | mapping es => exact absurd rfl (hnot es)
          | reference => rfl
          | scalar value => rfl
          | sequence items => rfl
        rw [Option.map_some, hload, hdoc]
        exact h

-- ======================================================================= runs

/-- What happens: a poll of a host, a cloud that tells its instance or does
not, a reload of a file if it can be opened. -/
inductive HostOp where
  | poll (host : PolledHost) (clock : Timeval)
  | answer (id : CString) (clock : Timeval)
  | refusal (result : Nat) (code : Int) (data : Option CString)
      (clock : Timeval) (bad : result ≠ curleOk ∨ code ≠ 200)
  | reload (file : Option YamlNode)

/-- What the module sees of it. -/
def HostOp.event : HostOp → InfoEvent
  | .poll host clock => .poll host.system clock
  | .answer id clock => .response curleOk 200 (some id) clock
  | .refusal result code data clock _ => .response result code data clock
  | .reload file => .reload (file.map stream)

/-- What there is to do, and the document there is then. -/
def HostOp.does : HostOp → YamlEntries → InfoDid × YamlEntries
  | .poll host clock, doc => (host.polled (tagsOf doc) clock, doc)
  | .answer id clock, doc => (([metricString instanceIdName clock id], []), doc)
  | .refusal .., doc => (([], []), doc)
  | .reload file, doc => (([], []), documentOf file doc)

theorem PolledHost.infoModulePoll (h : PolledHost) (clock : Timeval)
    {mon : InfoMon} {doc : YamlEntries}
    (hdoc : mon.config.fullConfig = configDict doc) :
    infoModulePoll h.system clock mon = h.polled (tagsOf doc) clock := by
  simp only [Monikor.infoModulePoll, h.pollCloud, h.pollUptime, h.pollUname,
    h.pollOs, hdoc, pollTags_configDict, PolledHost.polled, PolledHost.metrics]

theorem info_simulates :
    Simulates (fun mon doc => mon.config.fullConfig = configDict doc)
      (fun op => InfoMon.handle op.event) HostOp.does := by
  intro op mon doc hdoc
  cases op with
  | poll host clock =>
      refine ⟨mon, ?_, hdoc⟩
      simp only [HostOp.event, InfoMon.handle, HostOp.does,
        host.infoModulePoll clock hdoc]
  | answer id clock =>
      have hkept := setInstanceIdAsHostid_fullConfig mon id
      exact ⟨setInstanceIdAsHostid mon id, rfl, hkept.trans hdoc⟩
  | refusal result code data clock bad =>
      refine ⟨mon, ?_, hdoc⟩
      simp only [HostOp.event, InfoMon.handle, handleCloudInstanceId,
        if_pos bad]
      rfl
  | reload file => exact ⟨_, rfl, reload_fullConfig hdoc file⟩

/-- The host and the tags, over whole runs: an agent that starts with a
configuration polls what the host and the last document say, however often it
is reloaded and whatever the clouds answer. -/
theorem info_polled (doc : YamlEntries) (hplain : plainEntries doc = true)
    (ops : List HostOp) :
    ∃ dict mon, loadConfigDict (some (stream (.mapping doc))) = some dict
      ∧ run (fun op => InfoMon.handle op.event) ops (InfoMon.start dict)
        = some ((exec HostOp.does ops doc).1, mon)
      ∧ mon.config.fullConfig = configDict (exec HostOp.does ops doc).2 := by
  have hload : loadConfigDict (some (stream (.mapping doc)))
      = some (configDict doc) := by
    rw [loadConfigDict_mapping, if_pos hplain]
  have hstart : (InfoMon.start (configDict doc)).config.fullConfig
      = configDict doc := (loadHostidConfig_hostid _).1
  obtain ⟨mon, hrun, hmon⟩ := info_simulates.run ops _ _ hstart
  exact ⟨_, mon, hload, hrun, hmon⟩

/-- A host of a cloud with an os-release, polled before and after a file that
has another tag. -/
theorem info_polled_cloud :
    let doc (tag : UInt8) : YamlEntries := [(.scalar [116, 97, 103, 115],
      .mapping [(.scalar [114], .scalar [tag])])]
    let uptime : UptimeFile := ⟨⟨[49, 50], by decide, by decide⟩,
      ⟨[46, 53, 32, 51], by decide⟩, by
        rintro b ⟨⟩
        rfl⟩
    let release : OsRelease := ⟨[.other [78, 61, 120],
      .assign .id ⟨⟨[100, 101, 98], by decide⟩, true, by decide, by decide⟩,
      .assign .versionId ⟨⟨[49, 50], by decide⟩, false, by decide,
        by decide⟩], by
        intro bytes hbytes
        obtain rfl : bytes = [78, 61, 120] := by simpa using hbytes
        exact ⟨by decide, by decide, by decide⟩⟩
    let host : PolledHost := ⟨some uptime, some ⟨.ofString "Linux",
      .ofString "6.1", .ofString "x86_64"⟩, some release,
      some (.ofString "4.2.amazon")⟩
    let ops : List HostOp := [.poll host ⟨1, 0⟩, .answer (.ofString "i-1") ⟨2, 0⟩,
      .reload (some (.mapping (doc 120))), .poll host ⟨3, 0⟩]
    ∃ dict mon, loadConfigDict (some (stream (.mapping (doc 119)))) = some dict
      ∧ run (fun op => InfoMon.handle op.event) ops (InfoMon.start dict)
        = some ((exec HostOp.does ops (doc 119)).1, mon)
      ∧ mon.config.fullConfig
        = configDict (exec HostOp.does ops (doc 119)).2 :=
  info_polled _ rfl _

end Monikor
