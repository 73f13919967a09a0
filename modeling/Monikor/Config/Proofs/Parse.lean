/-
What the parser makes of a document.

Each parsing function, given the events of a node and whatever follows,
either takes just these and returns what the node stands for
(`configValue`), or fails, and it is the node that decides (`plain`). The
proof is one induction over the node, a case a parsing function; the fuel
is the number of the node's events.
-/
import Monikor.Config.Document

namespace Monikor

/-- The node a mapping is made in stays without a key if there is no
entry. -/
def ConfigDict.orNew : ConfigDict → ConfigDict
  | .null => configDictNew
  | d => d

mutual

/-- The value a node is read as. -/
def YamlNode.configValue : YamlNode → ConfigValue
  | .reference => .dict .null
  | .scalar value => .scalar (cString value)
  | .sequence items => .list (items.filterMap (·.string?))
  | .mapping entries => .dict (configChain entries).orNew

/-- The entries of a mapping, as a chain. -/
def configChain : List (YamlNode × YamlNode) → ConfigDict
  | [] => .null
  | (key, value) :: entries =>
      .node key.string? value.configValue (configChain entries)

end

/-- What a mapping is read as. -/
def configDict (entries : YamlEntries) : ConfigDict :=
  (configChain entries).orNew

variable {fuel : Nat} {rest : List YamlEvent} {entries : YamlEntries}

/-- A key that is no scalar starts with an event that is neither a scalar nor
the end of a mapping. -/
theorem events_of_not_scalar {key : YamlNode} (h : key.isScalar = false) :
    ∃ ev evs, key.events = ev :: evs ∧ ev ≠ .mappingEnd
      ∧ ∀ value, ev ≠ .scalar value := by
  cases key with
  | reference => exact ⟨_, _, rfl, by simp, by simp⟩
  | scalar value => exact absurd h (by simp [YamlNode.isScalar])
  | sequence items => exact ⟨_, _, rfl, by simp, by simp⟩
  | mapping entries => exact ⟨_, _, rfl, by simp, by simp⟩

theorem exists_scalar {key : YamlNode} (h : key.isScalar = true) :
    ∃ value, key = .scalar value := by
  cases key with
  | scalar value => exact ⟨value, rfl⟩
  | reference => exact absurd h (by simp [YamlNode.isScalar])
  | sequence items => exact absurd h (by simp [YamlNode.isScalar])
  | mapping entries => exact absurd h (by simp [YamlNode.isScalar])

theorem events_pos (v : YamlNode) : 1 ≤ v.events.length := by
  cases v with
  | reference => simp [YamlNode.events]
  | scalar value => simp [YamlNode.events]
  | sequence items => simp [YamlNode.events]
  | mapping entries => simp [YamlNode.events]

/-- An entry whose key is a scalar: the key, the value, and the other
entries. -/
theorem entryEvents_scalar (kb : List UInt8) (v : YamlNode)
    (entries : List (YamlNode × YamlNode)) (rest : List YamlEvent) :
    entryEvents ((.scalar kb, v) :: entries) ++ rest
      = .scalar kb :: (v.events ++ (entryEvents entries ++ rest)) := by
  simp [entryEvents, YamlNode.events]

theorem entryEvents_scalar_length (kb : List UInt8) (v : YamlNode)
    (entries : List (YamlNode × YamlNode)) :
    (entryEvents ((.scalar kb, v) :: entries)).length
      = 1 + v.events.length + (entryEvents entries).length := by
  simp only [entryEvents, YamlNode.events, List.length_append,
    List.length_singleton]

/-- Such an event is an error for both loops of `config_parse_mapping`. -/
theorem configParseMapping_bad {ev : YamlEvent} {evs : List YamlEvent}
    {dict : ConfigDict} (hend : ev ≠ .mappingEnd)
    (hscalar : ∀ value, ev ≠ .scalar value) :
    configParseMapping (fuel + 1) (ev :: evs) dict = some .error := by
  cases ev <;> simp_all [configParseMapping]

theorem configParseMappingLoop_bad {ev : YamlEvent} {evs : List YamlEvent}
    {elm : ConfigDict} (hend : ev ≠ .mappingEnd)
    (hscalar : ∀ value, ev ≠ .scalar value) :
    configParseMappingLoop (fuel + 1) (ev :: evs) elm = some .error := by
  cases ev <;> simp_all [configParseMappingLoop]

/-- `config_parse_list` on the events of items. -/
theorem configParseList_items (rest : List YamlEvent)
    (items : List YamlNode) :
    ∀ list, configParseList (itemEvents items ++ .sequenceEnd :: rest) list
      = if items.all (·.isScalar)
        then .ok (list ++ items.filterMap (·.string?)) rest else .error := by
  induction items with
  | nil => simp [itemEvents, configParseList]
  | cons item items ih =>
      intro list
      cases item with
      | scalar value =>
          simp [itemEvents, YamlNode.events, configParseList, ih, strlPush,
            YamlNode.isScalar, YamlNode.string?]
      | reference =>
          simp [itemEvents, YamlNode.events, configParseList,
            YamlNode.isScalar]
      | sequence items =>
          simp [itemEvents, YamlNode.events, configParseList,
            YamlNode.isScalar]
      | mapping entries =>
          simp [itemEvents, YamlNode.events, configParseList,
            YamlNode.isScalar]

mutual

/-- `config_parse_key` on the events of a value. -/
theorem configParseKey_events : (v : YamlNode) →
    ∀ (fuel : Nat) (rest : List YamlEvent) (key : CString) (dict : ConfigDict),
      v.events.length ≤ fuel →
      configParseKey fuel (v.events ++ rest) key dict
        = some (if v.plain then .ok (dict.setEntry key v.configValue) rest
          else .error)
  | .reference, fuel, rest, key, dict, hfuel => by
      obtain ⟨fuel, rfl⟩ := Nat.exists_eq_add_of_le'
        ((events_pos _).trans hfuel)
      simp [YamlNode.events, configParseKey, YamlNode.plain]
  | .scalar value, fuel, rest, key, dict, hfuel => by
      obtain ⟨fuel, rfl⟩ := Nat.exists_eq_add_of_le'
        ((events_pos _).trans hfuel)
      simp [YamlNode.events, configParseKey, YamlNode.plain,
        YamlNode.configValue]
  | .sequence items, fuel, rest, key, dict, hfuel => by
      obtain ⟨fuel, rfl⟩ := Nat.exists_eq_add_of_le'
        ((events_pos _).trans hfuel)
      have hlist := configParseList_items rest items []
      cases hall : items.all (·.isScalar) with
      | true =>
          simp [YamlNode.events, configParseKey, hlist, hall, YamlNode.plain,
            YamlNode.configValue]
      | false =>
          simp [YamlNode.events, configParseKey, hlist, hall, YamlNode.plain]
  | .mapping entries, fuel, rest, key, dict, hfuel => by
      obtain ⟨fuel, rfl⟩ := Nat.exists_eq_add_of_le'
        ((events_pos _).trans hfuel)
      have hlen : (entryEvents entries).length + 1 ≤ fuel := by
        simp [YamlNode.events] at hfuel
        omega
      have hsub := configParseMapping_events entries fuel rest hlen
      cases hall : plainEntries entries with
      | true =>
          simp [YamlNode.events, configParseKey, hsub, hall, YamlNode.plain,
            YamlNode.configValue, configDict]
      | false =>
          simp [YamlNode.events, configParseKey, hsub, hall, YamlNode.plain]

/-- `config_parse_mapping` on the events of the entries. -/
theorem configParseMapping_events : (entries : List (YamlNode × YamlNode)) →
    ∀ (fuel : Nat) (rest : List YamlEvent),
      (entryEvents entries).length + 1 ≤ fuel →
      configParseMapping fuel (entryEvents entries ++ .mappingEnd :: rest)
          configDictNew
        = some (if plainEntries entries then .ok (configDict entries) rest
          else .error)
  | [], fuel, rest, hfuel => by
      obtain ⟨fuel, rfl⟩ := Nat.exists_eq_add_of_le' (show 1 ≤ fuel by omega)
      simp [entryEvents, configParseMapping, plainEntries, configDict,
        configChain, ConfigDict.orNew]
  | (key, v) :: entries, fuel, rest, hfuel => by
      obtain ⟨fuel, rfl⟩ := Nat.exists_eq_add_of_le' (show 1 ≤ fuel by omega)
      cases hkey : key.isScalar with
      | false =>
          obtain ⟨ev, evs, hev, hend, hscalar⟩ := events_of_not_scalar hkey
          simp [entryEvents, hev, configParseMapping_bad hend hscalar,
            plainEntries, hkey]
      | true =>
          obtain ⟨kb, rfl⟩ := exists_scalar hkey
          rw [entryEvents_scalar_length] at hfuel
          rw [entryEvents_scalar]
          have hv := configParseKey_events v fuel
            (entryEvents entries ++ .mappingEnd :: rest) (cString kb)
            configDictNew (by omega)
          have hrest := configParseMappingLoop_events entries fuel rest
            (some (cString kb)) v.configValue (by omega)
          unfold configParseMapping
          cases hplain : v.plain with
          | false => simp [hv, hplain, plainEntries]
          | true =>
              simp only [hv, hplain, plainEntries, hkey, Bool.true_and,
                configDict, configChain, ConfigDict.orNew, YamlNode.string?]
              exact hrest

/-- The loop of `config_parse_mapping` on the events of further entries. -/
theorem configParseMappingLoop_events :
    (entries : List (YamlNode × YamlNode)) →
    ∀ (fuel : Nat) (rest : List YamlEvent) (key : Option CString)
      (value : ConfigValue),
      (entryEvents entries).length + 1 ≤ fuel →
      configParseMappingLoop fuel (entryEvents entries ++ .mappingEnd :: rest)
          (.node key value .null)
        = some (if plainEntries entries
          then .ok (.node key value (configChain entries)) rest else .error)
  | [], fuel, rest, key, value, hfuel => by
      obtain ⟨fuel, rfl⟩ := Nat.exists_eq_add_of_le' (show 1 ≤ fuel by omega)
      simp [entryEvents, configParseMappingLoop, plainEntries, configChain]
  | (key, v) :: entries, fuel, rest, key', value, hfuel => by
      obtain ⟨fuel, rfl⟩ := Nat.exists_eq_add_of_le' (show 1 ≤ fuel by omega)
      cases hkey : key.isScalar with
      | false =>
          obtain ⟨ev, evs, hev, hend, hscalar⟩ := events_of_not_scalar hkey
          simp [entryEvents, hev, configParseMappingLoop_bad hend hscalar,
            plainEntries, hkey]
      | true =>
          obtain ⟨kb, rfl⟩ := exists_scalar hkey
          rw [entryEvents_scalar_length] at hfuel
          rw [entryEvents_scalar]
          have hv := configParseKey_events v fuel
            (entryEvents entries ++ .mappingEnd :: rest) (cString kb)
            configDictNew (by omega)
          have hrest := configParseMappingLoop_events entries fuel rest
            (some (cString kb)) v.configValue (by omega)
          have hnew : configDictNew.setEntry (cString kb) v.configValue
              = .node (some (cString kb)) v.configValue .null := rfl
          unfold configParseMappingLoop
          cases hplain : v.plain with
          | false => simp [hv, hplain, plainEntries]
          | true =>
              cases hall : plainEntries entries with
              | true =>
                  simp [hv, hplain, plainEntries, hnew, hrest, hall,
                    configChain, ConfigDict.setNext, YamlNode.string?, hkey]
              | false => simp [hv, hplain, plainEntries, hnew, hrest, hall]

end

/-- `monikor_parse_config_file` on a document. -/
theorem monikorParseConfigFile_stream (entries : YamlEntries) :
    monikorParseConfigFile (stream (.mapping entries)) configDictNew
      = some (if plainEntries entries then (0, some (configDict entries))
        else (1, none)) := by
  have hlen : (stream (.mapping entries)).length + 1
      = (entryEvents entries).length + 3 + 4 := by
    simp [stream, YamlNode.events]
  have hmapping := configParseMapping_events entries
    ((entryEvents entries).length + 4) [.documentEnd, .streamEnd] (by omega)
  unfold monikorParseConfigFile
  rw [hlen]
  cases hplain : plainEntries entries with
  | true =>
      simp [stream, YamlNode.events, parseConfigLoop, hmapping, hplain]
  | false =>
      simp [stream, YamlNode.events, parseConfigLoop, hmapping, hplain]

end Monikor
