/-
What a path finds in a configuration.

`findKey` finds the entry of a key in the chain of a mapping, and the loop
over the keys of a path finds the entry that the path leads to in the
document (`Reaches`), one mapping a key: if the keys of each mapping are
distinct there is only one, and where the path leads nowhere there is none.
What the three accessors return is then a matter of the entry's kind.
-/
import Mathlib.Data.List.Nodup
import Monikor.Config.Proofs.Parse

namespace Monikor

variable {entries sub : YamlEntries} {keys : List CString} {k : CString}
  {key v : YamlNode}

-- =================================================================== paths

theorem nul_not_mem_path (keys : List CString) :
    (0 : UInt8) ∉ [46].intercalate (keys.map (·.bytes)) := by
  induction keys with
  | nil => simp [List.intercalate]
  | cons k keys ih =>
      cases keys with
      | nil => simpa [List.intercalate] using k.nul_free
      | cons k₁ keys =>
          intro hmem
          rw [List.map_cons, List.map_cons, List.intercalate_cons_cons] at hmem
          rcases List.mem_append.mp hmem with hmem | hmem
          · rcases List.mem_append.mp hmem with hk | hdot
            · exact k.nul_free hk
            · exact absurd hdot (by decide)
          · exact ih hmem

theorem dotted_bytes (keys : List CString) :
    (dotted keys).bytes = [46].intercalate (keys.map (·.bytes)) :=
  cString_of_nul_free (nul_not_mem_path keys)

/-- The tokens of a path are its keys. -/
theorem strlFromSeparatedString_dotted (hkeys : ∀ k ∈ keys, IsPathKey k) :
    strlFromSeparatedString (dotted keys) ConfigDict.dot = keys := by
  have hsep : (fun b => decide (b ∈ ConfigDict.dot.bytes))
      = fun b : UInt8 => b == 46 := by
    funext b
    simp [ConfigDict.dot, Bool.beq_eq_decide_eq]
  have hdots : ∀ l ∈ keys.map (·.bytes), (46 : UInt8) ∉ l := by
    intro l hl
    obtain ⟨k, hk, rfl⟩ := List.mem_map.mp hl
    exact (hkeys k hk).2
  have hfilter : (keys.map (·.bytes)).filter (· ≠ []) = keys.map (·.bytes) := by
    apply List.filter_eq_self.mpr
    intro l hl
    obtain ⟨k, hk, rfl⟩ := List.mem_map.mp hl
    simpa using (hkeys k hk).1
  have hread : (keys.map (·.bytes)).map cString = keys := by
    simp [Function.comp_def, cString_bytes]
  unfold strlFromSeparatedString
  rw [dotted_bytes, hsep]
  by_cases hnil : keys = []
  · subst hnil
    rfl
  · have hsplit : ([46].intercalate (keys.map (·.bytes))).splitOnP
        (fun b : UInt8 => b == 46) = keys.map (·.bytes) :=
      List.splitOn_intercalate 46 hdots (by simpa using hnil)
    rw [hsplit, hfilter, hread]

-- ================================================================== lookup

/-- The loop over a level finds the first entry of the key, if there is
one. -/
theorem findKey_configChain (k : CString) (entries : YamlEntries) :
    (ConfigDict.findKey k (configChain entries) = .null
        ∧ ∀ e ∈ entries, e.1.string? ≠ some k)
      ∨ ∃ key v next, (key, v) ∈ entries ∧ key.string? = some k
        ∧ ConfigDict.findKey k (configChain entries)
          = .node (some k) v.configValue next := by
  induction entries with
  | nil =>
      refine Or.inl ⟨?_, by simp⟩
      simp [configChain, ConfigDict.findKey]
  | cons e entries ih =>
      obtain ⟨key, v⟩ := e
      by_cases hkey : key.string? = some k
      · refine Or.inr ⟨key, v, configChain entries, List.mem_cons_self,
          hkey, ?_⟩
        simp [configChain, ConfigDict.findKey, hkey]
      · have hskip : ConfigDict.findKey k (configChain ((key, v) :: entries))
            = ConfigDict.findKey k (configChain entries) := by
          simp [configChain, ConfigDict.findKey, hkey]
        rw [hskip]
        rcases ih with ⟨hnull, hnone⟩ | ⟨key', v', next, hmem, hk, hnode⟩
        · refine Or.inl ⟨hnull, fun e he => ?_⟩
          rcases List.mem_cons.mp he with rfl | he
          · exact hkey
          · exact hnone e he
        · exact Or.inr ⟨key', v', next, List.mem_cons_of_mem _ hmem, hk, hnode⟩

/-- The node without a key has none to find. -/
theorem findKey_configDict (k : CString) (entries : YamlEntries) :
    ConfigDict.findKey k (configDict entries)
      = ConfigDict.findKey k (configChain entries) := by
  cases entries with
  | nil =>
      simp [configDict, configChain, ConfigDict.orNew, configDictNew,
        ConfigDict.findKey]
  | cons e entries => rfl

/-- With distinct keys, a key has one value. -/
theorem value_unique {key' v' : YamlNode}
    (hnodup : (entries.map fun e => e.1.string?).Nodup)
    (hmem : (key, v) ∈ entries) (hmem' : (key', v') ∈ entries)
    (hkey : key.string? = key'.string?) : v = v' := by
  have heq := List.inj_on_of_nodup_map hnodup hmem hmem' hkey
  exact congrArg Prod.snd heq

theorem DistinctValues.of_mem (h : DistinctValues entries)
    (hmem : (key, v) ∈ entries) : v.Distinct := by
  induction entries with
  | nil => exact absurd hmem (by simp)
  | cons e entries ih =>
      obtain ⟨key', v'⟩ := e
      rcases List.mem_cons.mp hmem with heq | hmem
      · cases heq
        exact h.1
      · exact ih h.2 hmem

theorem plain_of_mem (h : plainEntries entries = true)
    (hmem : (key, v) ∈ entries) : v.plain = true := by
  induction entries with
  | nil => exact absurd hmem (by simp)
  | cons e entries ih =>
      obtain ⟨key', v'⟩ := e
      unfold plainEntries at h
      simp only [Bool.and_eq_true] at h
      rcases List.mem_cons.mp hmem with heq | hmem
      · cases heq
        exact h.1.2
      · exact ih h.2 hmem

/-- What a path leads to in a configuration is plain. -/
theorem Reaches.plain (hreach : Reaches entries keys v)
    (h : plainEntries entries = true) : v.plain = true := by
  induction hreach with
  | last hmem _ => exact plain_of_mem h hmem
  | step hmem _ _ ih =>
      have hsub := plain_of_mem h hmem
      exact ih hsub

/-- The loop over the keys of a path finds what the path leads to. -/
theorem Reaches.getSubdictLoop (hreach : Reaches entries keys v)
    (hdistinct : (YamlNode.mapping entries).Distinct) :
    ∃ key next, ConfigDict.getSubdictLoop keys (configDict entries)
      = .node key v.configValue next := by
  induction hreach with
  | @last entries key v k hmem hkey =>
      rcases findKey_configChain k entries with
        ⟨_, hnone⟩ | ⟨key', v', next, hmem', hkey', hnode⟩
      · exact absurd hkey (hnone _ hmem)
      · have hv : v' = v := value_unique hdistinct.1 hmem' hmem
          (hkey'.trans hkey.symm)
        refine ⟨some k, next, ?_⟩
        simp [ConfigDict.getSubdictLoop, findKey_configDict, hnode, hv]
  | @step entries sub key v k k₁ keys hmem hkey _ ih =>
      rcases findKey_configChain k entries with
        ⟨_, hnone⟩ | ⟨key', v', next, hmem', hkey', hnode⟩
      · exact absurd hkey (hnone _ hmem)
      · have hv : v' = .mapping sub :=
          value_unique hdistinct.1 hmem' hmem (hkey'.trans hkey.symm)
        obtain ⟨key₁, next₁, hloop⟩ := ih (hdistinct.2.of_mem hmem)
        refine ⟨key₁, next₁, ?_⟩
        rw [← hloop]
        subst hv
        rw [ConfigDict.getSubdictLoop, findKey_configDict, hnode]
        simp [YamlNode.configValue, configDict]

/-- And nothing where it leads nowhere. -/
theorem getSubdictLoop_null (keys : List CString) :
    ∀ (entries : YamlEntries), keys ≠ [] → (∀ v, ¬ Reaches entries keys v) →
      ConfigDict.getSubdictLoop keys (configDict entries) = .null := by
  induction keys with
  | nil => exact fun _ hnil => absurd rfl hnil
  | cons k keys ih =>
      intro entries _ hnone
      unfold ConfigDict.getSubdictLoop
      rw [findKey_configDict]
      rcases findKey_configChain k entries with
        ⟨hnull, _⟩ | ⟨key, v, next, hmem, hkey, hnode⟩
      · rw [hnull]
      · rw [hnode]
        cases keys with
        | nil => exact absurd (Reaches.last hmem hkey) (hnone v)
        | cons k₁ keys =>
            cases v with
            | scalar value => rfl
            | sequence items => rfl
            | reference =>
                simp [YamlNode.configValue, ConfigDict.getSubdictLoop,
                  ConfigDict.findKey]
            | mapping sub =>
                have hsub := ih sub (by simp) fun v hv =>
                  hnone v (Reaches.step hmem hkey hv)
                simpa [YamlNode.configValue, configDict] using hsub

-- =============================================================== accessors

/-- A path: some keys, each fit to stand in one. -/
def IsPath (keys : List CString) : Prop := keys ≠ [] ∧ ∀ k ∈ keys, IsPathKey k

theorem configDict_ne_null (entries : YamlEntries) :
    configDict entries ≠ .null := by
  cases entries with
  | nil => exact nofun
  | cons e entries => exact nofun

/-- The lookup of a path is the loop over its keys. -/
theorem getSubdict_dotted (hpath : IsPath keys) :
    (configDict entries).getSubdict
        (strlFromSeparatedString (dotted keys) ConfigDict.dot)
      = ConfigDict.getSubdictLoop keys (configDict entries) := by
  rw [strlFromSeparatedString_dotted hpath.2]
  cases h : configDict entries with
  | null => exact absurd h (configDict_ne_null entries)
  | node key value next => rfl

/-- The entries a lookup can return are those of what the path leads to. -/
theorem getSubdict_node_iff (hpath : IsPath keys)
    (hdistinct : (YamlNode.mapping entries).Distinct) {value : ConfigValue} :
    (∃ key next, (configDict entries).getSubdict
        (strlFromSeparatedString (dotted keys) ConfigDict.dot)
          = .node key value next)
      ↔ ∃ v, Reaches entries keys v ∧ v.configValue = value := by
  rw [getSubdict_dotted hpath]
  constructor
  · intro ⟨key, next, hnode⟩
    by_cases hreach : ∃ v, Reaches entries keys v
    · obtain ⟨v, hv⟩ := hreach
      obtain ⟨key', next', hnode'⟩ := hv.getSubdictLoop hdistinct
      rw [hnode'] at hnode
      exact ⟨v, hv, (ConfigDict.node.inj hnode).2.1⟩
    · have hnull := getSubdictLoop_null keys entries hpath.1
        fun v hv => hreach ⟨v, hv⟩
      rw [hnull] at hnode
      exact absurd hnode nofun
  · intro ⟨v, hv, hvalue⟩
    rw [← hvalue]
    exact hv.getSubdictLoop hdistinct

theorem configValue_eq_scalar {s : CString} :
    v.configValue = .scalar s
      ↔ ∃ value, v = .scalar value ∧ cString value = s := by
  cases v with
  | scalar value => simp [YamlNode.configValue]
  | reference => simp [YamlNode.configValue]
  | sequence items => simp [YamlNode.configValue]
  | mapping entries => simp [YamlNode.configValue]

/-- A sequence of scalars, as one. -/
theorem exists_scalars {items : List YamlNode}
    (hitems : items.all (·.isScalar) = true) :
    ∃ values : List (List UInt8), items = values.map .scalar := by
  induction items with
  | nil => exact ⟨[], rfl⟩
  | cons item items ih =>
      rw [List.all_cons, Bool.and_eq_true] at hitems
      obtain ⟨value, rfl⟩ := exists_scalar hitems.1
      obtain ⟨values, rfl⟩ := ih hitems.2
      exact ⟨value :: values, rfl⟩

theorem configValue_scalars (values : List (List UInt8)) :
    (YamlNode.sequence (values.map .scalar)).configValue
      = .list (values.map cString) := by
  simp [YamlNode.configValue, List.filterMap_map, YamlNode.string?]

theorem configValue_eq_list (hplain : v.plain = true) {l : List CString} :
    v.configValue = .list l
      ↔ ∃ values : List (List UInt8),
        v = .sequence (values.map .scalar) ∧ values.map cString = l := by
  constructor
  · intro hvalue
    cases v with
    | scalar value => exact absurd hvalue (by simp [YamlNode.configValue])
    | reference => exact absurd hvalue (by simp [YamlNode.configValue])
    | mapping entries => exact absurd hvalue (by simp [YamlNode.configValue])
    | sequence items =>
        obtain ⟨values, rfl⟩ := exists_scalars hplain
        rw [configValue_scalars] at hvalue
        exact ⟨values, rfl, ConfigValue.list.inj hvalue⟩
  · intro ⟨values, hv, hl⟩
    rw [hv, ← hl]
    exact configValue_scalars values

/-- A mapping is read in its place as it is on its own. -/
theorem configValue_eq_dict (hplain : v.plain = true) {d : ConfigDict} :
    v.configValue = .dict d
      ↔ ∃ sub, v = .mapping sub
        ∧ monikorParseConfigFile (stream (.mapping sub)) configDictNew
          = some (0, some d) := by
  cases v with
  | scalar value => simp [YamlNode.configValue]
  | reference => exact absurd hplain (by simp [YamlNode.plain])
  | sequence items => simp [YamlNode.configValue]
  | mapping sub =>
      have hsub : plainEntries sub = true := hplain
      simp [YamlNode.configValue, monikorParseConfigFile_stream, hsub,
        configDict]

namespace ConfigDict

/-- `dict->value.dict`, of an entry that is a mapping. -/
def valueDict : ConfigDict → ConfigDict
  | node _ (.dict d) _ => d
  | _ => null

theorem getScalar_eq_some {dict : ConfigDict} {path s : CString} :
    dict.getScalar path = some s
      ↔ ∃ key next, dict.getSubdict (strlFromSeparatedString path dot)
        = .node key (.scalar s) next := by
  unfold getScalar
  cases dict.getSubdict (strlFromSeparatedString path dot) with
  | null => simp
  | node key value next => cases value <;> simp

theorem getList_eq_some {dict : ConfigDict} {path : CString}
    {l : List CString} :
    dict.getList path = some l
      ↔ ∃ key next, dict.getSubdict (strlFromSeparatedString path dot)
        = .node key (.list l) next := by
  unfold getList
  cases dict.getSubdict (strlFromSeparatedString path dot) with
  | null => simp
  | node key value next => cases value <;> simp

theorem getDict_eq_some {dict d : ConfigDict} {path : CString} :
    (dict.getDict path).map valueDict = some d
      ↔ ∃ key next, dict.getSubdict (strlFromSeparatedString path dot)
        = .node key (.dict d) next := by
  unfold getDict
  cases dict.getSubdict (strlFromSeparatedString path dot) with
  | null => simp
  | node key value next => cases value <;> simp [valueDict]

end ConfigDict

-- ================================================================= meaning

/-- The configuration says what the document does: a path finds the scalar,
the strings or the mapping it leads to there, and nothing of another kind. A
mapping is found as its entry, and is what its document is read as. -/
structure Means (cfg : ConfigDict) (entries : YamlEntries) : Prop where
  scalar {keys : List CString} {s : CString} : IsPath keys →
    (cfg.getScalar (dotted keys) = some s
      ↔ ∃ value, Reaches entries keys (.scalar value) ∧ cString value = s)
  list {keys : List CString} {l : List CString} : IsPath keys →
    (cfg.getList (dotted keys) = some l
      ↔ ∃ values : List (List UInt8),
        Reaches entries keys (.sequence (values.map .scalar))
        ∧ values.map cString = l)
  dict {keys : List CString} {d : ConfigDict} : IsPath keys →
    ((cfg.getDict (dotted keys)).map (·.valueDict) = some d
      ↔ ∃ sub, Reaches entries keys (.mapping sub)
        ∧ monikorParseConfigFile (stream (.mapping sub)) configDictNew
          = some (0, some d))

theorem configDict_means (hplain : plainEntries entries = true)
    (hdistinct : (YamlNode.mapping entries).Distinct) :
    Means (configDict entries) entries where
  scalar {keys s} hpath := by
    rw [ConfigDict.getScalar_eq_some, getSubdict_node_iff hpath hdistinct]
    constructor
    · intro ⟨v, hv, hvalue⟩
      obtain ⟨value, rfl, hs⟩ := configValue_eq_scalar.mp hvalue
      exact ⟨value, hv, hs⟩
    · intro ⟨value, hv, hs⟩
      exact ⟨_, hv, configValue_eq_scalar.mpr ⟨value, rfl, hs⟩⟩
  list {keys l} hpath := by
    rw [ConfigDict.getList_eq_some, getSubdict_node_iff hpath hdistinct]
    constructor
    · intro ⟨v, hv, hvalue⟩
      obtain ⟨values, rfl, hl⟩ :=
        (configValue_eq_list (hv.plain hplain)).mp hvalue
      exact ⟨values, hv, hl⟩
    · intro ⟨values, hv, hl⟩
      exact ⟨_, hv, (configValue_eq_list (hv.plain hplain)).mpr
        ⟨values, rfl, hl⟩⟩
  dict {keys d} hpath := by
    rw [ConfigDict.getDict_eq_some, getSubdict_node_iff hpath hdistinct]
    constructor
    · intro ⟨v, hv, hvalue⟩
      obtain ⟨sub, rfl, hd⟩ := (configValue_eq_dict (hv.plain hplain)).mp hvalue
      exact ⟨sub, hv, hd⟩
    · intro ⟨sub, hv, hd⟩
      exact ⟨_, hv, (configValue_eq_dict (hv.plain hplain)).mpr ⟨sub, rfl, hd⟩⟩

/-- A document is accepted if and only if it is plain, and if its keys are
distinct the configuration says what the document does. -/
theorem monikorParseConfigFile_means (entries : YamlEntries) :
    ∃ code cfg,
      monikorParseConfigFile (stream (.mapping entries)) configDictNew
        = some (code, cfg)
      ∧ (code = 0 ↔ plainEntries entries = true)
      ∧ (code = 0 → (YamlNode.mapping entries).Distinct →
        ∃ dict, cfg = some dict ∧ Means dict entries) := by
  rw [monikorParseConfigFile_stream]
  cases hplain : plainEntries entries with
  | true =>
      refine ⟨0, some (configDict entries), by simp, by simp, ?_⟩
      intro _ hdistinct
      exact ⟨_, rfl, configDict_means hplain hdistinct⟩
  | false =>
      refine ⟨1, none, by simp, by simp, ?_⟩
      intro hcode
      exact absurd hcode (by decide)

/-- What is found is not all that the document says: a scalar is cut at a
NUL, and the dictionary of a mapping has the mapping's own key, not those in
it. -/
theorem monikorParseConfigFile_not_means :
    let doc : YamlEntries := [(.scalar [107], .scalar [97, 0, 98]),
      (.scalar [109], .mapping [(.scalar [120], .scalar [121])])]
    let k : CString := ⟨[107], by decide⟩
    let m : CString := ⟨[109], by decide⟩
    let x : CString := ⟨[120], by decide⟩
    (YamlNode.mapping doc).Distinct
      ∧ Reaches doc [k] (.scalar [97, 0, 98])
      ∧ Reaches doc [m, x] (.scalar [121])
      ∧ ∃ cfg d,
        monikorParseConfigFile (stream (.mapping doc)) configDictNew
          = some (0, some cfg)
        ∧ (cfg.getScalar (dotted [k])).map (·.bytes) = some [97]
        ∧ cfg.getDict (dotted [m]) = some d
        ∧ d.getScalar (dotted [x]) = none := by
  refine ⟨?_, .last List.mem_cons_self rfl,
    .step (List.mem_cons_of_mem _ List.mem_cons_self) rfl
      (.last List.mem_cons_self rfl), _, _, rfl, ?_, rfl, ?_⟩
  · have hkeys : cString [107] ≠ cString [109] := by decide
    simp [YamlNode.Distinct, DistinctValues, YamlNode.string?, hkeys]
  · decide
  · decide

end Monikor
