/-
Which files are opened for the modules of a directory.

A name is accepted by its end and cut at the first extension in it, so what
is opened for it is a prefix of it (`reopened_prefix`): the name itself, or
a shorter one where the stem holds the extension. Since nothing that is
opened is longer than its name, the files cannot be the accepted ones in
another order.
-/
import Mathlib.Algebra.Order.BigOperators.Group.List
import Mathlib.Data.List.Nodup
import Monikor.Core.Discover

namespace Monikor

open Search

-- =============================================================== directories

/-- The names of the files in a directory. -/
structure ModuleDir where
  names : List CString
  distinct : names.Nodup

variable {ω : Type}

/-- The files that are opened for the modules, by the names in the directory of
a configuration. -/
def openedFiles (host : ModHost ω) (scalar : String → Option CString)
    (files : CString → Option ConfigDict) (pollInterval : Int32)
    (dir : ModuleDir) : Option (List CString) :=
  (setupConfigModules dir.names).map fun names =>
    (openAllModules host (setupConfigModulesPath scalar) files pollInterval
      names).1

/-- A file of the directory. -/
def dirFile (scalar : String → Option CString) (name : CString) : CString :=
  setupConfigModulesPath scalar ++ .ofString "/" ++ name

/-- Each file of the directory whose name is a stem with the extension is
opened, once, and no other one; and the name that is put together again is
that of the file. -/
structure Discovers (host : ModHost ω) (scalar : String → Option CString)
    (files : CString → Option ConfigDict) (pollInterval : Int32)
    (dir : ModuleDir) : Prop where
  opened : ∃ opened,
    openedFiles host scalar files pollInterval dir = some opened
      ∧ opened.Nodup
      ∧ ∀ path, path ∈ opened ↔ ∃ stem, stem ≠ CString.nil
        ∧ stem ++ configExt ∈ dir.names
        ∧ path = dirFile scalar (stem ++ configExt)
  identity : ∀ stem, stem ≠ CString.nil → stem ++ configExt ∈ dir.names →
    (moduleStem (stem ++ configExt)).map (· ++ configExt)
      = some (stem ++ configExt)

/-- The extension is only at the end of a name that ends with it. -/
def ModuleDir.OneExt (dir : ModuleDir) : Prop :=
  ∀ stem, stem ++ configExt ∈ dir.names →
    ¬ configExt.bytes <:+: stem.bytes

-- ===================================================================== names

variable {name stem : CString}

/-- The names that are accepted are stems with the extension. -/
theorem isModuleConfig_iff :
    isModuleConfig name = true
      ↔ ∃ stem, stem ≠ CString.nil ∧ name = stem ++ configExt := by
  have hext : configExt.strlen = 4 := rfl
  constructor
  · intro h
    unfold isModuleConfig at h
    split at h
    case isTrue => cases h
    case isFalse hlong =>
        rw [hext] at h hlong
        have hend : name.bytes.drop (name.strlen - 4) = configExt.bytes :=
          eq_of_beq h
        refine ⟨⟨name.bytes.take (name.strlen - 4), fun h0 =>
          name.nul_free (List.mem_of_mem_take h0)⟩, ?_, ?_⟩
        · intro hnil
          have hlen := congrArg CString.strlen hnil
          have hname : name.strlen = name.bytes.length := rfl
          simp only [CString.strlen, List.length_take, CString.nil,
            List.length_nil] at hlen
          omega
        · apply CString.ext_bytes
          rw [CString.append_bytes, ← hend, List.take_append_drop]
  · rintro ⟨stem, hne, rfl⟩
    have hpos : 0 < stem.strlen := by
      apply List.length_pos_of_ne_nil
      intro hnil
      exact hne (CString.ext_bytes hnil)
    have hlen : (stem ++ configExt).strlen = stem.strlen + 4 :=
      List.length_append
    have hlong : ¬ (stem ++ configExt).strlen ≤ configExt.strlen := by omega
    have hcut : (stem ++ configExt).strlen - configExt.strlen
        = stem.bytes.length := by
      rw [hlen, hext, Nat.add_sub_cancel]
      rfl
    rw [isModuleConfig, if_neg hlong, hcut, CString.append_bytes,
      List.drop_left]
    exact beq_self_eq_true _

/-- A stem without the extension is what its name is cut to. -/
theorem moduleStem_of_ext_free (h : ¬ configExt.bytes <:+: stem.bytes) :
    moduleStem (stem ++ configExt) = some stem := by
  have hfind : strstr configExt.bytes (stem ++ configExt).bytes
      = some (stem.bytes, configExt.bytes) :=
    strstr_marked (by decide) h []
  rw [moduleStem, hfind]
  exact congrArg some (cString_bytes stem)

/-- A stem that holds the extension is cut. -/
theorem moduleStem_of_ext_inside (h : configExt.bytes <:+: stem.bytes) :
    ∃ short, moduleStem (stem ++ configExt) = some short
      ∧ short.strlen < stem.strlen := by
  obtain ⟨front, rest, hstem⟩ := exists_strstr h
  obtain ⟨hsplit, hrest⟩ := strstr_some hstem
  have hfind : strstr configExt.bytes (stem ++ configExt).bytes
      = some (front, rest ++ configExt.bytes) :=
    strstr_append_right hstem configExt.bytes
  have hnul : (0 : UInt8) ∉ front := by
    intro h0
    apply stem.nul_free
    rw [hsplit]
    exact List.mem_append_left _ h0
  refine ⟨cString front, by rw [moduleStem, hfind]; rfl, ?_⟩
  have hlen := hrest.length_le
  have hext : configExt.bytes.length = 4 := rfl
  rw [CString.strlen, cString_of_nul_free hnul, CString.strlen, hsplit,
    List.length_append]
  omega

-- ==================================================================== opening

variable {host : ModHost ω} {configPath : CString}
  {files : CString → Option ConfigDict} {pollInterval : Int32}

/-- The file that is opened for the name of a file. -/
def reopened (name : CString) : CString :=
  (moduleStem name).getD CString.nil ++ configExt

/-- A name that is accepted is cut somewhere. -/
theorem moduleStem_some (h : isModuleConfig name = true) :
    ∃ short, moduleStem name = some short := by
  obtain ⟨stem, -, rfl⟩ := isModuleConfig_iff.mp h
  by_cases hin : configExt.bytes <:+: stem.bytes
  · obtain ⟨short, hshort, -⟩ := moduleStem_of_ext_inside hin
    exact ⟨short, hshort⟩
  · exact ⟨stem, moduleStem_of_ext_free hin⟩

/-- The names of the modules are those of the accepted files, cut. -/
theorem setupConfigModules_eq (names : List CString) :
    setupConfigModules names = some ((names.filter isModuleConfig).map
      fun name => (moduleStem name).getD CString.nil) := by
  induction names using List.reverseRecOn with
  | nil => rfl
  | append_singleton names name ih =>
      unfold setupConfigModules at ih ⊢
      rw [List.foldlM_append, ih, List.filter_append]
      by_cases h : isModuleConfig name = true
      · obtain ⟨short, hshort⟩ := moduleStem_some h
        simp [h, hshort]
      · simp [h]

theorem openAllModules_opened (names : List CString) :
    (openAllModules host configPath files pollInterval names).1
      = names.map (modConfigPath configPath) := by
  induction names using List.reverseRecOn with
  | nil => rfl
  | append_singleton names name ih =>
      unfold openAllModules at ih ⊢
      rw [List.foldl_append, List.map_append, ← ih]
      rfl

/-- A file is opened for each accepted one, in order. -/
theorem openedFiles_eq (host : ModHost ω) (scalar : String → Option CString)
    (files : CString → Option ConfigDict) (pollInterval : Int32)
    (dir : ModuleDir) :
    openedFiles host scalar files pollInterval dir
      = some ((dir.names.filter isModuleConfig).map
        (dirFile scalar ∘ reopened)) := by
  unfold openedFiles
  rw [setupConfigModules_eq, Option.map_some, openAllModules_opened,
    List.map_map]
  congr 1
  apply List.map_congr_left
  intro name _
  exact CString.append_assoc ..

/-- What is opened for a name is the file itself, or where the stem holds the
extension one with a shorter name. -/
theorem reopened_cases (stem : CString) :
    (¬ configExt.bytes <:+: stem.bytes
        ∧ reopened (stem ++ configExt) = stem ++ configExt)
      ∨ (configExt.bytes <:+: stem.bytes
        ∧ (reopened (stem ++ configExt)).strlen
          < (stem ++ configExt).strlen) := by
  by_cases hin : configExt.bytes <:+: stem.bytes
  case pos =>
      obtain ⟨short, hshort, hlt⟩ := moduleStem_of_ext_inside hin
      refine .inr ⟨hin, ?_⟩
      rw [reopened, hshort, Option.getD_some, CString.append_strlen,
        CString.append_strlen]
      omega
  case neg =>
      refine .inl ⟨hin, ?_⟩
      rw [reopened, moduleStem_of_ext_free hin, Option.getD_some]

/-- No file is opened by a longer name than its own. -/
theorem reopened_le (h : isModuleConfig name = true) :
    (reopened name).strlen ≤ name.strlen := by
  obtain ⟨stem, -, rfl⟩ := isModuleConfig_iff.mp h
  rcases reopened_cases stem with ⟨-, hsame⟩ | ⟨-, hlt⟩
  · rw [hsame]
  · exact Nat.le_of_lt hlt

theorem strlen_dirFile (scalar : String → Option CString) (name : CString) :
    (dirFile scalar name).strlen
      = (setupConfigModulesPath scalar ++ .ofString "/").strlen
        + name.strlen :=
  CString.append_strlen ..

-- =================================================================== the files

variable {scalar : String → Option CString} {dir : ModuleDir}

/-- The accepted files. -/
theorem mem_accepted {path : CString} :
    path ∈ (dir.names.filter isModuleConfig).map (dirFile scalar)
      ↔ ∃ stem, stem ≠ CString.nil ∧ stem ++ configExt ∈ dir.names
        ∧ path = dirFile scalar (stem ++ configExt) := by
  constructor
  · intro h
    obtain ⟨name, hname, rfl⟩ := List.mem_map.mp h
    obtain ⟨hmem, hok⟩ := List.mem_filter.mp hname
    obtain ⟨stem, hne, rfl⟩ := isModuleConfig_iff.mp hok
    exact ⟨stem, hne, hmem, rfl⟩
  · rintro ⟨stem, hne, hmem, rfl⟩
    have hok : isModuleConfig (stem ++ configExt) = true :=
      isModuleConfig_iff.mpr ⟨stem, hne, rfl⟩
    exact List.mem_map.mpr ⟨_, List.mem_filter.mpr ⟨hmem, hok⟩, rfl⟩

/-- No file is accepted twice. -/
theorem accepted_nodup (scalar : String → Option CString) (dir : ModuleDir) :
    ((dir.names.filter isModuleConfig).map (dirFile scalar)).Nodup := by
  apply List.Nodup.map
  · intro s t h
    exact CString.append_right_inj.mp h
  · exact dir.distinct.filter _

/-- Files are opened for exactly the accepted ones if no name has the extension
in its stem, and only then. -/
theorem opened_iff {opened : List CString}
    (hopened : opened = (dir.names.filter isModuleConfig).map
      (dirFile scalar ∘ reopened)) :
    (opened.Nodup ∧ ∀ path, path ∈ opened ↔ ∃ stem, stem ≠ CString.nil
        ∧ stem ++ configExt ∈ dir.names
        ∧ path = dirFile scalar (stem ++ configExt))
      ↔ dir.OneExt := by
  subst hopened
  simp only [← mem_accepted]
  constructor
  case mpr =>
      intro h
      have hsame : ∀ name ∈ dir.names.filter isModuleConfig,
          (dirFile scalar ∘ reopened) name = dirFile scalar name := by
        intro name hname
        obtain ⟨hmem, hok⟩ := List.mem_filter.mp hname
        obtain ⟨stem, -, rfl⟩ := isModuleConfig_iff.mp hok
        rcases reopened_cases stem with ⟨-, hsame⟩ | ⟨hin, -⟩
        · exact congrArg (dirFile scalar) hsame
        · exact absurd hin (h stem hmem)
      rw [List.map_congr_left hsame]
      exact ⟨accepted_nodup scalar dir, fun _ => Iff.rfl⟩
  case mp =>
      rintro ⟨hnodup, hmem⟩ stem hstem hin
      have hok : isModuleConfig (stem ++ configExt) = true := by
        refine isModuleConfig_iff.mpr ⟨stem, ?_, rfl⟩
        rintro rfl
        exact absurd hin (by decide)
      -- a shorter name among no longer ones: the lengths do not add up
      have hperm := (List.perm_ext_iff_of_nodup hnodup
        (accepted_nodup scalar dir)).mpr hmem
      have hsum := (hperm.map CString.strlen).sum_eq
      rw [List.map_map, List.map_map] at hsum
      apply Nat.ne_of_lt ?_ hsum
      apply List.sum_lt_sum
      · intro name hname
        have hle := reopened_le (List.mem_filter.mp hname).2
        simp only [Function.comp_apply, strlen_dirFile]
        omega
      · refine ⟨_, List.mem_filter.mpr ⟨hstem, hok⟩, ?_⟩
        rcases reopened_cases stem with ⟨hnot, -⟩ | ⟨-, hlt⟩
        · exact absurd hin hnot
        · simp only [Function.comp_apply, strlen_dirFile]
          omega

/-- The modules' files are discovered exactly if no name has the extension in
its stem. -/
theorem discovers_iff (host : ModHost ω) (scalar : String → Option CString)
    (files : CString → Option ConfigDict) (pollInterval : Int32)
    (dir : ModuleDir) :
    Discovers host scalar files pollInterval dir ↔ dir.OneExt := by
  have heq := openedFiles_eq host scalar files pollInterval dir
  constructor
  case mp =>
      rintro ⟨⟨opened, hopened, hfiles⟩, -⟩
      have hsame := Option.some.inj (hopened.symm.trans heq)
      exact (opened_iff hsame).mp hfiles
  case mpr =>
      intro h
      refine ⟨⟨_, heq, (opened_iff rfl).mpr h⟩, ?_⟩
      intro stem _ hmem
      rw [moduleStem_of_ext_free (h stem hmem), Option.map_some]

/-- For a backup `redis.yml.yml` the file of the module is opened again. -/
theorem not_discovers :
    ¬ Discovers (⟨fun _ => none, fun _ _ => none, fun _ => 0⟩ : ModHost Unit)
      (fun _ => none) (fun _ => none) 60
      ⟨[.ofString "redis.yml", .ofString "redis.yml.yml"], by decide⟩ := by
  rintro ⟨⟨opened, hopened, hfiles⟩, -⟩
  have hsame := Option.some.inj (hopened.symm.trans (openedFiles_eq ..))
  have hone := (opened_iff hsame).mp hfiles
  exact hone (.ofString "redis.yml") (by decide) (by decide)

end Monikor
