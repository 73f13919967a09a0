/-
What a YAML document is, and what it says.

A document is a tree of nodes, and the event stream of a document is the
tree, front to back (`stream`). The rest is what a configuration file is
for: which documents it may hold (`plainEntries`), and what a path of keys
leads to in one (`Reaches`). Nothing here is about the parser.

A key is compared as the C string its scalar reads as.
-/
import Monikor.Config.Dict

namespace Monikor

/-- A node; `reference` is an alias of another. -/
inductive YamlNode where
  | reference
  | scalar (value : List UInt8)
  | sequence (items : List YamlNode)
  | mapping (entries : List (YamlNode × YamlNode))

/-- The entries of a mapping: keys and values. -/
abbrev YamlEntries := List (YamlNode × YamlNode)

-- ================================================================== events

mutual

/-- The events of a node. -/
def YamlNode.events : YamlNode → List YamlEvent
  | .reference => [.reference]
  | .scalar value => [.scalar value]
  | .sequence items => .sequenceStart :: (itemEvents items ++ [.sequenceEnd])
  | .mapping entries => .mappingStart :: (entryEvents entries ++ [.mappingEnd])

def itemEvents : List YamlNode → List YamlEvent
  | [] => []
  | item :: items => item.events ++ itemEvents items

def entryEvents : List (YamlNode × YamlNode) → List YamlEvent
  | [] => []
  | (key, value) :: entries => key.events ++ value.events ++ entryEvents entries

end

/-- The events of a stream that holds one document. -/
def stream (root : YamlNode) : List YamlEvent :=
  .streamStart :: .documentStart :: (root.events ++ [.documentEnd, .streamEnd])

-- ============================================================ configurations

def YamlNode.isScalar : YamlNode → Bool
  | .scalar _ => true
  | _ => false

mutual

/-- A value a configuration may have: a scalar, a sequence of scalars, or a
mapping whose keys are scalars and whose values are such values. -/
def YamlNode.plain : YamlNode → Bool
  | .reference => false
  | .scalar _ => true
  | .sequence items => items.all (·.isScalar)
  | .mapping entries => plainEntries entries

def plainEntries : List (YamlNode × YamlNode) → Bool
  | [] => true
  | (key, value) :: entries =>
      key.isScalar && value.plain && plainEntries entries

end

/-- The string of a scalar. -/
def YamlNode.string? : YamlNode → Option CString
  | .scalar value => some (cString value)
  | _ => none

mutual

/-- The keys of each mapping are distinct. -/
def YamlNode.Distinct : YamlNode → Prop
  | .mapping entries =>
      (entries.map fun e => e.1.string?).Nodup ∧ DistinctValues entries
  | _ => True

def DistinctValues : List (YamlNode × YamlNode) → Prop
  | [] => True
  | (_, value) :: entries => value.Distinct ∧ DistinctValues entries

end

/-- The node that a path of keys leads to from the entries of a mapping. -/
inductive Reaches : YamlEntries → List CString → YamlNode → Prop where
  | last {entries : YamlEntries} {key v : YamlNode} {k : CString} :
      (key, v) ∈ entries → key.string? = some k → Reaches entries [k] v
  | step {entries sub : YamlEntries} {key v : YamlNode} {k k₁ : CString}
      {keys : List CString} :
      (key, .mapping sub) ∈ entries → key.string? = some k →
      Reaches sub (k₁ :: keys) v → Reaches entries (k :: k₁ :: keys) v

/-- The keys of a path, separated by dots. -/
def dotted (keys : List CString) : CString :=
  cString ([46].intercalate (keys.map (·.bytes)))

/-- A key that can stand in a path. -/
def IsPathKey (k : CString) : Prop := k.bytes ≠ [] ∧ (46 : UInt8) ∉ k.bytes

instance (k : CString) : Decidable (IsPathKey k) :=
  inferInstanceAs (Decidable (_ ∧ _))

end Monikor
