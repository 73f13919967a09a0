/-
config_dict.c and config_parse_*.c: the configuration file as a tree of
`monikor_config_dict_t`, and the lookup of a dotted path in it.

A mapping is the chain of its entries by `next`; an entry's value is a
string, a list of strings, or the first entry of a mapping. The blocks of
a configuration are never shared, so the tree is a value; an empty mapping
is a node without a key (`configDictNew`). A string is a C string: it ends
at the first NUL of the bytes it is read from (`cString`).

libyaml hands out events; a parser is the events that are left, and
`yaml_parser_parse` fails when there are none. Allocations succeed.

The parsing functions call each other, so they take fuel, and `none` is a
call that has not returned. What one returns is `Parsed`.
-/
import Monikor.Metric

namespace Monikor

-- ================================================================= strl.c

/-- `strl_push`, on the strings of the list. -/
def strlPush (l : List CString) (s : CString) : List CString := l ++ [s]

/-- `strl_from_separated_string`: the tokens `strtok_r` finds between the
separators. -/
def strlFromSeparatedString (sc sep : CString) : List CString :=
  ((sc.bytes.splitOnP (· ∈ sep.bytes)).filter (· ≠ [])).map cString

-- ============================================================ config_dict.c

mutual

/-- `monikor_config_dict_t *`. -/
inductive ConfigDict where
  | null
  | node (key : Option CString) (value : ConfigValue) (next : ConfigDict)

/-- The `type` and `value` of a `monikor_config_dict_t`. -/
inductive ConfigValue where
  | dict (d : ConfigDict)
  | list (l : List CString)
  | scalar (s : CString)

end

/-- `monikor_config_dict_new`. -/
def configDictNew : ConfigDict := .node none (.dict .null) .null

namespace ConfigDict

/-- `dict->key = key`, and the value set. -/
def setEntry (key : CString) (value : ConfigValue) : ConfigDict → ConfigDict
  | null => null
  | node _ _ next => node (some key) value next

/-- `elm->next = next`. -/
def setNext : ConfigDict → ConfigDict → ConfigDict
  | null, _ => null
  | node key value _, next => node key value next

/-- The `while` loop of `monikor_config_get_subdict`. -/
def findKey (k : CString) : ConfigDict → ConfigDict
  | null => null
  | node key value next =>
      if key = some k then node key value next else findKey k next

/-- The `for` loop of `monikor_config_get_subdict`. -/
def getSubdictLoop : List CString → ConfigDict → ConfigDict
  | [], sub => sub
  | k :: keys, sub =>
      match findKey k sub with
      | null => null
      | node key value next =>
          if keys = [] then node key value next
          else
            match value with
            | .dict d => getSubdictLoop keys d
            | _ => null

/-- `monikor_config_get_subdict`. -/
def getSubdict (dict : ConfigDict) (keys : List CString) : ConfigDict :=
  match dict with
  | null => null
  | dict => getSubdictLoop keys dict

/-- The string ".". -/
def dot : CString := ⟨[46], by decide⟩

/-- `monikor_config_dict_get_dict`: the entry of the mapping, which is its
`value.dict`. -/
def getDict (dict : ConfigDict) (key : CString) : Option ConfigDict :=
  match dict.getSubdict (strlFromSeparatedString key dot) with
  | node key (.dict d) next => some (node key (.dict d) next)
  | _ => none

/-- `monikor_config_dict_get_list`. -/
def getList (dict : ConfigDict) (key : CString) : Option (List CString) :=
  match dict.getSubdict (strlFromSeparatedString key dot) with
  | node _ (.list l) _ => some l
  | _ => none

/-- `monikor_config_dict_get_scalar`. -/
def getScalar (dict : ConfigDict) (key : CString) : Option CString :=
  match dict.getSubdict (strlFromSeparatedString key dot) with
  | node _ (.scalar s) _ => some s
  | _ => none

end ConfigDict

-- ========================================================== config_parse_*.c

/-- `yaml_event_t`, with the value of a scalar; `reference` is an alias. -/
inductive YamlEvent where
  | noEvent
  | streamStart
  | streamEnd
  | documentStart
  | documentEnd
  | reference
  | scalar (value : List UInt8)
  | sequenceStart
  | sequenceEnd
  | mappingStart
  | mappingEnd
deriving DecidableEq

/-- What a parsing function returns: 0, with what it has made and the events
left, or 1. -/
inductive Parsed (α : Type) where
  | ok (a : α) (rest : List YamlEvent)
  | error

/-- `config_parse_list`. -/
def configParseList : List YamlEvent → List CString → Parsed (List CString)
  | .sequenceEnd :: evs, list => .ok list evs
  | .scalar value :: evs, list =>
      configParseList evs (strlPush list (cString value))
  | _, _ => .error

mutual

/-- `config_parse_key`, for an entry. -/
def configParseKey : Nat → List YamlEvent → CString → ConfigDict →
    Option (Parsed ConfigDict)
  | 0, _, _, _ => none
  | fuel + 1, evs, key, dict =>
      match evs with
      | .scalar value :: evs =>
          some (.ok (dict.setEntry key (.scalar (cString value))) evs)
      | .sequenceStart :: evs =>
          match configParseList evs [] with
          | .ok list evs => some (.ok (dict.setEntry key (.list list)) evs)
          | .error => some .error
      | .mappingStart :: evs =>
          match configParseMapping fuel evs configDictNew with
          | some (.ok sub evs) =>
              some (.ok (dict.setEntry key (.dict sub)) evs)
          | some .error => some .error
          | none => none
      | _ => some .error

/-- `config_parse_mapping`: its loop before the first key, which takes the
node it is given. -/
def configParseMapping : Nat → List YamlEvent → ConfigDict →
    Option (Parsed ConfigDict)
  | 0, _, _ => none
  | fuel + 1, evs, dict =>
      match evs with
      | .mappingEnd :: evs => some (.ok dict evs)
      | .scalar key :: evs =>
          match configParseKey fuel evs (cString key) dict with
          | some (.ok elm evs) => configParseMappingLoop fuel evs elm
          | some .error => some .error
          | none => none
      | _ => some .error

/-- The loop of `config_parse_mapping` with the last entry made; each
further key makes the next. -/
def configParseMappingLoop : Nat → List YamlEvent → ConfigDict →
    Option (Parsed ConfigDict)
  | 0, _, _ => none
  | fuel + 1, evs, elm =>
      match evs with
      | .mappingEnd :: evs => some (.ok elm evs)
      | .scalar key :: evs =>
          match configParseKey fuel evs (cString key) configDictNew with
          | some (.ok new evs) =>
              match configParseMappingLoop fuel evs new with
              | some (.ok next evs) => some (.ok (elm.setNext next) evs)
              | some .error => some .error
              | none => none
          | some .error => some .error
          | none => none
      | _ => some .error

end

/-- The loop of `monikor_parse_config_file`: the code it returns, and the
configuration when that is 0. -/
def parseConfigLoop : Nat → List YamlEvent → ConfigDict →
    Option (Int × Option ConfigDict)
  | 0, _, _ => none
  | fuel + 1, evs, cfg =>
      match evs with
      | .streamEnd :: _ => some (0, some cfg)
      | .streamStart :: evs => parseConfigLoop fuel evs cfg
      | .documentStart :: evs => parseConfigLoop fuel evs cfg
      | .documentEnd :: evs => parseConfigLoop fuel evs cfg
      | .mappingStart :: evs =>
          match configParseMapping fuel evs cfg with
          | some (.ok cfg evs) => parseConfigLoop fuel evs cfg
          | some .error => some (1, none)
          | none => none
      | _ => some (1, none)

/-- `monikor_parse_config_file`. Each call and each turn takes an event, so
the number of events is fuel enough. -/
def monikorParseConfigFile (evs : List YamlEvent) (cfg : ConfigDict) :
    Option (Int × Option ConfigDict) :=
  parseConfigLoop (evs.length + 1) evs cfg

end Monikor
