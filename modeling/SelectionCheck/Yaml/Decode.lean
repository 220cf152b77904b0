import SelectionCheck.Config.Value
import SelectionCheck.Text.Base64
import SelectionCheck.Yaml.Node.OfTokens

/-!
# The values of a document

The root of a configuration is a mapping whose keys are texts. Everything below it may be of any
kind. A node that is not of the kind its place asks for is noted, and reading goes on; all notes
together are the fault of the document. Other faults end the reading at once.

The key `<<` merges the entries of other mappings in, as far as they have other keys. References
are followed wherever they stand. A document in which nearly all work comes from references is
refused.
-/

namespace SelectionCheck.Yaml

/-- The work done so far: the nodes read, those among them that were reached through references,
and the mismatches, latest first. -/
structure Effort where
  nodes : Nat
  referred : Nat
  mismatches : List Mismatch

abbrev Decoding := StateT Effort (Except Fault)

/-- Where a node stands: the anchored nodes, and the references that are being followed. -/
structure Scope where
  anchored : List (Nat × Node)
  followed : List Nat

/-- What a place asks for: the text of a key or anything. -/
inductive Wanted
  | keyText
  | anything
deriving DecidableEq, Repr

namespace Effort

/-- The number of nodes up to which references may do nearly all the work. -/
def lowNodes : Nat := 400000

/-- The number of nodes from which on references may do a tenth of the work. -/
def highNodes : Nat := 4000000

/-- Whether references do too much of the work: more than 99 hundredths for few nodes, more than 10
hundredths for many, and in between a share that falls evenly. -/
def isExcessive (effort : Effort) : Bool :=
  let range := highNodes - lowNodes
  let allowed :=
    if effort.nodes ≤ lowNodes then 99 * range
    else if highNodes ≤ effort.nodes then 10 * range
    else 99 * range - 89 * (effort.nodes - lowNodes)
  100 < effort.referred && 1000 < effort.nodes &&
    effort.nodes * allowed < effort.referred * (100 * range)

end Effort

/-- The entries of a mapping that is being built, and the keys that no longer can be merged in, if
it is being merged. -/
structure Building where
  entries : List (SettingValue × SettingValue)
  taken? : Option (List SettingValue)

def sameKey : SettingValue → SettingValue → Bool
  | .absent, .absent => true
  | .truth a, .truth b => a = b
  | .whole a, .whole b => a = b
  | .fraction a, .fraction b => a = b && a ≠ .nan
  | .moment a, .moment b => a = b
  | .text a, .text b => a = b
  | _, _ => false

namespace Building

def put (building : Building) (key value : SettingValue) : Building :=
  { building with entries :=
      building.entries.filter (fun entry => !sameKey entry.1 key) ++ [(key, value)] }

end Building

namespace Decoding

def count (scope : Scope) : Decoding Unit := do
  let effort ← get
  let referred := if scope.followed.isEmpty then effort.referred else effort.referred + 1
  let effort := { effort with nodes := effort.nodes + 1, referred }
  set effort
  if effort.isExcessive then throw .excessiveAliases

def note (mismatch : Mismatch) : Decoding Unit :=
  modify fun effort => { effort with mismatches := mismatch :: effort.mismatches }

def noteKind (line : Nat) (tag value wanted : Text) : Decoding Unit :=
  let value? := if tag = Tag.seq || tag = Tag.map then none else some value
  note (.kind line tag value? wanted)

def settingsType : Text := "map[string]interface \x7b\x7d"

def keyType : Text := "string"

/-! ## Scalars -/

def scalarValue (tag value : Text) : Decoding SettingValue := do
  if tag = Tag.binary then
    match Text.ofBase64? value with
    | some bytes => return .text bytes
    | none => throw .invalidBase64
  else if !Tag.isResolvable tag then return .text value
  else
    match Meaning.resolve tag value with
    | .error fault => throw fault
    | .ok .absent => return .absent
    | .ok (.truth b) => return .truth b
    | .ok (.whole n) => return .whole n
    | .ok (.fraction x) => return .fraction x
    | .ok (.moment m) => return .moment m
    | .ok .text => return .text value

/-- The value of a scalar for a place. A key is the text of the scalar, and an absent one is
none. -/
def scalar (wanted : Wanted) (tag value : Text) : Decoding (Option SettingValue) := do
  let read ← scalarValue tag value
  match wanted, read with
  | .anything, read => return some read
  | .keyText, .absent => return none
  | .keyText, .text text => return some (.text text)
  | .keyText, _ => return some (.text value)

/-! ## Keys -/

def tagOf (scope : Scope) : Node → Text
  | .scalar _ tag _ | .sequence _ tag _ | .mapping _ tag _ => tag
  | .reference _ _ _ target =>
    match scope.anchored.lookup target with
    | some (.scalar _ tag _) | some (.sequence _ tag _) | some (.mapping _ tag _) => tag
    | _ => []

/-- What the keys of a mapping of any kind are read as: as texts if they all are. -/
def keysWanted (scope : Scope) (entries : List (Node × Node)) : Wanted :=
  let textual := entries.all fun (key, _) =>
    tagOf scope key = Tag.str || tagOf scope key = Tag.merge
  if textual then .keyText else .anything

def repeatedKeys : List (Node × Node) → List Mismatch
  | [] => []
  | (key, _) :: rest =>
    (rest.filterMap fun (other, _) =>
      if key.sameKind other && key.keyText = other.keyText then
        some (.repeatedKey other.line other.keyText key.line)
      else none) ++ repeatedKeys rest

def spelled (fuel : Nat) (value : SettingValue) : Text :=
  match fuel, value with
  | fuel + 1, .list items =>
    "[]interface \x7b\x7d\x7b" ++ Text.join ", " (items.map (spelled fuel)) ++ "\x7d"
  | fuel + 1, .table entries =>
    let textual := entries.all fun
      | (.text _, _) => true
      | _ => false
    let kind : Text := if textual then "string" else "interface \x7b\x7d"
    let entry (e : SettingValue × SettingValue) : Text :=
      spelled fuel e.1 ++ ":" ++ spelled fuel e.2
    "map[" ++ kind ++ "]interface \x7b\x7d\x7b" ++ Text.join ", " (entries.map entry) ++ "\x7d"
  | _, .absent => "interface \x7b\x7d(nil)"
  | _, .text text => Text.quote text
  | _, value => value.toText

def spellingDepth : Nat := 10000

def isCollection : SettingValue → Bool
  | .list _ | .table _ => true
  | _ => false

/-! ## Nodes -/

mutual

/-- The value of a node for a place. Below each node and behind each reference there are only
finitely many, which bounds `fuel`. -/
def node (fuel : Nat) (scope : Scope) (wanted : Wanted) (given : Node) :
    Decoding (Option SettingValue) :=
  match fuel with
  | 0 => return none
  | fuel + 1 => do
    count scope
    match given with
    | .scalar _ tag value => scalar wanted tag value
    | .reference _ place anchor target =>
      if scope.followed.contains place then throw (.recursiveAnchor anchor)
      else
        match scope.anchored.lookup target with
        | none => return none
        | some found =>
          node fuel { scope with followed := place :: scope.followed } wanted found
    | .sequence line tag items =>
      if wanted = .keyText then
        noteKind line tag [] keyType
        return none
      else return some (.list (← items.filterMapM (node fuel scope .anything)))
    | .mapping line tag entries =>
      match repeatedKeys entries with
      | [] =>
        if wanted = .keyText then
          noteKind line tag [] keyType
          return none
        else
          let building ← entriesInto fuel scope (keysWanted scope entries) entries ⟨[], none⟩
          return some (.table building.entries)
      | repeated =>
        repeated.forM note
        return none

/-- Adds the entries of a mapping, whose keys are read as `wanted`, to those being built. The
entries that are merged in come last. -/
def entriesInto (fuel : Nat) (scope : Scope) (wanted : Wanted) (entries : List (Node × Node))
    (building : Building) : Decoding Building :=
  match fuel with
  | 0 => return building
  | fuel + 1 => do
    let building ← entries.foldlM (fun building (key, value) => do
      if key.isMerge then return building
      else
        match ← node fuel scope wanted key with
        | none => return building
        | some k =>
          if (building.taken?.getD []).any (sameKey k) then return building
          else if isCollection k then throw (.invalidKey (spelled spellingDepth k))
          else
            let building := { building with taken? := building.taken?.map (k :: ·) }
            match ← node fuel scope .anything value with
            | none => return building
            | some v => return building.put k v) building
    match entries.find? (·.1.isMerge) with
    | none => return building
    | some (_, merged) =>
      let taken ←
        match building.taken? with
        | some taken => pure taken
        | none => entries.filterMapM fun (key, _) => node fuel scope .anything key
      let result ← mergeInto fuel scope wanted merged { building with taken? := some taken }
      return { result with taken? := building.taken?.bind fun _ => result.taken? }

/-- Merges a mapping, or each mapping of a sequence, into the entries being built. -/
def mergeInto (fuel : Nat) (scope : Scope) (wanted : Wanted) (merged : Node)
    (building : Building) : Decoding Building :=
  match fuel with
  | 0 => return building
  | fuel + 1 => do
    let isMapping (given : Node) : Bool :=
      match given with
      | .reference _ _ _ target => (scope.anchored.lookup target).any Node.isMapping
      | given => given.isMapping
    match merged with
    | .sequence _ _ items =>
      items.foldlM (fun building item => do
        if isMapping item then mappingInto fuel scope wanted item building
        else throw .mergeWithoutMap) building
    | merged =>
      if isMapping merged then mappingInto fuel scope wanted merged building
      else throw .mergeWithoutMap

def mappingInto (fuel : Nat) (scope : Scope) (wanted : Wanted) (given : Node)
    (building : Building) : Decoding Building :=
  match fuel with
  | 0 => return building
  | fuel + 1 => do
    count scope
    match given with
    | .reference _ place anchor target =>
      if scope.followed.contains place then throw (.recursiveAnchor anchor)
      else
        match scope.anchored.lookup target with
        | none => return building
        | some found =>
          mappingInto fuel { scope with followed := place :: scope.followed } wanted found building
    | .mapping _ _ entries =>
      match repeatedKeys entries with
      | [] => entriesInto fuel scope wanted entries building
      | repeated =>
        repeated.forM note
        return building
    | .sequence line tag _ =>
      noteKind line tag [] settingsType
      return building
    | .scalar line tag value =>
      match ← scalarValue tag value with
      | .absent => return building
      | _ =>
        noteKind line tag value settingsType
        return building

end

end Decoding

def Tree.entries (fuel : Nat) (tree : Tree) : Except Fault (List (Text × SettingValue)) := do
  let building := Decoding.mappingInto fuel ⟨tree.anchored, []⟩ .keyText tree.root ⟨[], none⟩
  let (building, effort) ← building.run ⟨1, 0, []⟩
  if effort.mismatches.isEmpty then
    return building.entries.map fun (key, value) => (key.toText, value)
  else throw (.mismatches effort.mismatches.reverse)

def settings (source : Text) : Except Fault (List (Text × SettingValue)) := do
  match ← Tree.ofSource? source with
  | none => return []
  | some tree => tree.entries (Nat.pow (source.length + 2) 2)

end SelectionCheck.Yaml
