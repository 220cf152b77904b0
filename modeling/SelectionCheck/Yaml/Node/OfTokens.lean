import SelectionCheck.Yaml.Node
import SelectionCheck.Yaml.Token.Stream

/-!
# From tokens to nodes

Only the first document of a stream is read, and of what follows it a single token. Each rule looks
at the next token and decides; where several faults are possible, the one that comes first in this
order of looking is found.
-/

namespace SelectionCheck.Yaml

/-- The state of building nodes: the tokens ahead and the fault behind them, the meanings of tag
handles, the numbers of anchors, latest first, and the anchored nodes that are complete. -/
structure Assembly where
  ahead : TokenStream
  handles : List (Text × Text)
  anchors : List (Text × Nat)
  anchored : List (Nat × Node)

abbrev Assembling := StateT Assembly (Except Fault)

/-- What may stand before the content of a node, and where the node begins. -/
structure Property where
  start : Mark
  anchor : Text
  tag : Text

namespace Assembling

def fail {α : Type} (context place : Mark) (fault : DocumentFault) : Assembling α :=
  throw (.document context place fault)

/-- The next token. Behind the end of the stream there is nothing but its end. -/
def peek : Assembling Token := do
  let ahead := (← get).ahead
  match ahead.tokens, ahead.fault? with
  | token :: _, _ => return token
  | [], some fault => throw fault
  | [], none => return ⟨.streamEnd, .start, .start⟩

def drop : Assembling Unit :=
  modify fun state => { state with ahead.tokens := state.ahead.tokens.tail }

def dropThenPeek : Assembling Token := do
  drop
  peek

/-- Gives a number to an anchor; without an anchor there is none. -/
def number? (anchor : Text) : Assembling (Option Nat) := do
  if anchor.isEmpty then return none
  else
    let number := (← get).anchors.length
    modify fun state => { state with anchors := (anchor, number) :: state.anchors }
    return some number

def keep (number? : Option Nat) (node : Node) : Assembling Node := do
  match number? with
  | none => return node
  | some number =>
    modify fun state => { state with anchored := (number, node) :: state.anchored }
    return node

/-! ## Properties -/

def fullTag (start place : Mark) (handle suffix : Text) : Assembling Text := do
  if handle.isEmpty then return suffix
  else
    match (← get).handles.lookup handle with
    | some expansion => return expansion ++ suffix
    | none => fail start place .undefinedTagHandle

/-- The properties of the node that begins here: an anchor and a tag in either order. -/
def properties : Assembling Property := do
  let first ← peek
  match first.kind with
  | .anchor name =>
    let second ← dropThenPeek
    match second.kind with
    | .tag handle suffix =>
      let _ ← dropThenPeek
      return ⟨first.start, name, ← fullTag first.start second.start handle suffix⟩
    | _ => return ⟨first.start, name, []⟩
  | .tag handle suffix =>
    let second ← dropThenPeek
    match second.kind with
    | .anchor name =>
      let _ ← dropThenPeek
      return ⟨first.start, name, ← fullTag first.start first.start handle suffix⟩
    | _ => return ⟨first.start, [], ← fullTag first.start first.start handle suffix⟩
  | _ => return ⟨first.start, [], []⟩

def reference (token : Token) (anchor : Text) : Assembling Node := do
  drop
  match (← get).anchors.lookup anchor with
  | some target => return .reference (token.start.line + 1) token.start.index anchor target
  | none => throw (.unknownAnchor anchor)

/-! ## Nodes -/

mutual

/-- The node that begins here. Blocks may begin only if `block`; with `indentless`, entries may
follow without a block of their own. Each call of the rules moves over a token or comes before one
that does, which bounds `fuel`. -/
def node (fuel : Nat) (block indentless : Bool) : Assembling Node :=
  match fuel with
  | 0 => return .absent .start
  | fuel + 1 => do
    let first ← peek
    match first.kind with
    | .reference anchor => reference first anchor
    | _ =>
      let property ← properties
      let token ← peek
      let line := property.start.line + 1
      let sequence (items : Assembling (List Node)) : Assembling Node := do
        let number? ← number? property.anchor
        keep number? (.sequence line (Node.collectionTag property.tag Tag.seq) (← items))
      let mapping (entries : Assembling (List (Node × Node))) : Assembling Node := do
        let number? ← number? property.anchor
        keep number? (.mapping line (Node.collectionTag property.tag Tag.map) (← entries))
      let scalar (plain : Bool) (value : Text) : Assembling Node := do
        let number? ← number? property.anchor
        keep number? (.scalar line (Node.scalarTag property.tag plain value) value)
      match token.kind with
      | .scalar plain value =>
        drop
        scalar plain value
      | .flowSequenceStart => sequence do
        drop
        flowSequence fuel token.start true []
      | .flowMappingStart => mapping do
        drop
        flowMapping fuel token.start true []
      | kind =>
        if indentless && kind = .blockEntry then sequence (indentlessSequence fuel [])
        else if block && kind = .blockSequenceStart then sequence do
          drop
          blockSequence fuel token.start []
        else if block && kind = .blockMappingStart then mapping do
          drop
          blockMapping fuel token.start []
        else if !property.anchor.isEmpty || !property.tag.isEmpty then scalar true []
        else fail property.start token.start .nodeContent

/-- The node that begins here, or an absent one at `place` if the next token is one of `stops`. -/
def nodeUnless (fuel : Nat) (block indentless : Bool) (stops : List TokenKind) (place : Mark) :
    Assembling Node :=
  match fuel with
  | 0 => return .absent .start
  | fuel + 1 => do
    if stops.contains (← peek).kind then return .absent place else node fuel block indentless

/-- The items of a block sequence behind those of `read`, which stand in reverse. -/
def blockSequence (fuel : Nat) (context : Mark) (read : List Node) : Assembling (List Node) :=
  match fuel with
  | 0 => return read.reverse
  | fuel + 1 => do
    let token ← peek
    match token.kind with
    | .blockEntry =>
      drop
      let item ← nodeUnless fuel true false [.blockEntry, .blockEnd] token.finish
      blockSequence fuel context (item :: read)
    | .blockEnd =>
      drop
      return read.reverse
    | _ => fail context token.start .listEntry

/-- The items of a sequence without a block of its own behind those of `read`, which stand in
reverse. -/
def indentlessSequence (fuel : Nat) (read : List Node) : Assembling (List Node) :=
  match fuel with
  | 0 => return read.reverse
  | fuel + 1 => do
    let token ← peek
    match token.kind with
    | .blockEntry =>
      drop
      let stops := [.blockEntry, .key, .value, .blockEnd]
      let item ← nodeUnless fuel true false stops token.finish
      indentlessSequence fuel (item :: read)
    | _ => return read.reverse

/-- The entries of a block mapping behind those of `read`, which stand in reverse. -/
def blockMapping (fuel : Nat) (context : Mark) (read : List (Node × Node)) :
    Assembling (List (Node × Node)) :=
  match fuel with
  | 0 => return read.reverse
  | fuel + 1 => do
    let token ← peek
    match token.kind with
    | .key =>
      drop
      let stops := [.key, .value, .blockEnd]
      let key ← nodeUnless fuel true true stops token.finish
      let colon ← peek
      if colon.kind = .value then
        drop
        let value ← nodeUnless fuel true true stops colon.finish
        blockMapping fuel context ((key, value) :: read)
      else blockMapping fuel context ((key, .absent colon.start) :: read)
    | .blockEnd =>
      drop
      return read.reverse
    | _ => fail context token.start .key

/-- The value behind a key in brackets, which may be left out; `close` is the bracket that ends
them. -/
def flowValue (fuel : Nat) (close : TokenKind) : Assembling Node :=
  match fuel with
  | 0 => return .absent .start
  | fuel + 1 => do
    let token ← peek
    if token.kind = .value then
      let token ← dropThenPeek
      nodeUnless fuel false false [.flowEntry, close] token.start
    else return .absent token.start

def flowPair (fuel : Nat) (start : Mark) : Assembling Node :=
  match fuel with
  | 0 => return .absent .start
  | fuel + 1 => do
    let token ← peek
    let key ←
      if [.value, .flowEntry, .flowSequenceEnd].contains token.kind then
        drop
        pure (.absent token.finish)
      else node fuel false false
    let value ← flowValue fuel .flowSequenceEnd
    let _ ← peek
    return .mapping (start.line + 1) Tag.map [(key, value)]

/-- The items of a flow sequence behind those of `read`, which stand in reverse. -/
def flowSequence (fuel : Nat) (context : Mark) (first : Bool) (read : List Node) :
    Assembling (List Node) :=
  match fuel with
  | 0 => return read.reverse
  | fuel + 1 => do
    let token ← peek
    let token ←
      if token.kind = .flowSequenceEnd || first then pure token
      else if token.kind = .flowEntry then dropThenPeek
      else fail context token.start .flowListEntry
    match token.kind with
    | .flowSequenceEnd =>
      drop
      return read.reverse
    | .key =>
      drop
      let item ← flowPair fuel token.start
      flowSequence fuel context false (item :: read)
    | _ =>
      let item ← node fuel false false
      flowSequence fuel context false (item :: read)

/-- The entries of a flow mapping behind those of `read`, which stand in reverse. -/
def flowMapping (fuel : Nat) (context : Mark) (first : Bool) (read : List (Node × Node)) :
    Assembling (List (Node × Node)) :=
  match fuel with
  | 0 => return read.reverse
  | fuel + 1 => do
    let token ← peek
    let token ←
      if token.kind = .flowMappingEnd || first then pure token
      else if token.kind = .flowEntry then dropThenPeek
      else fail context token.start .flowKey
    match token.kind with
    | .flowMappingEnd =>
      drop
      return read.reverse
    | .key =>
      let token ← dropThenPeek
      let key ← nodeUnless fuel false false [.value, .flowEntry, .flowMappingEnd] token.start
      let value ← flowValue fuel .flowMappingEnd
      flowMapping fuel context false ((key, value) :: read)
    | _ =>
      let key ← node fuel false false
      let token ← peek
      flowMapping fuel context false ((key, .absent token.start) :: read)

end

/-! ## Documents -/

def usualHandles : List (Text × Text) := [("!", "!"), ("!!", Tag.namespaceName)]

/-- Reads directives. `versioned` says that one has given the version, and `handles` are those of
the directives before. -/
def directives : (fuel : Nat) → (versioned : Bool) → (handles : List (Text × Text)) →
    Assembling Unit
  | 0, _, _ => return ()
  | fuel + 1, versioned, handles => do
    let token ← peek
    match token.kind with
    | .version major minor =>
      if versioned then fail .start token.start .repeatedVersion
      else if major ≠ 1 || minor ≠ 1 then fail .start token.start .otherVersion
      else
        drop
        directives fuel true handles
    | .tagHandle handle expansion =>
      if (handles.lookup handle).isSome then fail .start token.start .repeatedTagHandle
      else
        drop
        directives fuel versioned (handles ++ [(handle, expansion)])
    | _ => modify fun state => { state with handles := handles ++ usualHandles }

def markedRoot (fuel : Nat) : Assembling Node := do
  directives fuel false []
  let token ← peek
  if token.kind ≠ .documentStart then fail .start token.start .documentStart
  else
    let token ← dropThenPeek
    match token.kind with
    | .version _ _ | .tagHandle _ _ | .documentStart | .documentEnd | .streamEnd =>
      return .absent token.start
    | _ => node fuel true false

def tree? (fuel : Nat) : Assembling (Option Tree) := do
  let token ← dropThenPeek
  match token.kind with
  | .streamEnd => return none
  | kind =>
    let root ←
      match kind with
      | .version _ _ | .tagHandle _ _ | .documentStart => markedRoot fuel
      | _ =>
        directives fuel false []
        node fuel true false
    let _ ← peek
    return some ⟨root, (← get).anchored⟩

end Assembling

def Tree.ofSource? (source : Text) : Except Fault (Option Tree) := do
  let stream := TokenStream.ofSource source
  let fuel := 4 * stream.tokens.length + 8
  let initial : Assembly := ⟨stream, [], [], []⟩
  match Assembling.tree? fuel initial with
  | .error fault => .error fault
  | .ok (tree?, _) => .ok tree?

end SelectionCheck.Yaml
