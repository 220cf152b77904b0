import SelectionCheck.Yaml.Token.Block
import SelectionCheck.Yaml.Token.Plain

/-!
# The tokens of a source

A layout follows the indentation of blocks and the nesting of brackets while it reads tokens. A
scalar, a bracket or a property may turn out to be a key when a colon follows it on its line. Then
the token of the key, and perhaps that of a new block, is put before it; so tokens wait in a queue
until it is known that nothing can be put before the first of them, and until two more are known.

The result has all tokens that can be read, and behind them the fault that ends the reading, if
there is one. A fault further behind does not show as long as no token before it is asked for.
-/

namespace SelectionCheck.Yaml

open Character

/-- A place where a key may have begun: whether that is still possible, whether a key is required
there, the number of the token and its place. -/
structure KeyStart where
  possible : Bool
  required : Bool
  number : Nat
  mark : Mark
deriving DecidableEq, Repr

/-- The state of reading tokens: the tokens that wait, the number of those given away, the
indentation of the block and of those around it (which is below zero outside all blocks), the
possible keys outside and inside each bracket, innermost first, the levels of those keys by the
numbers of their tokens, and whether a key may begin here. The numbers of open blocks and brackets
are kept too. -/
structure Layout where
  cursor : Cursor
  queue : List Token
  delivered : Nat
  started : Bool
  indent : Int
  outerIndents : List Int
  blocks : Nat
  keys : List KeyStart
  brackets : Nat
  levels : List (Nat × Nat)
  keyAllowed : Bool

def depthLimit : Nat := 10000

def keyReach : Nat := 1024

abbrev Layouting := StateT Layout (Except Fault)

namespace Layouting

def reading {α : Type} (read : Reading α) : Layouting α := fun layout =>
  match read.run layout.cursor with
  | .error fault => .error fault
  | .ok (result, cursor) => .ok (result, { layout with cursor })

def next : Layouting Char := reading Reading.next

def second : Layouting Char := reading (Reading.peek 1)

def here : Layouting Mark := reading Reading.here

def fail {α : Type} (context : Mark) (fault : TokenFault) : Layouting α :=
  reading (Reading.fail context fault)

def inBrackets : Layouting Bool := do return 0 < (← get).brackets

def push (token : Token) : Layouting Unit :=
  modify fun layout => { layout with queue := layout.queue ++ [token] }

def pushBefore (number : Nat) (token : Token) : Layouting Unit := modify fun layout =>
  let position := number - layout.delivered
  { layout with queue := layout.queue.take position ++ token :: layout.queue.drop position }

def allowKey (allowed : Bool) : Layouting Unit :=
  modify fun layout => { layout with keyAllowed := allowed }

def mark (kind : TokenKind) (count : Nat) : Layouting Unit := do
  let start ← here
  reading (Reading.skipMany count)
  push ⟨kind, start, ← here⟩

/-! ## Keys -/

def setKey (key : KeyStart) : Layouting Unit :=
  modify fun layout => { layout with keys := key :: layout.keys.tail }

/-- Drops the innermost possible key; a key that is required must not be dropped. -/
def dropKey : Layouting Unit := do
  match (← get).keys with
  | [] => return ()
  | key :: _ =>
    if key.possible then
      if key.required then fail key.mark .missingColon
      else
        setKey { key with possible := false }
        modify fun layout => { layout with levels := layout.levels.filter (·.1 ≠ key.number) }

/-- Notes that a key may begin here, if it may. -/
def noteKey : Layouting Unit := do
  let layout ← get
  if layout.keyAllowed then
    let place ← here
    let required := !(← inBrackets) && layout.indent = place.column
    let number := layout.delivered + layout.queue.length
    dropKey
    setKey ⟨true, required, number, place⟩
    modify fun layout =>
      { layout with levels := (number, layout.brackets) :: layout.levels.filter (·.1 ≠ number) }

/-- Whether the possible key of a level, counted from outside, can still be one. Its colon has to
stand on its line and within reach. -/
def isKeyOpen (level : Nat) : Layouting Bool := do
  let layout ← get
  let position := layout.brackets - level
  match layout.keys[position]? with
  | none => return false
  | some key =>
    let place ← here
    if !key.possible then return false
    else if key.mark.line < place.line || key.mark.index + keyReach < place.index then
      if key.required then fail key.mark .missingColon
      else
        set { layout with keys := layout.keys.set position { key with possible := false } }
        return false
    else return true

/-! ## Blocks and brackets -/

/-- Begins a block of the given indentation if it is deeper than the current one. Its token is put
before that of the given number, or at the end. -/
def openBlock (column : Nat) (number? : Option Nat) (kind : TokenKind) (place : Mark) :
    Layouting Unit := do
  let layout ← get
  if !(← inBrackets) && layout.indent < column then
    set { layout with
      indent := column
      outerIndents := layout.indent :: layout.outerIndents
      blocks := layout.blocks + 1 }
    if depthLimit ≤ layout.blocks then
      fail ((layout.keys.head?.map KeyStart.mark).getD .start) (.depth depthLimit)
    else
      match number? with
      | some number => pushBefore number ⟨kind, place, place⟩
      | none => push ⟨kind, place, place⟩

/-- Ends blocks of the given indentations, innermost first, as long as they are deeper than
`column`. -/
def closeBlocksFrom (column : Int) (place : Mark) : (outerIndents : List Int) → Layouting Unit
  | [] => return ()
  | outer :: outerIndents => do
    if column < (← get).indent then
      push ⟨.blockEnd, place, place⟩
      modify fun layout =>
        { layout with indent := outer, outerIndents, blocks := layout.blocks - 1 }
      closeBlocksFrom column place outerIndents

def closeBlocks (column : Int) : Layouting Unit := do
  if !(← inBrackets) then closeBlocksFrom column (← here) (← get).outerIndents

def openBracket (kind : TokenKind) : Layouting Unit := do
  noteKey
  let place ← here
  modify fun layout =>
    let key : KeyStart := ⟨false, false, layout.delivered + layout.queue.length, place⟩
    { layout with keys := key :: layout.keys, brackets := layout.brackets + 1 }
  if depthLimit < (← get).brackets then fail place (.depth depthLimit)
  allowKey true
  mark kind 1

def closeBracket (kind : TokenKind) : Layouting Unit := do
  dropKey
  if ← inBrackets then
    modify fun layout =>
      match layout.keys with
      | key :: keys =>
        let levels := layout.levels.filter (·.1 ≠ key.number)
        { layout with keys, levels, brackets := layout.brackets - 1 }
      | [] => layout
  allowKey false
  mark kind 1

/-! ## Tokens -/

def startStream : Layouting Unit := do
  modify fun layout => { layout with
    started := true, indent := -1, keys := [⟨false, false, 0, .start⟩], keyAllowed := true }
  mark .streamStart 0

def endStream : Layouting Unit := do
  modify fun layout =>
    let place := layout.cursor.mark
    if place.column = 0 then layout
    else { layout with cursor.mark := ⟨place.index, place.line + 1, 0⟩ }
  closeBlocks (-1)
  dropKey
  allowKey false
  mark .streamEnd 0

def directive : Layouting Unit := do
  closeBlocks (-1)
  dropKey
  allowKey false
  push (← reading Reading.directive)

def documentMark (kind : TokenKind) : Layouting Unit := do
  closeBlocks (-1)
  dropKey
  allowKey false
  mark kind 3

def blockEntry : Layouting Unit := do
  let place ← here
  if !(← inBrackets) then
    if !(← get).keyAllowed then fail place .blockEntry
    else openBlock place.column none .blockSequenceStart place
  dropKey
  allowKey true
  mark .blockEntry 1

def explicitKey : Layouting Unit := do
  let place ← here
  let flow ← inBrackets
  if !flow then
    if !(← get).keyAllowed then fail place .mappingKey
    else openBlock place.column none .blockMappingStart place
  dropKey
  allowKey !flow
  mark .key 1

/-- Reads the colon before a value, which makes a key of what stands before it if that can be
one. -/
def value : Layouting Unit := do
  let layout ← get
  let flow ← inBrackets
  if ← isKeyOpen layout.brackets then
    match (← get).keys with
    | [] => return ()
    | key :: _ =>
      pushBefore key.number ⟨.key, key.mark, key.mark⟩
      openBlock key.mark.column (some key.number) .blockMappingStart key.mark
      setKey { key with possible := false }
      modify fun layout => { layout with levels := layout.levels.filter (·.1 ≠ key.number) }
      allowKey false
  else
    if !flow then
      let place ← here
      if !layout.keyAllowed then fail place .mappingValue
      else openBlock place.column none .blockMappingStart place
    allowKey !flow
  mark .value 1

def keyLike (read : Reading Token) : Layouting Unit := do
  noteKey
  allowKey false
  push (← reading read)

def plainScalar : Layouting Unit := do
  noteKey
  allowKey false
  let (token, broken) ← reading (Reading.plainScalar (← inBrackets) (← get).indent)
  if broken then allowKey true
  push token

def blockScalar (literal : Bool) : Layouting Unit := do
  dropKey
  allowKey true
  push (← reading (Reading.blockScalar literal (← get).indent))

/-- The characters with which no plain scalar begins, unless something else than a blank follows
some of them. -/
def indicators : List Char :=
  "-?:,[]\x7b\x7d#&*!|>'\"%@\x60".toList

def tokenOf (c : Char) : Layouting Unit := do
  let flow ← inBrackets
  let c' ← second
  if c = '[' then openBracket .flowSequenceStart
  else if c = '\x7b' then openBracket .flowMappingStart
  else if c = ']' then closeBracket .flowSequenceEnd
  else if c = '\x7d' then closeBracket .flowMappingEnd
  else if c = ',' then
    dropKey
    allowKey true
    mark .flowEntry 1
  else if c = '-' && isWordEnd c' then blockEntry
  else if c = '?' && (flow || isWordEnd c') then explicitKey
  else if c = ':' && (flow || isWordEnd c') then value
  else if c = '*' then keyLike (Reading.anchor .reference)
  else if c = '&' then keyLike (Reading.anchor .anchor)
  else if c = '!' then keyLike Reading.tag
  else if c = '|' && !flow then blockScalar true
  else if c = '>' && !flow then blockScalar false
  else if c = '\'' then keyLike (Reading.quotedScalar true)
  else if c = '"' then keyLike (Reading.quotedScalar false)
  else if !(isWordEnd c || indicators.contains c) || (c = '-' && !isBlank c') ||
      (!flow && (c = '?' || c = ':') && !isWordEnd c') then
    plainScalar
  else fail (← here) .noToken

def byteOrderMark : Char := Char.ofNat 0xFEFF

/-- Moves to the next token, over blanks, comments and ends of lines. A tab must not stand where a
key may begin. -/
def toTokenFrom : (fuel : Nat) → Layouting Unit
  | 0 => return ()
  | fuel + 1 => do
    reading (Reading.need 1)
    if (← here).column = 0 && (← get).cursor.head = byteOrderMark then reading Reading.skip
    reading (Reading.need 1)
    let flow ← inBrackets
    let tabs := flow || !(← get).keyAllowed
    reading (Reading.skipWhile fun c => c = ' ' || tabs && c = '\t')
    if (← next) = '#' then reading Reading.skipComments
    if isBreak (← next) then
      reading (Reading.need 2)
      reading Reading.skipLine
      if !flow then allowKey true
      toTokenFrom fuel

def fetch : Layouting Unit := do
  reading (Reading.need 1)
  if !(← get).started then startStream
  else
    toTokenFrom ((← get).cursor.size + 1)
    closeBlocks (← here).column
    reading (Reading.need 4)
    let c ← next
    if c = endMark then endStream
    else if (← here).column = 0 && c = '%' then directive
    else if ← reading (Reading.isDocumentMark '-') then documentMark .documentStart
    else if ← reading (Reading.isDocumentMark '.') then documentMark .documentEnd
    else
      tokenOf c
      if (← get).queue.getLast?.any (·.kind ≠ .blockEntry) then reading Reading.skipLineComment

/-- Whether nothing can be put before the first token that waits, and two more are known. -/
def isSettled : Layouting Bool := do
  let layout ← get
  match layout.queue with
  | _ :: _ :: _ :: _ =>
    match layout.levels.lookup layout.delivered with
    | none => return true
    | some level => return !(← isKeyOpen level)
  | _ => return false

def settle : (fuel : Nat) → Layouting Unit
  | 0 => return ()
  | fuel + 1 => do
    if !(← isSettled) then
      fetch
      settle fuel

def deliver : Layouting (Option Token) := do
  settle ((← get).cursor.size + 4)
  let layout ← get
  match layout.queue with
  | [] => return none
  | token :: queue =>
    let delivered := layout.delivered + 1
    let levels := layout.levels.filter (delivered ≤ ·.1)
    set { layout with queue, delivered, levels }
    return some token

end Layouting

/-- The tokens of a source in order, and the fault behind the last one, if there is one. -/
structure TokenStream where
  tokens : List Token
  fault? : Option Fault

namespace TokenStream

def ofLayout : (fuel : Nat) → Layout → (read : List Token) → TokenStream
  | 0, _, read => ⟨read.reverse, none⟩
  | fuel + 1, layout, read =>
    match Layouting.deliver.run layout with
    | .error fault => ⟨read.reverse, some fault⟩
    | .ok (none, _) => ⟨read.reverse, none⟩
    | .ok (some token, layout) =>
      if token.kind = .streamEnd then ⟨(token :: read).reverse, none⟩
      else ofLayout fuel layout (token :: read)

/-- The tokens of a source. Each character gives rise to at most a few of them. -/
def ofSource (source : Text) : TokenStream :=
  ofLayout (8 * source.length + 16)
    ⟨.ofSource source, [], 0, false, -1, [], 0, [], 0, [], true⟩ []

end TokenStream

end SelectionCheck.Yaml
