import SelectionCheck.Hcl.Token

/-!
# Items of HCL

A source is a list of items. An item has keys and a value: a single value behind an equals sign, or
an object in braces right behind the keys. Commas between items may be left out, those between the
values of a list may not. A source that ends behind an equals sign has no such item.

Reading goes on from one token to the next; a token may be held back to be read again. The token
behind an item is looked at before the item counts as read.
-/

namespace SelectionCheck.Hcl

inductive ItemFault
  | missingKey
  | manyKeys
  | keylessObject
  | illegalCharacter
  | noKey (found : TokenKind)
  | noValue (keys : List Text)
  | notValue (found : Token)
  | openObject (found : TokenKind)
  | missingComma (found : TokenKind)
  | notListValue (found : TokenKind)
deriving DecidableEq, Repr

def ItemFault.message : ItemFault → Text
  | .missingKey => "no object keys found!"
  | .manyKeys => "nested object expected: LBRACE got: ASSIGN"
  | .keylessObject => "expected: IDENT | STRING got: LBRACE"
  | .illegalCharacter => "illegal character"
  | .noKey found => "expected: IDENT | STRING | ASSIGN | LBRACE got: " ++ found.name
  | .noValue keys =>
    "key '" ++ Text.join " " keys ++ "' expected start of object ('\x7b') or assignment ('=')"
  | .notValue found =>
    "Unknown token: " ++ found.position.render ++ " " ++ found.kind.name ++ " " ++ found.spelling
  | .openObject found => "object expected closing RBRACE got: " ++ found.name
  | .missingComma found => "error parsing list, expected comma or list end, got: " ++ found.name
  | .notListValue found => "unexpected token while parsing list: " ++ found.name

/-- Why a source cannot be read: it ends before a value, there is a fault at a place, or one in a
part of a list. -/
inductive ReadingFault
  | endOfSource
  | item (position : Position) (fault : ItemFault)
  | token (position : Position) (fault : TokenFault)
  | inList (position : Position) (part : Text) (fault : ReadingFault)
deriving DecidableEq, Repr

def ReadingFault.message : ReadingFault → Text
  | .endOfSource => "EOF token found"
  | .item position fault => "At " ++ position.render ++ ": " ++ fault.message
  | .token position fault => "At " ++ position.render ++ ": " ++ fault.message
  | .inList position part fault =>
    "At " ++ position.render ++ ": error while trying to parse " ++ part ++ " within list: " ++
      fault.message

/-- A value. Lists and objects have the place of their opening mark, items the tokens of their keys.
-/
inductive Node
  | literal (token : Token)
  | list (position : Position) (values : List Node)
  | object (position : Position) (items : List (List Token × Node))

/-- The state of reading: the source, the current token, and whether it is to be read again. -/
structure ItemReader where
  source : Source
  token : Token
  held : Bool

/-- Steps of reading. A fault keeps what has been read. -/
abbrev Reading := ExceptT ReadingFault (StateM ItemReader)

namespace Reading

/-- The next token that is no comment. Each token takes at least one character, so `fuel` need not
exceed the length by more than one. -/
def behindComments : (fuel : Nat) → Source → Token × Source
  | 0, source => Token.next source
  | fuel + 1, source =>
    let (token, behind) := Token.next source
    if token.kind = .comment then behindComments fuel behind else (token, behind)

def scan : Reading Token := do
  let reader ← get
  if reader.held then
    set { reader with held := false }
    return reader.token
  else
    let (token, source) := behindComments (reader.source.left.length + 1) reader.source
    set (⟨source, token, false⟩ : ItemReader)
    return token

def unscan : Reading Unit :=
  modify fun reader => { reader with held := true }

def look : Reading Token := do
  let token ← scan
  unscan
  return token

def refuse {α : Type} (token : Token) (fault : ItemFault) : Reading α :=
  throw (.item token.position fault)

/-- The keys of an item, latest first, and the token behind them: an equals sign, an opening brace,
or one that cannot follow. -/
def keysFrom : (fuel : Nat) → (keys : List Token) → Reading (List Token × Token)
  | 0, keys => return (keys, (← get).token)
  | fuel + 1, keys => do
    let token ← scan
    match token.kind with
    | .endOfSource => if keys.isEmpty then throw .endOfSource else return (keys, token)
    | .assign =>
      if 1 < keys.length then refuse token .manyKeys
      else if keys.isEmpty then refuse token .missingKey
      else return (keys, token)
    | .openBrace => if keys.isEmpty then refuse token .keylessObject else return (keys, token)
    | .identifier | .text => keysFrom fuel (token :: keys)
    | .illegal => refuse token .illegalCharacter
    | kind =>
      if kind = .closeBrace && !keys.isEmpty then
        modify fun reader => { reader with token := { token with kind := .endOfSource } }
        return (keys, token)
      else refuse token (.noKey kind)

mutual

/-- The items up to a closing brace, if they are `inBraces`, or to the end of the source, and the
fault that ends them. Each item and value takes at least one token, so `fuel` need not exceed
twice their number, here and below. -/
def itemsFrom : (fuel : Nat) → (inBraces : Bool) → (done : List (List Token × Node)) →
    Reading (List (List Token × Node) × Option ReadingFault)
  | 0, _, done => return (done.reverse, none)
  | fuel + 1, inBraces, done => do
    if inBraces && (← look).kind = .closeBrace then return (done.reverse, none)
    else
      let result : Except ReadingFault (List Token × Node) ← (item fuel).run
      match result with
      | .error .endOfSource => return (done.reverse, none)
      | .error fault => return (done.reverse, some fault)
      | .ok item =>
        if (← scan).kind ≠ .comma then unscan
        itemsFrom fuel inBraces (item :: done)

def item : (fuel : Nat) → Reading (List Token × Node)
  | 0 => throw .endOfSource
  | fuel + 1 => do
    let (reversed, token) ← keysFrom ((← get).source.left.length + 2) []
    let keys := reversed.reverse
    let node ←
      match token.kind with
      | .assign => value fuel
      | .openBrace => object fuel token.position
      | _ => refuse token (.noValue (keys.map Token.spelling))
    let _ ← look
    return (keys, node)

def value : (fuel : Nat) → Reading Node
  | 0 => throw .endOfSource
  | fuel + 1 => do
    let token ← scan
    match token.kind with
    | .number | .fraction | .truth | .text | .heredoc => return .literal token
    | .openBrace => object fuel token.position
    | .openBracket => return .list token.position (← valuesFrom fuel false [])
    | .endOfSource => throw .endOfSource
    | _ => refuse token (.notValue token)

/-- An object behind its opening brace. A fault right at a closing brace does not count, if another
one follows. -/
def object : (fuel : Nat) → Position → Reading Node
  | 0, _ => throw .endOfSource
  | fuel + 1, position => do
    let (items, fault?) ← itemsFrom fuel true []
    let atBrace := (← get).token.kind == .closeBrace
    match fault?, atBrace with
    | some fault, false => throw fault
    | _, _ =>
      let token ← scan
      if token.kind = .closeBrace then return .object position items
      else refuse token (.openObject token.kind)

/-- The values of a list up to its closing bracket; `behindValue` says whether a comma has to come
first. -/
def valuesFrom : (fuel : Nat) → (behindValue : Bool) → (done : List Node) → Reading (List Node)
  | 0, _, done => return done.reverse
  | fuel + 1, behindValue, done => do
    let token ← scan
    if behindValue && token.kind ≠ .comma && token.kind ≠ .closeBracket then
      refuse token (.missingComma token.kind)
    else
      match token.kind with
      | .number | .fraction | .truth | .text | .heredoc =>
        valuesFrom fuel true (.literal token :: done)
      | .comma =>
        let _ ← look
        valuesFrom fuel false done
      | .openBrace =>
        let result : Except ReadingFault Node ← (object fuel token.position).run
        match result with
        | .error fault => throw (.inList token.position "object" fault)
        | .ok node => valuesFrom fuel true (node :: done)
      | .openBracket =>
        let result : Except ReadingFault (List Node) ← (valuesFrom fuel false []).run
        match result with
        | .error fault => throw (.inList token.position "list" fault)
        | .ok values => valuesFrom fuel behindValue (.list token.position values :: done)
      | .closeBracket => return done.reverse
      | kind => refuse token (.notListValue kind)

end

end Reading

def normalLines : Text → Text
  | 0x0D :: 0x0A :: rest => 0x0A :: normalLines rest
  | b :: rest => b :: normalLines rest
  | [] => []

def items (text : Text) : Except ReadingFault (List (List Token × Node)) :=
  let source := Source.ofText (normalLines text)
  let reader : ItemReader := ⟨source, ⟨.endOfSource, ⟨1, 1⟩, []⟩, false⟩
  let (result, reader) := (Reading.itemsFrom (2 * source.left.length + 4) false []).run reader
  match reader.source.fault, result with
  | some (position, fault), _ => .error (.token position fault)
  | none, .error fault => .error fault
  | none, .ok (_, some fault) => .error fault
  | none, .ok (items, none) => .ok items

end SelectionCheck.Hcl
