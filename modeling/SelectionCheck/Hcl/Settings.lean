import SelectionCheck.Config.Json
import SelectionCheck.Hcl.Item

/-!
# Configurations in HCL

The settings of a configuration in HCL are its items; those with several keys or with an object are
tables or lists. A key that is given again has to have a value of the same kind. A source that
begins with a brace is one in JSON.
-/

namespace SelectionCheck.Hcl

open Text (byte)

/-! ## Texts -/

def escapedByte? (letter : UInt8) : Option UInt8 :=
  if letter = byte 'a' then some 0x07
  else if letter = byte 'b' then some 0x08
  else if letter = byte 'f' then some 0x0C
  else if letter = byte 'n' then some 0x0A
  else if letter = byte 'r' then some 0x0D
  else if letter = byte 't' then some 0x09
  else if letter = byte 'v' then some 0x0B
  else if letter = byte '\\' || letter = 0x22 then some letter
  else none

def digitsValue (base : Nat) (digits : Text) : Nat :=
  digits.foldl (fun n d => n * base + (Text.hexValue? d).getD 0) 0

/-- What a backslash with the text behind it means, and how many bytes of that text it takes. -/
def escapeMeaning (text : Text) : Text × Nat :=
  match text with
  | [] => ([], 0)
  | b :: rest =>
    if b = byte 'x' then ([UInt8.ofNat (digitsValue 16 (rest.take 2))], 3)
    else if b = byte 'u' then (Text.encode (digitsValue 16 (rest.take 4)), 5)
    else if b = byte 'U' then (Text.encode (digitsValue 16 (rest.take 8)), 9)
    else
      match escapedByte? b with
      | some meant => ([meant], 1)
      | none => ([UInt8.ofNat (digitsValue 8 (text.take 3))], 3)

/-- The text of a spelling without its quotes. Expressions in braces behind a dollar sign stay as
they are; `braces` counts the open ones. -/
def unquoteFrom : (skip braces : Nat) → (done : Text) → Text → Text
  | _, _, done, [] => done.reverse
  | skip + 1, braces, done, _ :: rest => unquoteFrom skip braces done rest
  | 0, 0, done, b :: rest =>
    if b = byte '$' && rest.head? = some (byte '\x7b') then
      unquoteFrom 1 1 (byte '\x7b' :: b :: done) rest
    else if b = byte '\\' then
      let (meant, length) := escapeMeaning rest
      unquoteFrom length 0 (meant.reverse ++ done) rest
    else unquoteFrom 0 0 (b :: done) rest
  | 0, braces + 1, done, b :: rest =>
    let left :=
      if b = byte '\x7b' then braces + 2 else if b = byte '\x7d' then braces else braces + 1
    unquoteFrom 0 left (b :: done) rest

def dropStart (start text : Text) : Text :=
  if Text.startsWith start text then text.drop start.length else text

/-- The text between the lines of its anchor. Behind a hyphen, the blanks before the closing anchor
are taken away from each line, if each has them. -/
def heredocText (spelling : Text) : Text :=
  let first := Text.runLength (· != 0x0A) spelling
  let body := (spelling.drop (first + 1)).take (spelling.length - 2 * first)
  if spelling[2]? ≠ some (byte '-') then body
  else
    let lines := ((spelling.drop (first + 1)).take (spelling.length - 2 * first + 1)).splitOn 0x0A
    let margin := lines.getLast?.getD []
    if lines.all (Text.startsWith margin) then
      Text.join [0x0A] (lines.dropLast.map (dropStart margin) ++ [[]])
    else (body.reverse.dropWhile fun b => b = 0x20 || b = 0x09).reverse

def Token.text (token : Token) : Text :=
  match token.kind with
  | .text => unquoteFrom 0 0 [] token.spelling.tail.dropLast
  | .heredoc => heredocText token.spelling
  | _ => token.spelling

/-! ## Values -/

inductive ConfigFault
  | reading (fault : ReadingFault)
  | json (fault : Json.ConfigFault)
  | integer (numeral : Text) (fault : Text.NumeralFault)
  | fraction (numeral : Text) (fault : Text.NumeralFault)
  | kind (position : Position) (name : Text) (wanted : Text) (found : Text)
  | notList (position : Position) (found : Text)
deriving DecidableEq, Repr

def ConfigFault.message : ConfigFault → Text
  | .reading fault => fault.message
  | .json fault => fault.message
  | .integer numeral fault =>
    "strconv.ParseInt: parsing " ++ Text.quote numeral ++ ": " ++ fault.message
  | .fraction numeral fault =>
    "strconv.ParseFloat: parsing " ++ Text.quote numeral ++ ": " ++ fault.message
  | .kind position name wanted found =>
    "At " ++ position.render ++ ": root." ++ name ++ ": " ++ wanted ++ " " ++ found
  | .notList position found => "At " ++ position.render ++ ": unknown slice type: " ++ found

def integer (numeral : Text) : Except ConfigFault SettingValue :=
  match Text.integer numeral with
  | .ok n => .ok (.whole n)
  | .error fault => .error (.integer numeral fault)

def fraction (numeral : Text) : Except ConfigFault SettingValue :=
  match Text.fraction numeral with
  | .ok x => .ok (.fraction x)
  | .error fault => .error (.fraction numeral fault)

def literalValue (token : Token) : Except ConfigFault SettingValue :=
  match token.kind with
  | .number => integer token.spelling
  | .fraction => fraction token.spelling
  | .truth => .ok (.truth (token.spelling = "true"))
  | _ => .ok (.text token.text)

mutual

/-- The value of a node. What lists and objects hold is evaluated, but of no interest here. -/
def Node.evaluate : Node → Except ConfigFault SettingValue
  | .literal token => literalValue token
  | .list _ values => (evaluateValues values).map fun () => .list []
  | .object _ items => (evaluateItems items).map fun () => .list []

def evaluateValues : List Node → Except ConfigFault Unit
  | [] => .ok ()
  | node :: nodes =>
    match node.evaluate with
    | .error fault => .error fault
    | .ok _ => evaluateValues nodes

def evaluateItems : List (List Token × Node) → Except ConfigFault Unit
  | [] => .ok ()
  | (_, node) :: items =>
    match node.evaluate with
    | .error fault => .error fault
    | .ok _ => evaluateItems items

end

def Node.position : Node → Position
  | .literal token => token.position
  | .list position _ | .object position _ => position

def Node.form : Node → Text
  | .literal _ => "*ast.LiteralType"
  | .list _ _ => "*ast.ListType"
  | .object _ _ => "*ast.ObjectType"

def again (name : Text) (old : SettingValue) (node : Node) : Except ConfigFault SettingValue :=
  let refuse (wanted : Text) : Except ConfigFault SettingValue :=
    .error (.kind node.position name wanted node.form)
  match old, node with
  | .truth _, .literal token =>
    if token.kind = .truth then literalValue token else refuse "unknown type"
  | .fraction _, .literal token =>
    if token.kind = .number || token.kind = .fraction then fraction token.spelling
    else refuse "unknown type"
  | .whole _, .literal token =>
    if token.kind = .number then integer token.spelling
    else if token.kind = .text then integer token.text
    else refuse "unknown type"
  | .text _, .literal token =>
    if token.kind = .number || token.kind = .text || token.kind = .heredoc then
      .ok (.text token.text)
    else refuse "unknown type for string"
  | .text _, _ => refuse "unknown type for string"
  | .truth _, _ | .fraction _, _ | .whole _, _ => refuse "unknown type"
  | .list _, .literal _ => .error (.notList node.position node.form)
  | _, _ => node.evaluate

def settingsFrom : (given : List (Text × SettingValue)) → List (List Token × Node) →
    Except ConfigFault (List (Text × SettingValue))
  | given, [] => .ok given.reverse
  | given, (keys, node) :: items =>
    let name := (keys.head?.map Token.text).getD []
    let evaluated :=
      match given.lookup name with
      | some old => again name old node
      | none => node.evaluate
    match evaluated with
    | .error fault => .error fault
    | .ok value =>
      settingsFrom ((name, if keys.length ≤ 1 then value else .list []) :: given) items

/-- Whether the source is one in JSON: its first character behind white space is a brace. -/
def isJson (text : Text) : Bool :=
  (Text.trimLeft text).head? = some (byte '\x7b')

def settings (text : Text) : Except ConfigFault (List (Text × SettingValue)) :=
  if isJson text then (Json.settings text).mapError .json
  else
    match items text with
    | .error fault => .error (.reading fault)
    | .ok items => settingsFrom [] items

end SelectionCheck.Hcl
