import SelectionCheck.Document.Executable
import SelectionCheck.Document.TypeSystem
import SelectionCheck.Position

/-!
# Reading a document

A document that is too large is refused unread, and one with lexical faults is refused before its
structure is looked at. Otherwise definitions are read one after the other until one of them
cannot be recognised. The result has the definitions that were read and every fault, in the order
in which they were met.
-/

namespace SelectionCheck

/-- The number of rules that may be nested inside each other, the definition included. -/
def nestingLimit : Nat := 51

def sizeLimit : Nat := 1048576

namespace Grammar

/-- The level of the parts of a definition, behind the definition itself and its form. -/
def partLevel : Nat := nestingLimit - 2

/-- Reads a type definition whose keyword is next, or refuses a word that is no keyword. -/
def keywordDefinition (described : Option Description) (keyword : Token) (c behind : Cursor) :
    Reading (Option Definition) :=
  match TypeForm.ofWord? keyword.text with
  | none => .refuse none ((Fault.expected .keyword (some keyword)).within (.rule .definition)) c
  | some form =>
    (typeDefinition partLevel form described keyword.start behind).map fun d => some (.type d)

def describedDefinition (t : Token) (rest : List Token) (c : Cursor) :
    Reading (Option Definition) :=
  match rest with
  | [] => .refuse none ((Fault.expected .keyword none).within (.rule .typeDefinition)) c
  | keyword :: rest' =>
    if keyword.kind = .name then
      keywordDefinition (some ⟨t.start, t.text⟩) keyword c ((c.past rest).past rest')
    else .refuse none ((Fault.expected .keyword (some keyword)).within (.rule .typeDefinition)) c

/-- Reads a definition. Only type definitions may have a description. -/
def definition (c : Cursor) : Reading (Option Definition) :=
  match c.ahead with
  | [] => ⟨none, [], c⟩
  | t :: rest =>
    match operationType? t with
    | some type => (operation partLevel t.start type (c.past rest)).map (·.map .operation)
    | none =>
      if t.kind = .lbrace then (shorthandQuery partLevel t.start c).map (·.map .operation)
      else if t.isWord "fragment" then
        (fragmentDefinition partLevel t.start (c.past rest)).map (·.map .fragment)
      else if t.isWord "schema" then (schemaDefinition t.start (c.past rest)).map (·.map .schema)
      else if t.kind = .name then keywordDefinition none t c (c.past rest)
      else if t.kind = .string then describedDefinition t rest c
      else
        .refuse none ((Fault.expected .stringOrKeyword (some t)).within (.rule .typeDefinition)) c

/-- Reads definitions until the tokens end or a definition is refused. `definitions` and `faults`
hold what was read before, latest first; every definition takes a token, so `steps` starts as a
copy of the tokens. -/
def definitionsFrom : (steps : List Token) → Cursor → (definitions : List Definition) →
    (faults : List Fault) → List Definition × List Fault
  | [], _, definitions, faults => (definitions.reverse, faults.reverse)
  | _ :: steps, c, definitions, faults =>
    let r := definition c
    match r.value with
    | none => (definitions.reverse, (r.faults.reverse ++ faults).reverse)
    | some d => definitionsFrom steps r.next (d :: definitions) (r.faults.reverse ++ faults)

def definitions (tokens : List Token) : List Definition × List Fault :=
  definitionsFrom tokens (.ofTokens tokens) [] []

end Grammar

inductive SourceError
  | tooLarge
  | symbol (token : Token)
  | string (token : Token) (offset : Nat) (fault : Token.StringFault)
  | grammar (fault : Fault)
deriving DecidableEq, Repr

namespace SourceError

def message : SourceError → Text
  | .tooLarge => "parse: document too large"
  | .symbol token => "parse: unrecognized symbol " ++ Text.quote token.text
  | .string _ _ fault => "parse: " ++ fault.message
  | .grammar fault => "parse: " ++ fault.message

def offset? (size : Nat) : SourceError → Option Nat
  | .tooLarge => none
  | .symbol token => some token.start
  | .string token offset _ => some (token.start + offset)
  | .grammar fault => fault.cause.offset? size

def position? (source : Text) (e : SourceError) : Option Position :=
  (e.offset? source.length).map (Position.ofOffset source)

end SourceError

def Token.errors (t : Token) : List SourceError :=
  match t.kind with
  | .unknown => [.symbol t]
  | .string => (stringFaults t.text).map fun fault => .string t fault.1 fault.2
  | _ => []

/-- What reading a document gives: the document, unless it was refused before its structure was
read, and every error. -/
structure Parsed where
  document : Option Document
  errors : List SourceError

def parse (source : Text) : Parsed :=
  if source.length > sizeLimit then ⟨none, [.tooLarge]⟩
  else
    let tokens := lex source
    match tokens.flatMap Token.errors with
    | [] =>
      let read := Grammar.definitions tokens
      ⟨some ⟨read.1⟩, read.2.map .grammar⟩
    | errors => ⟨none, errors⟩

end SelectionCheck
