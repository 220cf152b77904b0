import SelectionCheck.Json.Basic
import SelectionCheck.Token.Lexer

/-!
# The lexemes of JSON

A JSON text is read in two steps: first into lexemes, then along the grammar. A lexeme keeps its
spelling and the blanks before it, so the spelling of any part of the text can be recovered from
its lexemes. Strings may hold any bytes but raw controls; whether they are UTF-8 is settled when
they are decoded. Numbers are spelled as in documents. Reading stops at the first byte that begins
no lexeme.
-/

namespace SelectionCheck.Json

open Text (byte)

inductive Mark
  | openBrace
  | closeBrace
  | openBracket
  | closeBracket
  | colon
  | comma
deriving DecidableEq, Repr

/-- The kinds of lexeme. A word is `true`, `false` or `null`. -/
inductive LexemeKind
  | mark (mark : Mark)
  | string
  | number
  | word
  | bad
deriving DecidableEq, Repr

/-- A lexeme with the blanks before it. -/
structure Lexeme where
  kind : LexemeKind
  blank : Text
  text : Text
deriving DecidableEq, Repr

def Mark.ofByte? (b : UInt8) : Option Mark :=
  if b = 0x7B then some .openBrace
  else if b = 0x7D then some .closeBrace
  else if b = byte '[' then some .openBracket
  else if b = byte ']' then some .closeBracket
  else if b = byte ':' then some .colon
  else if b = byte ',' then some .comma
  else none

def isBlank (b : UInt8) : Bool :=
  b = 0x20 || b = 0x09 || b = 0x0A || b = 0x0D

def isEscapeLetter (b : UInt8) : Bool :=
  b = 0x22 || b = byte '\\' || b = byte '/' || b = byte 'b' || b = byte 'f' || b = byte 'n' ||
    b = byte 'r' || b = byte 't'

/-- The length of a string of which `length` bytes are behind, if it is closed and well formed. -/
def stringLength? : (length : Nat) → Text → Option Nat
  | _, [] => none
  | length, b :: rest =>
    if b = 0x22 then some (length + 1)
    else if b < 0x20 then none
    else if b = byte '\\' then
      match rest with
      | 0x75 :: h₁ :: h₂ :: h₃ :: h₄ :: rest =>
        if [h₁, h₂, h₃, h₄].all Text.isHexDigit then stringLength? (length + 6) rest else none
      | letter :: rest => if isEscapeLetter letter then stringLength? (length + 2) rest else none
      | [] => none
    else stringLength? (length + 1) rest

def words : List Text := ["true", "false", "null"]

/-- The kind and length of the lexeme at the head of a text that begins with `b`, which is no
blank. -/
def lexemeOfHead (b : UInt8) (rest : Text) : LexemeKind × Nat :=
  match Mark.ofByte? b with
  | some mark => (.mark mark, 1)
  | none =>
    if b = 0x22 then
      match stringLength? 1 rest with
      | some length => (.string, length)
      | none => (.bad, 1)
    else if b = byte '-' || Text.isDigit b then
      match Token.numberLexeme (b :: rest) with
      | (.unknown, length) => (.bad, length)
      | (_, length) => (.number, length)
    else
      match words.find? (Text.startsWith · (b :: rest)) with
      | some word => (.word, word.length)
      | none => (.bad, 1)

/-- The lexemes of the text ahead, whose first `skip` bytes belong to a lexeme already met;
`blank` holds the blanks just passed and `found` the lexemes before, both latest first. -/
def lexemesFrom : (skip : Nat) → (blank : Text) → Text → (found : List Lexeme) → List Lexeme
  | _, _, [], found => found.reverse
  | skip + 1, blank, _ :: rest, found => lexemesFrom skip blank rest found
  | 0, blank, b :: rest, found =>
    if isBlank b then lexemesFrom 0 (b :: blank) rest found
    else
      match lexemeOfHead b rest with
      | (.bad, length) => (⟨.bad, blank.reverse, (b :: rest).take length⟩ :: found).reverse
      | (kind, length) =>
        lexemesFrom (length - 1) [] rest (⟨kind, blank.reverse, (b :: rest).take length⟩ :: found)

def lexemes (text : Text) : List Lexeme :=
  lexemesFrom 0 [] text []

/-- The spelling of consecutive lexemes, without the blanks before the first. -/
def spelling : List Lexeme → Text
  | [] => []
  | first :: rest => first.text ++ rest.flatMap fun l => l.blank ++ l.text

end SelectionCheck.Json
