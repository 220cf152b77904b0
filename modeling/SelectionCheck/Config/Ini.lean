import SelectionCheck.Text.Case
import SelectionCheck.Text.Quoted

/-!
# Configurations in sections

A line gives a value to a key, with an equals sign or a colon between them, and the keys behind a
name in brackets belong to the section of that name. Keys before the first section belong to a
section of their own. A setting is never the key of a section, so all that counts here is which
sections hold keys, and whether each line can be read.
-/

namespace SelectionCheck.Ini

open Text (byte)

inductive IniFault
  | unclosedSection (line : Text)
  | unnamedSection
  | missingMark (line : Text)
  | emptyKey (line : Text)
  | unnamedKey
  | unclosedKey (line : Text)
  | unclosedValue (first last : Text)
deriving DecidableEq, Repr

def IniFault.message : IniFault → Text
  | .unclosedSection line => "unclosed section: " ++ line
  | .unnamedSection => "empty section name"
  | .missingMark line => "key-value delimiter not found: " ++ line
  | .emptyKey line => "empty key name: " ++ line
  | .unnamedKey => "error creating new key: empty key name"
  | .unclosedKey line => "missing closing key quote: " ++ line
  | .unclosedValue first last =>
    "missing closing key quote from " ++ Text.quote first ++ " to " ++ Text.quote last

def withoutMark (text : Text) : Text :=
  if Text.startsWith [0xFE, 0xFF] text || Text.startsWith [0xFF, 0xFE] text then text.drop 2
  else if Text.startsWith Text.byteOrderMark text then text.drop 3
  else text

/-- The lines of a text with their line feeds, of which `line` has been read, latest byte first.
What stands behind the last line feed is a line too. -/
def linesFrom : (line : Text) → Text → List Text
  | line, [] => [line.reverse]
  | line, b :: rest =>
    if b = 0x0A then (b :: line).reverse :: linesFrom [] rest else linesFrom (b :: line) rest

def contains (part : Text) : Text → Bool
  | [] => part.isEmpty
  | b :: rest => Text.startsWith part (b :: rest) || contains part rest

def behind? (part : Text) : Text → Option Text
  | [] => none
  | b :: rest =>
    if Text.startsWith part (b :: rest) then some ((b :: rest).drop part.length)
    else behind? part rest

def isMark (b : UInt8) : Bool :=
  b = byte '=' || b = byte ':'

def tripleQuote : Text := "\"\"\""

def keyQuote (line : Text) : Text :=
  if Text.startsWith tripleQuote line && 6 < line.length then tripleQuote
  else line.take 1 |>.filter fun b => b = 0x22 || b = byte '\x60'

def key (line : Text) : Except IniFault (Text × Text) :=
  let quote := keyQuote line
  if quote.isEmpty then
    match line.dropWhile (!isMark ·) with
    | [] => .error (.missingMark line)
    | _ :: value =>
      let name := line.takeWhile (!isMark ·)
      if name.isEmpty then .error (.emptyKey line) else .ok (Text.trim name, value)
  else
    let inner := line.drop quote.length
    match behind? quote inner with
    | none => .error (.unclosedKey line)
    | some rest =>
      let name := inner.take (inner.length - rest.length - quote.length)
      match rest.dropWhile (!isMark ·) with
      | [] => .error (.missingMark line)
      | _ :: value => .ok (Text.trim name, value)

inductive Continuation
  | none
  | untilQuote (first quote : Text)
  | joined (value : Text)

def Continuation.ofSpelling (spelling : Text) : Continuation :=
  let value := Text.trimLeft spelling
  let quote : Text :=
    if Text.startsWith tripleQuote value && 3 < value.length then tripleQuote
    else value.take 1 |>.filter (· = byte '\x60')
  let line := Text.trim value
  if !quote.isEmpty then
    if contains quote (value.drop quote.length) then .none else .untilQuote value quote
  else if line.getLast? = some (byte '\\') then .joined line.dropLast
  else .none

/-- The place in a configuration: the section, and what the next line continues. -/
structure Place where
  inSection : Text
  continuation : Continuation

/-- What a line of its own does at a place: it names a section, or gives a key to the current one.
The result is the new place and the section that holds the key. -/
def readLine (place : Place) (line : Text) : Except IniFault (Place × Option Text) :=
  match line with
  | [] => .ok (place, none)
  | b :: rest =>
    if b = byte '#' || b = byte ';' then .ok (place, none)
    else if b = byte '[' then
      match (rest.reverse.dropWhile (· != byte ']')) with
      | [] => .error (.unclosedSection line)
      | _ :: name =>
        if name.isEmpty then .error .unnamedSection
        else .ok ({ place with inSection := name.reverse }, none)
    else
      match key line with
      | .error fault => .error fault
      | .ok (name, spelling) =>
        if name.isEmpty then .error .unnamedKey
        else .ok (⟨place.inSection, .ofSpelling spelling⟩, some place.inSection)

def sectionsFrom : Place → List Text → Except IniFault (List Text)
  | ⟨_, .untilQuote first _⟩, [] => .error (.unclosedValue first [])
  | _, [] => .ok []
  | place, line :: rest =>
    let done : Place := { place with continuation := .none }
    match place.continuation with
    | .untilQuote first quote =>
      if contains quote line then sectionsFrom done rest
      else if rest.isEmpty then .error (.unclosedValue first line)
      else sectionsFrom place rest
    | .joined value =>
      let next := Text.trim line
      let value := value ++ next
      if !next.isEmpty && value.getLast? = some (byte '\\') then
        sectionsFrom { place with continuation := .joined value.dropLast } rest
      else sectionsFrom done rest
    | .none =>
      match readLine place (Text.trimLeft line) with
      | .error fault => .error fault
      | .ok (place, holder) =>
        match sectionsFrom place rest with
        | .error fault => .error fault
        | .ok sections => .ok (holder.toList ++ sections)

def defaultSection : Text := "DEFAULT"

def sections (text : Text) : Except IniFault (List Text) :=
  sectionsFrom ⟨defaultSection, .none⟩ (linesFrom [] (withoutMark text))

end SelectionCheck.Ini
