import SelectionCheck.Text.Basic

/-!
# Tokens

A token is a piece of a source document: its kind, its bytes and the offset of its first byte.
Bytes that belong to no lexical form of the language make up tokens of kind `unknown`, so that
splitting a document into tokens never fails; the reader of documents refuses them.
-/

namespace SelectionCheck

namespace Token

inductive Kind
  | unknown
  | bang
  | dollar
  | lparen
  | rparen
  | ellipsis
  | colon
  | equals
  | atSign
  | lbracket
  | rbracket
  | lbrace
  | rbrace
  | bar
  | ampersand
  | name
  | int
  | float
  | string
deriving DecidableEq, Repr, Inhabited

namespace Kind

def all : List Kind :=
  [.unknown, .bang, .dollar, .lparen, .rparen, .ellipsis, .colon, .equals, .atSign, .lbracket,
    .rbracket, .lbrace, .rbrace, .bar, .ampersand, .name, .int, .float, .string]

def label : Kind → String
  | .unknown => "unknown"
  | .bang => "nonNull"
  | .dollar => "dollar"
  | .lparen => "lparen"
  | .rparen => "rparen"
  | .ellipsis => "ellipsis"
  | .colon => "colon"
  | .equals => "equals"
  | .atSign => "atSign"
  | .lbracket => "lbracket"
  | .rbracket => "rbracket"
  | .lbrace => "lbrace"
  | .rbrace => "rbrace"
  | .bar => "or"
  | .ampersand => "amp"
  | .name => "name"
  | .int => "intValue"
  | .float => "floatValue"
  | .string => "stringValue"

def spelling : Kind → String
  | .bang => "!"
  | .dollar => "$"
  | .lparen => "("
  | .rparen => ")"
  | .ellipsis => "..."
  | .colon => ":"
  | .equals => "="
  | .atSign => "@"
  | .lbracket => "["
  | .rbracket => "]"
  | .lbrace => "\x7b"
  | .rbrace => "\x7d"
  | .bar => "|"
  | .ampersand => "&"
  | .unknown | .name | .int | .float | .string => ""

def ofByte? (b : UInt8) : Option Kind :=
  match Char.ofUInt8 b with
  | '!' => some .bang
  | '$' => some .dollar
  | '(' => some .lparen
  | ')' => some .rparen
  | ':' => some .colon
  | '=' => some .equals
  | '@' => some .atSign
  | '[' => some .lbracket
  | ']' => some .rbracket
  | '{' => some .lbrace
  | '}' => some .rbrace
  | '|' => some .bar
  | '&' => some .ampersand
  | _ => none

def closer? : Kind → Option Kind
  | .lparen => some .rparen
  | .lbracket => some .rbracket
  | .lbrace => some .rbrace
  | _ => none

def isCloser : Kind → Bool
  | .rparen | .rbracket | .rbrace => true
  | _ => false

end Kind

end Token

/-- A piece of a source document with the offset of its first byte. -/
structure Token where
  kind : Token.Kind
  text : Text
  start : Nat
deriving DecidableEq, Repr, Inhabited

namespace Token

def stop (t : Token) : Nat :=
  t.start + t.text.length

/-- The form in which a token is listed: its text, except that a token of no lexical form is not
shown. -/
def render (t : Token) : Text :=
  match t.kind with
  | .unknown => "<unknown>"
  | _ => t.text

def isWord (t : Token) (word : Text) : Bool :=
  t.kind = .name && t.text = word

end Token

end SelectionCheck
