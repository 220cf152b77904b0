import SelectionCheck.Document.Basic
import SelectionCheck.Text.Quoted
import SelectionCheck.Token.Escape

/-!
# What a reader refuses

A fault has a cause, which names what stood where something else was wanted, and a context: the
rules inside which the reader was, outermost first. The wording of a fault is the context, each
rule with a colon behind it, and then the cause. Keeping both as data lets the rules of the
grammar stay free of wording, and lets a fault be moved under another rule without touching its
text.
-/

namespace SelectionCheck

inductive Rule
  | arguments
  | argument
  | argumentsDefinition
  | defaultValue
  | definition
  | directive
  | enumTypeDefinition
  | enumValueDefinition
  | enumValuesDefinition
  | field
  | fieldDefinition
  | fieldsDefinition
  | fragmentDefinition
  | fragmentSpread
  | implements
  | inlineFragment
  | inputFieldsDefinition
  | inputObjectTypeDefinition
  | inputValueDefinition
  | interfaceTypeDefinition
  | listType
  | listValue
  | objectField
  | objectTypeDefinition
  | objectValue
  | operation
  | rootDefinition
  | scalarTypeDefinition
  | schemaDefinition
  | selection
  | selectionSet
  | type
  | typeCondition
  | typeDefinition
  | unionTypeDefinition
  | value
  | var
  | variableDefinition
  | variableDefinitions
deriving DecidableEq, Repr

def Rule.label : Rule → String
  | .arguments => "arguments"
  | .argument => "argument"
  | .argumentsDefinition => "arguments definition"
  | .defaultValue => "default value"
  | .definition => "definition"
  | .directive => "directive"
  | .enumTypeDefinition => "enum type definition"
  | .enumValueDefinition => "enum value definition"
  | .enumValuesDefinition => "enum values definition"
  | .field => "field"
  | .fieldDefinition => "field definition"
  | .fieldsDefinition => "fields definition"
  | .fragmentDefinition => "fragment definition"
  | .fragmentSpread => "fragment spread"
  | .implements => "implements"
  | .inlineFragment => "inline fragment"
  | .inputFieldsDefinition => "input fields definition"
  | .inputObjectTypeDefinition => "input object type definition"
  | .inputValueDefinition => "input value definition"
  | .interfaceTypeDefinition => "interface type definition"
  | .listType => "list type"
  | .listValue => "list value"
  | .objectField => "object field"
  | .objectTypeDefinition => "object type definition"
  | .objectValue => "object value"
  | .operation => "operation"
  | .rootDefinition => "root operation type definition"
  | .scalarTypeDefinition => "scalar type definition"
  | .schemaDefinition => "schema definition"
  | .selection => "selection"
  | .selectionSet => "selection set"
  | .type => "type"
  | .typeCondition => "type condition"
  | .typeDefinition => "type definition"
  | .unionTypeDefinition => "union type definition"
  | .value => "value"
  | .var => "variable"
  | .variableDefinition => "variable definition"
  | .variableDefinitions => "variable definitions"

/-- Where inside the grammar a fault arose: inside a rule, inside a rule whose name was already
read, inside the item of a list with the given number, or inside a directive of the given name. -/
inductive Context
  | rule (rule : Rule)
  | named (rule : Rule) (name : Text)
  | item (rule : Rule) (number : Nat)
  | directive (name : Text)
deriving DecidableEq, Repr

def Context.label : Context → Text
  | .rule r => r.label
  | .named r name => r.label ++ " " ++ name
  | .item r number => r.label ++ " #" ++ Text.ofNat number
  | .directive name => "@" ++ name ++ " directive"

inductive Wanted
  | name
  | keyword
  | stringOrKeyword
  | punctuator (kind : Token.Kind)
  | itemOr (rule : Rule) (closer : Token.Kind)
  | operationRest
  | operationBody
  | operationType
  | typeStart
  | typeCondition
  | argumentsOrColon
  | fragmentStart
  | fragmentStartOrDirective
  | inlineFragmentStart
deriving DecidableEq, Repr

def Token.Kind.quoted (kind : Token.Kind) : Text :=
  "'" ++ (kind.spelling : Text) ++ "'"

def Wanted.label : Wanted → Text
  | .name => "name"
  | .keyword => "keyword"
  | .stringOrKeyword => "string or keyword"
  | .punctuator kind => kind.quoted
  | .itemOr r closer => r.label ++ " or " ++ closer.quoted
  | .operationRest => "name, variable definitions, or selection set"
  | .operationBody => "variable definitions or selection set"
  | .operationType => "query, mutation, or subscription"
  | .typeStart => "name or '['"
  | .typeCondition => "'on'"
  | .argumentsOrColon => "'(' or ':'"
  | .fragmentStart => "name, 'on', or '\x7b'"
  | .fragmentStartOrDirective => "name, 'on', '@', or '\x7b'"
  | .inlineFragmentStart => "'on', '@', or '\x7b'"

/-- Why a reader refused what it met. `none` in place of a token is the end of the document. -/
inductive Cause
  | expected (wanted : Wanted) (found : Option Token)
  | noValue (found : Option Token)
  | variableInConstant (dollar : Nat)
  | fragmentNamedOn (start : Nat)
  | reservedEnumValue (name : Name)
  | empty (closing : Nat)
  | tooDeep
deriving DecidableEq, Repr

def Cause.message : Cause → Text
  | .expected wanted (some token) =>
    "expected " ++ wanted.label ++ ", found " ++ Text.quote token.text
  | .expected wanted none => "expected " ++ wanted.label ++ ", got EOF"
  | .noValue (some token) => "got " ++ Text.quote token.text
  | .noValue none => "got EOF"
  | .variableInConstant _ => "found variable in constant context"
  | .fragmentNamedOn _ => "expected name, found 'on'"
  | .reservedEnumValue name => "expected enum name, found reserved name " ++ Text.quote name.value
  | .empty _ => "empty"
  | .tooDeep => "syntax tree too deep"

/-- The offset of a cause in a document of `size` bytes. A tree that is too deep has no place. -/
def Cause.offset? (size : Nat) : Cause → Option Nat
  | .expected _ found | .noValue found => some ((found.map Token.start).getD size)
  | .variableInConstant offset | .fragmentNamedOn offset | .empty offset => some offset
  | .reservedEnumValue name => some name.start
  | .tooDeep => none

structure Fault where
  context : List Context
  cause : Cause
deriving DecidableEq, Repr

namespace Fault

def bare (cause : Cause) : Fault := ⟨[], cause⟩

def within (context : Context) (fault : Fault) : Fault :=
  { fault with context := context :: fault.context }

def expected (wanted : Wanted) (found : Option Token) : Fault :=
  bare (.expected wanted found)

def tooDeep : Fault := bare .tooDeep

def message (fault : Fault) : Text :=
  fault.context.foldr (fun context text => context.label ++ ": " ++ text) fault.cause.message

end Fault

def withinAll (context : Context) (faults : List Fault) : List Fault :=
  faults.map (Fault.within context)

end SelectionCheck
