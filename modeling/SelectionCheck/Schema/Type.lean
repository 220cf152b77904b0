import SelectionCheck.Document.Basic

/-!
# Types

A type as it is used is a name under list and non-null wrappers. What a name means is kept in a
table from names to descriptions: scalars, enumerations, objects, interfaces, unions and input
objects. Descriptions refer to each other by name, so a schema whose types refer to each other in
a circle is still a finite value.

The class of a type says whether a field of that type demands a selection set. Only the name below
the wrappers decides it.
-/

namespace SelectionCheck

/-! ## Types as they are used -/

/-- A named type or a list of some type; either may exclude null. -/
inductive TypeExpr
  | named (name : Text) (nonNull : Bool)
  | list (element : TypeExpr) (nonNull : Bool)
deriving DecidableEq, Repr

namespace TypeExpr

def base : TypeExpr → Text
  | .named name _ => name
  | .list element _ => element.base

def unwrapped (t : TypeExpr) : TypeExpr :=
  .named t.base false

def name : TypeExpr → Text
  | .named name _ => name
  | .list _ _ => []

def isNonNull : TypeExpr → Bool
  | .named _ nonNull => nonNull
  | .list _ nonNull => nonNull

def isList : TypeExpr → Bool
  | .named _ _ => false
  | .list _ _ => true

def withNonNull (nonNull : Bool) : TypeExpr → TypeExpr
  | .named name _ => .named name nonNull
  | .list element _ => .list element nonNull

def render : TypeExpr → Text
  | .named name nonNull => name ++ if nonNull then "!" else ""
  | .list element nonNull => "[" ++ element.render ++ "]" ++ if nonNull then "!" else ""

end TypeExpr

/-! ## Kinds and classes -/

inductive TypeKind
  | scalar
  | enum
  | object
  | interface
  | union
  | input
deriving DecidableEq, Repr

namespace TypeKind

def all : List TypeKind := [.scalar, .enum, .object, .interface, .union, .input]

def label : TypeKind → String
  | .scalar => "SCALAR"
  | .enum => "ENUM"
  | .object => "OBJECT"
  | .interface => "INTERFACE"
  | .union => "UNION"
  | .input => "INPUT_OBJECT"

def isInput : TypeKind → Bool
  | .scalar | .enum | .input => true
  | .object | .interface | .union => false

def isOutput : TypeKind → Bool
  | .scalar | .enum | .object | .interface | .union => true
  | .input => false

end TypeKind

/-- Whether a field of a type demands a selection set. The class of what cannot be resolved is
`unresolved`; such fields are not checked. -/
inductive SelectionClass
  | unresolved
  | leaf
  | composite
deriving DecidableEq, Repr

namespace SelectionClass

def all : List SelectionClass := [.unresolved, .leaf, .composite]

def label : SelectionClass → String
  | .unresolved => "unresolved"
  | .leaf => "leaf"
  | .composite => "composite"

/-- The class of a kind of type. Input objects are never the type of a field. -/
def ofKind : TypeKind → SelectionClass
  | .scalar | .enum => .leaf
  | .object | .interface | .union => .composite
  | .input => .unresolved

end SelectionClass

/-! ## Descriptions of named types -/

structure FieldInfo where
  name : Text
  type : TypeExpr
  arguments : List (Text × TypeExpr)
deriving DecidableEq, Repr

inductive TypeInfo
  | scalar
  | enum (symbols : List Text)
  | object (fields : List FieldInfo) (interfaces : List Text)
  | interface (fields : List FieldInfo)
  | union (members : List Text)
  | input (fields : List (Text × TypeExpr))
deriving DecidableEq, Repr

namespace TypeInfo

def kind : TypeInfo → TypeKind
  | .scalar => .scalar
  | .enum _ => .enum
  | .object _ _ => .object
  | .interface _ => .interface
  | .union _ => .union
  | .input _ => .input

def fields : TypeInfo → List FieldInfo
  | .object fields _ => fields
  | .interface fields => fields
  | .scalar | .enum _ | .union _ | .input _ => []

def field? (info : TypeInfo) (name : Text) : Option FieldInfo :=
  info.fields.find? (·.name = name)

end TypeInfo

abbrev TypeTable := List (Text × TypeInfo)

namespace TypeTable

def info? (table : TypeTable) (name : Text) : Option TypeInfo :=
  table.lookup name

def kind? (table : TypeTable) (t : TypeExpr) : Option TypeKind :=
  (table.info? t.base).map TypeInfo.kind

def classOf (table : TypeTable) (t : TypeExpr) : SelectionClass :=
  ((table.kind? t).map SelectionClass.ofKind).getD .unresolved

/-- The name of the field that every composite type has, which answers the name of the type
itself. -/
def typeNameField : Text := "__typename"

def typeNameType : TypeExpr := .named "String" true

/-- The type of a field of `t`. The class is that of the type below the wrappers, but fields are
those of `t` itself: of a list only the name of its type can be selected. -/
def fieldType? (table : TypeTable) (t : TypeExpr) (field : Text) : Option TypeExpr :=
  match table.classOf t with
  | .composite =>
    if field = typeNameField then some typeNameType
    else
      match t with
      | .list _ _ => none
      | .named name _ => ((table.info? name).bind (·.field? field)).map FieldInfo.type
  | .leaf | .unresolved => none

end TypeTable

end SelectionCheck
