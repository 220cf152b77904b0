import SelectionCheck.Schema.Declaration

/-!
# Schemas

A schema is a table of types and the names of the types at the roots of the three types of
operation. Only the query root must exist.
-/

namespace SelectionCheck

structure Schema where
  query : Text
  mutation : Option Text
  subscription : Option Text
  types : TypeTable
deriving DecidableEq, Repr

namespace Schema

def root? (schema : Schema) : OperationType → Option Text
  | .query => some schema.query
  | .mutation => schema.mutation
  | .subscription => schema.subscription

def ofDocument (d : Document) : Except SchemaError Schema :=
  match d.violations, d.root? .query with
  | [], some query =>
    .ok ⟨query, d.root? .mutation, d.root? .subscription, typeTable d.declarations⟩
  | [], none => .error .noQuery
  | e :: _, _ => .error e

def ofSource (source : Text) : Except SchemaError Schema :=
  match parse source with
  | ⟨some d, []⟩ => ofDocument d
  | ⟨_, errors⟩ => .error (.unreadable errors)

end Schema

end SelectionCheck
