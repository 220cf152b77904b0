import SelectionCheck.Check.Selection

/-!
# Queries

A query is a document of operations and fragments that was read without errors. It keeps its
source, since findings point into it.
-/

namespace SelectionCheck

structure Query where
  source : Text
  document : Document

namespace Query

def notExecutable? (source : Text) : Definition → Option Finding
  | .operation _ | .fragment _ => none
  | d => some (.atPosition "not an operation nor a fragment" (.ofOffset source d.start))

def ofSource (source : Text) : Except (List Finding) Query :=
  match parse source with
  | ⟨some d, []⟩ =>
    match d.definitions.filterMap (notExecutable? source) with
    | [] => .ok ⟨source, d⟩
    | findings => .error findings
  | ⟨_, errors⟩ => .error (errors.map (Finding.ofSourceError source))

/-- The names of the operations in order; an operation without a name is listed as the empty text.
-/
def operationNames (query : Query) : List Text :=
  query.document.definitions.filterMap fun
    | .operation o => some ((o.name.map Name.value).getD [])
    | _ => none

end Query

namespace Schema

def validate (schema : Schema) (query : Query) : List Finding :=
  (query.document.violated schema).map (Violated.finding query.source)

/-- The findings about a source: why it is no query, or what is wrong with its selection sets. -/
def check (schema : Schema) (source : Text) : List Finding :=
  match Query.ofSource source with
  | .error findings => findings
  | .ok query => schema.validate query

end Schema

end SelectionCheck
