import SelectionCheck.Log.Entry

/-!
# Measurements and spans as log entries

Each row of a measurement and each finished span becomes one entry at the level `info`. The
attributes of a span stand behind its own fields, so an attribute replaces a field of the same
name.
-/

namespace SelectionCheck.Log

inductive RowData
  | distribution (count : Int) (mean : Value)
  | count (count : Int)
  | sum (sum : Value)
  | last (value : Value)
  | none
deriving DecidableEq, Repr

def RowData.fields : RowData → List (Text × Value)
  | .distribution n mean => [("count", .integer n), ("mean", mean)]
  | .count n => [("count", .integer n)]
  | .sum total => [("sum", total)]
  | .last value => [("value", value)]
  | .none => []

structure Row where
  tags : List (Text × Text)
  data : RowData
deriving DecidableEq, Repr

def Row.tagText (row : Row) : Text :=
  Text.join "," (row.tags.map fun tag => tag.1 ++ "=" ++ tag.2)

def ofRows (view : Text) (rows : List Row) : List Entry :=
  rows.map fun row =>
    ⟨.info, "Metric", ("view", .text view) :: ("tags", .text row.tagText) :: row.data.fields⟩

/-- A finished span. Identifiers are numbers of 128 and 64 bits, the duration is in nanoseconds. -/
structure Span where
  name : Text
  traceId : Nat
  spanId : Nat
  duration : Int
  status : Int
  attributes : List (Text × Value)
deriving DecidableEq, Repr

def Span.ownFields (span : Span) : List (Text × Value) :=
  [("span", .text span.name), ("trace_id", .text (Text.hex 32 span.traceId)),
    ("span_id", .text (Text.hex 16 span.spanId)), ("duration", .integer span.duration),
    ("status_code", .integer span.status)]

def ofSpan (span : Span) : Entry :=
  ⟨.info, "Span", span.ownFields ++ span.attributes⟩

end SelectionCheck.Log
