import SelectionCheck.Proofs.Check.Report
import SelectionCheck.Proofs.Document.Equivariant.TypeSystem

/-!
# Layout does not matter

Two sources with the same tokens, whatever stands between them, are read to documents of the same
shape and get the same findings in all but the places. Both follow from one fact: the readers and
the check hand offsets on without looking at them, so everything that is found in a source is found
in the other one at the offsets there. Only the position that belongs to an offset depends on the
text, and it is made last.
-/

namespace SelectionCheck

open Placed (relocate)

variable (f : Nat → Nat)

/-! ## Violations -/

instance : Placed Misuse :=
  ⟨fun f => fun
    | .emptyOperation type name returns => .emptyOperation type (relocate f name) returns
    | .noSelections field returns => .noSelections field returns
    | .selections field returns selected => .selections field returns selected
    | .inlineFragments field returns conditions => .inlineFragments field returns conditions⟩

instance : Placed Violated := ⟨fun f v => ⟨relocate f v.misuse, f v.offset, v.path⟩⟩

@[simp]
theorem Misuse.relocate_noSelections (field returns : Text) :
    relocate f (Misuse.noSelections field returns) = .noSelections field returns := rfl

@[simp]
theorem Violated.relocate_mk (misuse : Misuse) (offset : Nat) (path : List Text) :
    relocate f (⟨misuse, offset, path⟩ : Violated) = ⟨relocate f misuse, f offset, path⟩ := rfl

theorem Misuse.kind_relocate (m : Misuse) : (relocate f m).kind = m.kind := by
  cases m <;> rfl

theorem Misuse.message_relocate (m : Misuse) : (relocate f m).message = m.message := by
  rcases m with ⟨type, _ | name, returns⟩ | _ | _ | _ <;> rfl

theorem relocate_map_violated (misuses : List Misuse) (offset : Nat) (path : List Text) :
    relocate f (misuses.map fun m => (⟨m, offset, path⟩ : Violated)) =
      (relocate f misuses).map fun m => ⟨m, f offset, path⟩ := by
  induction misuses with
  | nil => rfl
  | cons m misuses ih => exact congrArg (_ :: ·) ih

theorem itemsOf_relocate (set : Option SelectionSet) :
    itemsOf (relocate f set) = relocate f (itemsOf set) := by
  cases set <;> rfl

namespace Selection

theorem selectedName?_relocate (s : Selection) :
    selectedName? (relocate f s) = selectedName? s := by
  cases s with
  | field => rw [relocate_field]; rfl
  | spread => rfl
  | inline => rw [relocate_inline]; rfl

theorem conditionName?_relocate (parent : Text) (s : Selection) :
    conditionName? parent (relocate f s) = conditionName? parent s := by
  cases s with
  | field => rw [relocate_field]; rfl
  | spread => rfl
  | inline ellipsis condition directives set =>
      rw [relocate_inline]
      cases condition <;> rfl

end Selection

theorem leafMisuses_relocate (field returns : Text) (items : List Selection) :
    leafMisuses field returns (relocate f items) =
      relocate f (leafMisuses field returns items) := by
  have hselected := filterMap_relocate f (Selection.selectedName?_relocate f) items
  have hconditions := filterMap_relocate f (Selection.conditionName?_relocate f returns) items
  simp only [leafMisuses, hselected, hconditions, relocate_append]
  congr 1 <;> split <;> rfl

theorem TypeTable.conditionType?_relocate (table : TypeTable) (parent : Text)
    (condition : Option TypeCondition) :
    table.conditionType? parent (relocate f condition) = table.conditionType? parent condition := by
  cases condition <;> rfl

/-- Relocating a selection relocates the violations inside it; types and paths are found by name. -/
theorem Selection.violated_relocate (table : TypeTable) (s : Selection) (parent : Text)
    (path : FieldPath) :
    (relocate f s).violated table parent path =
      relocate f (s.violated table parent path) := by
  induction s using Selection.induction generalizing parent path with
  | spread ellipsis name directives => rfl
  | inline ellipsis condition directives set ih =>
      rw [Selection.relocate_inline, Selection.violated, Selection.violated,
        TypeTable.conditionType?_relocate]
      cases table.conditionType? parent condition with
      | none => rfl
      | some type =>
          simp only [violatedSet_eq_flatMap]
          exact relocate_flatMap f fun s hs => ih s hs type path
  | field aliasName name arguments directives set ih =>
      have hkey : Selection.fieldKey (relocate f aliasName) (relocate f name) =
          relocate f (Selection.fieldKey aliasName name) := by
        cases aliasName <;> rfl
      rw [Selection.relocate_field]
      cases hreturns : table.fieldTypeName? parent name.value with
      | none => rcases set with _ | _ <;> simp [Selection.violated, hreturns]
      | some returns =>
          have hreturns' : table.fieldTypeName? parent (relocate f name).value = some returns :=
            hreturns
          rw [Selection.violated_field hreturns, Selection.violated_field hreturns', hkey,
            itemsOf_relocate]
          cases table.classOf (.named returns false) with
          | composite =>
              by_cases hitems : itemsOf set = []
              · simp [hitems]
              · have hmoved : relocate f (itemsOf set) ≠ [] := mt List.map_eq_nil_iff.1 hitems
                simp only [if_neg hitems, if_neg hmoved]
                exact relocate_flatMap f fun s hs => ih s hs returns _
          | leaf =>
              simp only [leafMisuses_relocate, relocate_map_violated]
              rfl
          | unresolved => rfl

theorem violatedSet_relocate (table : TypeTable) (parent : Text) (path : FieldPath)
    (set : SelectionSet) :
    violatedSet table parent path (relocate f set) =
      relocate f (violatedSet table parent path set) := by
  rw [violatedSet_eq_flatMap, violatedSet_eq_flatMap]
  exact relocate_flatMap f fun s _ => s.violated_relocate f table parent path

theorem Operation.segment_relocate (o : Operation) : (relocate f o).segment = o.segment := by
  obtain ⟨start, type, name, parameters, directives, selections⟩ := o
  cases name <;> rfl

theorem Operation.violated_equivariant (schema : Schema) :
    Equivariant (Operation.violated schema) := by
  intro f o
  have htype : (relocate f o).type = o.type := rfl
  rw [Operation.violated, Operation.violated, Operation.segment_relocate, htype]
  cases schema.root? o.type with
  | none => rfl
  | some root =>
      have hset := violatedSet_relocate f schema.types root (FieldPath.root.push o.segment)
        o.selections
      have hitems : (relocate f o).selections.items = relocate f o.selections.items := rfl
      simp only [hitems]
      cases o.selections.items with
      | nil => rfl
      | cons s items => exact hset

theorem Fragment.violated_equivariant (schema : Schema) :
    Equivariant (Fragment.violated schema) := by
  intro f d
  have hcondition : (relocate f d).condition.name.value = d.condition.name.value := rfl
  have hname : (relocate f d).name.value = d.name.value := rfl
  have hset := violatedSet_relocate f schema.types d.condition.name.value
    (FieldPath.root.push ("fragment " ++ d.name.value)) d.selections
  rw [Fragment.violated, Fragment.violated, hcondition, hname]
  cases schema.types.classOf (.named d.condition.name.value false) with
  | composite => exact hset
  | leaf | unresolved => rfl

theorem Definition.violated_equivariant (schema : Schema) :
    Equivariant (Definition.violated schema) := by
  intro f d
  cases d with
  | operation o => exact Operation.violated_equivariant schema f o
  | fragment d => exact Fragment.violated_equivariant schema f d
  | type _ => rfl
  | schema _ => rfl

theorem Document.violated_equivariant (schema : Schema) :
    Equivariant (Document.violated schema) :=
  fun f _ => relocate_flatMap f fun definition _ =>
    Definition.violated_equivariant schema f definition

/-! ## Findings without their places -/

/-- A finding with the number of its places in place of the places. -/
def Finding.unplaced (e : Finding) : Text × List Text × FindingKind × Nat :=
  (e.message, e.fields, e.kind, e.locations.length)

theorem Violated.unplaced_finding (source source' : Text) (v : Violated) :
    ((relocate f v).finding source').unplaced = (v.finding source).unplaced := by
  simp only [Finding.unplaced, Violated.finding, List.length_singleton]
  exact Prod.ext (v.misuse.message_relocate f) (congrArg (_, ·, _) (v.misuse.kind_relocate f))

theorem Cause.message_relocate (cause : Cause) : (relocate f cause).message = cause.message := by
  rcases cause with ⟨wanted, _ | found⟩ | ⟨_ | found⟩ | _ | _ | _ | _ | _ <;> rfl

theorem Fault.message_relocate (fault : Fault) : (relocate f fault).message = fault.message :=
  congrArg (fault.context.foldr _ ·) (fault.cause.message_relocate f)

theorem SourceError.message_relocate (e : SourceError) :
    (relocate f e).message = e.message := by
  cases e with
  | grammar fault => exact congrArg (("parse: " : Text) ++ ·) (fault.message_relocate f)
  | _ => rfl

theorem SourceError.isSome_offset?_relocate (e : SourceError) (size size' : Nat) :
    ((relocate f e).offset? size').isSome = (e.offset? size).isSome := by
  cases e with
  | grammar fault =>
      obtain ⟨context, cause⟩ := fault
      cases cause <;> rfl
  | _ => rfl

theorem SourceError.unplaced_finding (source source' : Text) (e : SourceError) :
    (Finding.ofSourceError source' (relocate f e)).unplaced =
      (Finding.ofSourceError source e).unplaced := by
  have hplace := e.isSome_offset?_relocate f source.length source'.length
  simp only [Finding.unplaced, Finding.ofSourceError, SourceError.position?, List.length_map,
    SourceError.message_relocate]
  cases hmoved : (relocate f e).offset? source'.length <;>
    cases hoffset : e.offset? source.length <;> simp_all

theorem Query.notExecutable?_relocate (source source' : Text) (d : Definition) :
    (notExecutable? source' (relocate f d)).map Finding.unplaced =
      (notExecutable? source d).map Finding.unplaced := by
  cases d <;> rfl

def Document.findings (schema : Schema) (source : Text) (d : Document) : List Finding :=
  match d.definitions.filterMap (Query.notExecutable? source) with
  | [] => (d.violated schema).map (Violated.finding source)
  | findings => findings

def Parsed.findings (schema : Schema) (source : Text) : Parsed → List Finding
  | ⟨some d, []⟩ => d.findings schema source
  | ⟨_, errors⟩ => errors.map (Finding.ofSourceError source)

theorem Schema.check_eq_findings (schema : Schema) (source : Text) :
    schema.check source = (parse source).findings schema source := by
  rw [Schema.check, Query.ofSource]
  obtain ⟨_ | d, _ | ⟨e, errors⟩⟩ := parse source
  · rfl
  · rfl
  · simp only [Parsed.findings, Document.findings]
    cases d.definitions.filterMap (Query.notExecutable? source) <;> rfl
  · rfl

/-- But for their places, the findings depend on the tree and not on its offsets or its source. -/
theorem Document.findings_relocate (schema : Schema) (source source' : Text) (d : Document) :
    ((relocate f d).findings schema source').map Finding.unplaced =
      (d.findings schema source).map Finding.unplaced := by
  have hrefused : ((relocate f d).definitions.filterMap
      (Query.notExecutable? source')).map Finding.unplaced =
        (d.definitions.filterMap (Query.notExecutable? source)).map Finding.unplaced := by
    rw [List.map_filterMap, List.map_filterMap]
    exact filterMap_relocate f (Query.notExecutable?_relocate f source source') d.definitions
  rw [Document.findings, Document.findings]
  cases hmoved : (relocate f d).definitions.filterMap (Query.notExecutable? source') with
  | nil =>
      rw [hmoved, List.map_nil, eq_comm, List.map_eq_nil_iff] at hrefused
      simp only [hrefused, Document.violated_equivariant schema f d, List.map_map]
      exact map_relocate f (Violated.unplaced_finding f source source') _
  | cons e findings =>
      rw [hmoved] at hrefused
      cases hfindings : d.definitions.filterMap (Query.notExecutable? source) with
      | nil =>
          rw [hfindings] at hrefused
          cases hrefused
      | cons e' findings' =>
          rw [hfindings] at hrefused
          exact hrefused

theorem Parsed.findings_relocate (schema : Schema) (source source' : Text) (p : Parsed) :
    ((relocate f p).findings schema source').map Finding.unplaced =
      (p.findings schema source).map Finding.unplaced := by
  have herrors : ∀ errors : List SourceError,
      ((relocate f errors).map (Finding.ofSourceError source')).map Finding.unplaced =
        (errors.map (Finding.ofSourceError source)).map Finding.unplaced := by
    intro errors
    rw [List.map_map, List.map_map]
    exact map_relocate f (SourceError.unplaced_finding f source source') errors
  obtain ⟨_ | d, _ | ⟨e, errors⟩⟩ := p
  · rfl
  · exact herrors (e :: errors)
  · exact d.findings_relocate f schema source source'
  · exact herrors (e :: errors)

/-! ## Sources with the same tokens -/

/-- Two sources with the same tokens are read to the same tree but for its offsets, with the same
messages, and the check reports the same findings but for their places. -/
theorem unplaced_check_of_lex_eq {s₁ s₂ : Text} (h₁ : s₁.length ≤ sizeLimit)
    (h₂ : s₂.length ≤ sizeLimit)
    (h : (lex s₁).map (fun t => (t.kind, t.text)) = (lex s₂).map fun t => (t.kind, t.text)) :
    (parse s₁).document.map Document.erase = (parse s₂).document.map Document.erase ∧
      (parse s₁).errors.map SourceError.message = (parse s₂).errors.map SourceError.message ∧
      ∀ schema : Schema,
        (schema.check s₁).map Finding.unplaced = (schema.check s₂).map Finding.unplaced := by
  have htokens : relocate (fun _ => 0) (lex s₁) = relocate (fun _ => 0) (lex s₂) := by
    have hmap := congrArg (List.map fun p : Token.Kind × Text => (⟨p.1, p.2, 0⟩ : Token)) h
    rw [List.map_map, List.map_map] at hmap
    exact hmap
  have hparse : relocate (fun _ => 0) (parse s₁) = relocate (fun _ => 0) (parse s₂) := by
    rw [parse_eq_ofTokens h₁, parse_eq_ofTokens h₂, ← Parsed.ofTokens_equivariant,
      ← Parsed.ofTokens_equivariant, htokens]
  refine ⟨?_, ?_, fun schema => ?_⟩
  · have hdocument : relocate (fun _ => 0) (parse s₁).document =
        relocate (fun _ => 0) (parse s₂).document := congrArg Parsed.document hparse
    rw [relocate_zero_option Document.relocate_zero,
      relocate_zero_option Document.relocate_zero] at hdocument
    exact hdocument
  · have herrors : relocate (fun _ => 0) (parse s₁).errors =
        relocate (fun _ => 0) (parse s₂).errors := congrArg Parsed.errors hparse
    have hmessage := SourceError.message_relocate fun _ => 0
    rw [← map_relocate _ hmessage, herrors, map_relocate _ hmessage]
  · rw [Schema.check_eq_findings, Schema.check_eq_findings,
      ← Parsed.findings_relocate (fun _ => 0) schema s₁ s₁, hparse,
      Parsed.findings_relocate (fun _ => 0) schema s₂ s₁]

def denseQuery : Text :=
  "query Q\x7bkind pet(id:\"#\")\x7bname\x7ba...\x7bb\x7d\x7d friends\x7d\x7d"

/-- The same tokens on several lines, with commas, comments and byte order marks between them. -/
def spreadQuery : Text :=
  "\uFEFF# a query \x7b
query,Q\r\n\x7b kind , pet ( id : \"#\" ) \uFEFF\x7b name # \x7d
  \x7b a\t... \x7b b \x7d,, \x7d\r friends \x7d \x7d # done"

theorem unplaced_check_spreadQuery :
    (denseQuery.length ≤ sizeLimit ∧ spreadQuery.length ≤ sizeLimit ∧
      (lex denseQuery).map (fun t => (t.kind, t.text)) =
        (lex spreadQuery).map fun t => (t.kind, t.text)) ∧
    (parse denseQuery).document.map Document.erase =
      (parse spreadQuery).document.map Document.erase ∧
    ∃ schema, Schema.ofSource animalTypes = .ok schema ∧
      (schema.check denseQuery).map Finding.unplaced =
        (schema.check spreadQuery).map Finding.unplaced ∧
      (schema.check denseQuery).map Finding.locations = [[⟨1, 26⟩], [⟨1, 26⟩], [⟨1, 40⟩]] ∧
      (schema.check spreadQuery).map Finding.locations = [[⟨3, 29⟩], [⟨3, 29⟩], [⟨5, 2⟩]] := by
  have hdense : denseQuery.length ≤ sizeLimit := by
    rw [denseQuery, Text.ofString_ofList]
    decide +kernel
  have hspread : spreadQuery.length ≤ sizeLimit := by
    rw [spreadQuery, Text.ofString_ofList]
    decide +kernel
  have hlex : (lex denseQuery).map (fun t => (t.kind, t.text)) =
      (lex spreadQuery).map fun t => (t.kind, t.text) := by
    rw [denseQuery, Text.ofString_ofList, spreadQuery, Text.ofString_ofList]
    decide +kernel
  have hplaces :
      ((Schema.ofSource animalTypes).toOption.map fun schema =>
        ((schema.check denseQuery).map Finding.locations,
          (schema.check spreadQuery).map Finding.locations)) =
        some ([[⟨1, 26⟩], [⟨1, 26⟩], [⟨1, 40⟩]], [[⟨3, 29⟩], [⟨3, 29⟩], [⟨5, 2⟩]]) := by
    rw [animalTypes, Text.ofString_ofList, denseQuery, Text.ofString_ofList, spreadQuery,
      Text.ofString_ofList]
    decide +kernel
  obtain ⟨schema, hschema, hplaces⟩ := Option.map_eq_some_iff.1 hplaces
  obtain ⟨hdocument, -, hcheck⟩ := unplaced_check_of_lex_eq hdense hspread hlex
  obtain ⟨hfirst, hsecond⟩ := Prod.mk.inj hplaces
  exact ⟨⟨hdense, hspread, hlex⟩, hdocument, schema, eq_ok_of_toOption_eq_some hschema,
    hcheck schema, hfirst, hsecond⟩

end SelectionCheck
