import SelectionCheck.Proofs.Check.Order
import SelectionCheck.Proofs.Document.Faults.TypeSystem
import SelectionCheck.Proofs.Text.Line
import SelectionCheck.Report.Basic

/-!
# Findings on lines of their own

Reports list findings one on a line, so a message must not have a line end in it. Messages are put
together from fixed words, numbers, quoted texts and names, which have none, and there is one
exception: a backslash in a quoted string that stands before a character which forms no escape is
reported with this character as it is. A string may have an escaped line end in it, and then the
message has it too. `check_oneLine_iff` says that this is the only way in which a report can lose
its lines.
-/

namespace SelectionCheck

open Text (OneLine)

/-! ## Names and strings -/

namespace Token

theorem oneLine_of_isNameByte (b : UInt8) : isNameByte b → b ≠ 0x0A ∧ b ≠ 0x0D := by
  revert b
  exact forall_byte (by decide +kernel)

theorem oneLine_tokenOfHead {b : UInt8} {rest : Text} (h : (tokenOfHead b rest).1 = .name) :
    OneLine ((b :: rest).take (tokenOfHead b rest).2) := by
  obtain ⟨c, tail, htext, hstart, htail⟩ := isName_tokenOfHead h
  rw [htext, Text.oneLine_cons]
  refine ⟨oneLine_of_isNameByte c (by rw [isNameByte, hstart, Bool.true_or]), fun d hd => ?_⟩
  exact oneLine_of_isNameByte d (htail d hd)

/-- Whether a backslash stands before a line end. A backslash takes the next byte with it, so one
that is escaped itself escapes nothing. -/
def escapesLineEnd : Text → Bool
  | [] => false
  | b :: rest =>
    if b = Text.byte '\\' then
      match rest with
      | [] => false
      | e :: rest => isLineEnd e || escapesLineEnd rest
    else escapesLineEnd rest

/-- The token is a string between single quotes with an escaped line end in it. -/
def EscapesLineEnd (t : Token) : Prop :=
  t.kind = .string ∧ Text.startsWith blockQuotes t.text = false ∧
    escapesLineEnd (t.text.drop 1) = true

instance (t : Token) : Decidable t.EscapesLineEnd :=
  inferInstanceAs (Decidable (_ ∧ _ ∧ _))

theorem escapesLineEnd_plain {b : UInt8} (h : b ≠ Text.byte '\\') (rest : Text) :
    escapesLineEnd (b :: rest) = escapesLineEnd rest := by
  rw [escapesLineEnd.eq_def]
  exact if_neg h

theorem not_isLineEnd_of_isSimpleEscape (e : UInt8) :
    isSimpleEscape e = true → isLineEnd e = false := by
  revert e
  exact forall_byte (by decide +kernel)

/-- The fault of an escape shows the byte behind the backslash. -/
theorem oneLine_escape_iff (e : UInt8) :
    (StringFault.escape e).message.OneLine ↔ isLineEnd e = false := by
  rw [StringFault.message, Text.oneLine_append, Text.oneLine_encode_iff]
  revert e
  exact forall_byte (by decide +kernel)

theorem oneLine_escapeFault?_iff (e : UInt8) (rest : Text) :
    (∀ fault ∈ escapeFault? e rest, fault.message.OneLine) ↔ isLineEnd e = false := by
  rw [escapeFault?]
  split
  · next h => simp [not_isLineEnd_of_isSimpleEscape e h]
  · split
    · next h =>
        subst h
        split <;> decide
    · simpa using oneLine_escape_iff e

theorem oneLine_quotedFaults_iff (closed : Bool) (offset : Nat) (text : Text) :
    (∀ fault ∈ quotedFaults closed offset text, fault.2.message.OneLine) ↔
      escapesLineEnd text = false := by
  fun_induction quotedFaults closed offset text with
  | case1 | case4 => simp [escapesLineEnd]
  | case2 | case5 => exact iff_of_true (by decide) (by simp [escapesLineEnd])
  | case3 closed offset rest ih =>
      rw [ih, escapesLineEnd_plain (by decide)]
  | case6 closed offset e rest hfault _ ih =>
      have he := (oneLine_escapeFault?_iff e rest).1 (by simp [hfault])
      rw [ih, escapesLineEnd, if_pos rfl]
      simp [he]
  | case7 closed offset e rest fault hfault _ ih =>
      have he := oneLine_escapeFault?_iff e rest
      rw [hfault] at he
      rw [List.forall_mem_cons, ih, escapesLineEnd, if_pos rfl]
      simpa using and_congr_left fun _ => he
  | case8 closed offset b rest hquote hbackslash ih =>
      rw [ih, escapesLineEnd_plain hbackslash]

/-- The content of a block string is not reported on. -/
theorem oneLine_stringFaults_iff (text : Text) :
    (∀ fault ∈ stringFaults text, fault.2.message.OneLine) ↔
      ¬ (Text.startsWith blockQuotes text = false ∧ escapesLineEnd (text.drop 1) = true) := by
  rw [stringFaults]
  split
  · next hblock =>
      refine iff_of_true ?_ (by rw [hblock]; nofun)
      split
      · nofun
      · decide
  · next hblock =>
      rw [oneLine_quotedFaults_iff, not_and, Bool.not_eq_true]
      exact ⟨fun h _ => h, fun h => h (Bool.not_eq_true _ ▸ hblock)⟩

/-- A lexical error shows a line end exactly if the token has an escaped one. -/
theorem oneLine_errors_iff (t : Token) :
    (∀ e ∈ t.errors, e.message.OneLine) ↔ ¬ t.EscapesLineEnd := by
  rw [errors, EscapesLineEnd]
  split
  · next hkind =>
      refine iff_of_true (List.forall_mem_singleton.2 ?_) (by rw [hkind]; rintro ⟨⟨⟩, -⟩)
      exact .append (by decide) (Text.oneLine_quote t.text)
  · next hkind =>
      have hparse : OneLine ("parse: " : Text) := by decide
      rw [List.forall_mem_map, hkind, not_and, forall_prop_of_true rfl, ← oneLine_stringFaults_iff]
      exact forall₂_congr fun fault _ => Text.oneLine_append.trans (and_iff_right hparse)
  · next hkind => exact iff_of_true (List.forall_mem_nil _) fun h => hkind h.1

end Token

theorem oneLine_of_mem_lex {source : Text} {t : Token} (ht : t ∈ lex source)
    (hkind : t.kind = .name) : OneLine t.text := by
  obtain ⟨i, b, rest, -, -, hhead, htext⟩ := Token.exists_head_of_mem_lexFrom ht
  rw [htext]
  exact Token.oneLine_tokenOfHead (hhead ▸ hkind)

/-! ## What reading a document reports -/

theorem Rule.oneLine_label (r : Rule) : OneLine (r.label : Text) := by
  cases r <;> exact .literal rfl

theorem Token.Kind.oneLine_quoted (kind : Token.Kind) : OneLine kind.quoted := by
  cases kind <;> decide

theorem Wanted.oneLine_label (wanted : Wanted) : OneLine wanted.label := by
  cases wanted with
  | punctuator kind => exact kind.oneLine_quoted
  | itemOr r closer =>
      have hor : OneLine (" or " : Text) := by decide
      simp [label, r.oneLine_label, closer.oneLine_quoted, hor]
  | _ => exact .literal rfl

/-- Tokens are quoted where they are shown. -/
theorem Cause.oneLine_message (cause : Cause) : OneLine cause.message := by
  have hquote := Text.oneLine_quote
  cases cause with
  | expected wanted found =>
      have hwanted := wanted.oneLine_label
      cases found with
      | none =>
          exact .append (.append (.literal rfl) hwanted) (.literal rfl)
      | some token =>
          refine .append (.append ?_ (.literal rfl)) (hquote token.text)
          exact .append (.literal rfl) hwanted
  | noValue found =>
      cases found with
      | none => decide
      | some token => exact .append (.literal rfl) (hquote token.text)
  | reservedEnumValue name => exact .append (.literal rfl) (hquote name.value)
  | variableInConstant dollar => rw [message]; decide
  | fragmentNamedOn start => rw [message]; decide
  | empty closing => rw [message]; decide
  | tooDeep => decide

section Fault

variable {ts : List Token} (hnames : ∀ t ∈ ts, t.kind = .name → OneLine t.text)
include hnames

/-- A context shows names as they are. -/
theorem Context.oneLine_label {context : Context} (h : context.From ts) :
    OneLine context.label := by
  have hname : ∀ name ∈ context.name?, OneLine name := by
    intro name hname
    obtain ⟨t, ht, hkind, rfl⟩ := h name hname
    exact hnames t ht hkind
  cases context with
  | rule r => exact r.oneLine_label
  | named r name =>
      exact .append (.append r.oneLine_label (by decide)) (hname name rfl)
  | item r number =>
      exact .append (.append r.oneLine_label (by decide)) (Text.oneLine_ofNat number)
  | directive name =>
      exact .append (.append (by decide) (hname name rfl)) (by decide)

theorem Fault.oneLine_message {place : Nat} {fault : Fault} (h : fault.At ts place) :
    OneLine fault.message := by
  obtain ⟨context, cause⟩ := fault
  have hcontext := h.context
  induction context with
  | nil => exact cause.oneLine_message
  | cons first context ih =>
      obtain ⟨hfirst, hrest⟩ := List.forall_mem_cons.1 hcontext
      have hmessage := ih ⟨h.cause, hrest⟩ hrest
      exact .append (.append (Context.oneLine_label hnames hfirst) (by decide)) hmessage

end Fault

/-- Reading a document reports a line end exactly if it reads a string with an escaped one. -/
theorem oneLine_parse_iff (source : Text) :
    (∀ e ∈ (parse source).errors, e.message.OneLine) ↔
      sizeLimit < source.length ∨ ∀ t ∈ lex source, ¬ t.EscapesLineEnd := by
  by_cases hsize : sizeLimit < source.length
  · rw [parse, if_pos hsize]
    exact iff_of_true (by decide) (.inl hsize)
  · have htokens : (∀ e ∈ (lex source).flatMap Token.errors, e.message.OneLine) ↔
        ∀ t ∈ lex source, ¬ t.EscapesLineEnd := by
      rw [List.forall_mem_flatMap]
      exact forall₂_congr fun t _ => t.oneLine_errors_iff
    rw [or_iff_right hsize, ← htokens, parse, if_neg hsize]
    simp only
    split
    · next herrors =>
        refine iff_of_true (List.forall_mem_map.2 fun fault hfault => ?_)
          (by rw [herrors]; exact List.forall_mem_nil _)
        obtain ⟨place, hat⟩ := (Grammar.definitions_orderly (lex source)).exists_at fault hfault
        have hmessage := Fault.oneLine_message (fun t ht => oneLine_of_mem_lex ht) hat
        exact .append (by decide) hmessage
    · exact Iff.rfl

/-! ## What is wrong with selection sets -/

def NamesOneLine (ps : List Piece) : Prop :=
  ∀ n : Name, n.piece ∈ ps → OneLine n.value

theorem NamesOneLine.mono {ps qs : List Piece} (h : NamesOneLine qs) (hsub : ps ⊆ qs) :
    NamesOneLine ps :=
  fun n hn => h n (hsub hn)

theorem NamesOneLine.items {set : SelectionSet} (h : NamesOneLine set.pieces) :
    ∀ s ∈ set.items, NamesOneLine s.pieces := by
  intro s hs
  apply h.mono
  intro p hp
  exact (flatMap_pieces_sublist_set set).subset (List.mem_flatMap.2 ⟨s, hs, hp⟩)

/-- The names of a document that is read without errors are those of tokens. -/
theorem namesOneLine_of_parse {source : Text} {d : Document}
    (h : parse source = ⟨some d, []⟩) : NamesOneLine d.pieces := by
  intro n hn
  obtain ⟨t, ht, hdenotes⟩ := (spells_of_parse h).exists_denotes hn rfl
  have hname := oneLine_of_mem_lex ht hdenotes.kind_eq
  rwa [hdenotes.text_eq] at hname

theorem Document.Defines.oneLine {d : Document} (h : NamesOneLine d.pieces) {name : Text}
    {kind : TypeKind} (hdefines : d.Defines name kind) : OneLine name := by
  cases hdefines with
  | builtin hbuiltin =>
      have hall : ∀ name ∈ builtinScalars, OneLine name := by decide
      exact hall name hbuiltin
  | @declared t ht =>
      obtain ⟨x, hx, ht⟩ := List.mem_filterMap.1 ht
      split at ht
      · next d' =>
          obtain ⟨n, hn, rfl⟩ := Option.map_eq_some_iff.1 ht
          refine h n (List.mem_flatMap.2 ⟨_, hx, ?_⟩)
          simp [Definition.pieces, TypeDefinition.pieces, hn]
      · cases ht

structure Schema.AnswersOneLine (schema : Schema) : Prop where
  root : ∀ operation, ∀ name ∈ schema.root? operation, OneLine name
  returns : ∀ parent field, ∀ name ∈ schema.types.fieldTypeName? parent field, OneLine name

theorem Schema.answersOneLine_of_ofSource {source : Text} {schema : Schema}
    (h : Schema.ofSource source = .ok schema) : schema.AnswersOneLine := by
  obtain ⟨d, hparse, hschema⟩ := ofSource_eq_ok_iff.1 h
  obtain ⟨hd, -⟩ := ofDocument_eq_ok_iff.1 hschema
  have hresolves := resolves_of_ofDocument hschema
  have hnames := namesOneLine_of_parse hparse
  refine ⟨fun operation name hname => ?_, fun parent field name hname => ?_⟩
  · rcases hresolves.root.1 hname with ⟨hs, hroot⟩ | ⟨-, hdefines⟩
    · exact ((hd.givenRoots _ hs).objects _ hroot).oneLine hnames
    · exact hdefines.oneLine hnames
  · rcases hresolves.returns.1 hname with _ | ⟨ht, hf, hname⟩
    · decide
    · obtain ⟨name', kind, hbase, hdefines, -⟩ := (hd.bodies _ ht).fields.types _ hf
      rw [hname] at hbase
      cases hbase
      exact hdefines.oneLine hnames

theorem Misuse.oneLine_missingMessage {subject returns : Text} (hsubject : OneLine subject)
    (hreturns : OneLine returns) : OneLine (missingMessage subject returns) := by
  refine .append (.append ?_ hreturns) (.literal rfl)
  exact .append (.append (.literal rfl) hsubject) (.literal rfl)

theorem Misuse.oneLine_fieldSubject {name : Text} (h : OneLine name) :
    OneLine (fieldSubject name) :=
  .append (.append (.literal rfl) h) (.literal rfl)

theorem Misuse.oneLine_leafMessage {field returns what : Text} {items : List Text}
    (hfield : OneLine field) (hreturns : OneLine returns) (hwhat : OneLine what)
    (hitems : ∀ item ∈ items, OneLine item) : OneLine (leafMessage field returns what items) := by
  have hjoin : OneLine (Text.join ", " items) := Text.oneLine_join (.literal rfl) hitems
  refine .append (.append ?_ hjoin) (.literal rfl)
  refine .append (.append ?_ hwhat) (.literal rfl)
  refine .append (.append ?_ hreturns) (.literal rfl)
  exact .append (.append (.literal rfl) (oneLine_fieldSubject hfield)) (.literal rfl)

/-- What is listed about selections on a leaf are their names and the types of their conditions. -/
theorem oneLine_leafMisuses {field returns : Text} (hfield : OneLine field)
    (hreturns : OneLine returns) {items : List Selection}
    (hitems : ∀ s ∈ items, NamesOneLine s.pieces) :
    ∀ m ∈ leafMisuses field returns items, OneLine m.message := by
  intro m hm
  rcases mem_leafMisuses_iff.1 hm with ⟨-, rfl⟩ | ⟨-, rfl⟩
  · refine Misuse.oneLine_leafMessage hfield hreturns (by decide) fun name hname => ?_
    obtain ⟨s, hs, hname⟩ := List.mem_filterMap.1 hname
    cases s with
    | field aliasName n arguments directives set =>
        cases hname
        exact hitems _ hs n (by simp [Selection.pieces_field])
    | spread ellipsis n directives =>
        cases hname
        exact hitems _ hs n (by simp [Selection.pieces])
    | inline ellipsis condition directives set => cases hname
  · refine Misuse.oneLine_leafMessage hfield hreturns (by decide) fun name hname => ?_
    obtain ⟨s, hs, hname⟩ := List.mem_filterMap.1 hname
    cases s with
    | field aliasName n arguments directives set => cases hname
    | spread ellipsis n directives => cases hname
    | inline ellipsis condition directives set =>
        cases condition with
        | none => cases hname; exact hreturns
        | some condition =>
            cases hname
            exact hitems _ hs condition.name
              (by simp [Selection.pieces_inline, TypeCondition.pieces])

section Violated

variable {schema : Schema} (hschema : schema.AnswersOneLine)
include hschema

theorem Selection.oneLine_violated (s : Selection) : NamesOneLine s.pieces →
    ∀ (parent : Text) (path : FieldPath), ∀ v ∈ s.violated schema.types parent path,
      OneLine v.misuse.message := by
  induction s using Selection.induction with
  | field aliasName name arguments directives set ih =>
      intro hnames parent path v hv
      have hname : OneLine name.value := hnames name (by simp [Selection.pieces_field])
      have hitems : ∀ x ∈ itemsOf set, NamesOneLine x.pieces := by
        cases set with
        | none => exact List.forall_mem_nil _
        | some set =>
            have hset : NamesOneLine set.pieces := hnames.mono fun p hp => by
              simp [Selection.pieces_field, hp]
            exact hset.items
      cases hfield : schema.types.fieldTypeName? parent name.value with
      | none => cases set <;> simp [Selection.violated, hfield] at hv
      | some returns =>
          have hreturns := hschema.returns parent name.value returns hfield
          rw [Selection.violated_field hfield] at hv
          simp only at hv
          split at hv
          · split at hv
            · rw [List.mem_singleton.1 hv]
              exact Misuse.oneLine_missingMessage (Misuse.oneLine_fieldSubject hname) hreturns
            · obtain ⟨x, hx, hv⟩ := List.mem_flatMap.1 hv
              exact ih x hx (hitems x hx) returns _ v hv
          · obtain ⟨m, hm, rfl⟩ := List.mem_map.1 hv
            exact oneLine_leafMisuses hname hreturns hitems m hm
          · cases hv
  | spread ellipsis name directives =>
      intro hnames parent path v hv
      simp [Selection.violated] at hv
  | inline ellipsis condition directives set ih =>
      intro hnames parent path v hv
      rw [Selection.violated] at hv
      split at hv
      · rw [violatedSet_eq_flatMap] at hv
        obtain ⟨x, hx, hv⟩ := List.mem_flatMap.1 hv
        have hset : NamesOneLine set.pieces := hnames.mono fun p hp => by
          simp [Selection.pieces_inline, hp]
        exact ih x hx (hset.items x hx) _ path v hv
      · cases hv

theorem oneLine_violatedSet {set : SelectionSet} (h : NamesOneLine set.pieces) (parent : Text)
    (path : FieldPath) :
    ∀ v ∈ violatedSet schema.types parent path set, OneLine v.misuse.message := by
  intro v hv
  rw [violatedSet_eq_flatMap] at hv
  obtain ⟨s, hs, hv⟩ := List.mem_flatMap.1 hv
  exact s.oneLine_violated hschema (h.items s hs) parent path v hv

theorem Operation.oneLine_violated {o : Operation} (h : NamesOneLine o.pieces) :
    ∀ v ∈ o.violated schema, OneLine v.misuse.message := by
  intro v hv
  rw [Operation.violated] at hv
  cases hroot : schema.root? o.type with
  | none => simp [hroot] at hv
  | some root =>
      have hreturns := hschema.root o.type root hroot
      simp only [hroot] at hv
      split at hv
      · rw [List.mem_singleton.1 hv]
        cases hname : o.name with
        | none =>
            refine Misuse.oneLine_missingMessage ?_ hreturns
            cases o.type <;> decide
        | some n =>
            have hn : n.piece ∈ o.pieces := by
              simp [Operation.pieces, Operation.isShorthand, hname]
            exact Misuse.oneLine_missingMessage (Misuse.oneLine_fieldSubject (h n hn)) hreturns
      · exact oneLine_violatedSet hschema (h.mono o.selections_sublist.subset) root _ v hv

theorem Fragment.oneLine_violated {f : Fragment} (h : NamesOneLine f.pieces) :
    ∀ v ∈ f.violated schema, OneLine v.misuse.message := by
  intro v hv
  rw [Fragment.violated] at hv
  have hset : NamesOneLine f.selections.pieces := h.mono fun p hp => by simp [Fragment.pieces, hp]
  split at hv
  · exact oneLine_violatedSet hschema hset _ _ v hv
  · cases hv
  · cases hv

theorem Document.oneLine_violated {d : Document} (h : NamesOneLine d.pieces) :
    ∀ v ∈ d.violated schema, OneLine v.misuse.message := by
  intro v hv
  obtain ⟨x, hx, hv⟩ := List.mem_flatMap.1 hv
  have hpieces : NamesOneLine x.pieces := h.mono fun p hp => List.mem_flatMap.2 ⟨x, hx, hp⟩
  cases x with
  | operation o => exact Operation.oneLine_violated hschema hpieces v hv
  | fragment f => exact Fragment.oneLine_violated hschema hpieces v hv
  | type t => cases hv
  | schema s => cases hv

omit hschema in
theorem Query.oneLine_notExecutable (source : Text) (definitions : List Definition) :
    ∀ f ∈ definitions.filterMap (notExecutable? source), OneLine f.message := by
  intro f hf
  obtain ⟨x, -, hx⟩ := List.mem_filterMap.1 hf
  have hmessage : OneLine ("not an operation nor a fragment" : Text) := by decide
  rw [notExecutable?.eq_def] at hx
  split at hx <;> cases hx
  exact hmessage

/-- A check reports a line end exactly if it reads a string with an escaped one. -/
theorem Schema.oneLine_message_check_iff (source : Text) :
    (∀ f ∈ schema.check source, OneLine f.message) ↔
      sizeLimit < source.length ∨ ∀ t ∈ lex source, ¬ t.EscapesLineEnd := by
  rw [← oneLine_parse_iff, Schema.check]
  split
  · next findings hsource =>
      rw [Query.ofSource] at hsource
      split at hsource
      · next d hparse =>
          refine iff_of_true ?_ (by rw [hparse]; exact List.forall_mem_nil _)
          split at hsource
          · cases hsource
          · cases hsource
            exact Query.oneLine_notExecutable source d.definitions
      · next d errors hne hparse =>
          cases hsource
          simp [hparse, Finding.ofSourceError]
  · next query hsource =>
      obtain ⟨hquery, hparse⟩ := Query.parse_of_ofSource hsource
      refine iff_of_true (List.forall_mem_map.2 fun v hv => ?_) (by simp [hparse])
      exact Document.oneLine_violated hschema (namesOneLine_of_parse hparse) v hv

end Violated

/-! ## Reports -/

def Finding.lineIn (file : Text) (f : Finding) : Text :=
  match f.locations with
  | l :: _ => file ++ ":" ++ l.render ++ ": " ++ f.message
  | [] => file ++ ": " ++ f.message

theorem Location.oneLine_render (l : Location) : OneLine l.render :=
  .append (.append (Text.oneLine_ofInt l.line) (by decide)) (Text.oneLine_ofInt l.column)

theorem Finding.oneLine_line {f : Finding} (h : OneLine f.message) : OneLine f.line := by
  rw [Finding.line]
  split
  · next l _ _ =>
      exact .append (.append l.oneLine_render (by decide)) h
  · exact h

theorem Finding.oneLine_lineIn {file : Text} (hfile : OneLine file) {f : Finding}
    (h : OneLine f.message) : OneLine (f.lineIn file) := by
  rw [Finding.lineIn]
  split
  · next l _ _ =>
      refine .append (.append ?_ (by decide)) h
      exact .append (.append hfile (by decide)) l.oneLine_render
  · exact .append (.append hfile (by decide)) h

theorem Report.text_eq_flatMap (r : Report) :
    r.text =
      (r.findings.map (Finding.lineIn r.file)).flatMap fun line => line ++ Text.ofString "\n" := by
  rw [Report.text, Report.textLines, List.flatMap_map, List.flatMap_def]
  congr 1
  refine List.map_congr_left fun f _ => ?_
  cases hlocations : f.locations <;> simp only [Finding.lineIn, hlocations]

/-- The messages of a check have no line ends exactly if no string that was read has an escaped
one. Then the findings are listed one on each line, in the short form and in that with the name of
a file. -/
theorem check_oneLine_iff {types : Text} {schema : Schema} (h : Schema.ofSource types = .ok schema)
    (source : Text) :
    ((∀ f ∈ schema.check source, OneLine f.message) ↔
      sizeLimit < source.length ∨ ∀ t ∈ lex source, ¬ t.EscapesLineEnd) ∧
    ((∀ f ∈ schema.check source, OneLine f.message) →
      (∀ f ∈ schema.check source, OneLine f.line) ∧
      (schema.check source ≠ [] →
        (Finding.lines (schema.check source)).splitOn 0x0A =
          (schema.check source).map Finding.line) ∧
      ∀ file : Text, OneLine file →
        (∀ f ∈ schema.check source, OneLine (f.lineIn file)) ∧
        (Report.text ⟨file, schema.check source⟩).splitOn 0x0A =
          (schema.check source).map (Finding.lineIn file) ++ [[]]) := by
  refine ⟨Schema.oneLine_message_check_iff (Schema.answersOneLine_of_ofSource h) source, ?_⟩
  intro hmessages
  have hlines : ∀ f ∈ schema.check source, OneLine f.line :=
    fun f hf => Finding.oneLine_line (hmessages f hf)
  refine ⟨hlines, fun hne => ?_, fun file hfile => ?_⟩
  · exact Text.splitOn_join (by simpa using hne) (List.forall_mem_map.2 hlines)
  · have hfiled : ∀ f ∈ schema.check source, OneLine (f.lineIn file) :=
      fun f hf => Finding.oneLine_lineIn hfile (hmessages f hf)
    refine ⟨hfiled, ?_⟩
    rw [Report.text_eq_flatMap]
    exact Text.splitOn_flatMap_feed (List.forall_mem_map.2 hfiled)

def oneFieldTypes : Text := "type Query \x7b a : Int \x7d"

/-- A string with a carriage return in it stands where a field is wanted. The return is shown
quoted, and in the second finding it has ended a line. -/
def returnQuery : Text := "\x7b a \"x\ry\" \x7d"

theorem check_oneLine_returnQuery :
    ∃ schema, Schema.ofSource oneFieldTypes = .ok schema ∧
      (schema.check returnQuery).map (·.locations) = [[⟨1, 5⟩], [⟨2, 4⟩]] ∧
      (∀ f ∈ schema.check returnQuery, OneLine f.message) ∧
      (Finding.lines (schema.check returnQuery)).splitOn 0x0A =
        (schema.check returnQuery).map Finding.line ∧
      (Report.text ⟨"a.graphql", schema.check returnQuery⟩).splitOn 0x0A =
        (schema.check returnQuery).map (Finding.lineIn "a.graphql") ++ [[]] := by
  have hplaces : ((Schema.ofSource oneFieldTypes).toOption.map fun schema =>
      (schema.check returnQuery).map (·.locations)) = some [[⟨1, 5⟩], [⟨2, 4⟩]] := by
    decide +kernel
  obtain ⟨schema, hschema, hplaces⟩ := Option.map_eq_some_iff.1 hplaces
  have hok := eq_ok_of_toOption_eq_some hschema
  obtain ⟨hiff, hlines⟩ := check_oneLine_iff hok returnQuery
  have hmessages := hiff.2 (.inr (by decide +kernel))
  obtain ⟨-, hshort, hfile⟩ := hlines hmessages
  refine ⟨schema, hok, hplaces, hmessages, hshort ?_, (hfile "a.graphql" (by decide)).2⟩
  intro hnil
  rw [hnil] at hplaces
  cases hplaces

def escapedFeedQuery : Text := "\x7b a ( b : \"\\\n\" ) \x7d"

/-- One finding takes two lines. -/
theorem lines_check_escapedFeedQuery :
    ∃ schema, Schema.ofSource oneFieldTypes = .ok schema ∧
      (schema.check escapedFeedQuery).map (·.message) =
        [Text.ofString "parse: invalid escape sequence \\\n"] ∧
      ¬ (∀ f ∈ schema.check escapedFeedQuery, OneLine f.message) ∧
      ((Finding.lines (schema.check escapedFeedQuery)).splitOn 0x0A).length = 2 := by
  have hcheck : ((Schema.ofSource oneFieldTypes).toOption.map fun schema =>
      ((schema.check escapedFeedQuery).map (·.message),
        decide (∀ f ∈ schema.check escapedFeedQuery, OneLine f.message),
        ((Finding.lines (schema.check escapedFeedQuery)).splitOn 0x0A).length)) =
      some ([Text.ofString "parse: invalid escape sequence \\\n"], false, 2) := by
    decide +kernel
  obtain ⟨schema, hschema, hcheck⟩ := Option.map_eq_some_iff.1 hcheck
  simp only [Prod.mk.injEq, decide_eq_false_iff_not] at hcheck
  exact ⟨schema, eq_ok_of_toOption_eq_some hschema, hcheck⟩

end SelectionCheck
