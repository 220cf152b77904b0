import SelectionCheck.Proofs.Document.Reads.TypeSystem

/-!
# A document accounts for its source

The main statement is that a document read without errors consists of the tokens of its source and
of nothing else: written out again in the order of its parts it gives the tokens in their order,
each with its own kind, text and offset. The only tokens without a place in the document are a
separator before the first interface of an object type and one before the first member of a union.

A definition without faults takes a token, so the walk through the definitions ends where the
tokens end and the steps set aside for it suffice.
-/

namespace SelectionCheck

namespace Grammar

variable {c : Cursor}

/-! ## Definitions -/

theorem keyword_of_typeForm? {word : Text} {form : TypeForm}
    (h : TypeForm.ofWord? word = some form) : word = form.keyword := by
  rw [TypeForm.ofWord?] at h
  have htext := List.find?_some h
  exact (of_decide_eq_true htext).symm

theorem keywordDefinition_takes {described : Option Description} {keyword : Token} {c c₁ : Cursor}
    {rest : List Token}
    (hdescribed : Reads (described.toList.map Description.piece) c c₁)
    (hahead : c₁.ahead = keyword :: rest) (hkind : keyword.kind = .name)
    (hfaults : (keywordDefinition described keyword c (c₁.past rest)).faults = []) :
    ∃ d, (keywordDefinition described keyword c (c₁.past rest)).value = some d ∧
      Takes d.pieces c (keywordDefinition described keyword c (c₁.past rest)).next := by
  generalize hr : keywordDefinition described keyword c (c₁.past rest) = r at hfaults ⊢
  cases keywordDefinition_iff.1 hr with
  | noForm => cases hfaults
  | whole hform =>
      obtain ⟨n, body, hvalue, rfl, hreads⟩ := typeDefinition_reads hfaults
      refine ⟨.type ⟨described, keyword.start, some n, body⟩, ?_, ?_⟩
      · rw [Reading.value_map, hvalue]
      · have hword : keyword.isWord body.form.keyword = true :=
          Token.isWord_iff.2 ⟨hkind, keyword_of_typeForm? hform⟩
        exact hdescribed.trans_takes ((Takes.word hahead hword).trans hreads)

theorem describedDefinition_takes {t : Token} {rest : List Token} (hahead : c.ahead = t :: rest)
    (ht : t.kind = .string) (hfaults : (describedDefinition t rest c).faults = []) :
    ∃ d, (describedDefinition t rest c).value = some d ∧
      Takes d.pieces c (describedDefinition t rest c).next := by
  generalize hr : describedDefinition t rest c = r at hfaults ⊢
  cases describedDefinition_iff.1 hr with
  | noKeyword => cases hfaults
  | @keyword keyword rest hkind =>
      have hdescribed := reads_of_description (description_iff.2 (.found hahead ht))
      exact keywordDefinition_takes hdescribed rfl hkind hfaults

theorem definition_takes {t : Token} {rest : List Token} (hahead : c.ahead = t :: rest)
    (hfaults : (definition c).faults = []) :
    ∃ d, (definition c).value = some d ∧ Takes d.pieces c (definition c).next := by
  generalize hr : definition c = r at hfaults ⊢
  cases definition_iff.1 hr with
  | ended hnil => cases hahead.symm.trans hnil
  | operation hahead htype =>
      obtain ⟨o, hvalue, hstart, rfl, hreads⟩ := operation_reads hfaults
      refine ⟨.operation o, by simp [hvalue], ?_⟩
      exact takes_operation hahead (keyword_of_operationType? htype) hstart hreads
  | shorthand hahead =>
      obtain ⟨o, hvalue, htakes⟩ := shorthandQuery_takes hahead hfaults
      exact ⟨.operation o, by simp [hvalue], htakes⟩
  | fragment hahead hword =>
      obtain ⟨f, hvalue, hkeyword, hreads⟩ := fragmentDefinition_reads hfaults
      refine ⟨.fragment f, by simp [hvalue], ?_⟩
      rw [Definition.pieces, Fragment.pieces, hkeyword]
      exact (Takes.word hahead hword).trans hreads
  | @schema t rest hahead hword =>
      obtain ⟨roots, hvalue, hreads⟩ := schemaDefinition_reads hfaults
      exact ⟨.schema ⟨t.start, roots⟩, by rw [Reading.value_map, hvalue]; rfl,
        (Takes.word hahead hword).trans hreads⟩
  | keyword hahead hkind => exact keywordDefinition_takes (Reads.refl c) hahead hkind hfaults
  | described hahead hkind => exact describedDefinition_takes hahead hkind hfaults
  | refused => cases hfaults

theorem definition_taking : Taking definition Definition.pieces := by
  intro c c' d h
  cases hahead : c.ahead with
  | nil => cases (definition_iff.2 (.ended hahead)).symm.trans h
  | cons t rest =>
      obtain ⟨d', hvalue, htakes⟩ := definition_takes hahead (by rw [h])
      rw [h] at hvalue htakes
      cases hvalue
      exact htakes

/-! ## The walk through the definitions -/

/-- Faults are never dropped: neither those met before nor those of the definition that comes
next. -/
theorem faults_eq_nil_of_definitionsFrom {step : Token} {steps : List Token}
    {ds : List Definition} {faults : List Fault}
    (hfaults : (definitionsFrom (step :: steps) c ds faults).2 = []) :
    faults = [] ∧ (definition c).faults = [] := by
  induction steps generalizing step c ds faults with
  | nil =>
      rw [definitionsFrom] at hfaults
      cases hvalue : (definition c).value with
      | none => simpa [hvalue, and_comm] using hfaults
      | some d => simpa [hvalue, definitionsFrom, and_comm] using hfaults
  | cons next steps ih =>
      rw [definitionsFrom] at hfaults
      cases hvalue : (definition c).value with
      | none => simpa [hvalue, and_comm] using hfaults
      | some d =>
          simp only [hvalue] at hfaults
          simpa [and_comm] using (ih hfaults).1

/-- Without faults the definitions up to the end of the tokens are a row. Every definition takes a
token, so the tokens ahead never outnumber the steps left. -/
theorem definitionsFrom_row {steps : List Token} {ds : List Definition} {faults : List Fault}
    (hsteps : c.ahead.length ≤ steps.length)
    (hfaults : (definitionsFrom steps c ds faults).2 = []) :
    ∃ more c', (definitionsFrom steps c ds faults).1 = ds.reverse ++ more ∧
      Row definition c more c' ∧ c'.ahead = [] := by
  induction steps generalizing c ds faults with
  | nil =>
      have hahead : c.ahead = [] := List.length_eq_zero_iff.1 (Nat.le_zero.1 hsteps)
      exact ⟨[], c, by simp [definitionsFrom], .nil c, hahead⟩
  | cons step steps ih =>
      have hnone := (faults_eq_nil_of_definitionsFrom hfaults).2
      rw [definitionsFrom] at hfaults ⊢
      cases hahead : c.ahead with
      | nil =>
          have hvalue : (definition c).value = none := by rw [definition_iff.2 (.ended hahead)]
          rw [hvalue]
          exact ⟨[], c, by simp, .nil c, hahead⟩
      | cons t rest =>
          obtain ⟨d, hvalue, htakes⟩ := definition_takes hahead hnone
          simp only [hvalue] at hfaults ⊢
          have hlength := htakes.1.length_add_behind
          have hmoves := htakes.2
          rw [List.length_cons] at hsteps
          obtain ⟨more, c', hmore, hrow, hend⟩ := ih (by omega) hfaults
          exact ⟨d :: more, c', by rw [hmore]; simp, .cons (Reading.eq_of_faults hnone hvalue) hrow,
            hend⟩

theorem row_of_definitions {tokens : List Token} {ds : List Definition}
    (hread : definitions tokens = (ds, [])) :
    ∃ c', Row definition (.ofTokens tokens) ds c' ∧ c'.ahead = [] := by
  rw [definitions] at hread
  obtain ⟨more, c', hmore, hrow, hend⟩ :=
    definitionsFrom_row (c := .ofTokens tokens) (Nat.le_refl tokens.length) (by rw [hread])
  rw [hread] at hmore
  cases hmore
  exact ⟨c', hrow, hend⟩

/-- The definitions read without faults from the tokens of a text are spelled by these tokens. -/
theorem definitions_spell {tokens : List Token} {ds : List Definition} (hlexed : Lexed tokens)
    (hread : definitions tokens = (ds, [])) : Spells (ds.flatMap Definition.pieces) tokens := by
  obtain ⟨c', hrow, hend⟩ := row_of_definitions hread
  obtain ⟨taken, htaken, -, hspells⟩ := hrow.reads definition_taking
  have hall : tokens = taken := by
    rw [hend, List.append_nil] at htaken
    exact htaken
  subst hall
  exact hspells hlexed

end Grammar

/-! ## Documents -/

theorem parse_of_lexical {source : Text} (hsize : source.length ≤ sizeLimit)
    (htokens : (lex source).flatMap Token.errors = []) :
    parse source = ⟨some ⟨(Grammar.definitions (lex source)).1⟩,
      (Grammar.definitions (lex source)).2.map .grammar⟩ := by
  rw [parse, if_neg (Nat.not_lt.2 hsize)]
  simp only [htokens]

/-- A source without errors is small enough, its tokens are lexical forms of the language, and its
definitions are read without faults. -/
theorem errors_parse_eq_nil_iff {source : Text} :
    (parse source).errors = [] ↔ source.length ≤ sizeLimit ∧
      (lex source).flatMap Token.errors = [] ∧ (Grammar.definitions (lex source)).2 = [] := by
  constructor
  · intro h
    have hsize : source.length ≤ sizeLimit := by
      by_cases hlarge : source.length > sizeLimit
      · rw [parse, if_pos hlarge] at h
        cases h
      · exact Nat.not_lt.1 hlarge
    have htokens : (lex source).flatMap Token.errors = [] := by
      rw [parse, if_neg (Nat.not_lt.2 hsize)] at h
      simp only at h
      split at h
      · assumption
      · exact h
    rw [parse_of_lexical hsize htokens] at h
    exact ⟨hsize, htokens, List.map_eq_nil_iff.1 h⟩
  · rintro ⟨hsize, htokens, hfaults⟩
    rw [parse_of_lexical hsize htokens, hfaults]
    rfl

theorem exists_of_errors_eq_nil {source : Text} (h : (parse source).errors = []) :
    ∃ d, parse source = ⟨some d, []⟩ := by
  obtain ⟨hsize, htokens, hfaults⟩ := errors_parse_eq_nil_iff.1 h
  rw [parse_of_lexical hsize htokens, hfaults]
  exact ⟨_, rfl⟩

/-- What a document without errors says of the tokens of its source. -/
theorem tokens_of_parse {source : Text} {d : Document} (h : parse source = ⟨some d, []⟩) :
    (lex source).flatMap Token.errors = [] ∧
      Grammar.definitions (lex source) = (d.definitions, []) := by
  have herrors : (parse source).errors = [] := by rw [h]
  obtain ⟨hsize, htokens, hfaults⟩ := errors_parse_eq_nil_iff.1 herrors
  rw [parse_of_lexical hsize htokens] at h
  rw [← Option.some.inj (Parsed.mk.inj h).1, ← hfaults]
  exact ⟨htokens, rfl⟩

theorem spells_of_parse {source : Text} {d : Document} (h : parse source = ⟨some d, []⟩) :
    Spells d.pieces (lex source) :=
  Grammar.definitions_spell (lexed_lex source) (tokens_of_parse h).2

/-- A source without errors gives a document whose tokens, written out in order, are the tokens of
the source. -/
theorem spells_lex_of_errors_eq_nil {source : Text} (h : (parse source).errors = []) :
    ∃ d, (parse source).document = some d ∧ Spells d.pieces (lex source) := by
  obtain ⟨d, hparse⟩ := exists_of_errors_eq_nil h
  exact ⟨d, by rw [hparse], spells_of_parse hparse⟩

/-- A source with a description, separators before the first of several names, default values, and
a query in its short and in its long form. -/
def mixedSource : Text :=
  "\"doc\" type T implements & A & B \x7b f(x: [Int!] = [1, -2.5e3]): Q! @d(a: \x7bk: null\x7d) \x7d
union U = | T | V # comment
\x7b a: b ... on T @skip(if: true) \x7b c \x7d ...F \x7d query Q($v: Int = 3) \x7b c(x: $v) \x7d"

theorem spells_lex_mixedSource :
    (parse mixedSource).errors = [] ∧
      ∃ d, (parse mixedSource).document = some d ∧ Spells d.pieces (lex mixedSource) := by
  have h : (parse mixedSource).errors = [] := by
    rw [mixedSource, Text.ofString_ofList]
    decide +kernel
  exact ⟨h, spells_lex_of_errors_eq_nil h⟩

end SelectionCheck
