import SelectionCheck.Proofs.Document.Account
import SelectionCheck.Proofs.Document.Accepts.TypeSystem
import SelectionCheck.Proofs.Document.Strings

/-!
# Reading what was written

The main statement is about a well-formed document whose rules are not nested too deeply. Written
with a space between each two words, and read again, it comes back without errors and with the same
shape exactly if its block strings close. Everything but this condition is what one expects of a
reader that is complete for its grammar. The condition is there because a block string whose closing
quotes are escaped passes for closed: it ends with three quotes, and nothing else is looked at. In
front of other words it goes on, and takes them in.

One direction is that the readers accept all that is written. The other compares strings: a block
string that does not close is read as a longer one, and no document ends with a string, so the
strings read are not the strings written.
-/

namespace SelectionCheck

namespace Grammar

variable {c : Cursor} {rest : List Word}

/-! ## Definitions -/

theorem typeForm?_keyword (form : TypeForm) : TypeForm.ofWord? form.keyword = some form := by
  cases form <;> decide

theorem operation_definition_accepts {o : Operation} (ho : o.isGrammatical = true)
    (hlevel : o.height ≤ nestingLimit) :
    Accepts definition (words o.pieces) [.bar] fun v =>
      v.map Definition.erase = some (.operation o.erase) := by
  intro c rest hwords _
  have herase : ∀ v : Option Operation, v.map Operation.erase = some o.erase →
      (v.map Definition.operation).map Definition.erase = some (.operation o.erase) := by
    intro v hv
    obtain ⟨o', rfl, ho'⟩ := Option.map_eq_some_iff.1 hv
    rw [Option.map_some, Option.map_some, Definition.erase, ho']
  cases hshort : o.isShorthand with
  | true =>
      rw [Operation.pieces, if_pos hshort] at hwords
      obtain ⟨t, ts, hahead, hkind, -, -⟩ := Cursor.exists_of_words hwords
      rw [definition_iff.2 (.shorthand hahead hkind)]
      exact (shorthandQuery_accepts ho hlevel hshort t.start c rest hwords (clear_nil rest)).map
        herase
  | false =>
      rw [Operation.pieces, hshort] at hwords
      obtain ⟨t, ts, hahead, hkind, htext, hrest⟩ := Cursor.exists_of_words hwords
      rw [definition_iff.2 (.operation hahead (operationType?_of_keyword hkind htext))]
      exact (operation_accepts ho hlevel t.start (c.past ts) rest hrest (clear_nil rest)).map
        herase

theorem fragment_definition_accepts {f : Fragment} (hf : f.isGrammatical = true)
    (hlevel : f.height ≤ nestingLimit) :
    Accepts definition (words f.pieces) [.bar] fun v =>
      v.map Definition.erase = some (.fragment f.erase) := by
  intro c rest hwords _
  rw [Fragment.pieces, words_lexeme] at hwords
  obtain ⟨t, ts, hahead, hkind, htext, hrest⟩ := Cursor.exists_of_words hwords
  rw [definition_iff.2 (.fragment hahead (Token.isWord_iff.2 ⟨hkind, htext⟩))]
  refine (fragmentDefinition_accepts hf hlevel t.start (c.past ts) rest hrest
    (clear_nil rest)).map ?_
  intro v hv
  obtain ⟨f', rfl, hf'⟩ := Option.map_eq_some_iff.1 hv
  rw [Option.map_some, Option.map_some, Definition.erase, hf']

theorem schema_definition_accepts {d : SchemaDefinition} (hd : d.roots.closing.isSome = true) :
    Accepts definition (words d.pieces) [.bar] fun v =>
      v.map Definition.erase = some (.schema d.erase) := by
  intro c rest hwords _
  rw [SchemaDefinition.pieces, words_lexeme] at hwords
  obtain ⟨t, ts, hahead, hkind, htext, hrest⟩ := Cursor.exists_of_words hwords
  rw [definition_iff.2 (.schema hahead (Token.isWord_iff.2 ⟨hkind, htext⟩))]
  refine (schemaDefinition_accepts hd t.start (c.past ts) rest hrest (clear_nil rest)).map ?_
  intro v hv
  obtain ⟨d', rfl, hd'⟩ := Option.map_eq_some_iff.1 hv
  rw [Option.map_some, Option.map_some, Definition.erase, hd']

/-- A type definition whose keyword is next. -/
theorem keywordDefinition_gives {d : TypeDefinition} (hd : d.isGrammatical = true)
    (hlevel : d.body.height ≤ partLevel) {described : Option Description}
    (hdescribed : described.map Description.erase = d.description.map Description.erase)
    {keyword : Token} (htext : keyword.text = d.body.form.keyword) {behind : Cursor}
    (hwords : behind.words =
      words (d.name.elim .absent Name.piece :: d.body.pieces) ++ rest)
    (hclear : Clear [.bar] rest) :
    Gives (keywordDefinition described keyword c behind)
      (fun v => v.map Definition.erase = some (.type d.erase)) rest := by
  rw [keywordDefinition_iff.2 (.whole (htext ▸ typeForm?_keyword d.body.form))]
  refine (typeDefinition_accepts hd hlevel hdescribed keyword.start behind rest hwords
    hclear).map ?_
  intro d' hd'
  rw [Option.map_some, Definition.erase, hd']

theorem type_definition_accepts {d : TypeDefinition} (hd : d.isGrammatical = true)
    (hlevel : d.body.height ≤ partLevel) :
    Accepts definition (words d.pieces) [.bar] fun v =>
      v.map Definition.erase = some (.type d.erase) := by
  intro c rest hwords hclear
  rw [TypeDefinition.pieces, words_append, words_lexeme, List.append_assoc,
    List.cons_append] at hwords
  cases hdescription : d.description with
  | none =>
      rw [hdescription] at hwords
      obtain ⟨t, ts, hahead, hkind, htext, hrest⟩ := Cursor.exists_of_words hwords
      have hword (word : Text) (hne : (d.body.form.keyword : Text) ≠ word) :
          t.isWord word = false := by
        rw [← Bool.not_eq_true, Token.isWord_iff, htext]
        exact fun h => hne h.2
      have htype : operationType? t = none :=
        operationType?_of_isWord (Token.isWord_iff.2 ⟨hkind, htext⟩)
          (by cases d.body.form <;> decide)
      rw [definition_iff.2 (.keyword hahead hkind htype
        (hword _ (by cases d.body.form <;> decide)) (hword _ (by cases d.body.form <;> decide)))]
      exact keywordDefinition_gives hd hlevel (by rw [hdescription]) htext hrest hclear
  | some description =>
      rw [hdescription] at hwords
      obtain ⟨t, ts, hahead, hkind, htext, hrest⟩ := Cursor.exists_of_words hwords
      obtain ⟨keyword, us, hts, hkeyword, hform, hrest'⟩ := Cursor.exists_of_words hrest
      have hts : ts = keyword :: us := hts
      subst hts
      rw [definition_iff.2 (.described hahead hkind), describedDefinition_iff.2 (.keyword hkeyword)]
      refine keywordDefinition_gives hd hlevel ?_ hform hrest' hclear
      rw [hdescription, Option.map_some, Option.map_some, Description.erase, Description.erase,
        htext]
      rfl

/-- Every definition of the grammar is accepted, if it is not too deep. -/
theorem definition_accepts {d : Definition} (hd : d.isGrammatical = true)
    (hlevel : d.height ≤ nestingLimit) :
    Accepts definition (words d.pieces) [.bar] fun v => v.map Definition.erase = some d.erase := by
  cases d with
  | operation o => exact operation_definition_accepts hd hlevel
  | fragment f => exact fragment_definition_accepts hd hlevel
  | type d =>
      refine type_definition_accepts hd ?_
      rw [Definition.height] at hlevel
      have hlimit : nestingLimit = partLevel + 2 := rfl
      omega
  | schema d => exact schema_definition_accepts hd

def definitionHeads : List Token.Kind := [.name, .lbrace, .string]

theorem begins_definition (d : Definition) : Begins definitionHeads (words d.pieces) := by
  cases d with
  | operation o =>
      rw [Definition.pieces, Operation.pieces]
      split
      · exact begins_word .lbrace (by decide)
      · exact begins_word .name (by decide)
  | fragment f => exact begins_word .name (by decide)
  | type d =>
      rw [Definition.pieces, TypeDefinition.pieces]
      cases d.description with
      | none => exact begins_word .name (by decide)
      | some description => exact begins_word .string (by decide)
  | schema d => exact begins_word .name (by decide)

/-! ## The walk through the definitions -/

theorem definitionsFrom_of_words {ds : List Definition}
    (hds : ∀ d ∈ ds, d.isGrammatical = true) (hlevel : ∀ d ∈ ds, d.height ≤ nestingLimit)
    {steps : List Token} (hsteps : c.ahead.length ≤ steps.length)
    (hwords : c.words = words (ds.flatMap Definition.pieces)) (before : List Definition) :
    (definitionsFrom steps c before []).1.map Definition.erase =
        before.reverse.map Definition.erase ++ ds.map Definition.erase ∧
      (definitionsFrom steps c before []).2 = [] := by
  induction ds generalizing steps c before with
  | nil =>
      have hahead : c.ahead = [] := List.map_eq_nil_iff.1 hwords
      cases steps with
      | nil => simp [definitionsFrom]
      | cons step steps =>
          have hnone : definition c = ⟨none, [], c⟩ := definition_iff.2 (.ended hahead)
          simp [definitionsFrom, hnone]
  | cons d ds ih =>
      rw [List.flatMap_cons, words_append] at hwords
      have hclear : Clear [.bar] (words (ds.flatMap Definition.pieces)) := by
        cases ds with
        | nil => exact fun _ hv => absurd hv (Option.not_mem_none _)
        | cons d' ds =>
            rw [List.flatMap_cons, words_append]
            exact (begins_definition d').clear_append (by decide) _
      have hgives := definition_accepts (hds d List.mem_cons_self) (hlevel d List.mem_cons_self)
        c _ hwords hclear
      obtain ⟨d', hvalue, herase⟩ := Option.map_eq_some_iff.1 hgives.value
      -- A definition has a word, so fewer tokens are ahead behind it.
      have hlength := c.length_words
      have hshorter := Cursor.length_words (definition c).next
      obtain ⟨w, ws, hw, -⟩ := (begins_definition d).exists_cons
      rw [hwords, hw, List.length_append, List.length_cons] at hlength
      rw [hgives.words] at hshorter
      cases steps with
      | nil => exact absurd hsteps (by rw [List.length_nil]; omega)
      | cons step steps =>
          rw [List.length_cons] at hsteps
          rw [definitionsFrom]
          simp only [hvalue, hgives.faults, List.reverse_nil, List.nil_append]
          have hstep : (definition c).next.ahead.length ≤ steps.length := by omega
          have hrest := ih (fun e he => hds e (List.mem_cons_of_mem d he))
            (fun e he => hlevel e (List.mem_cons_of_mem d he)) hstep hgives.words (d' :: before)
          refine ⟨hrest.1.trans ?_, hrest.2⟩
          simp [herase]

theorem definitions_of_words {d : Document}
    (hd : ∀ definition ∈ d.definitions, definition.isGrammatical = true)
    (hlevel : d.height ≤ nestingLimit) {tokens : List Token}
    (hwords : tokens.map Token.word = d.words) :
    Document.erase ⟨(definitions tokens).1⟩ = d.erase ∧ (definitions tokens).2 = [] := by
  have hheight : ∀ definition ∈ d.definitions, definition.height ≤ nestingLimit :=
    fun definition hmem => Nat.le_trans (le_tallest hmem) hlevel
  obtain ⟨hdefinitions, hfaults⟩ :=
    definitionsFrom_of_words (c := .ofTokens tokens) hd hheight (Nat.le_refl _) hwords []
  refine ⟨?_, hfaults⟩
  exact congrArg Document.mk hdefinitions

end Grammar

/-! ## Documents -/

/-- A token has no errors if its word, taken alone, has none. -/
theorem Token.errors_eq_nil_of_word {t : Token} (h : t.word.isProper = true) : t.errors = [] := by
  have herrors := (Word.isProper_iff.1 h).2
  simp only [Token.errors, Word.token, Token.word] at herrors ⊢
  split
  · next hkind => simp [hkind] at herrors
  · next hkind => simpa [hkind] using herrors
  · rfl

/-- The tokens of a well-formed document as it is written, if its block strings close. -/
theorem Document.WellFormed.lex_print {d : Document} (hd : d.WellFormed)
    (hcloses : ∀ w ∈ d.words, w.closes = true) :
    (lex d.print).map Token.word = d.words ∧ (lex d.print).flatMap Token.errors = [] := by
  have hwords : (lex d.print).map Token.word = d.words :=
    (Word.legible_of_isProper hd.proper hcloses).lexFrom_spaced 0
  refine ⟨hwords, ?_⟩
  rw [List.flatMap_eq_nil_iff]
  intro t ht
  apply Token.errors_eq_nil_of_word
  apply hd.proper
  rw [← hwords]
  exact List.mem_map_of_mem ht

/-- What is read without errors from the text of a document of the same shape has the strings that
were written, so the block strings among them close. -/
theorem Document.WellFormed.closes_of_parse {d : Document} (hd : d.WellFormed)
    (herrors : (parse d.print).errors = [])
    (hshape : (parse d.print).document.map Document.erase = some d.erase) :
    ∀ w ∈ d.words, w.closes = true := by
  obtain ⟨d', hparse⟩ := exists_of_errors_eq_nil herrors
  rw [hparse, Option.map_some] at hshape
  apply Word.closes_of_strings_eq hd.proper d.getLast?_words
  calc Word.strings ((lex d.print).map Token.word)
      = Word.strings d'.words := (spells_of_parse hparse).strings_eq
    _ = Word.strings d'.erase.words := d'.strings_erase.symm
    _ = Word.strings d.erase.words := by rw [Option.some.inj hshape]
    _ = Word.strings d.words := d.strings_erase

/-- A well-formed document that is neither too deep nor too long is read back from its text, without
errors and up to offsets, exactly if its block strings close. -/
theorem parse_print_iff_closes {d : Document} (hd : d.WellFormed)
    (hheight : d.height ≤ nestingLimit) (hsize : d.print.length ≤ sizeLimit) :
    ((parse d.print).errors = [] ∧
      (parse d.print).document.map Document.erase = some d.erase) ↔
      ∀ w ∈ d.words, w.closes = true := by
  constructor
  · rintro ⟨herrors, hshape⟩
    exact hd.closes_of_parse herrors hshape
  · intro hcloses
    obtain ⟨hwords, htokens⟩ := hd.lex_print hcloses
    obtain ⟨hshape, hfaults⟩ := Grammar.definitions_of_words hd.grammatical hheight hwords
    rw [parse_of_lexical hsize htokens, hfaults, Option.map_some, hshape]
    exact ⟨rfl, rfl⟩

/-- A query and the definition of a scalar type. Keywords are names wherever they can be, an
argument is a list with the given string, and the description of the type is this string. -/
def stringDocument (raw : Text) : Document :=
  let name (word : Text) : Name := ⟨word, 0⟩
  let object : Value := .object ⟨0, [⟨name "null", 0, .var ⟨0, name "on"⟩⟩], some 0⟩
  let argument : Argument := ⟨name "query", 0, .list ⟨0, [.scalar 0 .string raw, object], some 0⟩⟩
  let field : Selection :=
    .field (some (name "fragment")) (name "on") (some ⟨0, [argument], some 0⟩) []
      (some ⟨0, [], some 0⟩)
  let inline : Selection :=
    .inline 0 (some ⟨0, name "on"⟩) [⟨0, name "type", none⟩] ⟨0, [field], some 0⟩
  let parameter : VariableDefinition :=
    ⟨⟨0, name "on"⟩, some 0, .list 0 (.named (name "query") none) (some 0) (some 0), none⟩
  ⟨[.operation ⟨0, .query, some (name "query"), some ⟨0, [parameter], some 0⟩, [],
      ⟨0, [inline], some 0⟩⟩,
    .type ⟨some ⟨0, raw⟩, 0, some (name "implements"), .scalar⟩]⟩

def innerQuotes : Text := "\"\"\"a \\\"\"\" b\"\"\""

def escapedQuotes : Text := "\"\"\"\\\"\"\""

/-- Both sides of the condition occur in well-formed documents. -/
theorem parse_print_stringDocument :
    ((stringDocument innerQuotes).WellFormed ∧
      (stringDocument innerQuotes).height ≤ nestingLimit ∧
      (stringDocument innerQuotes).print.length ≤ sizeLimit ∧
      (parse (stringDocument innerQuotes).print).errors = [] ∧
      (parse (stringDocument innerQuotes).print).document.map Document.erase =
        some (stringDocument innerQuotes).erase) ∧
    ((stringDocument escapedQuotes).WellFormed ∧
      (stringDocument escapedQuotes).height ≤ nestingLimit ∧
      (stringDocument escapedQuotes).print.length ≤ sizeLimit ∧
      ¬ ((parse (stringDocument escapedQuotes).print).errors = [] ∧
        (parse (stringDocument escapedQuotes).print).document.map Document.erase =
          some (stringDocument escapedQuotes).erase)) := by
  constructor
  · have hd : (stringDocument innerQuotes).WellFormed := ⟨by decide +kernel, by decide +kernel⟩
    have hheight : (stringDocument innerQuotes).height ≤ nestingLimit := by decide +kernel
    have hsize : (stringDocument innerQuotes).print.length ≤ sizeLimit := by decide +kernel
    have hcloses : ∀ w ∈ (stringDocument innerQuotes).words, w.closes = true := by decide +kernel
    exact ⟨hd, hheight, hsize, (parse_print_iff_closes hd hheight hsize).2 hcloses⟩
  · have hd : (stringDocument escapedQuotes).WellFormed := ⟨by decide +kernel, by decide +kernel⟩
    have hheight : (stringDocument escapedQuotes).height ≤ nestingLimit := by decide +kernel
    have hsize : (stringDocument escapedQuotes).print.length ≤ sizeLimit := by decide +kernel
    have hcloses : ¬ ∀ w ∈ (stringDocument escapedQuotes).words, w.closes = true := by
      decide +kernel
    exact ⟨hd, hheight, hsize, mt (parse_print_iff_closes hd hheight hsize).1 hcloses⟩

end SelectionCheck
