import SelectionCheck.Proofs.Document.Account
import SelectionCheck.Proofs.Document.Faults

/-!
# Which tokens a part was read from

A document without faults is made by readers that call each other, each of them without faults, and
every part of the document is what some call gave. `Consumes` tells the tokens of such a call: those
that the reader had before it and does not have before it afterwards. The items of a list are given
by one call after the other, without a token between them (`Row`).

To find the call that gave a part, one has to follow the calls down to it. `Finds` says that all
parts of one sort in what a reader gives have a property, here that there is such a call; it passes
from the readers of the parts of a rule to the reader of the rule.
-/

namespace SelectionCheck

variable {α β : Type} {ts : List Token} {c c' : Cursor}

/-! ## The tokens that spell a part -/

theorem Piece.Denotes.start_eq {p : Piece} {t : Token} {offset : Nat} (h : p.Denotes t)
    (hplace : p.place = .recorded (some offset)) : offset = t.start := by
  have hagrees := h.agrees
  rw [hplace] at hagrees
  exact Option.some.inj hagrees

namespace Spells

variable {ps qs : List Piece}

theorem exists_of_cons {p : Piece} (h : Spells (p :: ps) ts) (hp : p.optional = false) :
    ∃ t us, ts = t :: us ∧ p.Denotes t ∧ Spells ps us := by
  cases h with
  | take hdenotes hrest => exact ⟨_, _, rfl, hdenotes, hrest⟩
  | skip hoptional _ =>
      rw [hp] at hoptional
      cases hoptional

theorem exists_of_append (h : Spells (ps ++ qs) ts) :
    ∃ us vs, ts = us ++ vs ∧ Spells ps us ∧ Spells qs vs := by
  induction ps generalizing ts with
  | nil => exact ⟨[], ts, rfl, .nil, h⟩
  | cons p ps ih =>
      cases h with
      | take hdenotes hrest =>
          obtain ⟨us, vs, rfl, hus, hvs⟩ := ih hrest
          exact ⟨_ :: us, vs, rfl, .take hdenotes hus, hvs⟩
      | skip hoptional hrest =>
          obtain ⟨us, vs, rfl, hus, hvs⟩ := ih hrest
          exact ⟨us, vs, rfl, .skip hoptional hus, hvs⟩

end Spells

namespace Cursor

theorem On.of_reads {ps : List Piece} (hc : c.On ts) (h : Reads ps c c') : c'.On ts := by
  obtain ⟨taken, hahead, hbehind, -⟩ := h
  have hdrop := hc.ahead.symm.trans hahead
  have hlength := congrArg List.length hdrop
  rw [List.length_drop, List.length_append] at hlength
  have hle := hc.behind
  refine ⟨?_, by omega⟩
  rw [hbehind, ← List.drop_drop, hdrop, List.drop_left]

theorem On.exists_cut {ps : List Piece} (hc : c.On ts) (h : Reads ps c c') (hlexed : Lexed ts) :
    ∃ before taken, ts = before ++ taken ++ c'.ahead ∧ c = ⟨taken ++ c'.ahead, before.length⟩ ∧
      c' = ⟨c'.ahead, before.length + taken.length⟩ ∧ Spells ps taken := by
  obtain ⟨taken, hahead, hbehind, hspells⟩ := h
  have hlength : (ts.take c.behind).length = c.behind :=
    List.length_take_of_le hc.behind
  have hts : ts = ts.take c.behind ++ taken ++ c'.ahead := by
    rw [List.append_assoc, ← hahead, hc.ahead, List.take_append_drop]
  refine ⟨ts.take c.behind, taken, hts, ?_, ?_, ?_⟩
  · rw [hlength, ← hahead]
  · rw [hlength, ← hbehind]
  · rw [hts] at hlexed
    exact hspells hlexed.left.right

end Cursor

theorem Reads.exists_cut {ps qs : List Piece} (h : Reads ps (.ofTokens ts) c) (h' : Reads qs c c')
    (hlexed : Lexed ts) :
    ∃ before taken, ts = before ++ taken ++ c'.ahead ∧ c = ⟨taken ++ c'.ahead, before.length⟩ ∧
      c' = ⟨c'.ahead, before.length + taken.length⟩ ∧ Spells ps before ∧ Spells qs taken := by
  obtain ⟨before, taken, hcut, hc, hc', htaken⟩ :=
    ((Cursor.on_ofTokens ts).of_reads h).exists_cut h' hlexed
  refine ⟨before, taken, hcut, hc, hc', ?_, htaken⟩
  obtain ⟨us, hus, -, hspells⟩ := h
  have hbefore : us = before := by
    have hts : us ++ (taken ++ c'.ahead) = before ++ (taken ++ c'.ahead) := by
      rw [← List.append_assoc before, ← hcut]
      rw [hc] at hus
      exact hus.symm
    exact List.append_cancel_right hts
  rw [hcut, List.append_assoc] at hlexed
  exact hbefore ▸ hspells (hbefore ▸ hlexed.left)

theorem Reading.eq_of_within {r : Reading α} {context : Context} {a : α}
    (h : r.within context = ⟨a, [], c'⟩) : r = ⟨a, [], c'⟩ := by
  obtain ⟨value, faults, next⟩ := r
  cases congrArg Reading.value h
  cases congrArg Reading.next h
  have hfaults : faults = [] := (faults_within context _).1 (congrArg Reading.faults h)
  rw [hfaults]

namespace Grammar

/-! ## Calls -/

/-- Behind the tokens `before` and in front of `after`, the reader takes the tokens `taken` without
faults and gives `a`. -/
def Consumes (reader : Cursor → Reading α) (before taken after : List Token) (a : α) : Prop :=
  reader ⟨taken ++ after, before.length⟩ = ⟨a, [], ⟨after, before.length + taken.length⟩⟩

/-- Somewhere among the tokens the reader gives `a` without faults. -/
def GivenIn (ts : List Token) (reader : Cursor → Reading α) (a : α) : Prop :=
  ∃ c c', c.On ts ∧ reader c = ⟨a, [], c'⟩

theorem GivenIn.intro {reader : Cursor → Reading α} {a : α} (hc : c.On ts)
    (hfaults : (reader c).faults = []) (ha : (reader c).value = a) : GivenIn ts reader a :=
  ⟨c, (reader c).next, hc, Reading.eq_of_faults hfaults ha⟩

/-! ## Rows cut at an item -/

namespace Row

variable {item : Cursor → Reading (Option α)} {pieces : α → List Piece} {items later : List α}
  {a : α}

theorem exists_of_append_cons (h : Row item c (items ++ a :: later) c') :
    ∃ c₁ c₂, Row item c items c₁ ∧ item c₁ = ⟨some a, [], c₂⟩ ∧ Row item c₂ later c' := by
  induction items generalizing c with
  | nil =>
      cases h with
      | cons hread hrow => exact ⟨_, _, .nil _, hread, hrow⟩
  | cons b items ih =>
      cases h with
      | cons hread hrow =>
          obtain ⟨c₁, c₂, hbefore, hitem, hafter⟩ := ih hrow
          exact ⟨c₁, c₂, .cons hread hbefore, hitem, hafter⟩

theorem givenIn (hitem : Taking item pieces) (hc : c.On ts) (h : Row item c items c')
    (ha : a ∈ items) : GivenIn ts item (some a) := by
  obtain ⟨before, after, rfl⟩ := List.append_of_mem ha
  obtain ⟨c₁, c₂, hbefore, hread, -⟩ := h.exists_of_append_cons
  exact ⟨c₁, c₂, hc.of_reads (hbefore.reads hitem), hread⟩

end Row

section Bracketed

variable {opener closer : Token.Kind} {rule list : Rule} {item : Cursor → Reading (Option α)}
  {pieces : α → List Piece}

theorem bracketed_row (hitem : Sound item pieces) {b : Bracketed α}
    (h : bracketed opener closer rule item c = ⟨some b, [], c'⟩) :
    ∃ c₁ c₂ closing, punctuator opener c = .ok (b.opening, c₁) ∧ Row item c₁ b.items c₂ ∧
      punctuator closer c₂ = .ok (closing, c') ∧ b.closing = some closing := by
  generalize hr : bracketed opener closer rule item c = r at h
  cases bracketed_iff.1 hr with
  | unopened => cases h
  | @opened opening c₁ hopening =>
      have hfaults := congrArg Reading.faults h
      obtain ⟨items, closing, c₂, hvalue, hrow, hclosing⟩ :=
        itemsFrom_row hitem (Nat.le_refl _) (show _ = [] from hfaults)
      have hnext := congrArg Reading.next h
      have hb := congrArg Reading.value h
      rw [Reading.value_map, hvalue] at hb
      cases hb
      refine ⟨c₁, c₂, closing, hopening, by simpa using hrow, ?_, rfl⟩
      rw [hclosing]
      exact congrArg (Except.ok ∘ Prod.mk closing) hnext

end Bracketed

/-! ## Parts of one sort -/

/-- The parts in what the reader gives without faults have the property. -/
def Finds (ts : List Token) (parts : α → List β) (P : β → Prop) (reader : Cursor → Reading α) :
    Prop :=
  ∀ c, c.On ts → (reader c).faults = [] → ∀ b ∈ parts (reader c).value, P b

def optionalParts (parts : α → List β) (o : Option α) : List β :=
  o.elim [] parts

def itemParts (parts : α → List β) (b : Bracketed α) : List β :=
  b.items.flatMap parts

variable {parts : α → List β} {P : β → Prop}

theorem mem_optionalParts {o : Option α} {b : β} :
    b ∈ optionalParts parts o ↔ ∃ a, o = some a ∧ b ∈ parts a := by
  cases o <;> simp [optionalParts]

theorem Finds.within {reader : Cursor → Reading α} (h : Finds ts parts P reader)
    (context : Context) : Finds ts parts P fun c => (reader c).within context :=
  fun c hc hfaults => h c hc ((Reading.faults_within context (reader c)).1 hfaults)

theorem Finds.whenNext {reader : Cursor → Reading (Option α)}
    (h : Finds ts (optionalParts parts) P reader) (kind : Token.Kind) :
    Finds ts (optionalParts parts) P (whenNext kind reader) := by
  intro c hc
  rw [Grammar.whenNext]
  split
  · exact h c hc
  · simp [optionalParts]

theorem Finds.bracketed {item : Cursor → Reading (Option α)} {pieces : α → List Piece}
    (h : Finds ts (optionalParts parts) P item) (hitem : Sound item pieces)
    (opener closer : Token.Kind) (rule : Rule) :
    Finds ts (optionalParts (itemParts parts)) P (bracketed opener closer rule item) := by
  intro c hc hfaults b hb
  cases hvalue : (Grammar.bracketed opener closer rule item c).value with
  | none =>
      rw [hvalue] at hb
      cases hb
  | some list =>
      rw [hvalue] at hb
      obtain ⟨c₁, c₂, closing, hopening, hrow, -, -⟩ :=
        bracketed_row hitem (Reading.eq_of_faults hfaults hvalue)
      obtain ⟨a, ha, hb⟩ := List.mem_flatMap.1 hb
      obtain ⟨c₃, c₄, hc₃, hread⟩ :=
        hrow.givenIn hitem.taking (reaches_of_punctuator hc hopening).1.on ha
      exact h c₃ hc₃ (by rw [hread]) b (by rw [hread]; exact hb)

theorem Finds.nonEmpty {item : Nat → Cursor → Reading (Option α)} {pieces : α → List Piece}
    (h : ∀ level, Finds ts (optionalParts parts) P (item level))
    (hitem : ∀ level, Sound (item level) pieces) (opener closer : Token.Kind) (list rule : Rule)
    (level : Nat) :
    Finds ts (optionalParts (itemParts parts)) P
      (nonEmpty opener closer list rule item level) := by
  intro c hc hfaults
  cases level with
  | zero => cases hfaults
  | succ level =>
      exact ((h level).bracketed (hitem level) opener closer rule).within (.rule list) c hc
        (List.append_eq_nil_iff.1 hfaults).1

/-! ## Definitions -/

theorem operation_finds {level start : Nat} {type : OperationType} {parts : Operation → List β}
    (hrest : ∀ name, Finds ts (optionalParts parts) P (operationRest level start type name)) :
    Finds ts (optionalParts parts) P (operation level start type) := by
  intro c hc hfaults
  generalize hr : operation level start type c = r at hfaults ⊢
  cases operation_iff.1 hr with
  | ended | noBody => cases hfaults
  | named hahead => exact hrest _ _ (hc.past hahead).on hfaults
  | anonymous => exact hrest _ c hc hfaults

theorem keywordDefinition_finds {parts : Definition → List β} {described : Option Description}
    {keyword : Token} {behind : Cursor} (hbehind : behind.On ts)
    (htype : ∀ form described keyword,
      Finds ts (fun d => parts (.type d)) P (typeDefinition partLevel form described keyword))
    (hfaults : (keywordDefinition described keyword c behind).faults = []) :
    ∀ b ∈ optionalParts parts (keywordDefinition described keyword c behind).value, P b := by
  generalize hr : keywordDefinition described keyword c behind = r at hfaults ⊢
  cases keywordDefinition_iff.1 hr with
  | noForm => cases hfaults
  | whole => exact htype _ _ _ behind hbehind hfaults

/-- The parts of definitions, by the readers of their forms. -/
theorem definition_finds {parts : Definition → List β}
    (hoperation : ∀ start type name, Finds ts (optionalParts fun o => parts (.operation o)) P
      (operationRest partLevel start type name))
    (hshorthand : ∀ start, Finds ts (optionalParts fun o => parts (.operation o)) P
      (shorthandQuery partLevel start))
    (hfragment : ∀ keyword, Finds ts (optionalParts fun f => parts (.fragment f)) P
      (fragmentDefinition partLevel keyword))
    (htype : ∀ form described keyword,
      Finds ts (fun d => parts (.type d)) P (typeDefinition partLevel form described keyword))
    (hschema : ∀ s, parts (.schema s) = []) : Finds ts (optionalParts parts) P definition := by
  have hform {γ : Type} (form : γ → Definition) (o : Option γ) :
      optionalParts parts (o.map form) = optionalParts (fun a => parts (form a)) o := by
    cases o <;> rfl
  intro c hc hfaults
  generalize hr : definition c = r at hfaults ⊢
  cases definition_iff.1 hr with
  | ended => simp [optionalParts]
  | operation hahead =>
      rw [Reading.value_map, hform]
      exact operation_finds (hoperation _ _) _ (hc.past hahead).on hfaults
  | shorthand =>
      rw [Reading.value_map, hform]
      exact hshorthand _ c hc hfaults
  | fragment hahead =>
      rw [Reading.value_map, hform]
      exact hfragment _ _ (hc.past hahead).on hfaults
  | @schema t rest =>
      rw [Reading.value_map, hform]
      cases (schemaDefinition t.start (c.past rest)).value with
      | none => simp [optionalParts]
      | some s => simp [optionalParts, hschema]
  | keyword hahead => exact keywordDefinition_finds (hc.past hahead).on htype hfaults
  | @described t rest hahead =>
      generalize hr : describedDefinition t rest c = r at hfaults ⊢
      cases describedDefinition_iff.1 hr with
      | noKeyword => cases hfaults
      | keyword =>
          exact keywordDefinition_finds ((hc.past hahead).on.past rfl).on htype hfaults
  | refused => cases hfaults

end Grammar

/-! ## Documents -/

/-- The definitions of a source without errors are a row over its tokens. -/
theorem row_of_parse {source : Text} {d : Document} (h : parse source = ⟨some d, []⟩) :
    ∃ c', Grammar.Row Grammar.definition (.ofTokens (lex source)) d.definitions c' ∧
      c'.ahead = [] :=
  Grammar.row_of_definitions (tokens_of_parse h).2

theorem exists_of_map_document {source : Text} {view : Document → β} {b : β}
    (herrors : (parse source).errors = []) (hview : (parse source).document.map view = some b) :
    ∃ d, parse source = ⟨some d, []⟩ ∧ view d = b := by
  obtain ⟨d, hdocument, hd⟩ := Option.map_eq_some_iff.1 hview
  exact ⟨d, by rw [← hdocument, ← herrors], hd⟩

/-- The parts of a document without errors, by the reader of definitions. -/
theorem finds_of_parse {source : Text} {d : Document} (h : parse source = ⟨some d, []⟩)
    {parts : Definition → List β} {P : β → Prop}
    (hfinds : Grammar.Finds (lex source) (Grammar.optionalParts parts) P Grammar.definition) :
    ∀ b ∈ d.definitions.flatMap parts, P b := by
  intro b hb
  obtain ⟨definition, hmem, hb⟩ := List.mem_flatMap.1 hb
  obtain ⟨c', hrow, -⟩ := row_of_parse h
  obtain ⟨c₁, c₂, hc₁, hread⟩ :=
    hrow.givenIn Grammar.definition_taking (Cursor.on_ofTokens _) hmem
  exact hfinds c₁ hc₁ (by rw [hread]) b (by rw [hread]; exact hb)

end SelectionCheck
