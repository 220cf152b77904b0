import SelectionCheck.Proofs.Document.Account

/-!
# Reading in front of more tokens

`c.extend n ts` is the cursor `c` in a longer list of tokens: `n` tokens more are behind it and the
tokens `ts` come after those ahead. Most readers look one token further than they take, so what they
read may change with what follows. A `Local` reader reads the same in front of more tokens if it met
no fault and stopped before a token, since that token is all it looked at. A `Delimited` reader ends
with a token of its own and reads the same in any case.

A bracketed list is delimited as soon as its items are local: behind each item stands another item
or the closing bracket, for otherwise there would have been a fault. Operations and fragments end
with a selection set, so they are delimited, and two documents made of them can be read one after the
other (`definitions_append`). Type definitions are not: a type without fields may be followed by
some.
-/

namespace SelectionCheck

variable {α β : Type}

def Cursor.extend (c : Cursor) (n : Nat) (ts : List Token) : Cursor := ⟨c.ahead ++ ts, n + c.behind⟩

def Reading.extend (r : Reading α) (n : Nat) (ts : List Token) : Reading α :=
  ⟨r.value, r.faults, r.next.extend n ts⟩

section Extend

variable (n : Nat) (ts : List Token)

@[simp]
theorem Cursor.ahead_extend (c : Cursor) : (c.extend n ts).ahead = c.ahead ++ ts := rfl

theorem Cursor.ahead_extend_of_cons {c : Cursor} {t : Token} {rest : List Token}
    (h : c.ahead = t :: rest) : (c.extend n ts).ahead = t :: (rest ++ ts) := by
  rw [ahead_extend, h, List.cons_append]

theorem Cursor.extend_past (c : Cursor) (rest : List Token) :
    (c.extend n ts).past (rest ++ ts) = (c.past rest).extend n ts := rfl

theorem Cursor.kind?_extend {c : Cursor} (h : c.ahead ≠ []) : (c.extend n ts).kind? = c.kind? := by
  obtain ⟨t, rest, hahead⟩ := List.exists_cons_of_ne_nil h
  rw [kind?, kind?, ahead_extend, hahead]
  rfl

@[simp]
theorem Reading.value_extend (r : Reading α) : (r.extend n ts).value = r.value := rfl

@[simp]
theorem Reading.faults_extend (r : Reading α) : (r.extend n ts).faults = r.faults := rfl

@[simp]
theorem Reading.next_extend (r : Reading α) : (r.extend n ts).next = r.next.extend n ts := rfl

end Extend

/-- A reading without faults that stopped before a token is the same in front of more tokens. -/
def Local (reader : Cursor → Reading α) : Prop :=
  ∀ c n ts, (reader c).faults = [] → (reader c).next.ahead ≠ [] →
    reader (c.extend n ts) = (reader c).extend n ts

/-- A reading without faults is the same in front of more tokens. -/
def Delimited (reader : Cursor → Reading α) : Prop :=
  ∀ c n ts, (reader c).faults = [] → reader (c.extend n ts) = (reader c).extend n ts

theorem Delimited.local {reader : Cursor → Reading α} (h : Delimited reader) : Local reader :=
  fun c n ts hfaults _ => h c n ts hfaults

theorem Delimited.map {reader : Cursor → Reading α} (h : Delimited reader) (f : α → β) :
    Delimited fun c => (reader c).map f :=
  fun c n ts hfaults => congrArg (Reading.map f) (h c n ts hfaults)

theorem Delimited.within {reader : Cursor → Reading α} (h : Delimited reader) (context : Context) :
    Delimited fun c => (reader c).within context :=
  fun c n ts hfaults =>
    congrArg (Reading.within context) (h c n ts ((Reading.faults_within context _).1 hfaults))

theorem Reads.ahead_ne_nil {ps : List Piece} {c c' : Cursor} (h : Reads ps c c')
    (hahead : c'.ahead ≠ []) : c.ahead ≠ [] := by
  obtain ⟨taken, htaken, -, -⟩ := h
  rw [htaken]
  exact List.append_ne_nil_of_right_ne_nil taken hahead

theorem Takes.ahead_ne_nil {ps : List Piece} {c c' : Cursor} (h : Takes ps c c') :
    c.ahead ≠ [] := by
  obtain ⟨⟨taken, htaken, hbehind, -⟩, hmoves⟩ := h
  rw [htaken]
  apply List.append_ne_nil_of_left_ne_nil
  rintro rfl
  rw [hbehind] at hmoves
  exact Nat.lt_irrefl _ hmoves

def Definition.isExecutable : Definition → Bool
  | .operation _ | .fragment _ => true
  | .type _ | .schema _ => false

namespace Grammar

variable {c c' : Cursor} (n : Nat) (ts : List Token)

/-! ## Names, punctuators and lists -/

theorem name_extend {a : Name} (h : name c = .ok (a, c')) :
    name (c.extend n ts) = .ok (a, c'.extend n ts) := by
  cases name_iff.1 h with
  | found hahead hkind => exact name_of_kind (Cursor.ahead_extend_of_cons n ts hahead) hkind

theorem punctuator_extend {kind : Token.Kind} {offset : Nat}
    (h : punctuator kind c = .ok (offset, c')) :
    punctuator kind (c.extend n ts) = .ok (offset, c'.extend n ts) := by
  cases punctuator_iff.1 h with
  | found hahead hkind =>
      exact punctuator_of_kind (Cursor.ahead_extend_of_cons n ts hahead) hkind

theorem punctuator_extend_error {kind : Token.Kind} {fault : Fault} (hahead : c.ahead ≠ [])
    (h : punctuator kind c = .error fault) : punctuator kind (c.extend n ts) = .error fault := by
  obtain ⟨t, rest, hcons⟩ := List.exists_cons_of_ne_nil hahead
  cases punctuator_iff.1 h with
  | absent hkind =>
      rw [← Cursor.kind?_extend n ts hahead] at hkind
      rw [punctuator_iff.2 (.absent hkind), Cursor.ahead_extend_of_cons n ts hcons, hcons]
      rfl

theorem whenNext_extend {kind : Token.Kind} {reader : Cursor → Reading (Option α)}
    (hreader : Local reader) (hahead : c.ahead ≠ [])
    (hfaults : (whenNext kind reader c).faults = [])
    (hnext : (whenNext kind reader c).next.ahead ≠ []) :
    whenNext kind reader (c.extend n ts) = (whenNext kind reader c).extend n ts := by
  rw [whenNext] at hfaults hnext
  rw [whenNext, whenNext, Cursor.kind?_extend n ts hahead]
  split at hfaults
  · next hkind =>
      rw [if_pos hkind] at hnext
      rw [if_pos hkind, if_pos hkind]
      exact hreader c n ts hfaults hnext
  · next hkind =>
      rw [if_neg hkind, if_neg hkind]
      rfl

section Bracketed

variable {opener closer : Token.Kind} {rule list : Rule} {item : Cursor → Reading (Option α)}
  {pieces : α → List Piece}

theorem faults_itemsFrom_of_ahead_nil {steps : List Token} {number : Nat} {c : Cursor}
    {items : List α} {faults : List Fault} (hahead : c.ahead = []) :
    (itemsFrom closer rule item steps number c items faults).faults ≠ [] := by
  rw [itemsFrom.eq_def]
  simp only [hahead]
  simp

theorem itemsFrom_extend (hsound : Sound item pieces) (hlocal : Local item)
    {steps more : List Token} {number : Nat} {c : Cursor} {items : List α} {faults : List Fault}
    (hsteps : c.ahead.length ≤ steps.length) (hmore : c.ahead.length ≤ more.length)
    (hfaults : (itemsFrom closer rule item steps number c items faults).faults = []) :
    itemsFrom closer rule item more number (c.extend n ts) items faults =
      (itemsFrom closer rule item steps number c items faults).extend n ts := by
  induction steps generalizing more number c items faults with
  | nil =>
      have hahead : c.ahead = [] := List.length_eq_zero_iff.1 (Nat.le_zero.1 hsteps)
      rw [itemsFrom, hahead] at hfaults
      simp at hfaults
  | cons step steps ih =>
      cases hahead : c.ahead with
      | nil =>
          rw [itemsFrom, hahead] at hfaults
          simp at hfaults
      | cons t rest =>
          have hextended := Cursor.ahead_extend_of_cons n ts hahead
          by_cases ht : t.kind = closer
          · rw [itemsFrom_of_closer hahead ht, itemsFrom_of_closer hextended ht]
            rfl
          · have hitem := (faults_eq_nil_of_itemsFrom hfaults).2 t rest hahead ht
            obtain ⟨a, -, htakes⟩ := hsound c hitem
            have hlength := htakes.1.length_add_behind
            have hmoves := htakes.2
            rw [itemsFrom_of_moves hahead ht (Nat.ne_of_gt hmoves)] at hfaults ⊢
            -- behind the item something stands, since the list is closed further on
            have hnext : (item c).next.ahead ≠ [] :=
              fun hnil => faults_itemsFrom_of_ahead_nil hnil hfaults
            cases more with
            | nil => rw [hahead] at hmore; cases hmore
            | cons step' more =>
                have hextend := hlocal c n ts hitem hnext
                rw [List.length_cons] at hsteps hmore
                rw [itemsFrom_of_moves hextended ht, hextend]
                · exact ih (by omega) (by omega) hfaults
                · rw [hextend]
                  show n + (item c).next.behind ≠ n + c.behind
                  omega

theorem bracketed_delimited (hsound : Sound item pieces) (hlocal : Local item) :
    Delimited (bracketed opener closer rule item) := by
  intro c n ts hfaults
  generalize hr : bracketed opener closer rule item c = r at hfaults ⊢
  cases bracketed_iff.1 hr with
  | unopened => cases hfaults
  | opened hopening =>
      rw [bracketed_iff.2 (.opened (punctuator_extend n ts hopening)),
        itemsFrom_extend n ts hsound hlocal (Nat.le_refl _) (by simp) hfaults]
      rfl

theorem nonEmpty_delimited {item : Nat → Cursor → Reading (Option α)}
    (hsound : ∀ level, Sound (item level) pieces) (hlocal : ∀ level, Local (item level))
    (level : Nat) : Delimited (nonEmpty opener closer list rule item level) := by
  intro c n ts hfaults
  cases level with
  | zero => cases hfaults
  | succ level =>
      rw [nonEmpty] at hfaults
      have hlist := ((bracketed_delimited (hsound level) (hlocal level)).within (.rule list)) c n ts
        (List.append_eq_nil_iff.1 hfaults).1
      simp only at hlist
      rw [nonEmpty, nonEmpty, hlist]
      rfl

end Bracketed

/-! ## Values, arguments and directives -/

theorem variableRef_extend {v : Variable} (h : variableRef c = .ok (v, c')) :
    variableRef (c.extend n ts) = .ok (v, c'.extend n ts) := by
  cases variableRef_iff.1 h with
  | whole hdollar hname =>
      exact variableRef_iff.2 (.whole (punctuator_extend n ts hdollar) (name_extend n ts hname))

theorem variableValue_delimited (constant : Bool) : Delimited (variableValue constant) := by
  intro c n ts hfaults
  generalize hr : variableValue constant c = r at hfaults ⊢
  cases variableValue_iff.1 hr with
  | whole hvariable => exact variableValue_iff.2 (.whole (variableRef_extend n ts hvariable))
  | _ => cases hfaults

theorem objectField_delimited {value : Cursor → Reading Value} (hvalue : Delimited value) :
    Delimited (objectField value) := by
  intro c n ts hfaults
  generalize hr : objectField value c = r at hfaults ⊢
  cases objectField_iff.1 hr with
  | @whole a colon c₁ c₂ hname hcolon =>
      rw [objectField_iff.2 (.whole (name_extend n ts hname) (punctuator_extend n ts hcolon))]
      exact hvalue.map _ c₂ n ts hfaults
  | _ => cases hfaults

structure ValuesDelimited (constant : Bool) (level : Nat) : Prop where
  value : Delimited (Grammar.value constant level)
  list : Delimited (listValue constant level)
  object : Delimited (objectValue constant level)

theorem valuesDelimited (constant : Bool) (level : Nat) : ValuesDelimited constant level := by
  induction level with
  | zero =>
      refine ⟨?_, ?_, ?_⟩ <;> intro c n ts hfaults
      · exact absurd hfaults (faults_values_zero constant c).1
      · exact absurd hfaults (faults_values_zero constant c).2.1
      · exact absurd hfaults (faults_values_zero constant c).2.2
  | succ level ih =>
      obtain ⟨hvalue, hlist, hobject⟩ := ih
      have hfaithful := (valuesFaithful constant level).value
      refine ⟨?_, ?_, ?_⟩ <;> intro c n ts hfaults
      · generalize hr : value constant (level + 1) c = r at hfaults ⊢
        cases value_iff.1 hr with
        | nothing => cases hfaults
        | literal hahead hliteral =>
            exact value_iff.2 (.literal (Cursor.ahead_extend_of_cons n ts hahead) hliteral)
        | var hahead hkind =>
            rw [value_iff.2 (.var (Cursor.ahead_extend_of_cons n ts hahead) hkind)]
            exact variableValue_delimited constant c n ts hfaults
        | list hahead hkind =>
            rw [value_iff.2 (.list (Cursor.ahead_extend_of_cons n ts hahead) hkind)]
            exact hlist c n ts hfaults
        | object hahead hkind =>
            rw [value_iff.2 (.object (Cursor.ahead_extend_of_cons n ts hahead) hkind)]
            exact hobject c n ts hfaults
      · rw [listValue] at hfaults ⊢
        rw [listValue]
        exact (bracketed_delimited hfaithful.some (hvalue.map some).local).map _ c n ts hfaults
      · rw [objectValue] at hfaults ⊢
        rw [objectValue]
        exact ((bracketed_delimited (objectField_sound hfaithful)
          (objectField_delimited hvalue).local).within _).map _ c n ts hfaults

theorem value_delimited (constant : Bool) (level : Nat) : Delimited (value constant level) :=
  (valuesDelimited constant level).value

theorem defaultValue_local (level : Nat) : Local (defaultValue level) := by
  intro c n ts hfaults hnext
  generalize hr : defaultValue level c = r at hfaults hnext ⊢
  cases defaultValue_iff.1 hr with
  | tooDeep => cases hfaults
  | absent hequals =>
      exact defaultValue_iff.2 (.absent (punctuator_extend_error n ts hnext hequals))
  | @whole level equals c₁ hequals =>
      rw [defaultValue_iff.2 (.whole (punctuator_extend n ts hequals))]
      exact ((value_delimited true level).within _).map _ c₁ n ts hfaults

theorem argument_delimited (constant : Bool) (level : Nat) :
    Delimited (argument constant level) := by
  intro c n ts hfaults
  match level with
  | 0 => rw [argument] at hfaults; cases hfaults
  | level + 1 =>
      rw [argument_succ] at hfaults ⊢
      rw [argument_succ]
      exact (objectField_delimited (value_delimited constant level)).map _ c n ts hfaults

theorem arguments_delimited (constant : Bool) (level : Nat) :
    Delimited (arguments constant level) :=
  nonEmpty_delimited (argument_sound constant)
    (fun level => (argument_delimited constant level).local) level

/-- Directives stop before a token that is no at sign. -/
theorem directivesFrom_extend {constant : Bool} {level : Nat} {steps more : List Token}
    {directives : List Directive} {faults : List Fault} (hsteps : c.ahead.length ≤ steps.length)
    (hmore : c.ahead.length ≤ more.length)
    (hfaults : (directivesFrom constant level steps c directives faults).faults = [])
    (hnext : (directivesFrom constant level steps c directives faults).next.ahead ≠ []) :
    directivesFrom constant level more (c.extend n ts) directives faults =
      (directivesFrom constant level steps c directives faults).extend n ts := by
  induction steps generalizing more c directives faults with
  | nil =>
      rw [directivesFrom] at hnext
      exact absurd (List.length_eq_zero_iff.1 (Nat.le_zero.1 hsteps)) hnext
  | cons step steps ih =>
      obtain ⟨_, -, hreads⟩ := directivesFrom_reads hsteps hfaults
      have hahead := hreads.ahead_ne_nil hnext
      cases more with
      | nil => exact absurd (List.length_eq_zero_iff.1 (Nat.le_zero.1 hmore)) hahead
      | cons step' more =>
          generalize hr : directivesFrom constant level (step :: steps) c directives faults = r
            at hfaults hnext ⊢
          cases directivesFrom_iff.1 hr with
          | absent hsign =>
              exact directivesFrom_iff.2 (.absent (punctuator_extend_error n ts hahead hsign))
          | noName => simp at hfaults
          | @more _ _ sign a c₁ c₂ r hsign hname hread =>
              subst hread
              have hnone := (List.append_eq_nil_iff.1 (faults_eq_nil_of_directivesFrom hfaults)).1
              rw [List.reverse_eq_nil_iff, withinAll_eq_nil] at hnone
              have harguments := (arguments_sound constant level).whenNext .lparen hnone
              have htakes := (takes_of_mark hsign).trans
                ((takes_of_name hname).trans harguments).1
              have hlength := htakes.1.length_add_behind
              have hmoves := htakes.2
              rw [List.length_cons] at hsteps hmore
              obtain ⟨_, -, hrest⟩ := directivesFrom_reads (by omega) hfaults
              have hbehind := hrest.ahead_ne_nil hnext
              have hextend := whenNext_extend n ts (arguments_delimited constant level).local
                (harguments.ahead_ne_nil hbehind) hnone hbehind
              rw [directivesFrom_iff.2
                (.more (punctuator_extend n ts hsign) (name_extend n ts hname) hextend)]
              exact ih (by omega) (by omega) hfaults hnext

theorem directives_local (constant : Bool) (level : Nat) : Local (directives constant level) := by
  intro c n ts hfaults hnext
  match level with
  | 0 => rw [directives] at hfaults; cases hfaults
  | level + 1 =>
      rw [directives] at hfaults hnext ⊢
      rw [directives]
      exact directivesFrom_extend n ts (Nat.le_refl _) (by simp) hfaults hnext

/-! ## Type references -/

theorem bang_extend (hnext : (bang c).2.ahead ≠ []) :
    bang (c.extend n ts) = ((bang c).1, (bang c).2.extend n ts) := by
  generalize hr : bang c = r at hnext ⊢
  cases bang_iff.1 hr with
  | absent hbang => exact bang_iff.2 (.absent (punctuator_extend_error n ts hnext hbang))
  | found hbang => exact bang_iff.2 (.found (punctuator_extend n ts hbang))

theorem listTypeRest_extend {opening : Nat} {element : Reading TypeRef}
    (hfaults : (listTypeRest opening element).faults = [])
    (hnext : (listTypeRest opening element).next.ahead ≠ []) :
    listTypeRest opening (element.extend n ts) = (listTypeRest opening element).extend n ts := by
  generalize hr : listTypeRest opening element = r at hfaults hnext ⊢
  cases listTypeRest_iff.1 hr with
  | unclosed => simp at hfaults
  | badElement _ hne => exact absurd (withinAll_eq_nil.1 hfaults) hne
  | whole hclosing hnil =>
      have hclosing' : punctuator .rbracket (element.extend n ts).next = _ :=
        punctuator_extend n ts hclosing
      rw [listTypeRest_iff.2 (.whole hclosing' hnil), bang_extend n ts hnext]
      rfl

theorem typeRef_local (level : Nat) : Local (typeRef level) := by
  intro c n ts hfaults hnext
  generalize hr : typeRef level c = r at hfaults hnext ⊢
  induction typeRef_iff.1 hr with
  | ended | tooDeep | noType => cases hfaults
  | named hahead hname =>
      rw [typeRef_iff.2 (.named (Cursor.ahead_extend_of_cons n ts hahead) hname),
        Cursor.extend_past, bang_extend n ts hnext]
      rfl
  | list hahead hlbracket helement ih =>
      obtain ⟨hnone, _, _, -, hreads⟩ := listTypeRest_reads hfaults
      have hread := ih (typeRef_iff.2 helement) hnone (hreads.ahead_ne_nil hnext)
      rw [← Cursor.extend_past, typeRef_iff] at hread
      rw [typeRef_iff.2 (.list (Cursor.ahead_extend_of_cons n ts hahead) hlbracket hread)]
      exact listTypeRest_extend n ts hfaults hnext

/-! ## Selections -/

theorem typeCondition_extend {level : Nat} {condition : TypeCondition}
    (h : typeCondition level c = .ok (condition, c')) :
    typeCondition level (c.extend n ts) = .ok (condition, c'.extend n ts) := by
  cases typeCondition_iff.1 h with
  | whole hahead hword hname =>
      exact typeCondition_iff.2
        (.whole (Cursor.ahead_extend_of_cons n ts hahead) hword (name_extend n ts hname))

theorem fragmentSpread_extend {level : Nat} {ellipsis : Token} {rest : List Token}
    (hfaults : (fragmentSpread level ellipsis rest c).faults = [])
    (hnext : (fragmentSpread level ellipsis rest c).next.ahead ≠ []) :
    fragmentSpread level ellipsis (rest ++ ts) (c.extend n ts) =
      (fragmentSpread level ellipsis rest c).extend n ts := by
  generalize hr : fragmentSpread level ellipsis rest c = r at hfaults hnext ⊢
  cases fragmentSpread_iff.1 hr with
  | @whole level a c₁ hname =>
      have hdirectives := directives_local false level c₁ n ts
        ((Reading.faults_within _ _).1 hfaults) hnext
      rw [fragmentSpread_iff.2 (.whole (c.extend_past n ts rest ▸ name_extend n ts hname)),
        hdirectives]
      rfl
  | _ => cases hfaults

theorem inlineCondition_extend {level : Nat} {condition : Option TypeCondition}
    (hnext : c'.ahead ≠ []) (h : inlineCondition level c = .ok (condition, c')) :
    inlineCondition level (c.extend n ts) = .ok (condition, c'.extend n ts) := by
  cases inlineCondition_iff.1 h with
  | absent hword =>
      obtain ⟨t, rest, hahead⟩ := List.exists_cons_of_ne_nil hnext
      refine inlineCondition_iff.2 (.absent ?_)
      rw [Cursor.ahead_extend_of_cons n ts hahead]
      rwa [hahead] at hword
  | whole hahead hword hcondition =>
      exact inlineCondition_iff.2 (.whole (Cursor.ahead_extend_of_cons n ts hahead) hword
        (typeCondition_extend n ts hcondition))

theorem fieldName_extend {names : Option Name × Name} (hnext : c'.ahead ≠ [])
    (h : fieldName c = .ok (names, c')) :
    fieldName (c.extend n ts) = .ok (names, c'.extend n ts) := by
  cases fieldName_iff.1 h with
  | plain hname hcolon =>
      exact fieldName_iff.2
        (.plain (name_extend n ts hname) (punctuator_extend_error n ts hnext hcolon))
  | aliased hfirst hcolon hsecond =>
      exact fieldName_iff.2 (.aliased (name_extend n ts hfirst) (punctuator_extend n ts hcolon)
        (name_extend n ts hsecond))

section Selections

variable {level : Nat} {selections : Cursor → Reading (Option SelectionSet)}
  (hsound : Sound selections SelectionSet.pieces) (hdelimited : Delimited selections)
include hsound hdelimited

theorem fieldRest_extend {aliasName : Option Name} {a : Name}
    (hfaults : (fieldRest level selections aliasName a c).faults = [])
    (hnext : (fieldRest level selections aliasName a c).next.ahead ≠ []) :
    fieldRest level selections aliasName a (c.extend n ts) =
      (fieldRest level selections aliasName a c).extend n ts := by
  generalize hr : fieldRest level selections aliasName a c = r at hfaults hnext ⊢
  cases fieldRest_iff.1 hr with
  | ended hahead => exact absurd hahead hnext
  | whole hahead ha hd hs =>
      subst ha hd hs
      simp only [withinAll_eq_nil, List.append_eq_nil_iff] at hfaults
      obtain ⟨⟨harguments, hdirectives⟩, hset⟩ := hfaults
      have hset' := (hsound.whenNext .lbrace hset).ahead_ne_nil hnext
      have hdirectives' := (directives_reads hdirectives).ahead_ne_nil hset'
      exact fieldRest_iff.2 (.whole (List.append_ne_nil_of_left_ne_nil hahead ts)
        (whenNext_extend n ts (arguments_delimited false level).local hahead harguments
          hdirectives')
        (directives_local false level _ n ts hdirectives hset')
        (whenNext_extend n ts hdelimited.local hset' hset hnext))

theorem field_local : Local (field level selections) := by
  intro c n ts hfaults hnext
  generalize hr : field level selections c = r at hfaults hnext ⊢
  cases field_iff.1 hr with
  | noName => cases hfaults
  | whole hname =>
      obtain ⟨_, _, _, -, hreads⟩ := fieldRest_reads hsound hfaults
      rw [field_iff.2 (.whole (fieldName_extend n ts (hreads.ahead_ne_nil hnext) hname))]
      exact fieldRest_extend n ts hsound hdelimited hfaults hnext

theorem inlineRest_extend {ellipsis : Nat} {condition : Option TypeCondition}
    (hfaults : (inlineRest level selections ellipsis condition c).faults = []) :
    inlineRest level selections ellipsis condition (c.extend n ts) =
      (inlineRest level selections ellipsis condition c).extend n ts := by
  generalize hr : inlineRest level selections ellipsis condition c = r at hfaults ⊢
  cases inlineRest_iff.1 hr with
  | noSet => simp at hfaults
  | whole hd hkind hs =>
      subst hd hs
      simp only [withinAll_eq_nil, List.append_eq_nil_iff] at hfaults
      obtain ⟨_, -, htakes⟩ := hsound _ hfaults.2
      obtain ⟨t, rest, hahead⟩ := List.exists_cons_of_ne_nil htakes.ahead_ne_nil
      refine inlineRest_iff.2 (.whole
        (directives_local false level c n ts hfaults.1 htakes.ahead_ne_nil) ?_
        (hdelimited _ n ts hfaults.2))
      rw [Reading.next_extend, Cursor.ahead_extend_of_cons n ts hahead]
      rwa [hahead] at hkind

end Selections

/-- How the readers of selections depend on what follows, at one level. -/
structure SelectionsLocal (level : Nat) : Prop where
  set : Delimited (selectionSet level)
  selection : Local (Grammar.selection level)
  inline : ∀ (ellipsis : Token) (rest : List Token) (c : Cursor) (n : Nat) (ts : List Token),
    (inlineFragment level ellipsis rest c).faults = [] →
    (inlineFragment level ellipsis rest c).next.ahead ≠ [] →
    inlineFragment level ellipsis (rest ++ ts) (c.extend n ts) =
      (inlineFragment level ellipsis rest c).extend n ts

theorem selectionsLocal (level : Nat) : SelectionsLocal level := by
  induction level with
  | zero =>
      refine ⟨?_, ?_, ?_⟩
      · intro c n ts hfaults; rw [selectionSet] at hfaults; cases hfaults
      · intro c n ts hfaults; rw [selection] at hfaults; cases hfaults
      · intro ellipsis rest c n ts hfaults; rw [inlineFragment] at hfaults; cases hfaults
  | succ level ih =>
      obtain ⟨hset, hselection, hinline⟩ := ih
      have hsound := selectionsSound level
      refine ⟨?_, ?_, ?_⟩
      · intro c n ts hfaults
        rw [selectionSet] at hfaults ⊢
        rw [selectionSet]
        exact (bracketed_delimited hsound.selection hselection).within _ c n ts hfaults
      · intro c n ts hfaults hnext
        obtain ⟨_, -, htakes⟩ := (selectionsSound (level + 1)).selection c hfaults
        have hkind? := Cursor.kind?_extend n ts htakes.ahead_ne_nil
        generalize hr : selection (level + 1) c = r at hfaults hnext ⊢
        cases selection_iff.1 hr with
        | field hkind =>
            rw [selection_iff.2 (.field (hkind? ▸ hkind))]
            exact field_local hsound.set hset c n ts hfaults hnext
        | ended | noFragment => cases hfaults
        | spread hahead hkind hname hword =>
            have hahead' := Cursor.ahead_extend_of_cons n ts hahead
            rw [selection_iff.2 (.spread hahead' hkind hname hword)]
            exact fragmentSpread_extend n ts hfaults hnext
        | inline hahead hkind hstart =>
            have hahead' := Cursor.ahead_extend_of_cons n ts hahead
            rw [selection_iff.2 (.inline hahead' hkind hstart)]
            exact hinline _ _ c n ts hfaults hnext
      · intro ellipsis rest c n ts hfaults hnext
        generalize hr : inlineFragment (level + 1) ellipsis rest c = r at hfaults hnext ⊢
        cases inlineFragment_iff.1 hr with
        | noCondition => cases hfaults
        | whole hcondition =>
            obtain ⟨_, _, -, hreads⟩ := inlineRest_reads hsound.set hfaults
            rw [inlineFragment_iff.2
              (.whole (inlineCondition_extend n ts (hreads.ahead_ne_nil hnext) hcondition))]
            exact inlineRest_extend n ts hsound.set hset hfaults

theorem selectionSet_delimited (level : Nat) : Delimited (selectionSet level) :=
  (selectionsLocal level).set

/-! ## Operations and fragments -/

theorem DefaultedCases.extend {level : Nat} {make : TypeRef → Option DefaultValue → α}
    {r : Reading (Option α)} (h : DefaultedCases level c make r) (hfaults : r.faults = [])
    (hnext : r.next.ahead ≠ []) : DefaultedCases level (c.extend n ts) make (r.extend n ts) := by
  cases h with
  | badType _ hne => exact absurd hfaults hne
  | whole ht hnil =>
      subst ht
      have hbehind := (defaultValue_reads hfaults).ahead_ne_nil hnext
      have hwhole : DefaultedCases level (c.extend n ts) make _ :=
        .whole (typeRef_local level c n ts hnil hbehind) hnil
      rwa [Reading.next_extend, defaultValue_local level _ n ts hfaults hnext] at hwhole

theorem variableDefinition_local (level : Nat) : Local (variableDefinition level) := by
  intro c n ts hfaults hnext
  generalize hr : variableDefinition level c = r at hfaults hnext ⊢
  cases variableDefinition_iff.1 hr with
  | typed hvariable hcolon htype =>
      exact variableDefinition_iff.2 (.typed (variableRef_extend n ts hvariable)
        (punctuator_extend n ts hcolon) (htype.extend n ts hfaults hnext))
  | _ => cases hfaults

theorem variableDefinitions_delimited (level : Nat) : Delimited (variableDefinitions level) :=
  nonEmpty_delimited variableDefinition_sound variableDefinition_local level

theorem operationRest_delimited (level start : Nat) (type : OperationType) (name : Option Name) :
    Delimited (operationRest level start type name) := by
  intro c n ts hfaults
  rw [operationRest] at hfaults ⊢
  rw [operationRest]
  simp only [withinAll_eq_nil, List.append_eq_nil_iff] at hfaults
  obtain ⟨⟨hparameters, hdirectives⟩, hset⟩ := hfaults
  obtain ⟨_, -, htakes⟩ := selectionSet_sound level _ hset
  have hbrace := htakes.ahead_ne_nil
  have hbehind := (directives_reads hdirectives).ahead_ne_nil hbrace
  have hahead := ((variableDefinitions_sound level).whenNext .lparen hparameters).ahead_ne_nil
    hbehind
  rw [whenNext_extend n ts (variableDefinitions_delimited level).local hahead hparameters hbehind]
  simp only [Reading.next_extend]
  rw [directives_local false level _ n ts hdirectives hbrace]
  simp only [Reading.next_extend]
  rw [selectionSet_delimited level _ n ts hset]
  rfl

theorem operation_delimited (level start : Nat) (type : OperationType) :
    Delimited (operation level start type) := by
  intro c n ts hfaults
  generalize hr : operation level start type c = r at hfaults ⊢
  cases operation_iff.1 hr with
  | ended | noBody => cases hfaults
  | named hahead hkind =>
      rw [operation_iff.2 (.named (Cursor.ahead_extend_of_cons n ts hahead) hkind)]
      exact operationRest_delimited level start type _ _ n ts hfaults
  | anonymous hahead hkind =>
      rw [operation_iff.2 (.anonymous (Cursor.ahead_extend_of_cons n ts hahead) hkind)]
      exact operationRest_delimited level start type none c n ts hfaults

theorem shorthandQuery_delimited (level start : Nat) :
    Delimited (shorthandQuery level start) :=
  ((selectionSet_delimited level).within _).map _

theorem fragmentDefinition_delimited (level keyword : Nat) :
    Delimited (fragmentDefinition level keyword) := by
  intro c n ts hfaults
  generalize hr : fragmentDefinition level keyword c = r at hfaults ⊢
  cases fragmentDefinition_iff.1 hr with
  | whole hname hon hcondition hd hs =>
      subst hd hs
      simp only [withinAll_eq_nil, List.append_eq_nil_iff] at hfaults
      obtain ⟨_, -, htakes⟩ := selectionSet_sound level _ hfaults.2
      exact fragmentDefinition_iff.2 (.whole (name_extend n ts hname) hon
        (typeCondition_extend n ts hcondition)
        (directives_local false level _ n ts hfaults.1 htakes.ahead_ne_nil)
        (selectionSet_delimited level _ n ts hfaults.2))
  | _ => cases hfaults

/-! ## Documents -/

theorem isExecutable_of_keywordDefinition {described : Option Description} {keyword : Token}
    {c behind : Cursor} {d : Definition}
    (h : (keywordDefinition described keyword c behind).value = some d) :
    d.isExecutable = false := by
  generalize hr : keywordDefinition described keyword c behind = r at h
  cases keywordDefinition_iff.1 hr with
  | noForm => cases h
  | whole =>
      rw [← Option.some.inj h]
      rfl

theorem isExecutable_of_describedDefinition {t : Token} {rest : List Token} {c : Cursor}
    {d : Definition} (h : (describedDefinition t rest c).value = some d) :
    d.isExecutable = false := by
  generalize hr : describedDefinition t rest c = r at h
  cases describedDefinition_iff.1 hr with
  | noKeyword => cases h
  | keyword => exact isExecutable_of_keywordDefinition h

/-- An operation or a fragment is read the same way in front of other definitions. -/
theorem definition_extend {d : Definition} (hfaults : (definition c).faults = [])
    (hvalue : (definition c).value = some d) (hd : d.isExecutable = true) :
    definition (c.extend n ts) = (definition c).extend n ts := by
  generalize hr : definition c = r at hfaults hvalue ⊢
  cases definition_iff.1 hr with
  | ended | refused => cases hvalue
  | @operation t rest type hahead htype =>
      rw [definition_iff.2 (.operation (Cursor.ahead_extend_of_cons n ts hahead) htype)]
      exact (operation_delimited _ _ _).map _ (c.past rest) n ts hfaults
  | shorthand hahead hkind =>
      rw [definition_iff.2 (.shorthand (Cursor.ahead_extend_of_cons n ts hahead) hkind)]
      exact (shorthandQuery_delimited _ _).map _ c n ts hfaults
  | @fragment t rest hahead hword =>
      rw [definition_iff.2 (.fragment (Cursor.ahead_extend_of_cons n ts hahead) hword)]
      exact (fragmentDefinition_delimited _ _).map _ (c.past rest) n ts hfaults
  -- the other definitions are not executable
  | schema =>
      obtain ⟨s, -, rfl⟩ := Option.map_eq_some_iff.1 hvalue
      cases hd
  | keyword => cases (isExecutable_of_keywordDefinition hvalue).symm.trans hd
  | described => cases (isExecutable_of_describedDefinition hvalue).symm.trans hd

theorem definitionsFrom_eq_append (steps : List Token) (c : Cursor) (ds : List Definition)
    (faults : List Fault) :
    definitionsFrom steps c ds faults = (ds.reverse ++ (definitionsFrom steps c [] []).1,
      faults.reverse ++ (definitionsFrom steps c [] []).2) := by
  induction steps generalizing c ds faults with
  | nil => simp [definitionsFrom]
  | cons step steps ih =>
      rw [definitionsFrom, definitionsFrom]
      cases hvalue : (definition c).value with
      | none => simp
      | some d =>
          simp only
          rw [ih, ih _ [d]]
          simp

theorem definitionsFrom_of_ahead_nil (steps : List Token) (behind : Nat) (ds : List Definition) :
    definitionsFrom steps ⟨[], behind⟩ ds [] = (ds.reverse, []) := by
  cases steps <;> rfl

theorem definitionsFrom_extend {steps : List Token} (more : List Token) {ds : List Definition}
    (hsteps : c.ahead.length ≤ steps.length) (hmore : c.ahead.length ≤ more.length)
    (hfaults : (definitionsFrom steps c ds []).2 = [])
    (hexecutable : ∀ d ∈ (definitionsFrom steps c ds []).1, d.isExecutable = true) :
    ∃ used, used ≤ c.ahead.length ∧
      definitionsFrom more (c.extend n ts) ds [] =
        definitionsFrom (more.drop used) ⟨ts, n + (c.behind + c.ahead.length)⟩
          (definitionsFrom steps c ds []).1.reverse [] := by
  induction steps generalizing more c ds with
  | nil =>
      have hahead : c.ahead = [] := List.length_eq_zero_iff.1 (Nat.le_zero.1 hsteps)
      refine ⟨0, Nat.zero_le _, ?_⟩
      rw [definitionsFrom, List.reverse_reverse, hahead, List.drop_zero, Cursor.extend, hahead]
      rfl
  | cons step steps ih =>
      have hnone := (faults_eq_nil_of_definitionsFrom hfaults).2
      rw [definitionsFrom] at hfaults hexecutable ⊢
      cases hahead : c.ahead with
      | nil =>
          have hvalue : (definition c).value = none := by rw [definition_iff.2 (.ended hahead)]
          refine ⟨0, Nat.zero_le _, ?_⟩
          rw [hvalue]
          simp only [List.reverse_reverse, List.drop_zero]
          rw [Cursor.extend, hahead]
          rfl
      | cons t rest =>
          obtain ⟨d, hvalue, htakes⟩ := definition_takes hahead hnone
          simp only [hvalue, hnone, List.reverse_nil, List.nil_append] at hfaults hexecutable ⊢
          have hlength := htakes.1.length_add_behind
          have hmoves := htakes.2
          simp only [hahead, List.length_cons] at hsteps hmore hlength
          have hless : (definition c).next.ahead.length ≤ steps.length := by omega
          obtain ⟨later, _, hlater, -, -⟩ := definitionsFrom_row hless hfaults
          have hd := hexecutable d (by rw [hlater]; simp)
          cases more with
          | nil => cases hmore
          | cons step' more =>
              rw [List.length_cons] at hmore
              obtain ⟨used, hused, heq⟩ :=
                ih more hless (by omega) hfaults hexecutable
              have hbehind : (definition c).next.behind + (definition c).next.ahead.length =
                  c.behind + (rest.length + 1) := by omega
              refine ⟨used + 1, by rw [List.length_cons]; omega, ?_⟩
              rw [definitionsFrom, definition_extend n ts hnone hvalue hd]
              simp only [Reading.value_extend, hvalue, Reading.faults_extend, hnone,
                List.reverse_nil, List.nil_append, Reading.next_extend, List.drop_succ_cons,
                List.length_cons]
              rw [heq, hbehind]

/-- Two lists of tokens that spell operations and fragments, read as one. -/
theorem definitions_append {us : List Token} (hts : (definitions ts).2 = [])
    (hus : (definitions us).2 = [])
    (hexecutable : ∀ d ∈ (definitions ts).1 ++ (definitions us).1, d.isExecutable = true) :
    definitions (ts ++ us) = ((definitions ts).1 ++ (definitions us).1, []) := by
  obtain ⟨used, hused, hfirst⟩ := definitionsFrom_extend 0 us (c := .ofTokens ts) (ts ++ us)
    (Nat.le_refl ts.length) (by simp [Cursor.ofTokens]) hts fun d hd =>
      hexecutable d (List.mem_append_left _ hd)
  have hboth := definitionsFrom_eq_append us (.ofTokens us) (definitions ts).1.reverse []
  rw [List.reverse_reverse, List.reverse_nil, List.nil_append] at hboth
  have hless : us.length ≤ ((ts ++ us).drop used).length := by
    rw [List.length_drop, List.length_append]
    have hle : used ≤ ts.length := hused
    omega
  obtain ⟨_, -, hsecond⟩ := definitionsFrom_extend ts.length [] (c := .ofTokens us)
    ((ts ++ us).drop used) (Nat.le_refl us.length) hless (by rw [hboth]; exact hus)
    (by rw [hboth]; exact hexecutable)
  have hstart : (Cursor.ofTokens us).extend ts.length [] =
      ⟨us, 0 + ((Cursor.ofTokens ts).behind + (Cursor.ofTokens ts).ahead.length)⟩ := by
    simp [Cursor.extend, Cursor.ofTokens]
  calc definitions (ts ++ us)
      = definitionsFrom (ts ++ us) ((Cursor.ofTokens ts).extend 0 us) [] [] := rfl
    _ = definitionsFrom ((ts ++ us).drop used) ((Cursor.ofTokens us).extend ts.length [])
          (definitions ts).1.reverse [] := by rw [hfirst, hstart]; rfl
    _ = ((definitions ts).1 ++ (definitions us).1, []) := by
        rw [hsecond, hboth, definitionsFrom_of_ahead_nil, List.reverse_reverse]
        rfl

end Grammar

end SelectionCheck
