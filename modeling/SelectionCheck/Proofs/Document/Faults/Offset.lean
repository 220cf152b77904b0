import SelectionCheck.Proofs.Document.Account
import SelectionCheck.Proofs.Document.Faults.TypeSystem

/-!
# The offsets of errors

Faults are met in the order of their places, and a place is a number of tokens. The main statement
says what this means for a reader of the errors of a document: each of them has the offset of a
token or of the end of the source, and the offsets never go back. The one error without an offset
is that of a tree that is too deep, which is about no token; it is known by its wording.
-/

namespace SelectionCheck

variable {ts : List Token} {size place place' : Nat}

/-! ## Places and offsets -/

/-- The offset of a place in a document of `size` bytes: that of the token there or, behind the
last token, that of the end. -/
def offsetOfPlace (ts : List Token) (size place : Nat) : Nat :=
  (ts[place]?.map Token.start).getD size

theorem offsetOfPlace_eq_or_mem (ts : List Token) (size place : Nat) :
    offsetOfPlace ts size place = size ∨ ∃ t ∈ ts, t.start = offsetOfPlace ts size place := by
  rw [offsetOfPlace]
  cases hget : ts[place]? with
  | none => exact .inl rfl
  | some t => exact .inr ⟨t, List.mem_of_getElem? hget, rfl⟩

/-- A later place has no smaller offset. -/
theorem offsetOfPlace_mono (hts : Lexed ts) (hsize : ∀ t ∈ ts, t.start ≤ size)
    (hle : place ≤ place') : offsetOfPlace ts size place ≤ offsetOfPlace ts size place' := by
  rcases Nat.eq_or_lt_of_le hle with rfl | hlt
  · exact Nat.le_refl _
  · rw [offsetOfPlace, offsetOfPlace]
    cases hget' : ts[place']? with
    | none =>
        cases hget : ts[place]? with
        | none => exact Nat.le_refl _
        | some t => exact hsize t (List.mem_of_getElem? hget)
    | some t' =>
        obtain ⟨hplace', rfl⟩ := List.getElem?_eq_some_iff.1 hget'
        have hplace := Nat.lt_trans hlt hplace'
        rw [List.getElem?_eq_getElem hplace]
        exact Nat.le_of_lt (List.pairwise_iff_getElem.1 hts.increasing _ _ hplace hplace' hlt)

/-- A cause has the offset of its place, unless it is about no token. -/
theorem Cause.offset?_of_at {cause : Cause} (h : cause.At ts place) (size : Nat) :
    cause.offset? size = if cause = .tooDeep then none else some (offsetOfPlace ts size place) := by
  cases cause with
  | expected wanted found =>
      change ts[place]? = found at h
      subst h
      rfl
  | noValue found =>
      change ts[place]? = found at h
      subst h
      rfl
  | variableInConstant offset | fragmentNamedOn offset | empty offset =>
      change ts[place]?.map Token.start = some offset at h
      simp [offset?, offsetOfPlace, h]
  | reservedEnumValue name =>
      obtain ⟨t, hget, -, -, hstart⟩ := h
      simp [offset?, offsetOfPlace, hget, hstart]
  | tooDeep => rfl

/-- The offsets of faults are in order, and none is before the first place. -/
theorem FaultsBetween.pairwise_offsets (hts : Lexed ts) (hsize : ∀ t ∈ ts, t.start ≤ size)
    {first last : Nat} {faults : List Fault} (h : FaultsBetween ts first last faults) :
    (faults.filterMap (·.cause.offset? size)).Pairwise (· ≤ ·) ∧
      ∀ offset ∈ faults.filterMap (·.cause.offset? size),
        offsetOfPlace ts size first ≤ offset := by
  induction h with
  | nil _ => exact ⟨.nil, List.forall_mem_nil _⟩
  | @cons first place last fault faults hle hat h ih =>
      obtain ⟨hpairwise, hlower⟩ := ih
      have hfirst := offsetOfPlace_mono hts hsize hle
      have hlower' : ∀ offset ∈ faults.filterMap (·.cause.offset? size),
          offsetOfPlace ts size first ≤ offset :=
        fun offset hoffset => Nat.le_trans hfirst (hlower offset hoffset)
      have hcause := Cause.offset?_of_at hat.cause size
      split at hcause
      · simp only [List.filterMap_cons, hcause]
        exact ⟨hpairwise, hlower'⟩
      · simp only [List.filterMap_cons, hcause]
        exact ⟨List.pairwise_cons.2 ⟨hlower, hpairwise⟩, List.forall_mem_cons.2 ⟨hfirst, hlower'⟩⟩

/-! ## The wording of a tree that is too deep -/

theorem Text.getLast?_quote (text : Text) : (Text.quote text).getLast? = some 0x22 := by
  rw [Text.quote, List.getLast?_append]
  rfl

/-- The last letter tells a tree that is too deep from every other cause. -/
theorem Cause.exists_getLast?_message (cause : Cause) :
    ∃ b, cause.message.getLast? = some b ∧ (b = 0x70 ↔ cause = .tooDeep) := by
  cases cause with
  | expected wanted found =>
      cases found with
      | none =>
          have hend : (", got EOF" : Text).getLast? = some 0x46 := by decide
          exact ⟨0x46, by simp [message, List.getLast?_append, hend], by simp⟩
      | some token =>
          exact ⟨0x22, by simp [message, List.getLast?_append, Text.getLast?_quote], by simp⟩
  | noValue found =>
      cases found with
      | none => exact ⟨0x46, by decide, by simp⟩
      | some token =>
          exact ⟨0x22, by simp [message, List.getLast?_append, Text.getLast?_quote], by simp⟩
  | reservedEnumValue name =>
      exact ⟨0x22, by simp [message, List.getLast?_append, Text.getLast?_quote], by simp⟩
  | variableInConstant dollar => exact ⟨0x74, by rw [message]; decide, by simp⟩
  | fragmentNamedOn start => exact ⟨0x27, by rw [message]; decide, by simp⟩
  | empty closing => exact ⟨0x79, by rw [message]; decide, by simp⟩
  | tooDeep => exact ⟨0x70, by decide, by simp⟩

/-- The wording of a fault ends with that of its cause. -/
theorem Fault.message_suffix (fault : Fault) : fault.cause.message <:+ fault.message := by
  obtain ⟨context, cause⟩ := fault
  induction context with
  | nil => exact List.suffix_rfl
  | cons first context ih => exact ih.trans (List.suffix_append _ _)

theorem Fault.tooDeep_suffix_iff (fault : Fault) (before : Text) :
    Cause.tooDeep.message <:+ before ++ fault.message ↔ fault.cause = .tooDeep := by
  have hsuffix : fault.cause.message <:+ before ++ fault.message :=
    fault.message_suffix.trans (List.suffix_append _ _)
  constructor
  · rintro ⟨start, hstart⟩
    -- both wordings end the same text, so they have one last letter
    obtain ⟨start', hstart'⟩ := hsuffix
    obtain ⟨b, hlast, hb⟩ := fault.cause.exists_getLast?_message
    have hsame := congrArg List.getLast? (hstart'.trans hstart.symm)
    rw [List.getLast?_append, hlast, List.getLast?_append] at hsame
    exact hb.1 (Option.some.inj hsame)
  · intro hcause
    exact hcause ▸ hsuffix

/-! ## Documents -/

/-- No token begins behind the end of the text. -/
theorem start_le_of_mem_lex {source : Text} {t : Token} (ht : t ∈ lex source) :
    t.start ≤ source.length := by
  obtain ⟨i, b, rest, hdrop, hstart, -⟩ := Token.exists_head_of_mem_lexFrom ht
  have hlength := congrArg List.length hdrop
  rw [List.length_drop, List.length_cons] at hlength
  omega

/-- The errors of a source without lexical errors. An error has no offset exactly if its wording is
that of a tree that is too deep. Every other error stands at a token or at the end of the source,
and its position is that of its offset. In the order in which the errors are given their offsets
never go back. -/
theorem offsets_errors_parse {source : Text} (hsize : source.length ≤ sizeLimit)
    (hlexical : ∀ t ∈ lex source, t.errors = []) :
    (∀ e ∈ (parse source).errors,
      (e.offset? source.length = none ↔ ("syntax tree too deep" : Text) <:+ e.message) ∧
      (¬ ("syntax tree too deep" : Text) <:+ e.message → ∃ offset,
        e.offset? source.length = some offset ∧
        (offset = source.length ∨ ∃ t ∈ lex source, t.start = offset) ∧
        e.position? source = some (Position.ofOffset source offset))) ∧
    ((parse source).errors.filterMap (·.offset? source.length)).Pairwise (· ≤ ·) := by
  have hfaults := Grammar.definitions_orderly (lex source)
  rw [parse_of_lexical hsize (List.flatMap_eq_nil_iff.2 hlexical)]
  refine ⟨List.forall_mem_map.2 fun fault hfault => ?_, ?_⟩
  · obtain ⟨place, hat⟩ := hfaults.exists_at fault hfault
    have hoffset : (SourceError.grammar fault).offset? source.length = _ :=
      Cause.offset?_of_at hat.cause source.length
    have hdeep : ("syntax tree too deep" : Text) <:+ (SourceError.grammar fault).message ↔
        fault.cause = .tooDeep := fault.tooDeep_suffix_iff "parse: "
    rw [hdeep, SourceError.position?, hoffset]
    refine ⟨by simp, fun hcause => ?_⟩
    rw [if_neg hcause]
    exact ⟨_, rfl, offsetOfPlace_eq_or_mem _ _ place, rfl⟩
  · rw [List.filterMap_map]
    exact (hfaults.pairwise_offsets (lexed_lex source) fun t => start_le_of_mem_lex).1

/-- An enumeration with a reserved symbol and a variable in a constant, a type with an empty list of
arguments and two broken types, and an operation that is given up at a closing bracket left in
place. -/
def brokenSource : Text :=
  "enum E \x7b true @d(x: $y) \x7d type T \x7b f(): [I g: \x7d
query ($v: Int = [$w, @]) \x7b a \x7d"

theorem offsets_errors_brokenSource :
    ((parse brokenSource).errors.filterMap (·.offset? brokenSource.length)) =
        [9, 20, 37, 43, 46, 66, 70, 71, 72] ∧
      ((parse brokenSource).errors.filterMap (·.offset? brokenSource.length)).Pairwise (· ≤ ·) ∧
      ∀ e ∈ (parse brokenSource).errors, ∃ offset,
        e.offset? brokenSource.length = some offset ∧
        (offset = brokenSource.length ∨ ∃ t ∈ lex brokenSource, t.start = offset) ∧
        e.position? brokenSource = some (Position.ofOffset brokenSource offset) := by
  have hsome : ∀ e ∈ (parse brokenSource).errors, e.offset? brokenSource.length ≠ none := by
    rw [brokenSource, Text.ofString_ofList]
    decide +kernel
  have hread : brokenSource.length ≤ sizeLimit ∧ ∀ t ∈ lex brokenSource, t.errors = [] := by
    rw [brokenSource, Text.ofString_ofList]
    decide +kernel
  obtain ⟨hoffsets, hpairwise⟩ := offsets_errors_parse hread.1 hread.2
  refine ⟨?_, hpairwise, fun e he => (hoffsets e he).2 fun hdeep => ?_⟩
  · rw [brokenSource, Text.ofString_ofList]
    decide +kernel
  · exact hsome e he ((hoffsets e he).1.2 hdeep)

end SelectionCheck
