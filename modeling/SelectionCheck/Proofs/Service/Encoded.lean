import SelectionCheck.Proofs.Service.Rejection

/-!
# Requests by address and by form

The same encoded pairs may come in the address of a request or as the form in its body. Both are
decoded in the same way, and both ways find the same query and the same name of an operation. They
differ in the variables: a form gives none, whatever it says about them. The main statement is
when the two requests have one outcome (`Agree`): if there is no query, so that both are rejected,
or if the variables say nothing (`BindsNothing`), and in no other case. A request by address may
also have a body of several parts, whose pairs count behind those of the address; then these parts
must not name the operation either.
-/

namespace SelectionCheck

namespace WebRequest

structure AsksByAddress (request : WebRequest) (text : Text) : Prop where
  method : request.method = "GET" ∨ request.method = "HEAD"
  address : request.addressQuery = text

structure AsksByForm (request : WebRequest) (text : Text) : Prop where
  method : request.method = "POST"
  type : request.mediaType? = some ("application/x-www-form-urlencoded" : Text)
  address : request.addressQuery = []
  body : request.body = .whole text

end WebRequest

namespace QueryRequest

open WebRequest (Decodes)

/-- Two outcomes agree: they ask for the same, or they are rejected with one status. -/
inductive Agree : Except Rejection QueryRequest → Except Rejection QueryRequest → Prop
  | asked (asked : QueryRequest) : Agree (.ok asked) (.ok asked)
  | rejected {rejection rejection' : Rejection} (h : rejection.status = rejection'.status) :
      Agree (.error rejection) (.error rejection')

theorem eq_of_agree_ok {asked asked' : QueryRequest} (h : Agree (.ok asked) (.ok asked')) :
    asked = asked' := by
  cases h
  rfl

/-- The text of the variables is empty or the JSON value null. -/
def BindsNothing (text : Text) : Prop :=
  text = [] ∨ ∃ value, Json.onlyValue text = some value ∧ Json.isNull value = true

theorem addressVariables?_eq_some_none_iff {text : Text} :
    addressVariables? text = some none ↔ BindsNothing text := by
  rw [addressVariables?, BindsNothing]
  by_cases hempty : text = []
  · simp [hempty]
  · rw [if_neg (by simpa using hempty)]
    cases hvalue : Json.onlyValue text with
    | none => simp [hempty]
    | some value =>
        by_cases hnull : Json.isNull value = true
        · simp [hnull]
        · cases hmembers : Json.members? value <;> simp [hempty, hnull, hmembers]

def ofPairs (data : FormData) : QueryRequest :=
  ⟨data.value "query", data.value "operationName", none⟩

/-- What a request asks for counts unless it has no query. -/
theorem ofWebWith_of_decodes {parts : PartReader} {request : WebRequest} {asked : QueryRequest}
    (h : request.Decodes parts asked) :
    ofWebWith parts request = if asked.query = [] then .error .missingQuery else .ok asked := by
  rw [ofWebWith, ofWebUnchecked_of_decodes h]
  simp only [List.isEmpty_iff]

section

variable {parts : PartReader} {get post : WebRequest} {text : Text}

/-- Only a body of several parts adds pairs to those of the address. -/
theorem pairs_of_asksByAddress (h : get.AsksByAddress text)
    (htype : get.mediaType? ≠ some ("multipart/form-data" : Text)) :
    get.pairs parts = FormData.ofText text := by
  rw [WebRequest.pairs, if_neg htype, List.append_nil, WebRequest.address, h.address]

/-- The outcome of a form is told by its query alone. -/
theorem ofWebWith_of_form (h : post.AsksByForm text) (hsize : text.length ≤ formLimit) :
    ofWebWith parts post =
      if (FormData.ofText text).value "query" = [] then .error .missingQuery
      else .ok (ofPairs (FormData.ofText text)) := by
  have hdata : formOf post.body ++ post.address = FormData.ofText text := by
    rw [h.body, formOf, Body.whole, if_neg (by simpa using hsize), WebRequest.address, h.address]
    exact List.append_nil _
  have hdecodes : post.Decodes parts _ := Decodes.form h.method h.type
  rw [hdata] at hdecodes
  exact ofWebWith_of_decodes hdecodes

theorem ofWebWith_of_bindings (h : get.AsksByAddress text)
    {bindings : Option (List (Text × Text))}
    (hbindings : addressVariables? ((get.pairs parts).value "variables") = some bindings) :
    ofWebWith parts get =
      if (FormData.ofText text).value "query" = [] then .error .missingQuery
      else .ok ⟨(FormData.ofText text).value "query", (get.pairs parts).value "operationName",
        bindings⟩ := by
  obtain ⟨hmethod, rfl⟩ := h
  exact ofWebWith_of_decodes (Decodes.address hmethod hbindings)

theorem ofWebWith_of_malformed (h : get.AsksByAddress text)
    (hbindings : addressVariables? ((get.pairs parts).value "variables") = none) :
    ∃ rejection, ofWebWith parts get = .error rejection ∧ rejection.status = 400 := by
  rw [ofWebWith, ofWebUnchecked_of_address h.method, hbindings]
  exact ⟨_, rfl, rfl⟩

/-- What becomes of the pairs of one text in the address and as a form: without a query both are
rejected, malformed variables are rejected in the address only, and the variables that the address
binds are lost in a form. -/
theorem outcome_cases (hget : get.AsksByAddress text) (hpost : post.AsksByForm text)
    (hsize : text.length ≤ formLimit) :
    ((FormData.ofText text).value "query" = [] ∧
      (∃ rejection, ofWebWith parts get = .error rejection ∧ rejection.status = 400) ∧
      ofWebWith parts post = .error .missingQuery) ∨
    ((FormData.ofText text).value "query" ≠ [] ∧
      addressVariables? ((get.pairs parts).value "variables") = none ∧
      (∃ rejection, ofWebWith parts get = .error rejection ∧ rejection.status = 400) ∧
      ofWebWith parts post = .ok (ofPairs (FormData.ofText text))) ∨
    ((FormData.ofText text).value "query" ≠ [] ∧
      ∃ bindings, addressVariables? ((get.pairs parts).value "variables") = some bindings ∧
        ofWebWith parts get = .ok ⟨(FormData.ofText text).value "query",
          (get.pairs parts).value "operationName", bindings⟩ ∧
        ofWebWith parts post = .ok (ofPairs (FormData.ofText text))) := by
  rw [ofWebWith_of_form hpost hsize]
  cases hbindings : addressVariables? ((get.pairs parts).value "variables") with
  | none =>
      have hrejected := ofWebWith_of_malformed hget hbindings
      by_cases hquery : (FormData.ofText text).value "query" = []
      · exact .inl ⟨hquery, hrejected, if_pos hquery⟩
      · exact .inr (.inl ⟨hquery, rfl, hrejected, if_neg hquery⟩)
  | some bindings =>
      rw [ofWebWith_of_bindings hget hbindings]
      by_cases hquery : (FormData.ofText text).value "query" = []
      · exact .inl ⟨hquery, ⟨_, if_pos hquery, rfl⟩, if_pos hquery⟩
      · exact .inr (.inr ⟨hquery, bindings, rfl, if_neg hquery, if_neg hquery⟩)

/-- The pairs of one text, sent in the address and as a form, have one outcome exactly if they
have no query, or their variables say nothing and no part of a body names another operation. In all
cases, what is accepted in the address is accepted as a form, but without its variables, what is
rejected as a form is rejected in the address, and every rejection has the status of a bad request.
The pairs of the request by address are those of the text, unless it has a body of several parts. -/
theorem agree_ofWeb_form_iff (parts : PartReader) (hget : get.AsksByAddress text)
    (hpost : post.AsksByForm text) (hsize : text.length ≤ formLimit) :
    (Agree (ofWebWith parts get) (ofWebWith parts post) ↔
      (FormData.ofText text).value "query" = [] ∨
        BindsNothing ((get.pairs parts).value "variables") ∧
          (get.pairs parts).value "operationName" =
            (FormData.ofText text).value "operationName") ∧
    (∀ asked, ofWebWith parts get = .ok asked →
      ofWebWith parts post =
        .ok ⟨asked.query, (FormData.ofText text).value "operationName", none⟩) ∧
    (∀ rejection, ofWebWith parts post = .error rejection →
      rejection.status = 400 ∧ ∃ rejection', ofWebWith parts get = .error rejection') ∧
    (∀ rejection, ofWebWith parts get = .error rejection → rejection.status = 400) ∧
    (get.mediaType? ≠ some ("multipart/form-data" : Text) →
      get.pairs parts = FormData.ofText text) := by
  have hpairs := @pairs_of_asksByAddress parts get text hget
  rw [← addressVariables?_eq_some_none_iff]
  rcases outcome_cases hget hpost hsize with
    ⟨hquery, ⟨rejection, hrejected, hstatus⟩, hform⟩ |
      ⟨hquery, hbindings, ⟨rejection, hrejected, hstatus⟩, hform⟩ |
      ⟨hquery, bindings, hbindings, hasked, hform⟩
  · rw [hrejected, hform]
    refine ⟨iff_of_true (.rejected hstatus) (.inl hquery), ?_, ?_, ?_, hpairs⟩
    · rintro asked ⟨⟩
    · rintro _ ⟨⟩
      exact ⟨rfl, rejection, rfl⟩
    · rintro _ ⟨⟩
      exact hstatus
  · rw [hrejected, hform, hbindings]
    refine ⟨iff_of_false ?_ (by simp [hquery]), ?_, ?_, ?_, hpairs⟩
    · rintro ⟨⟩
    · rintro asked ⟨⟩
    · rintro rejection ⟨⟩
    · rintro _ ⟨⟩
      exact hstatus
  · rw [hasked, hform, hbindings]
    refine ⟨⟨?_, ?_⟩, ?_, ?_, ?_, hpairs⟩
    · intro hagree
      obtain ⟨-, hname, hnone⟩ := QueryRequest.mk.inj (eq_of_agree_ok hagree)
      exact .inr ⟨congrArg some hnone, hname⟩
    · rintro (hempty | ⟨hnone, hname⟩)
      · exact absurd hempty hquery
      · cases hnone
        rw [hname]
        exact .asked _
    · rintro _ ⟨⟩
      rfl
    · rintro rejection ⟨⟩
    · rintro rejection ⟨⟩

end

def addressed (text : Text) : WebRequest :=
  ⟨"GET", text, [], .whole []⟩

def posted (text : Text) : WebRequest :=
  ⟨"POST", [], [("Content-Type", "application/x-www-form-urlencoded")], .whole text⟩

theorem addressed_asksByAddress (text : Text) : (addressed text).AsksByAddress text :=
  ⟨.inl rfl, rfl⟩

theorem posted_asksByForm (text : Text) : (posted text).AsksByForm text := by
  have htype : MediaType.ofText? "application/x-www-form-urlencoded" =
      some ("application/x-www-form-urlencoded" : Text) := by decide +kernel
  exact ⟨rfl, htype, rfl, rfl⟩

/-- Pairs with a repeated name, pieces that are dropped, and variables that are null. -/
def nullPairs : Text :=
  "a;b&query=%7Ba%7D&query=x&&%zz=1&variables=+null%0A&operationName=%2B"

theorem agree_ofWeb_form_nullPairs :
    (addressed nullPairs).AsksByAddress nullPairs ∧ (posted nullPairs).AsksByForm nullPairs ∧
      nullPairs.length ≤ formLimit ∧
      Agree (ofWeb (addressed nullPairs)) (ofWeb (posted nullPairs)) ∧
      ofWeb (posted nullPairs) = .ok ⟨"{a}", "+", none⟩ := by
  have hsize : nullPairs.length ≤ formLimit := by decide
  have hnull : BindsNothing ((FormData.ofText nullPairs).value "variables") := by
    rw [nullPairs, Text.ofString_ofList]
    exact addressVariables?_eq_some_none_iff.1 (by decide +kernel)
  obtain ⟨hagree, -, -, -, hpairs⟩ := agree_ofWeb_form_iff Multipart.pairs
    (addressed_asksByAddress nullPairs) (posted_asksByForm nullPairs) hsize
  rw [hpairs (by decide)] at hagree
  refine ⟨addressed_asksByAddress _, posted_asksByForm _, hsize,
    hagree.2 (.inr ⟨hnull, rfl⟩), ?_⟩
  rw [nullPairs, Text.ofString_ofList]
  decide +kernel

def boundPairs : Text :=
  "query=%7Ba%7D&variables=%7B%22a%22%3A1%7D"

/-- The variable is bound in the address and lost in the form. -/
theorem not_agree_ofWeb_boundPairs :
    ofWeb (addressed boundPairs) = .ok ⟨"{a}", [], some [("a", "1")]⟩ ∧
      ofWeb (posted boundPairs) = .ok ⟨"{a}", [], none⟩ ∧
      ¬ Agree (ofWeb (addressed boundPairs)) (ofWeb (posted boundPairs)) := by
  have haddress : ofWeb (addressed boundPairs) = .ok ⟨"{a}", [], some [("a", "1")]⟩ := by
    rw [boundPairs, Text.ofString_ofList]
    decide +kernel
  have hform : ofWeb (posted boundPairs) = .ok ⟨"{a}", [], none⟩ := by
    rw [boundPairs, Text.ofString_ofList]
    decide +kernel
  refine ⟨haddress, hform, ?_⟩
  rw [haddress, hform]
  rintro ⟨⟩

end QueryRequest

end SelectionCheck
