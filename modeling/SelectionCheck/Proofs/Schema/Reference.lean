import SelectionCheck.Proofs.Document.Reference
import SelectionCheck.Proofs.Schema.Resolution

/-!
# What type references mean

A type reference is resolved through the table of types by the name inside it. The wrappers around
the name stay as they are written, and they have no say in what the type is: its kind, its class and
its use as an input or an output are those of the entry for the name. A name without an entry makes
the whole reference unresolved.
-/

namespace SelectionCheck

variable {name : Text} {info : TypeInfo} {t : TypeExpr}

/-! ## The two tables -/

/-- The table of kinds is the table of types with the descriptions cut down to kinds. -/
theorem kindTable_eq_map (declarations : List Declaration) :
    kindTable declarations =
      (typeTable declarations).map fun entry => (entry.1, entry.2.kind) := by
  rw [typeTable, List.map_append, List.map_map, List.map_map]
  refine congrArg (builtinScalars.map _ ++ ·) (List.map_congr_left fun d _ => ?_)
  exact congrArg _ (Document.kind_info _ d.body).symm

theorem lookup_kindTable_eq (declarations : List Declaration) (name : Text) :
    (kindTable declarations).lookup name =
      ((typeTable declarations).info? name).map TypeInfo.kind := by
  rw [kindTable_eq_map, TypeTable.info?]
  induction typeTable declarations with
  | nil => rfl
  | cons entry entries ih =>
      rw [List.map_cons, List.lookup_cons, List.lookup_cons, ih]
      cases name == entry.1 <;> rfl

/-! ## Wrappers -/

/-- A type is written as the reference that it resolves. -/
theorem KindTable.render_of_resolve? {kinds : KindTable} {r : TypeRef}
    (h : kinds.resolve? r = some t) : t.render = r.render := by
  have hbang (bang : Option Nat) :
      ((if bang.isSome then "!" else "" : String) : Text) = TypeRef.bangMark bang := by
    cases bang <;> rfl
  induction r generalizing t with
  | named name bang =>
      obtain ⟨_, -, rfl⟩ := Option.map_eq_some_iff.1 h
      rw [TypeExpr.render, TypeRef.render, ← hbang]
  | list opening element closing bang ih =>
      obtain ⟨e, he, rfl⟩ := Option.map_eq_some_iff.1 h
      rw [TypeExpr.render, TypeRef.render, ih he, ← hbang]
  | missing => cases h

/-- Below all wrappers a type is the named type `name`, and what the table says about it is what
the entry of `name` says. -/
structure TypeTable.Means (table : TypeTable) (t : TypeExpr) (name : Text) (info : TypeInfo) :
    Prop where
  unwrapped : t.unwrapped = .named name false
  kind : table.kind? t = some info.kind
  classOf : table.classOf t = SelectionClass.ofKind info.kind
  input : (table.kind? t).any TypeKind.isInput = info.kind.isInput
  output : (table.kind? t).any TypeKind.isOutput = info.kind.isOutput

theorem TypeTable.means_of_info? {table : TypeTable} (hbase : t.base = name)
    (hinfo : table.info? name = some info) : table.Means t name info := by
  have hkind : table.kind? t = some info.kind := by rw [kind?, hbase, hinfo]; rfl
  refine ⟨by rw [TypeExpr.unwrapped, hbase], hkind, ?_, ?_, ?_⟩
  · rw [classOf, hkind]
    rfl
  · rw [hkind]
    rfl
  · rw [hkind]
    rfl

/-! ## References in a document -/

/-- A type reference of a document without errors is written as its tokens are, and read as it was
from what is written. If the name in it has an entry in a table of types, it resolves to a type that
is written as the reference and means what the entry says; if not, it does not resolve. -/
theorem resolve?_typeRef {source : Text} {d : Document} {r : TypeRef}
    (h : parse source = ⟨some d, []⟩) (hr : r ∈ d.typeRefs) (declarations : List Declaration) :
    ∃ name before taken after, r.base? = some name ∧ r.StandsIn source before taken after ∧
      (∀ info, (typeTable declarations).info? name = some info →
        ∃ t, (kindTable declarations).resolve? r = some t ∧ t.render = r.render ∧
          (typeTable declarations).Means t name info) ∧
      ((typeTable declarations).info? name = none →
        (kindTable declarations).resolve? r = none) := by
  obtain ⟨name, before, taken, after, hbase, hstands⟩ :=
    standsIn_of_typeGiven (typeGiven_of_parse h hr)
  have hresolve := KindTable.map_base_resolve? (kindTable declarations) r
  rw [hbase, Option.filter_some, lookup_kindTable_eq, Option.isSome_map] at hresolve
  refine ⟨name, before, taken, after, hbase, hstands, fun info hinfo => ?_, fun hinfo => ?_⟩
  · rw [hinfo] at hresolve
    obtain ⟨t, ht, hname⟩ := Option.map_eq_some_iff.1 hresolve
    exact ⟨t, ht, KindTable.render_of_resolve? ht, TypeTable.means_of_info? hname hinfo⟩
  · rw [hinfo] at hresolve
    exact Option.map_eq_none_iff.1 hresolve

/-- References with list and non-null wrappers in several orders, one of them with layout inside. -/
def wrappedTypes : Text :=
  "type Q \x7b f(a: [ID]): [ [Q !,] ] ! g: Other! \x7d"

def wrappedRef : TypeRef :=
  .list 21 (.list 23 (.named ⟨"Q", 24⟩ (some 26)) (some 28) none) (some 30) (some 32)

theorem resolve?_typeRef_wrappedTypes :
    ∃ d, parse wrappedTypes = ⟨some d, []⟩ ∧ wrappedRef ∈ d.typeRefs ∧
      (∃ before taken after, wrappedRef.StandsIn wrappedTypes before taken after) ∧
      (∃ t, (kindTable d.declarations).resolve? wrappedRef = some t ∧ t.render = "[[Q!]]!" ∧
        t.unwrapped = .named "Q" false ∧ (typeTable d.declarations).kind? t = some .object) ∧
      (kindTable []).resolve? wrappedRef = none := by
  have hview : (parse wrappedTypes).document.map (fun d =>
      (decide (wrappedRef ∈ d.typeRefs), (typeTable d.declarations).kind? (.named "Q" false))) =
      some (true, some .object) := by
    rw [wrappedTypes, Text.ofString_ofList]
    decide +kernel
  obtain ⟨d, hparse, hd⟩ := exists_of_map_document (by decide +kernel) hview
  obtain ⟨hmem, hkind⟩ := Prod.mk.inj hd
  have hr := of_decide_eq_true hmem
  obtain ⟨info, hinfo, hobject⟩ := Option.map_eq_some_iff.1 hkind
  obtain ⟨name, before, taken, after, hbase, hstands, hsome, -⟩ :=
    resolve?_typeRef hparse hr d.declarations
  obtain ⟨_, -, -, -, hempty, -, -, hnone⟩ := resolve?_typeRef hparse hr []
  cases hbase
  cases hempty
  obtain ⟨t, ht, hrender, hmeans⟩ := hsome info hinfo
  exact ⟨d, hparse, hr, ⟨before, taken, after, hstands⟩,
    ⟨t, ht, hrender, hmeans.unwrapped, hobject ▸ hmeans.kind⟩, hnone (by decide)⟩

end SelectionCheck
