import SelectionCheck.Check.Query
import SelectionCheck.Proofs.Schema.Resolution

/-!
# Which selections are visited, and what is wrong with them

The rules of the check, said of a document against the document of a type system and not as a walk.
A selection set stands in a scope: the type it is made on, and the keys that lead to it. Operations
and fragment definitions open a scope; fields and fragments written in place lead from one scope to
the next. A selection is misused by its own type and its own set alone.

A selection has an address: the index of its definition, and then its index in each set on the way.
`Visits` builds addresses from the root down, the way the rules are read. `Below` takes them apart
from the other end, the way a walk meets them; `violates_iff` is the passage between the two.
-/

namespace SelectionCheck

/-- Induction on selections, with the hypothesis for each selection of the set below. -/
theorem Selection.induction {motive : Selection → Prop}
    (field : ∀ aliasName name arguments directives (set : Option SelectionSet),
      (∀ s ∈ itemsOf set, motive s) → motive (.field aliasName name arguments directives set))
    (spread : ∀ ellipsis name directives, motive (.spread ellipsis name directives))
    (inline : ∀ ellipsis condition directives (set : SelectionSet),
      (∀ s ∈ set.items, motive s) → motive (.inline ellipsis condition directives set))
    (s : Selection) : motive s := by
  induction hsize : sizeOf s using Nat.strongRecOn generalizing s with
  | ind size ih =>
      subst hsize
      cases s with
      | field aliasName name arguments directives set =>
          refine field aliasName name arguments directives set fun x hx => ih (sizeOf x) ?_ x rfl
          cases set with
          | none => cases hx
          | some set =>
              obtain ⟨opening, items, closing⟩ := set
              have hitem : sizeOf x < sizeOf items := List.sizeOf_lt_of_mem hx
              simp
              omega
      | spread ellipsis name directives => exact spread ellipsis name directives
      | inline ellipsis condition directives set =>
          refine inline ellipsis condition directives set fun x hx => ih (sizeOf x) ?_ x rfl
          obtain ⟨opening, items, closing⟩ := set
          have hitem : sizeOf x < sizeOf items := List.sizeOf_lt_of_mem hx
          simp
          omega

/-- Where a selection stands: the type it is made on, and the keys that lead to it. -/
structure SelectionScope where
  parent : Text
  path : List Text

def Selection.isInline : Selection → Bool
  | .inline _ _ _ _ => true
  | .field _ _ _ _ _ | .spread _ _ _ => false

namespace Document

variable (ts : Document)

/-- The scope and the selections of a definition that is visited: of an operation if its root
exists, of a fragment if its type condition names a composite type. -/
inductive Opens : Definition → SelectionScope → List Selection → Prop
  | operation {o : Operation} {root : Text} (hroot : ts.HasRoot o.type root) :
      Opens (.operation o) ⟨root, [o.segment]⟩ o.selections.items
  | fragment {f : Fragment} (hcondition : ts.IsComposite f.condition.name.value) :
      Opens (.fragment f) ⟨f.condition.name.value, ["fragment " ++ f.name.value]⟩
        f.selections.items

/-- The scope and the selections to which a selection in the scope `p` leads. Nothing leads on from
a fragment that is referred to by name, a field that is not resolved, or a field of a leaf type. -/
inductive Enters (p : SelectionScope) : Selection → SelectionScope → List Selection → Prop
  | inline {ellipsis : Nat} {directives : List Directive} {set : SelectionSet} :
      Enters p (.inline ellipsis none directives set) p set.items
  | conditional {ellipsis : Nat} {condition : TypeCondition} {directives : List Directive}
      {set : SelectionSet} (hcondition : ts.IsComposite condition.name.value) :
      Enters p (.inline ellipsis (some condition) directives set) ⟨condition.name.value, p.path⟩
        set.items
  | field {aliasName : Option Name} {name : Name} {arguments : Option (Bracketed Argument)}
      {directives : List Directive} {set : SelectionSet} {returns : Text}
      (hreturns : ts.Returns p.parent name.value returns) (hcomposite : ts.IsComposite returns)
      (hset : set.items ≠ []) :
      Enters p (.field aliasName name arguments directives (some set))
        ⟨returns, p.path ++ [(Selection.fieldKey aliasName name).value]⟩ set.items

inductive Misuses (p : SelectionScope) : Selection → Violated → Prop
  | noSelections {aliasName : Option Name} {name : Name}
      {arguments : Option (Bracketed Argument)} {directives : List Directive}
      {set : Option SelectionSet} {returns : Text}
      (hreturns : ts.Returns p.parent name.value returns) (hcomposite : ts.IsComposite returns)
      (hset : itemsOf set = []) :
      Misuses p (.field aliasName name arguments directives set)
        ⟨.noSelections name.value returns, (Selection.fieldKey aliasName name).start,
          p.path ++ [(Selection.fieldKey aliasName name).value]⟩
  | selections {aliasName : Option Name} {name : Name}
      {arguments : Option (Bracketed Argument)} {directives : List Directive}
      {set : Option SelectionSet} {returns : Text}
      (hreturns : ts.Returns p.parent name.value returns) (hleaf : ts.IsLeaf returns)
      (hset : ∃ s ∈ itemsOf set, s.isInline = false) :
      Misuses p (.field aliasName name arguments directives set)
        ⟨.selections name.value returns ((itemsOf set).filterMap Selection.selectedName?),
          (Selection.fieldKey aliasName name).start,
          p.path ++ [(Selection.fieldKey aliasName name).value]⟩
  | inlineFragments {aliasName : Option Name} {name : Name}
      {arguments : Option (Bracketed Argument)} {directives : List Directive}
      {set : Option SelectionSet} {returns : Text}
      (hreturns : ts.Returns p.parent name.value returns) (hleaf : ts.IsLeaf returns)
      (hset : ∃ s ∈ itemsOf set, s.isInline = true) :
      Misuses p (.field aliasName name arguments directives set)
        ⟨.inlineFragments name.value returns
            ((itemsOf set).filterMap (Selection.conditionName? returns)),
          (Selection.fieldKey aliasName name).start,
          p.path ++ [(Selection.fieldKey aliasName name).value]⟩

/-- `ts.Visits d a p set`: the selections of the definition or selection at the address `a` of `d`
are visited, in the scope `p`. -/
inductive Visits (d : Document) : List Nat → SelectionScope → List Selection → Prop
  | definition {i : Nat} {x : Definition} {p : SelectionScope} {set : List Selection}
      (hi : d.definitions[i]? = some x) (hopens : ts.Opens x p set) : Visits d [i] p set
  | selection {a : List Nat} {p p' : SelectionScope} {set set' : List Selection} {j : Nat}
      {s : Selection} (hvisits : Visits d a p set) (hj : set[j]? = some s)
      (henters : ts.Enters p s p' set') : Visits d (a ++ [j]) p' set'

/-- `ts.Violates d a v`: the definition or selection at the address `a` of `d` breaks a rule, as `v`
says. -/
inductive Violates (d : Document) : List Nat → Violated → Prop
  | emptyOperation {i : Nat} {o : Operation} {root : Text}
      (hi : d.definitions[i]? = some (.operation o)) (hroot : ts.HasRoot o.type root)
      (hset : o.selections.items = []) :
      Violates d [i] ⟨.emptyOperation o.type o.name root, o.start, [o.segment]⟩
  | selection {a : List Nat} {p : SelectionScope} {set : List Selection} {j : Nat} {s : Selection}
      {v : Violated} (hvisits : ts.Visits d a p set) (hj : set[j]? = some s)
      (hmisuses : ts.Misuses p s v) : Violates d (a ++ [j]) v

end Document

/-! ## Addresses below a selection -/

namespace Document

variable (ts : Document)

/-- `ts.Below p s a v`: the rule is broken at the address `a` below the selection `s`, which stands
in the scope `p`. -/
inductive Below : SelectionScope → Selection → List Nat → Violated → Prop
  | here {p : SelectionScope} {s : Selection} {v : Violated} (h : ts.Misuses p s v) : Below p s [] v
  | enter {p p' : SelectionScope} {s x : Selection} {set : List Selection} {j : Nat} {a : List Nat}
      {v : Violated} (henters : ts.Enters p s p' set) (hj : set[j]? = some x)
      (h : Below p' x a v) : Below p s (j :: a) v

inductive Within : Definition → List Nat → Violated → Prop
  | emptyOperation {o : Operation} {root : Text} (hroot : ts.HasRoot o.type root)
      (hset : o.selections.items = []) :
      Within (.operation o) [] ⟨.emptyOperation o.type o.name root, o.start, [o.segment]⟩
  | selection {x : Definition} {p : SelectionScope} {s : Selection} {set : List Selection} {j : Nat}
      {a : List Nat} {v : Violated} (hopens : ts.Opens x p set) (hj : set[j]? = some s)
      (h : ts.Below p s a v) : Within x (j :: a) v

variable {ts} {d : Document}

theorem Below.violates {p : SelectionScope} {s : Selection} {b : List Nat} {v : Violated}
    (h : ts.Below p s b v) {a : List Nat} {set : List Selection} {j : Nat}
    (hvisits : ts.Visits d a p set) (hj : set[j]? = some s) : ts.Violates d (a ++ j :: b) v := by
  induction h generalizing a set j with
  | here h => exact .selection hvisits hj h
  | @enter p p' s x set' k b v henters hk _ ih =>
      have hviolates := ih (.selection hvisits hj henters) hk
      rw [List.append_assoc] at hviolates
      exact hviolates

theorem Visits.within {a : List Nat} {p : SelectionScope} {set : List Selection}
    (h : ts.Visits d a p set) {j : Nat} {s : Selection} (hj : set[j]? = some s) {b : List Nat}
    {v : Violated} (hbelow : ts.Below p s b v) :
    ∃ i x c, a ++ j :: b = i :: c ∧ d.definitions[i]? = some x ∧ ts.Within x c v := by
  induction h generalizing j s b with
  | @definition i x p set hi hopens => exact ⟨i, x, j :: b, rfl, hi, .selection hopens hj hbelow⟩
  | @selection a p p' set set' k s' _ hk henters ih =>
      have hwithin := ih hk (.enter henters hj hbelow)
      rw [List.append_assoc]
      exact hwithin

theorem violates_iff {a : List Nat} {v : Violated} :
    ts.Violates d a v ↔
      ∃ i b x, a = i :: b ∧ d.definitions[i]? = some x ∧ ts.Within x b v := by
  constructor
  · rintro (⟨hi, hroot, hset⟩ | ⟨hvisits, hj, hmisuses⟩)
    · exact ⟨_, [], _, rfl, hi, .emptyOperation hroot hset⟩
    · obtain ⟨i, x, c, heq, hi, hwithin⟩ := hvisits.within hj (.here hmisuses)
      exact ⟨i, c, x, heq, hi, hwithin⟩
  · rintro ⟨i, b, x, rfl, hi, hwithin⟩
    cases hwithin with
    | emptyOperation hroot hset => exact .emptyOperation hi hroot hset
    | selection hopens hj hbelow => exact hbelow.violates (.definition hi hopens) hj

end Document

end SelectionCheck
