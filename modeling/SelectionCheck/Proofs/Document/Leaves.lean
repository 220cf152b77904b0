import SelectionCheck.Proofs.Document.Faults
import SelectionCheck.Proofs.Document.Holes

/-!
# Where the leaves of a document stand

The leaves of a document are the nodes that keep the text of a token: names, scalars and
descriptions. Readers go forward, also when they recover from faults, so the leaves of what was
read between two cursors are read from different tokens between them, in their order. A closing
bracket that a node keeps is a token of the right kind.

`NodesPlaced` says this of a list of nodes in pre-order. It composes along the places between the
parts of a node, as the readers of the parts follow each other.
-/

namespace SelectionCheck

variable {α : Type} {ts : List Token}

/-! ## Leaves -/

inductive Leaf
  | name (n : Name)
  | scalar (start : Nat) (kind : ScalarKind) (raw : Text)
  | description (d : Description)

namespace Leaf

def text : Leaf → Text
  | .name n => n.value
  | .scalar _ _ raw => raw
  | .description d => d.raw

def start : Leaf → Nat
  | .name n => n.start
  | .scalar start _ _ => start
  | .description d => d.start

def ReadFrom (t : Token) : Leaf → Prop
  | .name n => t.kind = .name ∧ t.text = n.value ∧ t.start = n.start
  | .scalar start kind raw => Grammar.literal? t = some (.scalar start kind raw)
  | .description d => t.kind = .string ∧ t.text = d.raw ∧ t.start = d.start

def At (ts : List Token) (place : Nat) (leaf : Leaf) : Prop :=
  ∃ t, ts[place]? = some t ∧ leaf.ReadFrom t

theorem ReadFrom.text_start {t : Token} {leaf : Leaf} (h : leaf.ReadFrom t) :
    leaf.text = t.text ∧ leaf.start = t.start := by
  cases leaf with
  | name n => exact ⟨h.2.1.symm, h.2.2.symm⟩
  | description d => exact ⟨h.2.1.symm, h.2.2.symm⟩
  | scalar start kind raw =>
      cases Grammar.literal?_cases h with
      | scalar => exact ⟨rfl, rfl⟩

end Leaf

def RecordKind.isLeaf : RecordKind → Bool
  | .name | .scalarValue | .description => true
  | _ => false

def Record.leaf? : Record → Option Leaf
  | .node .name [.text value, .offset (some start)] => some (.name ⟨value, start⟩)
  | .node .scalarValue [.offset (some start), .scalarKind kind, .text raw] =>
    some (.scalar start kind raw)
  | .node .description [.offset (some start), .text raw] => some (.description ⟨start, raw⟩)
  | _ => none

/-- The leaves are read one after the other between two places. -/
inductive LeavesBetween (ts : List Token) : Nat → Nat → List Leaf → Prop
  | nil {first last : Nat} (h : first ≤ last) : LeavesBetween ts first last []
  | cons {first place last : Nat} {leaf : Leaf} {leaves : List Leaf} (hle : first ≤ place)
      (hat : leaf.At ts place) (h : LeavesBetween ts (place + 1) last leaves) :
      LeavesBetween ts first last (leaf :: leaves)

namespace LeavesBetween

variable {first middle last place : Nat} {leaf : Leaf} {leaves leaves' : List Leaf}

theorem append (h : LeavesBetween ts first middle leaves)
    (h' : LeavesBetween ts middle last leaves') :
    LeavesBetween ts first last (leaves ++ leaves') := by
  induction h with
  | nil hle =>
      cases h' with
      | nil hle' => exact .nil (Nat.le_trans hle hle')
      | cons hle' hat h => exact .cons (Nat.le_trans hle hle') hat h
  | cons hle hat _ ih => exact .cons hle hat (ih h')

theorem exists_readFrom (h : LeavesBetween ts first last leaves) :
    ∀ leaf ∈ leaves, ∃ place ≥ first, leaf.At ts place := by
  induction h with
  | nil _ => simp
  | @cons first place last leaf leaves hle hat _ ih =>
      refine List.forall_mem_cons.2 ⟨⟨place, hle, hat⟩, fun leaf hleaf => ?_⟩
      obtain ⟨place', hle', hat'⟩ := ih leaf hleaf
      exact ⟨place', by omega, hat'⟩

end LeavesBetween

/-! ## Closing brackets -/

/-- The kind of the closing bracket whose offset is the last part of a node. -/
def RecordKind.closer? : RecordKind → Option Token.Kind
  | .selectionSet | .objectValue | .schemaDefinition | .fieldDefinitions | .enumValueDefinitions
  | .inputFieldDefinitions => some .rbrace
  | .arguments | .variableDefinitions | .argumentDefinitions => some .rparen
  | .listValue | .listType => some .rbracket
  | _ => none

/-- The bracket was not found, or it is a token of its kind. -/
def ClosedBy (ts : List Token) (closer : Token.Kind) (closing : Option Nat) : Prop :=
  ∀ offset ∈ closing, ∃ t ∈ ts, t.kind = closer ∧ t.start = offset

theorem closedBy_none (closer : Token.Kind) : ClosedBy ts closer none := by
  simp [ClosedBy]

/-- A node of the kind of a leaf is a leaf, and a node between brackets keeps the offset of its
closing bracket. -/
def Record.Marked (ts : List Token) : Record → Prop
  | .node kind parts =>
    (kind.isLeaf = true → (Record.node kind parts).leaf?.isSome = true) ∧
      ∀ closer ∈ kind.closer?, ∃ closing, parts.getLast? = some (.offset closing) ∧
        ClosedBy ts closer closing
  | _ => True

/-! ## Nodes between two places -/

/-- The leaves among the nodes are read one after the other between two places, and what nodes
must keep they keep. -/
structure NodesPlaced (ts : List Token) (first last : Nat) (nodes : List Record) : Prop where
  leaves : LeavesBetween ts first last (nodes.filterMap Record.leaf?)
  marked : ∀ r ∈ nodes, r.Marked ts

namespace Record

/-- The nodes in a record stand between two places. -/
def Placed (ts : List Token) (first last : Nat) (r : Record) : Prop :=
  NodesPlaced ts first last r.nodes

def AllPlaced (ts : List Token) (first last : Nat) (rs : List Record) : Prop :=
  NodesPlaced ts first last (listNodes rs)

variable {first middle last : Nat} {r : Record} {rs rs' : List Record} {kind : RecordKind}
  {parts : List Record}

theorem nodesPlaced_nil (h : first ≤ last) : NodesPlaced ts first last [] :=
  ⟨.nil h, by simp⟩

theorem nodesPlaced_append {nodes nodes' : List Record} (h : NodesPlaced ts first middle nodes)
    (h' : NodesPlaced ts middle last nodes') : NodesPlaced ts first last (nodes ++ nodes') := by
  refine ⟨?_, List.forall_mem_append.2 ⟨h.marked, h'.marked⟩⟩
  rw [List.filterMap_append]
  exact h.leaves.append h'.leaves

theorem placed_of_nodes_eq_nil (hr : r.nodes = []) (h : first ≤ last) : r.Placed ts first last := by
  rw [Placed, hr]
  exact nodesPlaced_nil h

theorem placed_nothing (h : first ≤ last) : nothing.Placed ts first last :=
  placed_of_nodes_eq_nil rfl h

namespace AllPlaced

theorem nil (h : first ≤ last) : AllPlaced ts first last [] :=
  nodesPlaced_nil h

theorem cons (h : r.Placed ts first middle) (h' : AllPlaced ts middle last rs) :
    AllPlaced ts first last (r :: rs) :=
  nodesPlaced_append h h'

theorem skip (hr : r.nodes = []) (h : AllPlaced ts first last rs) :
    AllPlaced ts first last (r :: rs) := by
  rwa [AllPlaced, listNodes, hr, List.nil_append]

theorem append (h : AllPlaced ts first middle rs) (h' : AllPlaced ts middle last rs') :
    AllPlaced ts first last (rs ++ rs') := by
  rw [AllPlaced, listNodes_eq_flatMap, List.flatMap_append, ← listNodes_eq_flatMap,
    ← listNodes_eq_flatMap]
  exact nodesPlaced_append h h'

theorem mono_last (h : AllPlaced ts first middle rs) (hlast : middle ≤ last) :
    AllPlaced ts first last rs := by
  simpa using h.append (.nil hlast)

end AllPlaced

theorem Placed.mono {first' last' : Nat} (h : r.Placed ts first last) (hfirst : first' ≤ first)
    (hlast : last ≤ last') : r.Placed ts first' last' := by
  have hleft := nodesPlaced_append (nodesPlaced_nil hfirst) h
  simpa [Placed] using nodesPlaced_append hleft (nodesPlaced_nil hlast)

theorem placed_list (h : AllPlaced ts first last rs) : (list rs).Placed ts first last := h

theorem leaf?_eq_none (hkind : kind.isLeaf = false) : (node kind parts).leaf? = none := by
  unfold leaf?
  split <;> simp_all [RecordKind.isLeaf]

theorem placed_node (hleaf : kind.isLeaf = false) (hcloser : kind.closer? = none)
    (h : AllPlaced ts first last parts) : (node kind parts).Placed ts first last := by
  refine ⟨?_, List.forall_mem_cons.2 ⟨⟨by simp [hleaf], by simp [hcloser]⟩, h.marked⟩⟩
  rw [nodes, List.filterMap_cons, leaf?_eq_none hleaf]
  exact h.leaves

theorem placed_closed {closer : Token.Kind} {closing : Option Nat}
    (hcloser : kind.closer? = some closer) (hclosed : ClosedBy ts closer closing)
    (hlast : parts.getLast? = some (.offset closing)) (h : AllPlaced ts first last parts) :
    (node kind parts).Placed ts first last := by
  have hleaf : kind.isLeaf = false := by
    cases kind <;> simp_all [RecordKind.closer?, RecordKind.isLeaf]
  refine ⟨?_, List.forall_mem_cons.2 ⟨⟨by simp [hleaf], ?_⟩, h.marked⟩⟩
  · rw [nodes, List.filterMap_cons, leaf?_eq_none hleaf]
    exact h.leaves
  · intro closer' hcloser'
    obtain rfl : closer = closer' := Option.some.inj (hcloser.symm.trans hcloser')
    exact ⟨closing, hlast, hclosed⟩

theorem placed_leaf {leaf : Leaf} {place : Nat} (hleaf : (node kind parts).leaf? = some leaf)
    (hcloser : kind.closer? = none) (hparts : listNodes parts = []) (hat : leaf.At ts place)
    (hfirst : first ≤ place) (hlast : place < last) : (node kind parts).Placed ts first last := by
  refine ⟨?_, ?_⟩
  · rw [nodes, List.filterMap_cons, hleaf, hparts]
    exact .cons hfirst hat (.nil hlast)
  · rw [nodes, hparts]
    simp [Marked, hleaf, hcloser]

theorem allPlaced_nothing (count place : Nat) :
    AllPlaced ts place place (List.replicate count nothing) := by
  induction count with
  | zero => exact .nil (Nat.le_refl _)
  | succ count ih => exact .skip rfl ih

theorem placed_oneOf {before after : Nat} (hleaf : kind.isLeaf = false)
    (hcloser : kind.closer? = none) (h : r.Placed ts first last) :
    (oneOf kind before r after).Placed ts first last :=
  placed_node hleaf hcloser
    ((allPlaced_nothing before first).append (.cons h (allPlaced_nothing after last)))

/-- The items between brackets stand between two places, and the closing bracket is a token. -/
structure BracketsPlaced (ts : List Token) (first last : Nat) (closer : Token.Kind)
    (record : α → Record) (b : Bracketed α) : Prop where
  items : AllPlaced ts first last (b.items.map record)
  closed : ClosedBy ts closer b.closing

theorem placed_ofBracketed {closer : Token.Kind} {record : α → Record} {b : Bracketed α}
    (hcloser : kind.closer? = some closer) (h : BracketsPlaced ts first last closer record b) :
    (ofBracketed kind record b).Placed ts first last :=
  placed_closed hcloser h.closed rfl
    (.skip rfl (.cons (placed_list h.items) (.skip rfl (.nil (Nat.le_refl _)))))

end Record

/-! ## Names and variables -/

open Record

variable {first place last : Nat}

theorem Name.placed {n : Name} (h : n.At ts place) (hfirst : first ≤ place) (hlast : place < last) :
    n.record.Placed ts first last := by
  have hat : (Leaf.name n).At ts place := h
  exact placed_leaf rfl rfl rfl hat hfirst hlast

theorem Description.placed {d : Description} {t : Token} (hget : ts[place]? = some t)
    (hkind : t.kind = .string) (hd : d = ⟨t.start, t.text⟩) (hfirst : first ≤ place)
    (hlast : place < last) : d.record.Placed ts first last := by
  have hat : (Leaf.description d).At ts place := ⟨t, hget, hkind, by rw [hd], by rw [hd]⟩
  exact placed_leaf rfl rfl rfl hat hfirst hlast

theorem Variable.placed {v : Variable} (h : v.name.record.Placed ts first last) :
    v.record.Placed ts first last :=
  placed_node rfl rfl (.skip rfl (.cons h (.nil (Nat.le_refl _))))

/-! ## Readers -/

namespace Grammar

variable {record : α → Record} {c c' : Cursor}

/-- What a reader gives stands between the cursor before it and the cursor behind it. -/
def Places (record : α → Record) (reader : Cursor → Reading α) : Prop :=
  ∀ ⦃ts : List Token⦄ ⦃c : Cursor⦄, c.On ts →
    (record (reader c).value).Placed ts c.behind (reader c).next.behind

/-- A name is the token at the cursor, which is taken. -/
theorem name_placed {n : Name} (hc : c.On ts) (h : name c = .ok (n, c')) :
    c.Reaches ts c' ∧ n.record.Placed ts c.behind c'.behind := by
  obtain ⟨hreaches, hat⟩ := reaches_of_name hc h
  cases name_iff.1 h with
  | found => exact ⟨hreaches, Name.placed hat (Nat.le_refl _) (Nat.lt_succ_self _)⟩

theorem placed_of_isName {t : Token} {rest : List Token} (hc : c.On ts)
    (hahead : c.ahead = t :: rest) (hkind : t.kind = .name) :
    (⟨t.text, t.start⟩ : Name).record.Placed ts c.behind (c.past rest).behind := by
  refine Name.placed ⟨t, ?_, hkind, rfl, rfl⟩ (Nat.le_refl _) (Nat.lt_succ_self _)
  rw [hc.getElem?, hahead, List.head?_cons]

theorem closedBy_of_punctuator {kind : Token.Kind} {offset : Nat} (hc : c.On ts)
    (h : punctuator kind c = .ok (offset, c')) : ClosedBy ts kind (some offset) := by
  rintro _ ⟨⟩
  have hget := hc.getElem?
  cases punctuator_iff.1 h with
  | @found t rest hahead hkind =>
      rw [hahead, List.head?_cons] at hget
      exact ⟨t, List.mem_of_getElem? hget, hkind, rfl⟩

/-- A closing bracket that the search finds is of the kind that it searches for. -/
theorem skipTo_closedBy {closer : Token.Kind} (pending : List Token.Kind) {behind : Nat}
    {ahead : List Token} (hpending : ∀ k ∈ pending.getLast?, k = closer)
    (hmem : ∀ t ∈ ahead, t ∈ ts) : ClosedBy ts closer (skipTo pending behind ahead).1 := by
  intro closing hclosing
  obtain ⟨before, t, after, hahead, hkind, hstart, -⟩ := skipTo_found hpending hclosing
  exact ⟨t, hmem t (by simp [hahead]), hkind, hstart⟩

theorem itemsFrom_placed {item : Cursor → Reading (Option α)} (horderly : Orderly item)
    (hitem : Places (ofOption record) item) (closer : Token.Kind) (rule : Rule)
    (steps : List Token) (number : Nat) (items : List α) (faults : List Fault) {first : Nat}
    (hc : c.On ts) (hitems : AllPlaced ts first c.behind (items.reverse.map record)) :
    AllPlaced ts first (itemsFrom closer rule item steps number c items faults).next.behind
        ((itemsFrom closer rule item steps number c items faults).value.1.map record) ∧
      ClosedBy ts closer (itemsFrom closer rule item steps number c items faults).value.2 := by
  -- An item stands behind those that were read before it.
  have hmore : ∀ {c : Cursor} {items : List α}, c.On ts →
      AllPlaced ts first c.behind (items.reverse.map record) →
      AllPlaced ts first (item c).next.behind
        (((item c).value.toList ++ items).reverse.map record) := by
    intro c items hc hitems
    have hread := hitem hc
    rw [List.reverse_append, List.map_append]
    refine hitems.append ?_
    cases hvalue : (item c).value with
    | none => exact .nil (horderly hc).reaches.le
    | some a =>
        rw [hvalue] at hread
        exact .cons hread (.nil (Nat.le_refl _))
  fun_induction itemsFrom closer rule item steps number c items faults with
  | case1 steps number c items faults hahead => exact ⟨hitems, closedBy_none closer⟩
  | case2 steps number c items faults t rest hahead hkind =>
      refine ⟨hitems.mono_last (Nat.le_succ _), ?_⟩
      rintro _ ⟨⟩
      have hget := hc.getElem?
      rw [hahead, List.head?_cons] at hget
      exact ⟨t, List.mem_of_getElem? hget, hkind, rfl⟩
  | case3 steps number c items faults t rest hahead hkind r items' faults' hstill skipped =>
      have hnext := (horderly hc).on
      refine ⟨(hmore hc hitems).mono_last (skipTo_reaches [closer] hnext).1.le, ?_⟩
      refine skipTo_closedBy [closer] (by simp) fun t ht => ?_
      rw [hnext.ahead] at ht
      exact List.mem_of_mem_drop ht
  | case4 number c items faults t rest hahead hkind r items' faults' hmoved =>
      exact ⟨hmore hc hitems, closedBy_none closer⟩
  | case5 number c items faults t rest hahead hkind r items' faults' hmoved step steps ih =>
      exact ih (horderly hc).on (hmore hc hitems)

theorem bracketed_placed {item : Cursor → Reading (Option α)} (horderly : Orderly item)
    (hitem : Places (ofOption record) item) (opener closer : Token.Kind) (rule : Rule)
    (hc : c.On ts) : ∀ b ∈ (bracketed opener closer rule item c).value,
      BracketsPlaced ts c.behind (bracketed opener closer rule item c).next.behind closer
        record b := by
  generalize hr : bracketed opener closer rule item c = r
  cases bracketed_iff.1 hr with
  | unopened => exact nofun
  | @opened opening c₁ hopening =>
      obtain ⟨hreaches, -⟩ := reaches_of_punctuator hc hopening
      obtain ⟨hitems, hclosed⟩ := itemsFrom_placed horderly hitem closer rule c₁.ahead 1 [] []
        hreaches.on (AllPlaced.nil hreaches.le)
      rintro _ ⟨⟩
      exact ⟨hitems, hclosed⟩

theorem placed_ofOption {r : Reading (Option α)} (h : r.Orderly ts c)
    (hsome : ∀ a ∈ r.value, (record a).Placed ts c.behind r.next.behind) :
    (ofOption record r.value).Placed ts c.behind r.next.behind := by
  cases hvalue : r.value with
  | none => exact placed_nothing h.reaches.le
  | some a => exact hsome a hvalue

theorem bracketed_places {item : Cursor → Reading (Option α)} (horderly : Orderly item)
    (hitem : Places (ofOption record) item) (opener : Token.Kind) {closer : Token.Kind}
    (rule : Rule) {kind : RecordKind} (hkind : kind.closer? = some closer) :
    Places (ofOption (ofBracketed kind record)) (bracketed opener closer rule item) :=
  fun _ _ hc => placed_ofOption (bracketed_orderly horderly opener closer rule hc) fun b hb =>
    placed_ofBracketed hkind (bracketed_placed horderly hitem opener closer rule hc b hb)

theorem nonEmpty_places {item : Nat → Cursor → Reading (Option α)}
    (horderly : ∀ level, Orderly (item level))
    (hitem : ∀ level, Places (ofOption record) (item level)) (opener : Token.Kind)
    {closer : Token.Kind} (list rule : Rule) {kind : RecordKind}
    (hkind : kind.closer? = some closer) (level : Nat) :
    Places (ofOption (ofBracketed kind record)) (nonEmpty opener closer list rule item level) := by
  cases level with
  | zero => exact fun _ _ _ => placed_nothing (Nat.le_refl _)
  | succ level => exact bracketed_places (horderly level) (hitem level) opener rule hkind

theorem whenNext_places {reader : Cursor → Reading (Option α)}
    (h : Places (ofOption record) reader) (kind : Token.Kind) :
    Places (ofOption record) (whenNext kind reader) := by
  intro ts c hc
  rw [whenNext]
  split
  · exact h hc
  · exact placed_nothing (Nat.le_refl _)

end Grammar

end SelectionCheck
