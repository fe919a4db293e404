import ProgramGraph.Proofs.Syntax.Names
import ProgramGraph.Proofs.Syntax.Tree

set_option autoImplicit false

/-!
# Well-formed graphs

A graph is well formed if it is a forest and every link leads to a node of the right kind:
declarations, statements and expressions stand where they may stand, a record has the field that
stands for itself, a reference means a value declaration of its name, and the member of an access
is a reference of the same name or a declaration that a member can mean.

## Main definitions

* `ProgramGraph.Tag.mayHave` — what a node of a kind may have as its parts.
* `ProgramGraph.Graph.All` — every node in a list is of a certain kind.
* `ProgramGraph.Graph.Fits` — the links of a node lead to nodes of the right kind.
* `ProgramGraph.Graph.WellFormed` — a well-formed graph.
* `ProgramGraph.Graph.declaredIn` — the value declarations made directly in a scope, in order.
* `ProgramGraph.Graph.Keeps` — kinds, names and constants stay.

## Main results

* `ProgramGraph.Graph.WellTyped.children_eq` — the parts of a node can be read.
* `ProgramGraph.Graph.WellTyped.all_parts` — they are of the kinds that it may have.
* `ProgramGraph.Graph.Fits.keep` — links stay right when kinds, names and constants stay.
* `ProgramGraph.Graph.WellFormed.mem_declaredIn` — the value declarations of a scope are those
  that have it as the innermost scope around them.
-/

namespace ProgramGraph

/-! ## Kinds of parts -/

namespace Tag

/-- What may stand in a unit. -/
def isTopLevel : Tag → Bool
  | .record | .enum | .field | .var | .function => true
  | _ => false

/-- Declarations of types. -/
def isNominal : Tag → Bool
  | .record | .enum => true
  | _ => false

/-- What may stand in a block. -/
def isStatement : Tag → Bool
  | .block | .declarationStatement | .returnStatement => true
  | other => other.isExpression

/-- What a node of a kind may have as its parts. -/
def mayHave : Tag → Tag → Bool
  | .unit, part => part.isTopLevel
  | .record, part => part == .field || part == .function || part.isNominal
  | .enum, part => part == .enumConstant
  | .function, part => part == .parameter || part == .block
  | .block, part => part.isStatement
  | .declarationStatement, part => part == .var
  | .field, part | .var, part | .returnStatement, part | .memberAccess, part | .call, part =>
    part.isExpression
  | .enumConstant, _ | .parameter, _ | .reference, _ | .literal, _ => false

/-- Units are parts of nothing. -/
theorem mayHave_unit (whole : Tag) : whole.mayHave .unit = false := by
  cases whole <;> rfl

/-- Statements that declare variables are parts of blocks only. -/
theorem eq_block_of_mayHave {whole : Tag} (h : whole.mayHave .declarationStatement = true) :
    whole = .block := by
  cases whole with
  | block => rfl
  | _ => cases h

/-- What has a part that is no expression is no expression itself. -/
theorem isExpression_eq_false_of_mayHave {whole part : Tag} (h : whole.mayHave part = true)
    (hpart : part.isExpression = false) : whole.isExpression = false := by
  cases whole with
  | memberAccess | call => exact absurd (h.symm.trans hpart) (by decide)
  | reference | literal => cases h
  | _ => rfl

/-- What opens no scope and declares no variables has only expressions as its parts. -/
theorem isExpression_of_mayHave {whole part : Tag} (hopens : whole.opens? = none)
    (hvars : whole ≠ .declarationStatement) (h : whole.mayHave part = true) : part.isExpression = true := by
  cases whole with
  | unit | record | enum | function | block => cases hopens
  | declarationStatement => exact absurd rfl hvars
  | enumConstant | parameter | reference | literal => cases h
  | field | var | returnStatement | memberAccess | call => exact h

end Tag

namespace Graph

/-- Every node in a list is of a certain kind. -/
def All (g : Graph) (k : Tag → Bool) (ids : List NodeId) : Prop :=
  ∀ id ∈ ids, ∃ tag, g.tag? id = some tag ∧ k tag = true

/-- The constants of the enumeration with a number. -/
def entriesOf (g : Graph) (id : NodeId) : List NodeId :=
  match g.payload? id with
  | some (.enum entries _) => entries
  | _ => []

/-- A declaration that a member of a resolved base can mean: a constant of an enumeration, and
otherwise a field. -/
def MemberOf (g : Graph) (base member : NodeId) : Prop :=
  g.tag? base ≠ some .reference ∧
    if g.tag? base = some .enum then member ∈ g.entriesOf base else g.tag? member = some .field

/-- The members of an enumeration are its constants. -/
theorem memberOf_iff_of_enum {g : Graph} {base member : NodeId} (h : g.tag? base = some .enum) :
    g.MemberOf base member ↔ member ∈ g.entriesOf base := by
  unfold MemberOf
  rw [h]
  simp

/-- The members of everything else are fields. -/
theorem memberOf_iff_of_ne {g : Graph} {base member : NodeId} {tag : Tag}
    (h : g.tag? base = some tag) (hreference : tag ≠ .reference) (henum : tag ≠ .enum) :
    g.MemberOf base member ↔ g.tag? member = some .field := by
  unfold MemberOf
  rw [h]
  simp [hreference, henum]

/-- The links of a node with a name and a payload lead to nodes of the right kind. -/
def Fits (g : Graph) (name : String) : Payload → Prop
  | .unit declarations => g.All Tag.isTopLevel declarations
  | .record body =>
    g.All (· == .field) body.fields ∧ g.All (· == .function) (body.methods ++ body.constructors) ∧
      g.All Tag.isNominal body.records ∧
      ∃ self, body.self = some self ∧ body.fields.head? = some self ∧ g.name? self = some "this"
  | .enum entries _ => g.All (· == .enumConstant) entries
  | .field _ initializer | .var initializer => g.All Tag.isExpression initializer.toList
  | .function _ _ parameters body =>
    g.All (· == .parameter) parameters ∧ g.All (· == .block) body.toList
  | .block statements => g.All Tag.isStatement statements
  | .declarationStatement declarations => g.All (· == .var) declarations
  | .returnStatement value => g.All Tag.isExpression value.toList
  | .call base arguments => g.All Tag.isExpression (base.toList ++ arguments)
  | .reference target _ =>
    ∀ d, target = some d → g.All Tag.isValueDeclaration [d] ∧ g.name? d = some name
  | .memberAccess base member =>
    g.All (fun tag => tag.isExpression || tag == .enum || tag == .field) [base] ∧
      ∀ m, member = some m →
        g.name? m = some name ∧ (g.tag? m = some .reference ∨ g.MemberOf base m)
  | .enumConstant | .parameter _ | .literal _ => True

/-- A graph whose links lead to nodes of the right kind. -/
structure WellTyped (g : Graph) : Prop where
  /-- The units are units. -/
  units : g.All (· == .unit) g.units
  /-- The links of every node fit. -/
  nodes : ∀ id node, g.node? id = some node → g.Fits node.name node.payload

/-- A well-formed graph, in which some nodes may still be loose. -/
structure WellFormed (g : Graph) (loose : List NodeId) : Prop where
  /-- The graph is a forest. -/
  tree : g.Tree loose
  /-- The links lead to nodes of the right kind. -/
  typed : g.WellTyped
  /-- The nodes are listed under their names. -/
  listed : g.Listed
  /-- No access to a node ever failed. -/
  faultless : g.fault = none

/-! ## What stays when a graph grows -/

/-- Nodes keep their kinds and names, and enumerations keep their constants. -/
structure Keeps (g g' : Graph) : Prop where
  /-- Kinds stay. -/
  tag : ∀ id tag, g.tag? id = some tag → g'.tag? id = some tag
  /-- Names stay. -/
  name : ∀ id name, g.name? id = some name → g'.name? id = some name
  /-- Constants stay. -/
  entries : ∀ id, g.entriesOf id ⊆ g'.entriesOf id

namespace Keeps

/-- Nodes are of their kinds. -/
theorem refl (g : Graph) : g.Keeps g :=
  ⟨fun _ _ h => h, fun _ _ h => h, fun _ => List.Subset.refl _⟩

/-- Nodes stay of their kinds, step by step. -/
theorem trans {g g' g'' : Graph} (h : g.Keeps g') (h' : g'.Keeps g'') : g.Keeps g'' where
  tag id tag ht := h'.tag id tag (h.tag id tag ht)
  name id name hn := h'.name id name (h.name id name hn)
  entries id := List.Subset.trans (h.entries id) (h'.entries id)

end Keeps

variable {g g' : Graph} {k : Tag → Bool} {ids others : List NodeId} {id : NodeId}

namespace All

/-- Nodes of certain kinds stay so. -/
theorem keep (h : g.All k ids) (keeps : g.Keeps g') : g'.All k ids := by
  intro id hid
  obtain ⟨tag, htag, hk⟩ := h id hid
  exact ⟨tag, keeps.tag id tag htag, hk⟩

/-- Nodes of certain kinds in two lists. -/
theorem append (h : g.All k ids) (h' : g.All k others) : g.All k (ids ++ others) := by
  intro id hid
  rcases List.mem_append.mp hid with hid | hid
  · exact h id hid
  · exact h' id hid

/-- Nodes of certain kinds in the first of two lists. -/
theorem left (h : g.All k (ids ++ others)) : g.All k ids :=
  fun id hid => h id (List.mem_append_left _ hid)

/-- Nodes of certain kinds in the second of two lists. -/
theorem right (h : g.All k (ids ++ others)) : g.All k others :=
  fun id hid => h id (List.mem_append_right _ hid)

/-- No nodes at all. -/
theorem nil : g.All k [] := fun _ h => absurd h List.not_mem_nil

/-- A single node. -/
theorem single {tag : Tag} (h : g.tag? id = some tag) (hk : k tag = true) : g.All k [id] := by
  intro other hmem
  obtain rfl := List.mem_singleton.mp hmem
  exact ⟨tag, h, hk⟩

/-- Nodes of certain kinds are of more general kinds. -/
theorem imp {k' : Tag → Bool} (h : g.All k ids) (hk : ∀ tag, k tag = true → k' tag = true) :
    g.All k' ids := by
  intro id hid
  obtain ⟨tag, htag, hktag⟩ := h id hid
  exact ⟨tag, htag, hk tag hktag⟩

/-- Nodes of certain kinds are nodes. -/
theorem lt_size (h : g.All k ids) (hid : id ∈ ids) : id < g.size := by
  obtain ⟨tag, htag, -⟩ := h id hid
  exact lt_size_of_tag? htag

/-- One kind only. -/
theorem tag_eq {tag : Tag} (h : g.All (· == tag) ids) (hid : id ∈ ids) :
    g.tag? id = some tag := by
  obtain ⟨tag', htag, hk⟩ := h id hid
  rw [htag, beq_iff_eq.mp hk]

end All

/-- What a member can mean stays. -/
theorem MemberOf.keep {base member : NodeId} (h : g.MemberOf base member) (keeps : g.Keeps g')
    (hbase : g.All k [base]) : g'.MemberOf base member := by
  obtain ⟨tag, htag, -⟩ := hbase base (List.mem_singleton.mpr rfl)
  unfold MemberOf at h ⊢
  rw [keeps.tag _ _ htag]
  rw [htag] at h
  refine ⟨h.1, ?_⟩
  have h := h.2
  by_cases henum : some tag = some Tag.enum
  · rw [if_pos henum] at h ⊢
    exact keeps.entries _ h
  · rw [if_neg henum] at h ⊢
    exact keeps.tag _ _ h

/-- **Links stay right.** -/
theorem Fits.keep {name : String} {payload : Payload} (h : g.Fits name payload)
    (keeps : g.Keeps g') : g'.Fits name payload := by
  cases payload with
  | unit _ => exact All.keep h keeps
  | record body =>
    obtain ⟨hfields, hfunctions, hrecords, self, hself, hhead, hname⟩ := h
    exact ⟨hfields.keep keeps, hfunctions.keep keeps, hrecords.keep keeps, self, hself, hhead,
      keeps.name _ _ hname⟩
  | enum _ _ => exact All.keep h keeps
  | enumConstant => trivial
  | field _ _ => exact All.keep h keeps
  | var _ => exact All.keep h keeps
  | parameter _ => trivial
  | function _ _ _ _ => exact ⟨h.1.keep keeps, h.2.keep keeps⟩
  | block _ => exact All.keep h keeps
  | declarationStatement _ => exact All.keep h keeps
  | returnStatement _ => exact All.keep h keeps
  | reference _ _ =>
    intro d hd
    exact ⟨(h d hd).1.keep keeps, keeps.name _ _ (h d hd).2⟩
  | memberAccess base member =>
    refine ⟨h.1.keep keeps, fun m hm => ⟨keeps.name _ _ (h.2 m hm).1, ?_⟩⟩
    rcases (h.2 m hm).2 with hstub | hmember
    · exact Or.inl (keeps.tag _ _ hstub)
    · exact Or.inr (hmember.keep keeps h.1)
  | call _ _ => exact All.keep h keeps
  | literal _ => trivial

/-- The parts of a member access stay where its base and its member keep their kinds. -/
theorem partsOf_keep {name : String} {payload : Payload} (h : g.Fits name payload)
    (keeps : g.Keeps g') : g'.partsOf payload = g.partsOf payload := by
  cases payload with
  | memberAccess base member =>
    simp only [partsOf]
    refine List.filter_congr fun id hid => ?_
    have htag : ∃ tag, g.tag? id = some tag := by
      rcases List.mem_cons.mp hid with rfl | hid
      · obtain ⟨tag, htag, -⟩ := h.1 id (List.mem_singleton.mpr rfl)
        exact ⟨tag, htag⟩
      · obtain ⟨node, hnode, -⟩ := exists_node_of_name? (h.2 id (by simpa using hid)).1
        exact ⟨node.tag, tag?_eq hnode⟩
    obtain ⟨tag, htag⟩ := htag
    rw [htag, keeps.tag _ _ htag]
  | _ => rfl

/-! ## Reading a well-formed graph -/

section WellFormed

variable {loose : List NodeId} {p : Place}

/-- What the base and the member of an access are numbers of. -/
theorem Fits.access_lt_size {name : String} {base : NodeId} {member : Option NodeId}
    (h : g.Fits name (.memberAccess base member)) : ∀ id ∈ base :: member.toList, id < g.size := by
  intro id hid
  rcases List.mem_cons.mp hid with rfl | hid
  · exact h.1.lt_size (List.mem_singleton.mpr rfl)
  · obtain ⟨node, hnode, -⟩ := exists_node_of_name? (h.2 id (by simpa using hid)).1
    exact Graph.lt_size hnode

/-- **The parts of a node can be read.** -/
theorem WellTyped.children_eq (typed : g.WellTyped) {node : Node} (h : g.node? id = some node) :
    g.children id = .ok (g.parts id) := by
  have hfits := typed.nodes id node h
  rw [parts_eq h, children, node_eq_ok.mpr h]
  simp only [bind, Except.bind]
  cases hpayload : node.payload with
  | memberAccess base member =>
    rw [hpayload] at hfits
    exact expressions_eq hfits.access_lt_size
  | _ => rfl

/-- The parts that fit a payload are of the kinds that its own kind may have. -/
theorem Fits.all_parts {name : String} {payload : Payload} (h : g.Fits name payload) :
    g.All payload.tag.mayHave (g.partsOf payload) := by
  cases payload with
  | unit _ | enum _ _ | field _ _ | var _ | block _ | declarationStatement _ | returnStatement _ | call _ _ =>
    exact h
  | record body =>
    obtain ⟨hfields, hfunctions, hrecords, -⟩ := h
    have hall : g.All Tag.record.mayHave (body.methods ++ body.constructors) :=
      hfunctions.imp fun tag htag => by rw [beq_iff_eq.mp htag]; rfl
    refine (((hfields.imp fun tag htag => ?_).append hall.left).append hall.right).append
      (hrecords.imp fun tag htag => ?_)
    · rw [beq_iff_eq.mp htag]
      rfl
    · exact Bool.or_eq_true_iff.mpr (Or.inr htag)
  | function _ _ _ _ =>
    refine (h.1.imp fun tag htag => ?_).append (h.2.imp fun tag htag => ?_)
    · exact Bool.or_eq_true_iff.mpr (Or.inl htag)
    · exact Bool.or_eq_true_iff.mpr (Or.inr htag)
  | memberAccess base member =>
    intro part hpart
    exact (Option.any_eq_true _ _).mp (List.mem_filter.mp hpart).2
  | enumConstant | parameter _ | reference _ _ | literal _ => exact All.nil

/-- **The parts of a node** are of the kinds that its own kind may have. -/
theorem WellTyped.all_parts (typed : g.WellTyped) {node : Node} (h : g.node? id = some node) :
    g.All node.tag.mayHave (g.parts id) := by
  rw [parts_eq h]
  exact (typed.nodes id node h).all_parts

/-- Whatever opens no scope has expressions as parts, unless it declares variables. -/
theorem WellTyped.parts_of_opens?_eq_none (typed : g.WellTyped) {node : Node}
    (h : g.node? id = some node) (hopens : node.tag.opens? = none)
    (hvars : node.tag ≠ .declarationStatement) : g.All Tag.isExpression (g.parts id) :=
  (typed.all_parts h).imp fun _ hpart => Tag.isExpression_of_mayHave hopens hvars hpart

/-- The parts of a statement that declares variables are variables. -/
theorem WellTyped.parts_of_declarationStatement (typed : g.WellTyped) {node : Node}
    (h : g.node? id = some node) (hvars : node.tag = .declarationStatement) :
    g.All (· == .var) (g.parts id) := by
  have hall := typed.all_parts h
  rw [hvars] at hall
  exact hall

/-- Statements that declare variables stand in blocks. -/
theorem WellTyped.whole_of_declarationStatement (typed : g.WellTyped) {node : Node} {part : NodeId}
    (h : g.node? id = some node) (hpart : part ∈ g.parts id)
    (htag : g.tag? part = some .declarationStatement) : node.tag = .block := by
  obtain ⟨tag, htag', hpart⟩ := typed.all_parts h part hpart
  obtain rfl := Option.some.inj (htag.symm.trans htag')
  exact Tag.eq_block_of_mayHave hpart

/-! ## Declarations of a scope -/

/-- The value declarations that a part of a scope contributes to the scope. -/
def offers (g : Graph) (id : NodeId) : List NodeId :=
  match g.tag? id with
  | some .declarationStatement => g.parts id
  | some tag => if tag.isValueDeclaration then [id] else []
  | none => []

/-- The value declarations made directly in a scope, in order. -/
def declaredIn (g : Graph) (scope : NodeId) : List NodeId := (g.parts scope).flatMap g.offers

/-- A value declaration contributes itself. -/
theorem offers_of_isValueDeclaration {tag : Tag} (h : g.tag? id = some tag)
    (hvalue : tag.isValueDeclaration = true) : g.offers id = [id] := by
  unfold offers
  rw [h]
  cases tag <;> simp_all [Tag.isValueDeclaration]

/-- Neither a value declaration nor a statement that declares variables contributes anything. -/
theorem offers_eq_nil {tag : Tag} (h : g.tag? id = some tag)
    (hvalue : tag.isValueDeclaration = false) (hvars : tag ≠ .declarationStatement) :
    g.offers id = [] := by
  unfold offers
  rw [h]
  cases tag <;> simp_all [Tag.isValueDeclaration]

/-- Expressions contribute nothing. -/
theorem offers_of_all_isExpression (h : g.All Tag.isExpression ids) : ids.flatMap g.offers = [] := by
  rw [List.flatMap_eq_nil_iff]
  intro id hid
  obtain ⟨tag, htag, hk⟩ := h id hid
  refine offers_eq_nil htag ?_ ?_ <;> cases tag <;> simp_all [Tag.isExpression, Tag.isValueDeclaration]

/-- The variables of a statement contribute themselves. -/
theorem offers_of_all_var (h : g.All (· == .var) ids) : ids.flatMap g.offers = ids := by
  induction ids with
  | nil => rfl
  | cons id rest ih =>
    have hid : g.tag? id = some .var := h.tag_eq (List.mem_cons_self ..)
    rw [List.flatMap_cons, offers_of_isValueDeclaration hid rfl,
      ih fun other hmem => h other (List.mem_cons_of_mem _ hmem)]
    rfl

/-- What is declared in a scope is a value declaration that stands directly in it.

**Proof sketch.** A declaration of a scope is offered by a part of it. Either it is the part itself, or the
part is a statement that declares variables, of which it is one; such a statement opens no scope, so that the
place is the same. -/
theorem WellFormed.stands_of_mem_declaredIn (wf : g.WellFormed loose) {scope d : NodeId} {node : Node}
    (hp : g.Stands p scope) (hnode : g.node? scope = some node) (h : d ∈ g.declaredIn scope) :
    g.All Tag.isValueDeclaration [d] ∧ g.Stands (p.enter scope node) d := by
  obtain ⟨part, hpart, hd⟩ := List.mem_flatMap.mp h
  obtain ⟨inner, hinner⟩ := exists_node (wf.tree.part_lt _ _ hpart)
  have hstands := hp.part hnode hpart
  by_cases hvars : inner.tag = .declarationStatement
  · simp only [offers, tag?_eq hinner, hvars] at hd
    have hvar := wf.typed.parts_of_declarationStatement hinner hvars
    refine ⟨.single (hvar.tag_eq hd) rfl, ?_⟩
    have := hstands.part hinner hd
    rwa [Place.enter_of_opens?_eq_none (by rw [hvars]; rfl)] at this
  · cases hvalue : inner.tag.isValueDeclaration with
    | true =>
      rw [offers_of_isValueDeclaration (tag?_eq hinner) hvalue, List.mem_singleton] at hd
      subst hd
      exact ⟨All.single (tag?_eq hinner) hvalue, hstands⟩
    | false =>
      rw [offers_eq_nil (tag?_eq hinner) hvalue hvars] at hd
      exact absurd hd List.not_mem_nil

/-- **The declarations of a scope.** A value declaration is declared in the innermost scope around
it, and only units have none.

**Proof sketch.** By what the declaration is a part of. This opens a scope and declares it; or it is a
statement that declares variables, which stands in a block; or it is something else, whose parts are
expressions. -/
theorem WellFormed.mem_declaredIn (wf : g.WellFormed loose) {d : NodeId}
    (hd : g.All Tag.isValueDeclaration [d]) (h : g.Stands p d) :
    ∃ scope scopes, p.scopes = scope :: scopes ∧ d ∈ g.declaredIn scope := by
  obtain ⟨tag, htag, hvalue⟩ := hd d (List.mem_singleton.mpr rfl)
  cases h with
  | unit hunit =>
    have := wf.typed.units.tag_eq hunit
    rw [htag] at this
    obtain rfl := Option.some.inj this
    exact absurd hvalue (by decide)
  | @part q whole _ node above found hpart =>
    by_cases hopens : node.tag.opens?.isSome
    · refine ⟨whole, q.scopes, Place.scopes_enter_of_opens? hopens, ?_⟩
      refine List.mem_flatMap.mpr ⟨d, hpart, ?_⟩
      rw [offers_of_isValueDeclaration htag hvalue]
      exact List.mem_singleton.mpr rfl
    · have hnone : node.tag.opens? = none := by simpa using hopens
      by_cases hvars : node.tag = .declarationStatement
      · rw [Place.enter_of_opens?_eq_none hnone]
        have htagWhole : g.tag? whole = some .declarationStatement := by rw [tag?_eq found, hvars]
        cases above with
        | unit hunit =>
          have := wf.typed.units.tag_eq hunit
          rw [htagWhole] at this
          exact absurd (Option.some.inj this) (by decide)
        | @part q' block _ outer above' found' hpart' =>
          have hblock := wf.typed.whole_of_declarationStatement found' hpart' htagWhole
          refine ⟨block, q'.scopes, Place.scopes_enter_of_opens? (by rw [hblock]; rfl), ?_⟩
          refine List.mem_flatMap.mpr ⟨whole, hpart', ?_⟩
          simpa only [offers, htagWhole] using hpart
      · obtain ⟨tag', htag', hk⟩ := wf.typed.parts_of_opens?_eq_none found hnone hvars d hpart
        obtain rfl := Option.some.inj (htag.symm.trans htag')
        cases tag <;> simp_all [Tag.isExpression, Tag.isValueDeclaration]

end WellFormed

end Graph

end ProgramGraph
