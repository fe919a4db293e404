import Mathlib.Tactic.Common
import ProgramGraph.Graph.Children

set_option autoImplicit false

/-!
# Unfolded syntax trees

The nodes below a node, with what each of them says by itself and without their numbers, make up a
syntax tree. A graph shows such a tree at a node if one finds it by following the links.

## Main definitions

* `ProgramGraph.Label` — what a node says apart from its parts, `ProgramGraph.SyntaxTree` — a node with
  its parts, and `ProgramGraph.Role` — what a node can be among the parts of another.
* `ProgramGraph.Graph.unfold` — the tree that is read at a node.
* `ProgramGraph.Member` — a node with a tree, `ProgramGraph.Graph.Shows` — a graph shows these trees
  there.

## Main results

* `ProgramGraph.Graph.Shows.syntaxTree_eq` — the tree that is shown is the one that is read.
* `ProgramGraph.Graph.Shows.subnodes_eq` — the nodes it is made of.
* `ProgramGraph.Graph.Shows.stays` — trees are shown as long as their nodes stay the same.

## Design

Trees at several nodes are taken together with the list of all their nodes, which bounds the depth to
which links are followed and says what may not be changed.
-/

namespace ProgramGraph

/-! ## Trees -/

/-- What the payload of a node says apart from which parts it links to. Where parts of several sorts
stand one behind the other, it says how many there are of each but the last. -/
inductive Shape where
  /-- A compilation unit. -/
  | unit
  /-- A class-like declaration. -/
  | record (sort : String) (superTypes : List Descriptor) (fields methods constructors : Nat)
  /-- An enumeration. -/
  | enum (superTypes : List Descriptor)
  /-- A constant of an enumeration. -/
  | enumConstant
  /-- A field of a record, or a global variable. -/
  | field (modifiers : List String)
  /-- A variable. -/
  | var
  /-- A parameter of a function. -/
  | parameter (variadic : Bool)
  /-- A function. -/
  | function (kind : FunctionKind) (isStatic : Bool) (parameters : Nat)
  /-- A block of statements. -/
  | block
  /-- A statement that declares variables. -/
  | declarationStatement
  /-- A return statement. -/
  | returnStatement
  /-- A name used as a value. -/
  | reference (isStatic : Bool)
  /-- A use of a member. -/
  | memberAccess
  /-- A call. -/
  | call (onBase : Bool)
  /-- A literal. -/
  | literal (value : String)
deriving DecidableEq, Repr

/-- Whether a shape is that of an expression. -/
def Shape.isExpression : Shape → Bool
  | .reference _ | .memberAccess | .call _ | .literal _ => true
  | _ => false

/-- What a node can be among the parts of another. -/
inductive Role where
  /-- A field. -/
  | field
  /-- A function that is no constructor. -/
  | method
  /-- A constructor. -/
  | constructor
  /-- A record or an enumeration. -/
  | nominal
  /-- A variable. -/
  | variable
  /-- A constant of an enumeration. -/
  | constant
  /-- A parameter. -/
  | parameter
  /-- A block. -/
  | block
  /-- Any other statement; expressions are statements too. -/
  | statement
  /-- No part of anything. -/
  | whole
deriving DecidableEq, Repr

/-- What a node of a shape can be among the parts of another. -/
def Shape.role : Shape → Role
  | .unit => .whole
  | .record .. | .enum _ => .nominal
  | .enumConstant => .constant
  | .field _ => .field
  | .var => .variable
  | .parameter _ => .parameter
  | .function kind _ _ => if kind = .constructor then .constructor else .method
  | .block => .block
  | .declarationStatement | .returnStatement => .statement
  | .reference _ | .memberAccess | .call _ | .literal _ => .statement

/-- What a node says apart from its parts. -/
structure Label where
  /-- The name. -/
  name : String
  /-- What its payload says. -/
  shape : Shape
  /-- The type, for kinds that carry a value. -/
  type : Option Observation := none
  /-- The source text, where it is known. -/
  code : Option String := none
  /-- The line, where it is known. -/
  line : Option Nat := none
  /-- Whether the node was made up. -/
  dummy : Bool := false
deriving DecidableEq, Repr

/-- A syntax tree: a node with its parts, in source order. -/
inductive SyntaxTree where
  | node (label : Label) (parts : List SyntaxTree)

namespace SyntaxTree

/-- What the root of a tree says. -/
def label : SyntaxTree → Label
  | .node label _ => label

/-- What a tree can be among the parts of another. -/
def role (tree : SyntaxTree) : Role := tree.label.shape.role

end SyntaxTree

namespace Payload

/-- What a payload says apart from its links. -/
def shape : Payload → Shape
  | .unit _ => .unit
  | .record body => .record body.sort body.superTypes body.fields.length body.methods.length
      body.constructors.length
  | .enum _ superTypes => .enum superTypes
  | .enumConstant => .enumConstant
  | .field modifiers _ => .field modifiers
  | .var _ => .var
  | .parameter variadic => .parameter variadic
  | .function kind isStatic parameters _ => .function kind isStatic parameters.length
  | .block _ => .block
  | .declarationStatement _ => .declarationStatement
  | .returnStatement _ => .returnStatement
  | .reference _ isStatic => .reference isStatic
  | .memberAccess _ _ => .memberAccess
  | .call base _ => .call base.isSome
  | .literal value => .literal value

/-- The nodes that a payload links to as its own: base and member of an access, whatever they are. -/
def links : Payload → List NodeId
  | .memberAccess base member => base :: member.toList
  | other => other.parts

/-- Kind and shape agree on what an expression is. -/
theorem isExpression_shape (payload : Payload) : payload.shape.isExpression = payload.tag.isExpression := by
  cases payload <;> rfl

end Payload

/-- What a node says apart from its parts. -/
def Node.label (node : Node) : Label where
  name := node.name
  shape := node.payload.shape
  type := node.belief.map Belief.type
  code := node.code
  line := node.line
  dummy := node.dummy

namespace Graph

/-- The tree at a node, read down to a depth. -/
def unfold (g : Graph) : Nat → NodeId → Except Fault SyntaxTree
  | 0, _ => .error .circular
  | depth + 1, id => do
    let node ← g.node id
    let parts ← g.children id
    let trees ← parts.mapM (g.unfold depth)
    return .node node.label trees

/-- The tree at a node. Where links do not run in a circle, no chain of parts is longer than the number
of nodes. -/
def syntaxTree (g : Graph) (id : NodeId) : Except Fault SyntaxTree := g.unfold (g.size + 1) id

/-! ## Showing trees -/

end Graph

/-- A node with the tree that is to be found there. -/
structure Member where
  /-- The node. -/
  id : NodeId
  /-- The tree. -/
  tree : SyntaxTree

namespace Graph

/-- A graph shows the trees of some members; all nodes of the trees are listed in preorder. What a
member access links to are expressions. -/
inductive Shows (g : Graph) : List Member → List NodeId → Prop where
  /-- No trees. -/
  | nil : Shows g [] []
  /-- A tree, and other trees behind it. -/
  | cons {m : Member} {node : Node} {parts rest : List Member} {below after : List NodeId}
    (found : g.node? m.id = some node) (tree : m.tree = .node node.label (parts.map Member.tree))
    (links : node.payload.links = parts.map Member.id)
    (kinds : node.tag = .memberAccess → ∀ part ∈ parts, part.tree.label.shape.isExpression = true)
    (inside : Shows g parts below) (behind : Shows g rest after) :
    Shows g (m :: rest) (m.id :: (below ++ after))

namespace Shows

variable {g g' : Graph} {m : Member} {ms ms' : List Member} {all all' : List NodeId}

/-- One tree. -/
theorem single {node : Node} (found : g.node? m.id = some node)
    (tree : m.tree = .node node.label (ms.map Member.tree))
    (links : node.payload.links = ms.map Member.id)
    (kinds : node.tag = .memberAccess → ∀ part ∈ ms, part.tree.label.shape.isExpression = true)
    (inside : g.Shows ms all) : g.Shows [m] (m.id :: all) := by
  have := Shows.cons found tree links kinds inside .nil
  rwa [List.append_nil] at this

/-- **Trees one behind the other.** -/
theorem append_iff : g.Shows (ms ++ ms') all ↔
    ∃ before after, all = before ++ after ∧ g.Shows ms before ∧ g.Shows ms' after := by
  constructor
  · intro h
    induction ms generalizing all with
    | nil => exact ⟨[], all, rfl, .nil, h⟩
    | cons m ms ih =>
      cases h with
      | @cons _ _ _ _ below after found tree links kinds inside behind =>
        obtain ⟨before, after', rfl, hbefore, hafter⟩ := ih behind
        refine ⟨m.id :: (below ++ before), after', ?_, .cons found tree links kinds inside hbefore, hafter⟩
        rw [List.cons_append, List.append_assoc]
  · rintro ⟨before, after, rfl, hbefore, hafter⟩
    induction hbefore with
    | nil => exact hafter
    | cons found tree links kinds inside _ _ ih =>
      rw [List.cons_append, List.cons_append, List.append_assoc]
      exact .cons found tree links kinds inside ih

/-- Trees one behind the other. -/
theorem append (h : g.Shows ms all) (h' : g.Shows ms' all') : g.Shows (ms ++ ms') (all ++ all') :=
  append_iff.mpr ⟨all, all', rfl, h, h'⟩

/-- **Trees in another order** are made of the same nodes.

**Proof sketch.** Induction on the permutation. Trees that stand next to each other change places with their
nodes. -/
theorem perm (h : g.Shows ms all) (hperm : ms.Perm ms') : ∃ all', g.Shows ms' all' ∧ all.Perm all' := by
  induction hperm generalizing all with
  | nil => exact ⟨all, h, List.Perm.refl _⟩
  | cons m _ ih =>
    cases h with
    | cons found tree links kinds inside behind =>
      obtain ⟨after', hshows, hafter⟩ := ih behind
      exact ⟨_, .cons found tree links kinds inside hshows, (hafter.append_left _).cons _⟩
  | swap m m' ms =>
    obtain ⟨first, rest, rfl, hfirst, hrest⟩ := (append_iff.mp (show g.Shows ([m'] ++ m :: ms) all from h))
    obtain ⟨second, others, rfl, hsecond, hothers⟩ := (append_iff.mp (show g.Shows ([m] ++ ms) rest from hrest))
    exact ⟨_, hsecond.append (hfirst.append hothers), List.perm_append_comm_assoc ..⟩
  | trans _ _ ih ih' =>
    obtain ⟨between, hbetween, hperm⟩ := ih h
    obtain ⟨all', hall', hperm'⟩ := ih' hbetween
    exact ⟨all', hall', hperm.trans hperm'⟩

/-- The members are among the nodes. -/
theorem subset (h : g.Shows ms all) : ms.map Member.id ⊆ all := by
  induction h with
  | nil => exact List.Subset.refl _
  | cons _ _ _ _ _ _ _ ih => exact List.cons_subset_cons _ (List.subset_append_of_subset_right _ ih)

/-- A member is there, and says what the root of its tree says. -/
theorem exists_node (h : g.Shows ms all) (hm : m ∈ ms) :
    ∃ node, g.node? m.id = some node ∧ node.label = m.tree.label := by
  induction h with
  | nil => exact absurd hm List.not_mem_nil
  | cons found tree _ _ _ _ _ ih =>
    rcases List.mem_cons.mp hm with rfl | hm
    · exact ⟨_, found, by rw [tree]; rfl⟩
    · exact ih hm

/-- **Trees stay** as long as their nodes stay the same. -/
theorem stays (h : g.Shows ms all) (hsame : ∀ id ∈ all, g'.node? id = g.node? id) : g'.Shows ms all := by
  induction h with
  | nil => exact .nil
  | cons found tree links kinds _ _ ihinside ihbehind =>
    refine .cons ((hsame _ List.mem_cons_self).trans found) tree links kinds
      (ihinside fun id hid => ?_) (ihbehind fun id hid => ?_)
    · exact hsame id (List.mem_cons_of_mem _ (List.mem_append_left _ hid))
    · exact hsame id (List.mem_cons_of_mem _ (List.mem_append_right _ hid))

/-! ## Reading trees -/

/-- What is shown as an expression is one. -/
theorem isExpression (h : g.Shows ms all) (hm : m ∈ ms) (hshape : m.tree.label.shape.isExpression = true) :
    g.isExpression m.id = .ok true := by
  obtain ⟨node, hnode, hlabel⟩ := h.exists_node hm
  rw [← hlabel] at hshape
  rw [Graph.isExpression, node_eq_ok.mpr hnode]
  exact congrArg Except.ok ((Payload.isExpression_shape node.payload).symm.trans hshape)

/-- Members that are expressions are all read. -/
theorem expressions (h : g.Shows ms all) (hms : ∀ m ∈ ms, m.tree.label.shape.isExpression = true) :
    g.expressions (ms.map Member.id) = .ok (ms.map Member.id) := by
  have hall : ∀ m ∈ ms, g.isExpression m.id = .ok true := fun m hm => h.isExpression hm (hms m hm)
  clear h hms
  induction ms with
  | nil => rfl
  | cons m ms ih =>
    have hfirst := hall m List.mem_cons_self
    have hrest := ih fun other hother => hall other (List.mem_cons_of_mem _ hother)
    rw [List.map_cons, Graph.expressions, hfirst, hrest]
    rfl

/-- The parts of a node of the trees are read. -/
theorem children_eq {id : NodeId} {node : Node} (found : g.node? id = some node)
    (links : node.payload.links = ms.map Member.id)
    (kinds : node.tag = .memberAccess → ∀ part ∈ ms, part.tree.label.shape.isExpression = true)
    (inside : g.Shows ms all) : g.children id = .ok (ms.map Member.id) := by
  rw [children, node_eq_ok.mpr found, ← links]
  simp only [bind, Except.bind]
  rw [Node.tag] at kinds
  cases hpayload : node.payload with
  | memberAccess base member =>
    rw [hpayload] at links kinds
    have hread := inside.expressions (kinds rfl)
    rwa [← links] at hread
  | _ => rfl

/-- **Reading** trees, to a depth of as many levels as they have nodes. -/
theorem mapM_unfold (h : g.Shows ms all) {depth : Nat} (hdepth : all.length ≤ depth) :
    (ms.map Member.id).mapM (g.unfold depth) = .ok (ms.map Member.tree) := by
  induction h generalizing depth with
  | nil => rfl
  | @cons m node parts rest below after found tree links kinds inside _ ihinside ihbehind =>
    rw [List.length_cons, List.length_append] at hdepth
    obtain ⟨depth, rfl⟩ := Nat.exists_eq_succ_of_ne_zero (show depth ≠ 0 by omega)
    have hroot : g.unfold (depth + 1) m.id = .ok m.tree := by
      rw [unfold, node_eq_ok.mpr found, children_eq found links kinds inside, tree]
      simp only [bind, Except.bind, ihinside (show below.length ≤ depth by omega)]
      rfl
    rw [List.map_cons, List.mapM_cons, hroot]
    simp only [bind, Except.bind, ihbehind (show after.length ≤ depth + 1 by omega)]
    rfl

/-- **Listing** the nodes of trees, to a depth of as many levels as they have nodes.

**Proof sketch.** Induction on how the trees are shown. The parts of a node have fewer nodes than the tree, so
a level less is enough for them. -/
theorem mapM_preorder (h : g.Shows ms all) {depth : Nat} (hdepth : all.length ≤ depth) :
    ∃ lists, (ms.map Member.id).mapM (g.preorder depth) = .ok lists ∧ lists.flatten = all := by
  induction h generalizing depth with
  | nil => exact ⟨[], rfl, rfl⟩
  | @cons m node parts rest below after found tree links kinds inside _ ihinside ihbehind =>
    rw [List.length_cons, List.length_append] at hdepth
    obtain ⟨depth, rfl⟩ := Nat.exists_eq_succ_of_ne_zero (show depth ≠ 0 by omega)
    obtain ⟨lists, hlists, rfl⟩ := ihinside (show below.length ≤ depth by omega)
    obtain ⟨others, hothers, rfl⟩ := ihbehind (show after.length ≤ depth + 1 by omega)
    have hroot : g.preorder (depth + 1) m.id = .ok (m.id :: lists.flatten) := by
      rw [preorder, children_eq found links kinds inside]
      simp only [bind, Except.bind, hlists]
      rfl
    refine ⟨(m.id :: lists.flatten) :: others, ?_, rfl⟩
    rw [List.map_cons, List.mapM_cons, hroot]
    simp only [bind, Except.bind, hothers]
    rfl

/-- **The tree at a node** is the one that is shown there. -/
theorem syntaxTree_eq (h : g.Shows [m] all) (hlength : all.length ≤ g.size) :
    g.syntaxTree m.id = .ok m.tree := by
  have hread := h.mapM_unfold (Nat.le_succ_of_le hlength)
  rw [List.map_cons, List.mapM_cons] at hread
  unfold syntaxTree
  cases hroot : g.unfold (g.size + 1) m.id with
  | error fault =>
    rw [hroot] at hread
    cases hread
  | ok found =>
    rw [hroot] at hread
    exact congrArg Except.ok (List.head_eq_of_cons_eq (Except.ok.inj hread))

/-- **The nodes below a node** are those of the tree that is shown there. -/
theorem subnodes_eq (h : g.Shows [m] all) (hlength : all.length ≤ g.size) : g.subnodes m.id = .ok all := by
  obtain ⟨lists, hread, rfl⟩ := h.mapM_preorder (Nat.le_succ_of_le hlength)
  rw [List.map_cons, List.mapM_cons] at hread
  unfold subnodes
  cases hroot : g.preorder (g.size + 1) m.id with
  | error fault =>
    rw [hroot] at hread
    cases hread
  | ok found =>
    rw [hroot] at hread
    obtain rfl := Except.ok.inj hread
    exact congrArg Except.ok (List.append_nil found).symm

end Shows

end Graph

end ProgramGraph
