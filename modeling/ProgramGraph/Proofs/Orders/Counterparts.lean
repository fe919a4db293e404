import ProgramGraph.Proofs.Orders.Renaming
import ProgramGraph.Proofs.Sessions.Forest
import ProgramGraph.Proofs.Translation.Faithful

set_option autoImplicit false

/-!
# Counterparts

Two documents can be built in two orders. Each document is shown as the same tree in both graphs, so
the nodes at one position of its tree are counterparts of each other, and the two graphs differ in
nothing but the numbers of the nodes and the order of the two units.

## Main definitions

* `ProgramGraph.Graph.nodeAt?` — the node at a position of a document.
* `ProgramGraph.Graph.Counterparts` — nodes at the same position of the same document.
* `ProgramGraph.Graph.Apart` — two documents declare no type both.
* `ProgramGraph.Graph.Pair` — a graph of two documents.
* `ProgramGraph.Graph.Swaps` — graphs that were built in the one order and in the other.

## Main results

* `ProgramGraph.Graph.Shows.renames` — graphs that show the same trees.
* `ProgramGraph.Graph.pair_ofDocuments` — the graph of two documents.
* `ProgramGraph.Graph.exists_swaps` — the two graphs of two documents.
-/

namespace ProgramGraph

/-- A list of different things can be mapped to any list of the same length. -/
theorem exists_map_eq {α β : Type} [DecidableEq α] [Inhabited β] {l : List α} {l' : List β} (hnodup : l.Nodup)
    (hlength : l'.length = l.length) : ∃ f : α → β, l' = l.map f := by
  induction l generalizing l' with
  | nil => exact ⟨fun _ => default, List.length_eq_zero_iff.mp hlength⟩
  | cons a l ih =>
    obtain ⟨b, l', rfl⟩ := List.exists_cons_of_length_eq_add_one hlength
    obtain ⟨hnot, hrest⟩ := List.nodup_cons.mp hnodup
    obtain ⟨f, rfl⟩ := ih hrest (Nat.succ.inj hlength)
    refine ⟨Function.update f a b, ?_⟩
    rw [List.map_cons, Function.update_self]
    refine congrArg (b :: ·) (List.map_congr_left fun x hx => ?_)
    rw [Function.update_of_ne]
    rintro rfl
    exact hnot hx

namespace Graph

/-! ## The same trees -/

namespace Shows

variable {g g' : Graph} {ms ms' : List Member} {all all' : List NodeId}

/-- The nodes of trees are listed in preorder. -/
theorem preorder (h : g.Shows ms all) (typed : g.WellTyped) :
    Preorder g.parts (ms.map Member.id) all := by
  induction h with
  | nil => exact .nil
  | cons found _ links kinds inside _ ihinside ihbehind =>
    have hread := children_eq found links kinds inside
    rw [typed.children_eq found, Except.ok.injEq] at hread
    exact .cons (hread ▸ ihinside) ihbehind

/-- The same trees have the same number of nodes. -/
theorem length_eq (h : g.Shows ms all) (h' : g'.Shows ms' all')
    (htrees : ms'.map Member.tree = ms.map Member.tree) : all'.length = all.length := by
  induction h generalizing ms' all' with
  | nil =>
    rw [List.map_nil, List.map_eq_nil_iff] at htrees
    subst htrees
    cases h'
    rfl
  | cons _ tree _ _ _ _ ihinside ihbehind =>
    cases h' with
    | nil => cases htrees
    | cons _ tree' _ _ inside' behind' =>
      obtain ⟨hfirst, hrest⟩ := List.cons.inj htrees
      rw [tree, tree'] at hfirst
      rw [List.length_cons, List.length_cons, List.length_append, List.length_append,
        ihinside inside' (SyntaxTree.node.inj hfirst).2, ihbehind behind' hrest]

/-- **The same trees in two graphs.** Nodes at the same position say the same and link to nodes at the
same positions.

**Proof sketch.** By induction on how the first list of trees is shown. Both graphs show the same tree at the
head of the list, so that the nodes there agree in their labels and in the number of their parts, and the
numbers of the rest come behind as many numbers. -/
theorem renames {ρ : NodeId → NodeId} (h : g.Shows ms all) (h' : g'.Shows ms' (all.map ρ))
    (htrees : ms'.map Member.tree = ms.map Member.tree) :
    ms'.map Member.id = (ms.map Member.id).map ρ ∧
      ∀ id ∈ all, ∃ node node', g.node? id = some node ∧ g'.node? (ρ id) = some node' ∧
        node'.label = node.label ∧ node'.payload.links = node.payload.links.map ρ := by
  generalize hall : all.map ρ = all' at h'
  induction h generalizing ms' all' with
  | nil =>
    rw [List.map_nil, List.map_eq_nil_iff] at htrees
    subst htrees
    exact ⟨rfl, fun _ hid => absurd hid List.not_mem_nil⟩
  | @cons m node parts rest below after found tree links _ inside _ ihinside ihbehind =>
    cases h' with
    | nil => cases htrees
    | @cons m' node' parts' rest' below' after' found' tree' links' _ inside' behind' =>
      obtain ⟨hfirst, hrest⟩ := List.cons.inj htrees
      rw [tree, tree'] at hfirst
      obtain ⟨hlabel, hparts⟩ := SyntaxTree.node.inj hfirst
      obtain ⟨hid, hlists⟩ := List.cons.inj hall
      rw [List.map_append] at hlists
      obtain ⟨hbelow, hafter⟩ := List.append_inj hlists
        (by rw [List.length_map, inside.length_eq inside' hparts])
      obtain ⟨hlinks, hinside⟩ := ihinside hparts _ hbelow inside'
      obtain ⟨hids, hbehind⟩ := ihbehind hrest _ hafter behind'
      refine ⟨by rw [List.map_cons, List.map_cons, List.map_cons, ← hid, hids], fun id hmem => ?_⟩
      rcases List.mem_cons.mp hmem with rfl | hmem
      · exact ⟨node, node', found, hid ▸ found', hlabel, by rw [links, links', hlinks]⟩
      · exact (List.mem_append.mp hmem).elim (hinside id) (hbehind id)

/-- What a member access links to are expressions. -/
theorem isExpression_of_mem_links (h : g.Shows ms all) : ∀ id ∈ all, ∀ node, g.node? id = some node →
    node.tag = .memberAccess → ∀ part ∈ node.payload.links, (g.tag? part).any Tag.isExpression = true := by
  induction h with
  | nil => exact fun _ hid => absurd hid List.not_mem_nil
  | @cons m node parts _ _ _ found _ links kinds inside _ ihinside ihbehind =>
    intro id hid
    rcases List.mem_cons.mp hid with rfl | hid
    · intro node' hnode' haccess part hpart
      obtain rfl := Option.some.inj (found.symm.trans hnode')
      rw [links] at hpart
      obtain ⟨m', hm', rfl⟩ := List.mem_map.mp hpart
      obtain ⟨found', hfound', hlabel⟩ := inside.exists_node hm'
      rw [tag?_eq hfound', Option.any_some, Node.tag, ← Payload.isExpression_shape]
      exact (congrArg (Shape.isExpression ∘ Label.shape) hlabel).trans (kinds haccess m' hm')
    · exact (List.mem_append.mp hid).elim (ihinside id) (ihbehind id)

end Shows

/-! ## Positions -/

/-- The node at a position of the document that was built at some place in the order. -/
def nodeAt? (g : Graph) (document position : Nat) : Option NodeId := do
  let unit ← g.units[document]?
  let ids ← (g.subnodes unit).toOption
  ids[position]?

/-- The positions of a document whose nodes are listed. -/
theorem nodeAt?_eq {g : Graph} {unit : NodeId} {ids : List NodeId} {document : Nat}
    (hunit : g.units[document]? = some unit) (hids : g.subnodes unit = .ok ids) (position : Nat) :
    g.nodeAt? document position = ids[position]? := by
  simp only [nodeAt?, hunit, hids, Option.bind_eq_bind, Option.bind_some, Except.toOption]

/-- Nodes at the same position of the same document, in the graphs of two documents that were built in
the one order and in the other. -/
def Counterparts (g g' : Graph) (id id' : NodeId) : Prop :=
  ∃ position, g.nodeAt? 0 position = some id ∧ g'.nodeAt? 1 position = some id' ∨
    g.nodeAt? 1 position = some id ∧ g'.nodeAt? 0 position = some id'

/-- The types that the names of the nodes of a kind spell. -/
def spelled (g : Graph) (tag : Tag) : List Descriptor :=
  (g.nodes.toList.filter (·.tag == tag)).map fun node => .parse node.name

/-- A type is spelled by some node. -/
theorem mem_spelled {g : Graph} {tag : Tag} {type : Descriptor} {id : NodeId}
    (h : g.spells tag type id = true) : type ∈ g.spelled tag := by
  obtain ⟨node, hnode, htag, hparse⟩ := spells_iff.mp h
  have hmem : node ∈ g.nodes.toList := mem_nodes_iff.mpr ⟨id, hnode⟩
  exact List.mem_map.mpr ⟨node, List.mem_filter.mpr ⟨hmem, beq_iff_eq.mpr htag⟩, hparse⟩

/-- Two documents have no records of the same type and no enumerations of the same type. -/
def Apart (a b : String × Document) : Prop :=
  ∀ tag ∈ [Tag.record, Tag.enum], ∀ type ∈ (ofDocuments [a]).spelled tag,
    type ∉ (ofDocuments [b]).spelled tag

/-- Whether the types of two documents are apart is decided by comparing those that they spell. -/
instance (a b : String × Document) : Decidable (Apart a b) :=
  inferInstanceAs (Decidable (∀ tag ∈ [Tag.record, Tag.enum],
    ∀ type ∈ (ofDocuments [a]).spelled tag, type ∉ (ofDocuments [b]).spelled tag))

/-! ## Two documents -/

/-- Where all that was built is one tree whose root is a unit, one unit was added.

**Proof sketch.** Everything that was built is the root of the tree or a part of something, and no unit is a
part. So the root is the only new unit, and it is one, as it is a unit and stands somewhere. -/
theorem BuildsOn.units_eq {g g' : Graph} {tree : SyntaxTree} {all : List NodeId} (h : g.BuildsOn g' [])
    (hg : g.Sprouting []) (hg' : g'.Sprouting []) (hall : g'.Shows [⟨g.size, tree⟩] all)
    (hperm : all.Perm (List.Ico g.size g'.size)) (htag : g'.tag? g.size = some .unit) :
    g'.units = g.units ++ [g.size] := by
  have links := hg'.wellFormed.tree
  have typed := hg'.wellFormed.typed
  obtain ⟨new, hunits, hle⟩ := h.units
  -- everything but the root of the tree is a part of something, and no unit is
  have hparts : ∀ id ∈ all, id = g.size ∨ ∃ whole, id ∈ g'.parts whole :=
    (hall.preorder typed).forall_mem (fun whole part hpart _ => Or.inr ⟨whole, hpart⟩)
      fun id hid => Or.inl (List.mem_singleton.mp hid)
  have hroot : ∀ unit ∈ new, unit = g.size := by
    intro unit hunit
    have hmem : unit ∈ g'.units ++ [] := List.mem_append_left _ (hunits ▸ List.mem_append_right _ hunit)
    have hlt := links.root_lt unit hmem
    refine (hparts unit (hperm.mem_iff.mpr (List.Ico.mem.mpr ⟨hle unit hunit, hlt⟩))).resolve_right ?_
    rintro ⟨whole, hpart⟩
    exact links.root_notMem unit hmem whole hpart
  have hunit : g.size ∈ new := by
    obtain ⟨p, hp⟩ := hg'.stands (lt_size_of_tag? htag)
    have hmem : g.size ∈ g'.units := by
      cases hp with
      | unit hunit => exact hunit
      | part _ _ hpart => exact absurd htag (typed.tag?_part_ne_unit hpart)
    rw [hunits] at hmem
    refine (List.mem_append.mp hmem).resolve_left fun hold => ?_
    exact absurd (hg.wellFormed.tree.root_lt g.size (List.mem_append_left _ hold)) (Nat.lt_irrefl _)
  have hnodup : new.Nodup := by
    have hroots := links.roots
    rw [List.append_nil, hunits] at hroots
    exact (List.nodup_append.mp hroots).2.1
  have hmem : ∀ unit, unit ∈ new ↔ unit ∈ [g.size] := fun unit =>
    ⟨fun hnew => List.mem_singleton.mpr (hroot unit hnew), fun hsame => List.mem_singleton.mp hsame ▸ hunit⟩
  rw [hunits, List.perm_singleton.mp ((List.perm_ext_iff_of_nodup hnodup (List.nodup_singleton _)).mpr hmem)]

/-- A unit is built behind the others, and shows the tree of its document. -/
theorem Sprouting.build {g : Graph} (h : g.Sprouting []) (source : String × Document) {g' : Graph}
    (hg' : (source.2.build source.1 g).2 = g') :
    g'.Sprouting [] ∧ (∀ id, id < g.size → g'.node? id = g.node? id) ∧ g'.units = g.units ++ [g.size] ∧
      ∃ all, g'.Shows [⟨g.size, source.2.tree .known source.1⟩] all ∧
        all.Perm (List.Ico g.size g'.size) := by
  subst hg'
  have hsprouting : (source.2.build source.1 g).2.Sprouting [] := source.2.build_ok source.1 h
  have hbuilds := source.2.build_ok source.1 (BuildsOn.refl h.wellFormed)
  obtain ⟨all, hall, hperm⟩ := source.2.builds source.1 g
  obtain ⟨node, hnode, hlabel⟩ := hall.exists_node (List.mem_singleton.mpr rfl)
  have htag : node.tag = .unit := by rw [← node.tag_label, hlabel]; rfl
  exact ⟨hsprouting, hbuilds.below, hbuilds.units_eq h hsprouting hall hperm
    ((tag?_eq hnode).trans (congrArg some htag)), all, hall, hperm⟩

/-- A graph of two documents: its two units, with the nodes of each in preorder. -/
structure Pair (a b : String × Document) (g : Graph) (unit unit' : NodeId)
    (first second : List NodeId) : Prop where
  /-- There are two units. -/
  units : g.units = [unit, unit']
  /-- The first one shows the tree of the first document. -/
  shows : g.Shows [⟨unit, a.2.tree .known a.1⟩] first
  /-- The second one shows the tree of the second document. -/
  shows' : g.Shows [⟨unit', b.2.tree .known b.1⟩] second
  /-- Nothing is listed twice. -/
  nodup : (first ++ second).Nodup
  /-- Everything is listed. -/
  complete : ∀ id, id ∈ first ++ second ↔ id < g.size
  /-- The nodes of the first document are as if it were built alone. -/
  alone : ∀ id ∈ first, g.node? id = (ofDocuments [a]).node? id

/-- **The graph of two documents.**

**Proof sketch.** The second document is built on top of the first, whose nodes stay as they are. The numbers
of each document are an interval, and the two intervals come one behind the other. -/
theorem pair_ofDocuments (a b : String × Document) :
    ∃ unit unit' first second, Pair a b (ofDocuments [a, b]) unit unit' first second := by
  have hnone : Graph.empty.Sprouting [] := .refl .empty
  obtain ⟨hone, -, hunits, first, hfirst, hperm⟩ :=
    hnone.build a (show _ = ofDocuments [a] from rfl)
  obtain ⟨-, hbelow, hunits', second, hsecond, hperm'⟩ :=
    hone.build b (show _ = ofDocuments [a, b] from rfl)
  have hmem : ∀ id, id ∈ first ↔ id < (ofDocuments [a]).size := fun id => by
    rw [hperm.mem_iff, List.Ico.mem]
    exact and_iff_right (Nat.zero_le id)
  have hmem' : ∀ id, id ∈ second ↔ (ofDocuments [a]).size ≤ id ∧ id < (ofDocuments [a, b]).size :=
    fun id => by rw [hperm'.mem_iff, List.Ico.mem]
  have hle : (ofDocuments [a]).size ≤ (ofDocuments [a, b]).size :=
    (b.2.build_ok b.1 (BuildsOn.refl hone.wellFormed)).size
  have hsame : ∀ id ∈ first, (ofDocuments [a, b]).node? id = (ofDocuments [a]).node? id :=
    fun id hid => hbelow id ((hmem id).mp hid)
  refine ⟨_, _, first, second, by rw [hunits', hunits]; rfl, hfirst.stays hsame, hsecond,
    List.nodup_append.mpr ⟨hperm.nodup_iff.mpr (List.Ico.nodup ..),
      hperm'.nodup_iff.mpr (List.Ico.nodup ..), ?_⟩, fun id => ?_, hsame⟩
  · rintro id hid other hother rfl
    exact absurd ((hmem id).mp hid) (Nat.not_lt.mpr ((hmem' id).mp hother).1)
  · rw [List.mem_append, hmem, hmem']
    exact ⟨fun h => h.elim (Nat.lt_of_lt_of_le · hle) And.right,
      fun h => (Nat.lt_or_ge id _).imp_right (⟨·, h⟩)⟩

namespace Pair

variable {a b : String × Document} {g g' : Graph} {unit unit' v v' id : NodeId}
  {first second first' second' : List NodeId} {position : Nat}

/-- The nodes of either document are no more than all nodes. -/
theorem length_le (h : Pair a b g unit unit' first second) :
    first.length ≤ g.size ∧ second.length ≤ g.size := by
  have hlength : (first ++ second).length ≤ g.size := by
    have hsubset : first ++ second ⊆ List.range g.size :=
      fun id hid => List.mem_range.mpr ((h.complete id).mp hid)
    simpa using (h.nodup.subperm hsubset).length_le
  rw [List.length_append] at hlength
  omega

/-- The positions of the first document. -/
theorem nodeAt?_zero (h : Pair a b g unit unit' first second) : g.nodeAt? 0 position = first[position]? :=
  nodeAt?_eq (by rw [h.units]; rfl) (h.shows.subnodes_eq h.length_le.1) position

/-- The positions of the second document. -/
theorem nodeAt?_one (h : Pair a b g unit unit' first second) : g.nodeAt? 1 position = second[position]? :=
  nodeAt?_eq (by rw [h.units]; rfl) (h.shows'.subnodes_eq h.length_le.2) position

/-- All nodes in preorder. -/
theorem preorder (h : Pair a b g unit unit' first second) (typed : g.WellTyped) :
    Preorder g.parts g.units (first ++ second) := by
  rw [h.units]
  exact (h.shows.preorder typed).append (h.shows'.preorder typed)

/-- What spells a type in the first document spells it where the document is built alone. -/
theorem mem_spelled (h : Pair a b g unit unit' first second) {tag : Tag} {type : Descriptor}
    (hid : id ∈ first) (hspells : g.spells tag type id = true) : type ∈ (ofDocuments [a]).spelled tag := by
  have halone : (ofDocuments [a]).spells tag type id = true := by
    rwa [spells, ← h.alone id hid]
  exact Graph.mem_spelled halone

end Pair

/-! ## The two orders -/

/-- The nodes of a graph have other numbers in another graph, and the two units are in the other order.
No type is declared by records of both units, or by enumerations of both. -/
structure Swaps (ρ : NodeId → NodeId) (g g' : Graph) (first second : List NodeId) : Prop where
  /-- Only the numbers are other ones. -/
  renames : g.Renames ρ g'
  /-- All nodes in preorder. -/
  preorder : Preorder g.parts g.units (first ++ second)
  /-- All nodes of the other graph in preorder. -/
  preorder' : Preorder g'.parts g'.units ((second ++ first).map ρ)
  /-- The nodes are listed. -/
  lt : ∀ id ∈ first ++ second, id < g.size
  /-- The operands of accesses are expressions. -/
  operands : ∀ id node, g.node? id = some node → node.tag = .memberAccess →
    ∀ part ∈ node.payload.links, (g.tag? part).any Tag.isExpression = true
  /-- No type is declared in both units. -/
  apart : ∀ tag type, tag = .record ∨ tag = .enum →
    (∀ id ∈ first, g.spells tag type id = false) ∨ ∀ id ∈ second, g.spells tag type id = false

namespace Pair

variable {a b : String × Document} {g g' : Graph} {u v u' v' id id' : NodeId}
  {first second first' second' : List NodeId} {ρ : NodeId → NodeId}

/-- The nodes of the one order can be numbered as in the other one. -/
theorem exists_rename (h : Pair a b g u v first second) (h' : Pair b a g' v' u' second' first') :
    ∃ ρ : NodeId → NodeId, first' = first.map ρ ∧ second' = second.map ρ := by
  have hfirst := h.shows.length_eq h'.shows' rfl
  have hsecond := h.shows'.length_eq h'.shows rfl
  have hlengths : (first' ++ second').length = (first ++ second).length := by
    rw [List.length_append, List.length_append, hfirst, hsecond]
  obtain ⟨ρ, hρ⟩ := exists_map_eq h.nodup hlengths
  rw [List.map_append] at hρ
  exact ⟨ρ, List.append_inj hρ (by rw [List.length_map, hfirst])⟩

section

variable (h : Pair a b g u v first second) (h' : Pair b a g' v' u' (second.map ρ) (first.map ρ))

include h h'

/-- Only the numbers are other ones. -/
theorem renames : g.Renames ρ g' := by
  obtain ⟨hroot, hnodes⟩ := h.shows.renames h'.shows' rfl
  obtain ⟨hroot', hnodes'⟩ := h.shows'.renames h'.shows rfl
  refine ⟨fun id node hnode => ?_, fun id hid => ?_⟩
  · have hmem := (h.complete id).mpr (lt_size hnode)
    obtain ⟨found, node', hfound, hnode', hlabel, hlinks⟩ :=
      (List.mem_append.mp hmem).elim (hnodes id) (hnodes' id)
    obtain rfl := Option.some.inj (hnode.symm.trans hfound)
    exact ⟨node', hnode', hlabel, hlinks⟩
  · rw [h.units, List.mem_pair] at hid
    rw [h'.units, List.mem_pair]
    rcases hid with rfl | rfl
    · exact Or.inr (List.singleton_inj.mp hroot).symm
    · exact Or.inl (List.singleton_inj.mp hroot').symm

/-- **The counterpart of a node** is the one with its other number. -/
theorem counterparts_iff : Counterparts g g' id id' ↔ id < g.size ∧ id' = ρ id := by
  simp only [Counterparts, h.nodeAt?_zero, h.nodeAt?_one, h'.nodeAt?_zero, h'.nodeAt?_one,
    List.getElem?_map, ← h.complete, List.mem_append]
  constructor
  · rintro ⟨position, ⟨hid, hid'⟩ | ⟨hid, hid'⟩⟩
    · rw [hid, Option.map_some, Option.some.injEq] at hid'
      exact ⟨Or.inl (List.mem_of_getElem? hid), hid'.symm⟩
    · rw [hid, Option.map_some, Option.some.injEq] at hid'
      exact ⟨Or.inr (List.mem_of_getElem? hid), hid'.symm⟩
  · rintro ⟨hmem | hmem, rfl⟩
    · obtain ⟨position, hposition⟩ := List.mem_iff_getElem?.mp hmem
      exact ⟨position, Or.inl ⟨hposition, by rw [hposition, Option.map_some]⟩⟩
    · obtain ⟨position, hposition⟩ := List.mem_iff_getElem?.mp hmem
      exact ⟨position, Or.inr ⟨hposition, by rw [hposition, Option.map_some]⟩⟩

/-- Documents that declare no type both have units that declare no type both. -/
theorem apart (hapart : Apart a b) {tag : Tag} (hkind : tag = .record ∨ tag = .enum) (type : Descriptor) :
    (∀ id ∈ first, g.spells tag type id = false) ∨ ∀ id ∈ second, g.spells tag type id = false := by
  refine or_iff_not_imp_left.mpr fun hdeclared other hother => Bool.eq_false_iff.mpr fun hspells' =>
    hdeclared fun id hid => Bool.eq_false_iff.mpr fun hspells => ?_
  refine hapart tag (List.mem_pair.mpr hkind) type (h.mem_spelled hid hspells)
    (h'.mem_spelled (List.mem_map_of_mem hother) ?_)
  rw [(h.renames h').spells ((h.complete other).mp (List.mem_append_right _ hother)), hspells']

/-- **The two orders** differ in nothing but numbers and the order of the units. -/
theorem swaps (typed : g.WellTyped) (typed' : g'.WellTyped) (hapart : Apart a b) :
    Swaps ρ g g' first second where
  renames := h.renames h'
  preorder := h.preorder typed
  preorder' := by
    rw [List.map_append]
    exact h'.preorder typed'
  lt id := (h.complete id).mp
  operands id node hnode := (List.mem_append.mp ((h.complete id).mpr (lt_size hnode))).elim
    (fun hid => h.shows.isExpression_of_mem_links id hid node hnode)
    fun hid => h.shows'.isExpression_of_mem_links id hid node hnode
  apart _ type hkind := h.apart h' hapart hkind type

end

end Pair

/-- **The two orders of two documents** that declare no type both. The other number of a node is the one
of its counterpart. -/
theorem exists_swaps {a b : String × Document} (hapart : Apart a b) :
    ∃ ρ first second, Swaps ρ (ofDocuments [a, b]) (ofDocuments [b, a]) first second ∧
      ∀ id id', Counterparts (ofDocuments [a, b]) (ofDocuments [b, a]) id id' ↔
        id < (ofDocuments [a, b]).size ∧ id' = ρ id := by
  obtain ⟨u, v, first, second, h⟩ := pair_ofDocuments a b
  obtain ⟨v', u', second', first', h'⟩ := pair_ofDocuments b a
  obtain ⟨ρ, rfl, rfl⟩ := h.exists_rename h'
  exact ⟨ρ, first, second, h.swaps h' (sprouting_ofDocuments _).wellFormed.typed
    (sprouting_ofDocuments _).wellFormed.typed hapart, fun _ _ => h.counterparts_iff h'⟩

end Graph

end ProgramGraph
