import ProgramGraph.Proofs.Walks.Scopes

set_option autoImplicit false

/-!
# Declarations of scopes

A walk through a graph that does not change enters the value declarations of every scope in order.
When the graph is walked a second time, while it grows, they are all there already, and only
made-up declarations are entered behind them.

## Main definitions

* `ProgramGraph.Walk.pending` — what is still to be declared in a scope.
* `ProgramGraph.Walk.Declares` — what the table holds and what is pending are the declarations.
* `ProgramGraph.ScopeTable.Extends` — a table holds more than another, all of it made up.

## Main results

* `ProgramGraph.Walk.Declares.visit`, `ProgramGraph.Walk.Declares.leave` — the steps of a walk.
* `ProgramGraph.ScopeTable.Extends.mem_declarations` — what is held on a second walk.
* `ProgramGraph.ScopeTable.Extends.note` — a visit on a second walk.
-/

namespace ProgramGraph

namespace Walk

variable {σ : Type}

/-! ## The first walk -/

/-- What is still to be declared in a scope. -/
def pending (g : Graph) (scope : NodeId) : List Step → List NodeId → List NodeId
  | [], _ => []
  | .enter id :: todo, scopes =>
    (if scopes.head? = some scope then g.offers id else []) ++ pending g scope todo scopes
  | .leave opened _ :: todo, scopes =>
    pending g scope todo (if opened then scopes.tail else scopes)

section

variable {g : Graph} {scope : NodeId} {scopes : List NodeId} {todo : List Step}

/-- Nothing more is declared in a scope that is not open. -/
theorem pending_eq_nil (h : scope ∉ scopes) : pending g scope todo scopes = [] := by
  induction todo generalizing scopes with
  | nil => rfl
  | cons step todo ih =>
    cases step with
    | enter id =>
      have hhead : scopes.head? ≠ some scope := fun heq => h (List.mem_of_mem_head? heq)
      rw [pending, if_neg hhead, List.nil_append, ih h]
    | leave opened _ =>
      rw [pending, ih]
      intro hmem
      cases opened with
      | true => exact h (List.mem_of_mem_tail hmem)
      | false => exact h hmem

/-- What the parts of a node are to declare. -/
theorem pending_parts (ids : List NodeId) :
    pending g scope (ids.map .enter ++ todo) scopes =
      (if scopes.head? = some scope then ids.flatMap g.offers else []) ++
        pending g scope todo scopes := by
  induction ids with
  | nil => simp
  | cons id rest ih =>
    rw [List.map_cons, List.cons_append, pending, ih]
    split <;> simp

end

/-- What the table holds of a scope and what is still to be declared there make up its
declarations. -/
structure Declares (V : List NodeId) (s : State σ) : Prop where
  /-- What is held and what is pending. -/
  opened : ∀ scope ∈ V, ∀ tag, s.graph.tag? scope = some tag → tag.opens?.isSome →
    s.table.declarations scope ++ pending s.graph scope s.todo s.scopes = s.graph.declaredIn scope
  /-- Only what was visited is held, and only of scopes that were visited. -/
  held : ∀ scope, ∀ d ∈ s.table.declarations scope, d ∈ V ∧ scope ∈ V ∧
    ∃ tag, s.graph.tag? scope = some tag ∧ tag.opens?.isSome

namespace Declares

variable {n : Nat} {V rest : List NodeId} {s : State σ} {id : NodeId} {todo : List Step}

/-- A walk that begins. -/
theorem start (g : Graph) (carried : σ) :
    Declares [] { todo := [], table := ∅, graph := g, carried } where
  opened _ h := absurd h List.not_mem_nil
  held _ _ h := absurd h List.not_mem_nil

/-- What a node contributes to the scope around it is declared by the visit or by its parts, unless
the parts have a scope of their own.

**Proof sketch.** By cases on the kind of the node. A statement that declares variables opens no scope, and
its parts are variables, each of which offers itself. All others that open no scope have only expressions as
parts, which offer nothing. -/
theorem offers_eq (typed : s.graph.WellTyped) {node : Node} (hnode : s.graph.node? id = some node) :
    s.graph.offers id = (if node.tag.isValueDeclaration then [id] else []) ++
      if node.tag.opens?.isSome then [] else (s.graph.parts id).flatMap s.graph.offers := by
  by_cases hvars : node.tag = .declarationStatement
  · have hparts := typed.parts_of_declarationStatement hnode hvars
    rw [Graph.offers_of_all_var hparts, hvars]
    simp only [Graph.offers, Graph.tag?_eq hnode, hvars]
    rfl
  · have hparts : node.tag.opens?.isSome = false →
        (s.graph.parts id).flatMap s.graph.offers = [] := by
      intro hopens
      refine Graph.offers_of_all_isExpression ?_
      exact typed.parts_of_opens?_eq_none hnode (by simpa using hopens) hvars
    cases hvalue : node.tag.isValueDeclaration with
    | true =>
      rw [Graph.offers_of_isValueDeclaration (Graph.tag?_eq hnode) hvalue]
      cases hopens : node.tag.opens?.isSome <;> simp [hparts, hopens]
    | false =>
      rw [Graph.offers_eq_nil (Graph.tag?_eq hnode) hvalue hvars]
      cases hopens : node.tag.opens?.isSome <;> simp [hparts, hopens]

/-- The innermost open scope was visited before, and it is a scope. -/
theorem exists_scope (hwalk : Underway n V rest s) (htodo : s.todo = .enter id :: todo)
    {scope : NodeId} (hscope : s.place.scopes.head? = some scope) :
    scope ∈ V ∧ ∃ tag, s.graph.tag? scope = some tag ∧ tag.opens?.isSome := by
  have hstands := (hwalk.stands htodo).1
  have hmet : id ∈ V ++ entered s.todo := by
    rw [htodo]
    exact List.mem_append_right _ (List.mem_cons_self ..)
  have hsuffix : scope :: s.place.scopes.tail <:+ s.place.scopes := by
    cases heq : s.place.scopes with
    | nil => simp [heq] at hscope
    | cons first rest =>
      rw [heq] at hscope
      obtain rfl := Option.some.inj hscope
      exact List.suffix_refl _
  obtain ⟨-, -, -, outer, houter, hopens⟩ := hstands.outer hsuffix
  exact ⟨hwalk.scopes_subset hstands hmet (List.mem_of_mem_head? hscope), outer.tag,
    Graph.tag?_eq houter, hopens⟩

/-- **What a node brings** to a scope around it: the node is declared at the visit, and the rest is
pending afterwards, as long as the node does not open a scope itself. -/
theorem offers_visited (typed : s.graph.WellTyped) {node : Node}
    (hnode : s.graph.node? id = some node) {scope : NodeId} (hne : scope ≠ id) :
    ((if s.place.scopes.head? = some scope then
        if node.tag.isValueDeclaration then [id] else [] else []) ++
      if (s.place.enter id node).scopes.head? = some scope then
        (s.graph.parts id).flatMap s.graph.offers else []) =
      if s.place.scopes.head? = some scope then s.graph.offers id else [] := by
  have henter : (s.place.enter id node).scopes.head? = some scope ↔
      node.tag.opens?.isSome = false ∧ s.place.scopes.head? = some scope := by
    cases hopens : node.tag.opens?.isSome with
    | true =>
      rw [Place.scopes_enter_of_opens? hopens]
      simpa using hne.symm
    | false =>
      rw [Place.enter_of_opens?_eq_none (by simpa using hopens)]
      simp
  by_cases hfirst : s.place.scopes.head? = some scope
  · rw [if_pos hfirst, if_pos hfirst, offers_eq typed hnode]
    congr 1
    cases hopens : node.tag.opens?.isSome <;> simp [henter, hopens, hfirst]
  · simp [henter, hfirst]

/-- What the table holds after the visit of a node that was not visited before. -/
theorem declarations_note (h : Declares V s) (hnot : id ∉ V) (node : Node) (scope : NodeId) :
    (note s.table s.place id node).declarations scope = s.table.declarations scope ++
      if s.place.scopes.head? = some scope then
        if node.tag.isValueDeclaration then [id] else [] else [] := by
  have hheld : id ∉ s.table.declarations scope := fun hmem => hnot (h.held scope id hmem).1
  rw [Walk.declarations_note]
  by_cases hscope : s.place.scopes.head? = some scope
  · cases hvalue : node.tag.isValueDeclaration <;> simp [hscope, hheld]
  · simp [hscope]

/-- What is pending after a visit: what the parts of the node will declare, and then what was pending
behind the node. -/
theorem pending_visited (node : Node) (scope : NodeId) (carried : σ) :
    pending s.graph scope (visited s id node (s.graph.parts id) todo s.graph carried).todo
        (visited s id node (s.graph.parts id) todo s.graph carried).scopes =
      (if (s.place.enter id node).scopes.head? = some scope then
        (s.graph.parts id).flatMap s.graph.offers else []) ++
          pending s.graph scope todo s.place.scopes := by
  have hleave := s.place.leave_scopes id node
  rw [visited, pending_parts, pending, hleave]

/-- A node that was not visited before is not an open scope, and nothing is held of it. -/
theorem opened_nothing (h : Declares V s) (hwalk : Underway n V rest s)
    (htodo : s.todo = .enter id :: todo) :
    id ∉ s.place.scopes ∧ s.table.declarations id = [] := by
  have hnot := hwalk.notMem htodo
  refine ⟨fun hmem => hnot (hwalk.scopes_subset (hwalk.stands htodo).1 ?_ hmem), ?_⟩
  · rw [htodo]
    exact List.mem_append_right _ (List.mem_cons_self ..)
  · rw [List.eq_nil_iff_forall_not_mem]
    exact fun d hd => hnot (h.held id d hd).2.1

/-- **A visit** that leaves the graph as it is.

**Proof sketch.** For each scope, what the table holds and what is still to come make up what the scope
declares. The node moves from one to the other if the scope is the innermost one around it, and changes
nothing otherwise. The scope that the node itself opens has everything before it. -/
theorem visit (h : Declares V s) (hwalk : Underway n V rest s) (htodo : s.todo = .enter id :: todo)
    {node : Node} (hnode : s.graph.node? id = some node) (carried : σ) :
    Declares (V ++ [id]) (visited s id node (s.graph.parts id) todo s.graph carried) := by
  have hnot := hwalk.notMem htodo
  refine ⟨fun scope hscope tag htag hopens => ?_, fun scope d hd => ?_⟩
  · change (note s.table s.place id node).declarations scope ++ pending s.graph scope
      (visited s id node (s.graph.parts id) todo s.graph carried).todo
      (visited s id node (s.graph.parts id) todo s.graph carried).scopes = s.graph.declaredIn scope
    change s.graph.tag? scope = some tag at htag
    rw [h.declarations_note hnot, pending_visited]
    rcases List.mem_append.mp hscope with hscope | hscope
    · -- a scope around the node
      have hold := h.opened scope hscope tag htag hopens
      rw [htodo, pending] at hold
      have hoffers := offers_visited hwalk.wellFormed.typed hnode fun heq => hnot (heq ▸ hscope)
      rw [List.append_assoc, ← List.append_assoc (if s.place.scopes.head? = some scope then _ else _),
        hoffers]
      exact hold
    · -- the scope that the node opens
      obtain rfl := List.mem_singleton.mp hscope
      obtain rfl := Option.some.inj ((Graph.tag?_eq hnode).symm.trans htag)
      obtain ⟨hscopes, hnone⟩ := h.opened_nothing hwalk htodo
      have hfirst : s.place.scopes.head? ≠ some scope := fun heq =>
        hscopes (List.mem_of_mem_head? heq)
      rw [hnone, if_neg hfirst, Place.scopes_enter_of_opens? hopens, List.head?_cons, if_pos rfl,
        pending_eq_nil hscopes]
      simp [Graph.declaredIn]
  · change d ∈ (note s.table s.place id node).declarations scope at hd
    rw [h.declarations_note hnot] at hd
    rcases List.mem_append.mp hd with hd | hd
    · obtain ⟨hdV, hscope, hopens⟩ := h.held scope d hd
      exact ⟨List.mem_append_left _ hdV, List.mem_append_left _ hscope, hopens⟩
    · split at hd
      · next hscope =>
        obtain ⟨hmem, hopens⟩ := exists_scope hwalk htodo hscope
        split at hd
        · obtain rfl := List.mem_singleton.mp hd
          exact ⟨List.mem_append_right _ (List.mem_singleton.mpr rfl), List.mem_append_left _ hmem,
            hopens⟩
        · exact absurd hd List.not_mem_nil
      · exact absurd hd List.not_mem_nil

/-- What was opened is closed. -/
theorem leave (h : Declares V s) {scope recordType : Bool}
    (htodo : s.todo = .leave scope recordType :: todo) :
    Declares V (close s scope recordType todo) where
  opened other hother tag htag hopens := by
    have := h.opened other hother tag htag hopens
    rwa [htodo] at this
  held := h.held

/-- The next root is taken up. -/
theorem next {root : NodeId} (h : Declares V s) (htodo : s.todo = []) :
    Declares V { todo := [.enter root], table := s.table, graph := s.graph, carried := s.carried } where
  opened scope hscope tag htag hopens := by
    have := h.opened scope hscope tag htag hopens
    rwa [htodo] at this
  held := h.held

end Declares

end Walk

/-! ## The second walk -/

namespace ScopeTable

/-- The table holds the declarations of all scopes of a graph. -/
structure Holds (t : ScopeTable) (g : Graph) : Prop where
  /-- The declarations of every scope are held. -/
  complete : ∀ p scope tag, g.Stands p scope → g.tag? scope = some tag → tag.opens?.isSome →
    t.declarations scope = g.declaredIn scope
  /-- Nothing else is held. -/
  sound : ∀ scope, ∀ d ∈ t.declarations scope, ∃ p tag, g.Stands p scope ∧
    g.tag? scope = some tag ∧ tag.opens?.isSome

/-- A table holds what another holds, and behind it made-up fields. -/
def Extends (n : Nat) (old t : ScopeTable) (g : Graph) : Prop :=
  ∀ scope, ∃ new, t.declarations scope = old.declarations scope ++ new ∧
    ∀ d ∈ new, n ≤ d ∧ g.tag? d = some .field ∧ ∃ p, g.Stands p d ∧ p.scopes.head? = some scope

variable {n : Nat} {old t : ScopeTable} {g g' : Graph} {loose loose' : List NodeId} {p : Place}
  {id scope : NodeId}

/-- Every table extends itself. -/
theorem Extends.refl (n : Nat) (t : ScopeTable) (g : Graph) : Extends n t t g := fun _ =>
  ⟨[], (List.append_nil _).symm, fun _ h => absurd h List.not_mem_nil⟩

/-- An extended table stays one in a growing graph. -/
theorem Extends.grows (h : Extends n old t g) (hgrows : g.Grows n g') : Extends n old t g' := by
  intro scope
  obtain ⟨new, hnew, hfields⟩ := h scope
  refine ⟨new, hnew, fun d hd => ?_⟩
  obtain ⟨hle, htag, q, hq, hhead⟩ := hfields d hd
  exact ⟨hle, hgrows.tag? htag, q, hgrows.stands_of_tag? hq htag (by decide), hhead⟩

/-- Where a value declaration stands that is not made up, it is held. -/
theorem Holds.mem_declarations (h : t.Holds g) (wf : g.WellFormed loose) (hp : g.Stands p id)
    (hid : g.All Tag.isValueDeclaration [id]) (hscope : p.scopes.head? = some scope) :
    id ∈ t.declarations scope := by
  obtain ⟨scope', scopes, hscopes, hmem⟩ := wf.mem_declaredIn hid hp
  rw [hscopes] at hscope
  obtain rfl := Option.some.inj hscope
  obtain ⟨q, hq, -, node, hnode, hopens⟩ := hp.outer ⟨[], hscopes.symm⟩
  rwa [h.complete q _ _ hq (Graph.tag?_eq hnode) hopens]

/-- **What is held on a second walk** are value declarations that stand directly in the scope. -/
theorem Extends.mem_declarations (h : Extends n old t g') (hold : old.Holds g)
    (wf : g.WellFormed loose) (hgrows : g.Grows n g') {d : NodeId} (hd : d ∈ t.declarations scope) :
    g'.All Tag.isValueDeclaration [d] ∧ ∃ q, g'.Stands q d ∧ q.scopes.head? = some scope := by
  obtain ⟨new, hnew, hfields⟩ := h scope
  rw [hnew] at hd
  rcases List.mem_append.mp hd with hd | hd
  · obtain ⟨p, tag, hp, htag, hopens⟩ := hold.sound scope d hd
    rw [hold.complete p scope tag hp htag hopens] at hd
    obtain ⟨node, hnode, rfl⟩ := Graph.exists_node_of_tag? htag
    obtain ⟨hvalue, hq⟩ := wf.stands_of_mem_declaredIn hp hnode hd
    obtain ⟨kind, hkind, hk⟩ := hvalue d (List.mem_singleton.mpr rfl)
    refine ⟨hvalue.keep hgrows.keeps, _, hgrows.stands_of_tag? hq hkind ?_, ?_⟩
    · rintro rfl
      exact absurd hk (by decide)
    · rw [Place.scopes_enter_of_opens? hopens]
      rfl
  · obtain ⟨-, htag, q, hq, hhead⟩ := hfields d hd
    exact ⟨.single htag rfl, q, hq, hhead⟩

/-- **A visit on a second walk.** Only made-up fields are entered.

**Proof sketch.** A declaration that was there before is held already, as the first walk came to it too. One
that was not is made up, and the only made-up value declarations are fields. -/
theorem Extends.note (h : Extends n old t g') (hold : old.Holds g) (wf : g.WellFormed loose)
    (hn : g.size = n) (hgrows : g.Grows n g') (hp : g'.Stands p id) {node : Node}
    (hnode : g'.node? id = some node) : Extends n old (Walk.note t p id node) g' := by
  intro scope
  obtain ⟨new, hnew, hfields⟩ := h scope
  rw [Walk.declarations_note]
  split
  · next hcase =>
    obtain ⟨hvalue, hhead, hnot⟩ := hcase
    rcases Nat.lt_or_ge id n with hlt | hge
    · -- it is held already
      have hp' := hgrows.stands_back (Nat.le_of_eq hn) hp hlt
      obtain ⟨node', hnode'⟩ := Graph.exists_node (hn ▸ hlt : id < g.size)
      have htag := hgrows.tag? (Graph.tag?_eq hnode')
      rw [Graph.tag?_eq hnode, Option.some.injEq] at htag
      rw [htag] at hvalue
      have hheld := hold.mem_declarations wf hp'
        (Graph.All.single (Graph.tag?_eq hnode') hvalue) hhead
      exact absurd (hnew ▸ List.mem_append_left _ hheld) hnot
    · refine ⟨new ++ [id], by rw [hnew, List.append_assoc], fun d hd => ?_⟩
      rcases List.mem_append.mp hd with hd | hd
      · exact hfields d hd
      · obtain rfl := List.mem_singleton.mp hd
        have hmade := (hgrows.fresh d node (hn ▸ hge) hnode).2
        refine ⟨hge, ?_, p, hp, hhead⟩
        rw [Graph.tag?_eq hnode, Node.tag]
        rw [Node.tag] at hvalue
        generalize node.payload = payload at hmade hvalue
        cases hmade with
        | unit _ => simp [Payload.tag, Tag.isValueDeclaration] at hvalue
        | record _ => simp [Payload.tag, Tag.isValueDeclaration] at hvalue
        | field => rfl
  · exact ⟨new, hnew, hfields⟩

end ScopeTable

end ProgramGraph
