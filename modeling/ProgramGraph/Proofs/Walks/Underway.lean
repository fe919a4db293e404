import Mathlib.Data.List.Perm.Subperm
import ProgramGraph.Proofs.Syntax.Growth
import ProgramGraph.Proofs.Walks.Run

set_option autoImplicit false

/-!
# Walks through well-formed graphs

A walk through a well-formed graph visits no node twice, and what is open at a visit is the place
of the node. The handler may let the graph grow; only at the node it is called for may it take
parts away. At the end every node has been visited that is not made up.

## Main definitions

* `ProgramGraph.Walk.Stack` — every node that is still to be visited stands where it will be met.
* `ProgramGraph.Walk.Underway` — a walk that is under way.

## Main results

* `ProgramGraph.Walk.Underway.visit`, `ProgramGraph.Walk.Underway.leave`,
  `ProgramGraph.Walk.Underway.next` — the steps of a walk.
* `ProgramGraph.Walk.Underway.length_le` — there are not more visits than nodes.
* `ProgramGraph.Walk.Underway.complete` — all nodes are visited in the end.
-/

namespace ProgramGraph.Walk

variable {σ : Type}

/-- Every node that is still to be visited stands at the place at which it will be met. -/
def Stack (g : Graph) : List Step → List NodeId → List Descriptor → Prop
  | [], scopes, types => scopes = [] ∧ types = []
  | .enter id :: todo, scopes, types => g.Stands ⟨scopes, types⟩ id ∧ Stack g todo scopes types
  | .leave scope recordType :: todo, scopes, types =>
    Stack g todo (if scope then scopes.tail else scopes) (if recordType then types.tail else types)

/-- Where nodes stay at their places, they are met there. -/
theorem Stack.mono {g g' : Graph} {todo : List Step} {scopes : List NodeId} {types : List Descriptor}
    (h : Stack g todo scopes types) (hstands : ∀ p, ∀ id ∈ entered todo, g.Stands p id → g'.Stands p id) :
    Stack g' todo scopes types := by
  induction todo generalizing scopes types with
  | nil => exact h
  | cons step todo ih =>
    cases step with
    | enter id =>
      refine ⟨hstands _ _ (List.mem_cons_self ..) h.1, ih h.2 fun p other hother => ?_⟩
      exact hstands p other (List.mem_cons_of_mem _ hother)
    | leave _ _ => exact ih h hstands

/-- The parts of a node stand inside it. -/
theorem Stack.parts {g : Graph} {ids : List NodeId} {todo : List Step} {p : Place}
    (h : Stack g todo p.scopes p.types) (hstands : ∀ id ∈ ids, g.Stands p id) :
    Stack g (ids.map .enter ++ todo) p.scopes p.types := by
  induction ids with
  | nil => exact h
  | cons id rest ih =>
    exact ⟨hstands id (List.mem_cons_self ..),
      ih fun other hother => hstands other (List.mem_cons_of_mem _ hother)⟩

/-- A walk through a well-formed graph that is under way, with the nodes visited so far and the
roots still to come. Nodes from a number on are made up. -/
structure Underway (n : Nat) (V rest : List NodeId) (s : State σ) : Prop where
  /-- The graph is well formed. -/
  wellFormed : s.graph.WellFormed []
  /-- What is still to be visited is met at its place. -/
  stack : Stack s.graph s.todo s.scopes s.recordTypes
  /-- Nothing is visited twice. -/
  nodup : (V ++ (entered s.todo ++ rest)).Nodup
  /-- What is met is a root or a part of something visited. -/
  whole : ∀ id ∈ V ++ entered s.todo, id ∈ s.graph.units ∨ ∃ w ∈ V, id ∈ s.graph.parts w
  /-- The roots still to come are units. -/
  roots : ∀ id ∈ rest, id ∈ s.graph.units
  /-- The parts of what was visited are met, unless they are made up. -/
  parts : ∀ w ∈ V, ∀ id ∈ s.graph.parts w, id ∈ V ∨ id ∈ entered s.todo ∨ n ≤ id
  /-- The units are met, unless they are made up. -/
  units : ∀ id ∈ s.graph.units, id ∈ V ∨ id ∈ entered s.todo ∨ id ∈ rest ∨ n ≤ id
  /-- What was visited stands somewhere. -/
  placed : ∀ id ∈ V, ∃ p, s.graph.Stands p id

namespace Underway

variable {n : Nat} {V rest : List NodeId} {s : State σ} {id : NodeId} {todo : List Step}

/-- A walk that begins. -/
theorem start {g : Graph} (wf : g.WellFormed []) (n : Nat) (table : ScopeTable) (carried : σ) :
    Underway n [] g.units { todo := [], table, graph := g, carried } where
  wellFormed := wf
  stack := ⟨rfl, rfl⟩
  nodup := by simpa using wf.tree.roots
  whole _ h := absurd h List.not_mem_nil
  roots _ h := h
  parts _ h := absurd h List.not_mem_nil
  units _ h := Or.inr (Or.inr (Or.inl h))
  placed _ h := absurd h List.not_mem_nil

/-- The node to be visited next is there and stands at the place of the walk. -/
theorem stands (h : Underway n V rest s) (htodo : s.todo = .enter id :: todo) :
    s.graph.Stands s.place id ∧ ∃ node, s.graph.node? id = some node := by
  have hstack := h.stack
  rw [htodo] at hstack
  exact ⟨hstack.1, Graph.exists_node (hstack.1.lt_size h.wellFormed.tree)⟩

/-- The node to be visited next was not visited before. -/
theorem notMem (h : Underway n V rest s) (htodo : s.todo = .enter id :: todo) : id ∉ V := by
  intro hid
  have hnodup := h.nodup
  rw [htodo] at hnodup
  exact (List.nodup_append.mp hnodup).2.2 id hid id (List.mem_cons_self ..) rfl

/-- What is met as a part of a node is met because the node was visited. -/
theorem mem_of_part (h : Underway n V rest s) {whole part : NodeId}
    (hmet : part ∈ V ++ entered s.todo) (hpart : part ∈ s.graph.parts whole) : whole ∈ V := by
  rcases h.whole part hmet with hunit | ⟨other, hother, hpart'⟩
  · exact absurd hpart (h.wellFormed.tree.root_notMem part (List.mem_append_left _ hunit) whole)
  · exact h.wellFormed.tree.whole_unique part whole other hpart hpart' ▸ hother

/-- The scopes around what is met were visited before. -/
theorem scopes_subset (h : Underway n V rest s) {p : Place} {other : NodeId}
    (hp : s.graph.Stands p other) (hother : other ∈ V ++ entered s.todo) : p.scopes ⊆ V := by
  induction hp with
  | unit _ => exact List.nil_subset _
  | @part p w part node _ found hpart ih =>
    have hw := h.mem_of_part hother hpart
    have hscopes := ih (List.mem_append_left _ hw)
    by_cases hopens : node.tag.opens?.isSome
    · rw [Place.scopes_enter_of_opens? hopens]
      exact List.cons_subset.mpr ⟨hw, hscopes⟩
    · rwa [Place.enter_of_opens?_eq_none (by simpa using hopens)]

section Visit

variable {g' : Graph} (h : Underway n V rest s) (htodo : s.todo = .enter id :: todo)
  (grows : s.graph.Grows n g')
  (others : ∀ w, w ≠ id → ∀ part ∈ s.graph.parts w, part ∈ g'.parts w)

include h htodo grows others

/-- What is met stays at its place: the way to it leads through nodes that were visited before, and
these keep their parts. -/
theorem stands_of_grows {p : Place} {other : NodeId} (hp : s.graph.Stands p other)
    (hother : other ∈ V ++ entered s.todo) : g'.Stands p other := by
  induction hp with
  | unit hunit =>
    obtain ⟨new, hnew, -⟩ := grows.units
    exact .unit (hnew ▸ List.mem_append_left _ hunit)
  | @part p w part node _ found hpart ih =>
    have hw := h.mem_of_part hother hpart
    have hne : w ≠ id := fun heq => h.notMem htodo (heq ▸ hw)
    obtain ⟨node', hnode', -⟩ := grows.nodes w node found
    rw [← grows.enter found hnode']
    exact (ih (List.mem_append_left _ hw)).part hnode' (others w hne part hpart)

/-- What was met before a visit is still a root or a part of something visited. -/
theorem whole_of_grows {other : NodeId} (hother : other ∈ V ++ entered s.todo) :
    other ∈ g'.units ∨ ∃ w ∈ V, other ∈ g'.parts w := by
  rcases h.whole other hother with hunit | ⟨w, hw, hpart⟩
  · obtain ⟨new, hnew, -⟩ := grows.units
    exact Or.inl (hnew ▸ List.mem_append_left _ hunit)
  · have hne : w ≠ id := fun heq => h.notMem htodo (heq ▸ hw)
    exact Or.inr ⟨w, hw, others w hne other hpart⟩

/-- The parts of the visited node were not met before. -/
theorem notMem_of_mem_parts (wf' : g'.WellFormed []) {part : NodeId} (hpart : part ∈ g'.parts id) :
    part ∉ V ++ entered s.todo ∧ part ∉ rest := by
  constructor
  · intro hmem
    rcases h.whole_of_grows htodo grows others hmem with hunit | ⟨w, hw, hpart'⟩
    · exact wf'.tree.root_notMem part (List.mem_append_left _ hunit) id hpart
    · obtain rfl := wf'.tree.whole_unique part id w hpart hpart'
      exact h.notMem htodo hw
  · intro hmem
    obtain ⟨new, hnew, -⟩ := grows.units
    have hunit : part ∈ g'.units := hnew ▸ List.mem_append_left _ (h.roots part hmem)
    exact wf'.tree.root_notMem part (List.mem_append_left _ hunit) id hpart

/-- What is met after a visit was met before, or is a part that the handler left. -/
theorem stack_visit {node : Node} (hnode : s.graph.node? id = some node) (carried : σ) :
    Stack g' (visited s id node (g'.parts id) todo g' carried).todo (s.place.enter id node).scopes
      (s.place.enter id node).types := by
  have hstack := h.stack
  rw [htodo] at hstack
  obtain ⟨node', hnode', -⟩ := grows.nodes id node hnode
  have hid : g'.Stands s.place id := by
    refine h.stands_of_grows htodo grows others (h.stands htodo).1 ?_
    rw [htodo]
    exact List.mem_append_right _ (List.mem_cons_self ..)
  refine Stack.parts (p := s.place.enter id node) ?_ fun part hpart => ?_
  · have hrest : Stack g' todo s.place.scopes s.place.types := by
      refine hstack.2.mono fun p other hother hp => h.stands_of_grows htodo grows others hp ?_
      rw [htodo]
      exact List.mem_append_right _ (List.mem_cons_of_mem _ hother)
    rw [← s.place.leave_scopes id node, ← s.place.leave_types id node] at hrest
    exact hrest
  · rw [← grows.enter hnode hnode']
    exact hid.part hnode' hpart

/-- Nothing is visited twice after a visit. -/
theorem nodup_visit (wf' : g'.WellFormed []) :
    (V ++ [id] ++ (g'.parts id ++ entered todo ++ rest)).Nodup := by
  have hnodup := h.nodup
  have hnew : ∀ part ∈ g'.parts id, part ∉ V ++ entered s.todo ∧ part ∉ rest :=
    fun part hpart => h.notMem_of_mem_parts htodo grows others wf' hpart
  rw [htodo] at hnodup hnew
  have hsplit : (V ++ [id] ++ (g'.parts id ++ entered todo ++ rest)).Perm
      (g'.parts id ++ (V ++ (entered (.enter id :: todo) ++ rest))) := by
    rw [entered_enter, List.append_assoc V, List.append_assoc (g'.parts id)]
    refine List.Perm.trans ?_ (List.perm_append_comm_assoc ..)
    have hmiddle : (g'.parts id ++ id :: (entered todo ++ rest)).Perm
        (id :: (g'.parts id ++ (entered todo ++ rest))) := List.perm_middle
    exact hmiddle.symm.append_left V
  rw [hsplit.nodup_iff, List.nodup_append]
  refine ⟨wf'.tree.parts_nodup id, hnodup, ?_⟩
  rintro part hpart other hother rfl
  have hfresh := hnew part hpart
  simp only [List.mem_append] at hfresh hother
  tauto

/-- **A visit.** The walk goes on with the parts that the handler left.

**Proof sketch.** What was to be entered loses the node and gets its parts in front. The conditions are
checked for the other nodes by what held before, since the graph grows and keeps where things stand, and for
the parts of the node by what the handler left. -/
theorem visit (wf' : g'.WellFormed []) {node : Node} (hnode : s.graph.node? id = some node)
    (carried : σ) :
    Underway n (V ++ [id]) rest (visited s id node (g'.parts id) todo g' carried) := by
  have hmet : ∀ {other : NodeId}, other ∈ V ++ entered s.todo ↔
      other ∈ V ∨ other = id ∨ other ∈ entered todo := by
    intro other
    rw [htodo, entered_enter, List.mem_append, List.mem_cons]
  have hstands : ∀ p, ∀ other ∈ V ++ entered s.todo, s.graph.Stands p other → g'.Stands p other :=
    fun _ _ hother hp => h.stands_of_grows htodo grows others hp hother
  have hentered : entered (visited s id node (g'.parts id) todo g' carried).todo =
      g'.parts id ++ entered todo := by
    rw [visited, entered_parts, entered_leave]
  obtain ⟨new, hunits, hle⟩ := grows.units
  refine ⟨wf', h.stack_visit htodo grows others hnode carried, ?_, ?_, ?_, ?_, ?_, ?_⟩
  · rw [hentered]
    exact h.nodup_visit htodo grows others wf'
  · intro other hother
    rw [hentered] at hother
    have hcases : other ∈ V ++ entered s.todo ∨ other ∈ g'.parts id := by
      rw [hmet]
      simp only [List.mem_append, List.mem_singleton] at hother
      tauto
    rcases hcases with hmem | hpart
    · rcases h.whole_of_grows htodo grows others hmem with hunit | ⟨w, hw, hpart⟩
      · exact Or.inl hunit
      · exact Or.inr ⟨w, List.mem_append_left _ hw, hpart⟩
    · exact Or.inr ⟨id, List.mem_append_right _ (List.mem_singleton.mpr rfl), hpart⟩
  · intro other hother
    exact (hunits ▸ List.mem_append_left _ (h.roots other hother) : other ∈ g'.units)
  · intro w hw part hpart
    rw [hentered]
    simp only [List.mem_append, List.mem_singleton] at hw ⊢
    rcases hw with hw | rfl
    · rcases grows.mem_parts_back hpart with hpart | hle
      · have := h.parts w hw part hpart
        rw [htodo, entered_enter, List.mem_cons] at this
        tauto
      · exact Or.inr (Or.inr hle)
    · exact Or.inr (Or.inl (Or.inl hpart))
  · intro unit hunit
    rw [hentered]
    have hunit' : unit ∈ s.graph.units ++ new := hunits ▸ hunit
    simp only [List.mem_append, List.mem_singleton] at hunit' ⊢
    rcases hunit' with hunit' | hunit'
    · have := h.units unit hunit'
      rw [htodo, entered_enter, List.mem_cons] at this
      tauto
    · exact Or.inr (Or.inr (Or.inr (hle unit hunit')))
  · intro other hother
    rcases List.mem_append.mp hother with hother | hother
    · obtain ⟨p, hp⟩ := h.placed other hother
      exact ⟨p, hstands p other (List.mem_append_left _ hother) hp⟩
    · obtain rfl := List.mem_singleton.mp hother
      exact ⟨s.place, hstands _ other (hmet.mpr (Or.inr (Or.inl rfl))) (h.stands htodo).1⟩

end Visit

/-- What was opened is closed. -/
theorem leave (h : Underway n V rest s) {scope recordType : Bool}
    (htodo : s.todo = .leave scope recordType :: todo) :
    Underway n V rest (close s scope recordType todo) := by
  have hentered : entered s.todo = entered todo := by rw [htodo]; rfl
  have hstack := h.stack
  rw [htodo] at hstack
  exact ⟨h.wellFormed, hstack, hentered ▸ h.nodup, hentered ▸ h.whole, h.roots,
    hentered ▸ h.parts, hentered ▸ h.units, h.placed⟩

/-- The next root is taken up. -/
theorem next {root : NodeId} (h : Underway n V (root :: rest) s) (htodo : s.todo = []) :
    Underway n V rest
      { todo := [.enter root], table := s.table, graph := s.graph, carried := s.carried } where
  wellFormed := h.wellFormed
  stack := ⟨.unit (h.roots root (List.mem_cons_self ..)), rfl, rfl⟩
  nodup := by
    have := h.nodup
    rwa [htodo] at this
  whole other hother := by
    have := h.whole other
    rw [htodo] at this
    rcases List.mem_append.mp hother with hother | hother
    · exact this (List.mem_append_left _ hother)
    · obtain rfl := List.mem_singleton.mp hother
      exact Or.inl (h.roots _ (List.mem_cons_self ..))
  roots other hother := h.roots other (List.mem_cons_of_mem _ hother)
  parts w hw part hpart := by
    have := h.parts w hw part hpart
    rw [htodo] at this
    rcases this with hV | hnil | hle
    · exact Or.inl hV
    · exact absurd hnil List.not_mem_nil
    · exact Or.inr (Or.inr hle)
  units unit hunit := by
    have := h.units unit hunit
    rw [htodo] at this
    rcases this with hV | hnil | hrest | hle
    · exact Or.inl hV
    · exact absurd hnil List.not_mem_nil
    · rcases List.mem_cons.mp hrest with rfl | hrest
      · exact Or.inr (Or.inl (List.mem_singleton.mpr rfl))
      · exact Or.inr (Or.inr (Or.inl hrest))
    · exact Or.inr (Or.inr (Or.inr hle))
  placed := h.placed

/-- What was visited is a node. -/
theorem lt_size (h : Underway n V rest s) {other : NodeId} (hother : other ∈ V) :
    other < s.graph.size := by
  rcases h.whole other (List.mem_append_left _ hother) with hunit | ⟨w, -, hpart⟩
  · exact h.wellFormed.tree.root_lt other (List.mem_append_left _ hunit)
  · exact h.wellFormed.tree.part_lt w other hpart

/-- **Few visits.** There are not more visits than nodes. -/
theorem length_le (h : Underway n V rest s) : V.length ≤ s.graph.size := by
  have hnodup : V.Nodup := (List.nodup_append.mp h.nodup).1
  have hsubset : V ⊆ List.range s.graph.size := fun other hother =>
    List.mem_range.mpr (h.lt_size hother)
  calc V.length ≤ (List.range s.graph.size).length := (List.subperm_of_subset hnodup hsubset).length_le
    _ = s.graph.size := List.length_range

/-- **Complete walks.** In the end every node was visited that stands somewhere and is not made
up. -/
theorem complete (h : Underway n V [] s) (htodo : s.todo = []) {g : Graph} (hn : g.size = n)
    (grows : g.Grows n s.graph) {p : Place} {other : NodeId} (hp : s.graph.Stands p other)
    (hother : other < n) : other ∈ V := by
  induction hp with
  | @unit id hunit =>
    rcases h.units id hunit with hV | hnil | hnil | hle
    · exact hV
    · rw [htodo] at hnil
      exact absurd hnil List.not_mem_nil
    · exact absurd hnil List.not_mem_nil
    · exact absurd hother (Nat.not_lt.mpr hle)
  | @part p w part node _ _ hpart ih =>
    have hold : part ∈ g.parts w :=
      (grows.mem_parts_back hpart).resolve_right (Nat.not_le.mpr hother)
    obtain ⟨old, hfound, -⟩ := Graph.exists_node_of_mem_parts hold
    have hw : w < n := hn ▸ Graph.lt_size hfound
    rcases h.parts w (ih hw) part hpart with hV | hnil | hle
    · exact hV
    · rw [htodo] at hnil
      exact absurd hnil List.not_mem_nil
    · exact absurd hother (Nat.not_lt.mpr hle)

end Underway

end ProgramGraph.Walk
