import ProgramGraph.Proofs.Building.Documents
import ProgramGraph.Proofs.Resolution.Links
import ProgramGraph.Proofs.Walks.Recursion
import ProgramGraph.Proofs.Walks.Scopes

set_option autoImplicit false

/-!
# Exact tables of scopes

At every visit of a walk the table of scopes holds exactly what was visited so far: for every scope its
kind and the scope around it, and the value declarations made directly in it, in the order of the
visits. So a name is looked up where it should be: the answer is the earliest declaration of the name in
the innermost scope that has one. A second walk finds everything in the table already.

## Main definitions

* `ProgramGraph.Graph.Belongs` — a value declaration is made directly in a scope.
* `ProgramGraph.ScopeTable.Exact` — the table holds exactly what was visited.
* `ProgramGraph.ScopeTable.Answers` — what the table answers for a list of scopes.
* `ProgramGraph.Walk.Call.Answered` — a visit at which the table answers for the scopes around the node,
  `ProgramGraph.Walk.Answering` — two walks at whose visits it does.

## Main results

* `ProgramGraph.ScopeTable.Exact.note`, `ProgramGraph.ScopeTable.Exact.note_eq` — a first visit, and a
  second one.
* `ProgramGraph.ScopeTable.Exact.answers` — what an exact table answers.
* `ProgramGraph.walkAll_watching` — the invariant rule for walks that only watch.
* `ProgramGraph.walkAll_answers` — walks through graphs that are built from documents.
-/

namespace ProgramGraph

/-- Setting the value that a key has. -/
theorem Assoc.put_of_get? {κ ν : Type} [DecidableEq κ] {m : Assoc κ ν} {key : κ} {value : ν}
    (h : m.get? key = some value) : m.put key value = m := by
  obtain ⟨entries⟩ := m
  simp only [get?, put, Assoc.mk.injEq] at h ⊢
  induction entries with
  | nil => cases h
  | cons p rest ih =>
    obtain ⟨k, v⟩ := p
    rw [find] at h
    rw [replace]
    by_cases hk : k = key
    · rw [if_pos hk] at h ⊢
      rw [Option.some.inj h]
    · rw [if_neg hk] at h ⊢
      rw [ih h]

/-! ## Exact tables -/

/-- A value declaration belongs to a scope if no other scope around it is nearer. -/
def Graph.Belongs (g : Graph) (scope d : NodeId) : Prop :=
  g.All Tag.isValueDeclaration [d] ∧ ∃ p, g.Stands p d ∧ p.scopes.head? = some scope

/-- Where a node stands decides which scope it belongs to. -/
theorem Graph.Stands.belongs_iff {g : Graph} {loose : List NodeId} {p : Place} {scope id : NodeId}
    {node : Node} (h : g.Stands p id) (tree : g.Tree loose) (hnode : g.node? id = some node) :
    g.Belongs scope id ↔ node.tag.isValueDeclaration = true ∧ p.scopes.head? = some scope := by
  constructor
  · rintro ⟨hvalue, q, hq, hhead⟩
    obtain ⟨tag, htag, hk⟩ := hvalue id (List.mem_singleton.mpr rfl)
    obtain rfl := Option.some.inj ((tag?_eq hnode).symm.trans htag)
    obtain rfl := hq.unique tree h
    exact ⟨hk, hhead⟩
  · rintro ⟨hvalue, hhead⟩
    exact ⟨.single (tag?_eq hnode) hvalue, p, h, hhead⟩

namespace ScopeTable

open Classical in
/-- The table holds exactly what was visited, in the order of the visits. -/
structure Exact (t : ScopeTable) (g : Graph) (visited : List NodeId) : Prop where
  /-- The scopes around scopes. -/
  nests : t.Nests g visited
  /-- The kinds of the scopes. -/
  kinds : ∀ scope ∈ visited, ∀ tag kind, g.tag? scope = some tag → tag.opens? = some kind →
    t.kind? scope = some kind
  /-- The declarations of every scope. -/
  declared : ∀ scope, t.declarations scope = visited.filter fun d => g.Belongs scope d

variable {t : ScopeTable} {g : Graph} {visited loose : List NodeId} {p : Place} {id : NodeId} {node : Node}

/-- The kinds of scopes after a visit. -/
theorem kind?_note (t : ScopeTable) (p : Place) (id : NodeId) (node : Node) (scope : NodeId) :
    (Walk.note t p id node).kind? scope =
      if scope = id then node.tag.opens? <|> t.kind? scope else t.kind? scope := by
  have hdeclare : ∀ (t : ScopeTable) (outer : NodeId), (t.declare outer id).kind? scope = t.kind? scope := by
    intro t outer
    unfold declare
    split <;> rfl
  have henter : ∀ (t : ScopeTable) (parent : Option NodeId) (kind : ScopeKind),
      (t.enter id parent kind).kind? scope = if scope = id then some kind else t.kind? scope :=
    fun t parent kind => Assoc.get?_put ..
  unfold Walk.note
  cases node.tag.isValueDeclaration <;> cases p.scopes <;> cases node.tag.opens? <;>
    simp [hdeclare, henter]

namespace Exact

/-- Nothing was visited. -/
theorem start (g : Graph) : (∅ : ScopeTable).Exact g [] where
  nests := by
    refine ⟨fun scope outer h => ?_, fun _ h => absurd h List.not_mem_nil⟩
    exact nomatch (show none = some outer from h)
  kinds _ h := absurd h List.not_mem_nil
  declared _ := rfl

/-- **A first visit** keeps the table exact. -/
theorem note (h : t.Exact g visited) (tree : g.Tree loose) (hp : g.Stands p id)
    (hnode : g.node? id = some node) (hnew : id ∉ visited) :
    (Walk.note t p id node).Exact g (visited ++ [id]) where
  nests := h.nests.note tree hp hnode
  kinds scope hscope tag kind htag hopens := by
    rw [kind?_note]
    split
    · next heq =>
      obtain rfl := Option.some.inj ((Graph.tag?_eq hnode).symm.trans (heq ▸ htag))
      rw [hopens]
      rfl
    · next hne =>
      have hscope' := (List.mem_append.mp hscope).resolve_right fun h => hne (List.mem_singleton.mp h)
      exact h.kinds scope hscope' tag kind htag hopens
  declared scope := by
    have hheld : id ∉ t.declarations scope := by
      rw [h.declared]
      exact fun hmem => hnew (List.mem_filter.mp hmem).1
    rw [Walk.declarations_note, List.filter_append, ← h.declared]
    by_cases hbelongs : g.Belongs scope id
    · obtain ⟨hvalue, hhead⟩ := (hp.belongs_iff tree hnode).mp hbelongs
      rw [if_pos ⟨hvalue, hhead, hheld⟩, List.filter_cons_of_pos (by simpa using hbelongs), List.filter_nil]
    · rw [if_neg fun hcase => hbelongs ((hp.belongs_iff tree hnode).mpr ⟨hcase.1, hcase.2.1⟩),
        List.filter_cons_of_neg (by simpa using hbelongs), List.filter_nil, List.append_nil]

/-- **A second visit** leaves an exact table as it is.

**Proof sketch.** Whatever a visit could enter is there, as the table is exact and the node was visited
before: the declaration in its scope, or the kind and the parent of the scope. To enter it once more changes
nothing. -/
theorem note_eq (h : t.Exact g visited) (tree : g.Tree loose) (hp : g.Stands p id)
    (hnode : g.node? id = some node) (hold : id ∈ visited) : Walk.note t p id node = t := by
  -- whatever could be entered is there
  have hdeclare : ∀ scope, node.tag.isValueDeclaration = true → p.scopes.head? = some scope →
      t.declare scope id = t := by
    intro scope hvalue hhead
    have hbelongs := (hp.belongs_iff tree hnode).mpr ⟨hvalue, hhead⟩
    have hmem : id ∈ t.declarations scope := by
      rw [h.declared]
      exact List.mem_filter.mpr ⟨hold, by simpa using hbelongs⟩
    rw [declare, if_pos (by simpa [declares] using hmem)]
  have henter : ∀ kind, node.tag.opens? = some kind → t.enter id p.scopes.head? kind = t := by
    intro kind hopens
    have hkind := h.kinds id hold _ _ (Graph.tag?_eq hnode) hopens
    have hparent := h.nests.complete id hold p _ hp (Graph.tag?_eq hnode) (by rw [hopens]; rfl)
    have hkinds : t.kinds.put id kind = t.kinds := Assoc.put_of_get? hkind
    cases hhead : p.scopes.head? with
    | none => simp only [enter, hkinds]
    | some outer =>
      have hparents : t.parents.put id outer = t.parents := Assoc.put_of_get? (hparent.trans hhead)
      simp only [enter, hkinds, hparents]
  obtain ⟨scopes, types⟩ := p
  unfold Walk.note
  cases hopens : node.tag.opens? <;> cases hvalue : node.tag.isValueDeclaration <;>
    cases scopes <;> simp_all

end Exact

end ScopeTable

/-! ## What an exact table answers -/

/-- A scope around what is inside a node stands in the scopes that are farther out. -/
theorem Graph.Stands.outer_enter {g : Graph} {p : Place} {id scope : NodeId} {node : Node}
    {scopes : List NodeId} (h : g.Stands p id) (hnode : g.node? id = some node)
    (hsuffix : scope :: scopes <:+ (p.enter id node).scopes) : ∃ q, g.Stands q scope ∧ q.scopes = scopes ∧
      ∃ node, g.node? scope = some node ∧ node.tag.opens?.isSome := by
  by_cases hopens : node.tag.opens?.isSome
  · rw [Place.scopes_enter_of_opens? hopens, List.suffix_cons_iff] at hsuffix
    rcases hsuffix with heq | hsuffix
    · obtain ⟨rfl, rfl⟩ := List.cons.inj heq
      exact ⟨p, h, rfl, node, hnode, hopens⟩
    · exact h.outer hsuffix
  · rw [Place.enter_of_opens?_eq_none (by simpa using hopens)] at hsuffix
    exact h.outer hsuffix

open Classical in
/-- What a table answers for the scopes of a list, innermost first, if some nodes were visited. -/
structure ScopeTable.Answers (t : ScopeTable) (g : Graph) (visited scopes : List NodeId) : Prop where
  /-- The declarations of a scope are those visited that belong to it. -/
  declarations : ∀ scope ∈ scopes, t.declarations scope = visited.filter fun d => g.Belongs scope d
  /-- Each scope is the one around the scope before, and around the last there is none. -/
  linked : t.Linked scopes
  /-- So the chain of a scope ends with the last one. -/
  chain : ∀ scope outer, scope :: outer <:+ scopes → t.chain scope = scope :: outer
  /-- A name is looked up in one scope after the other, and in each the earliest declaration counts. -/
  lookup : ∀ scope outer name, scope :: outer <:+ scopes → t.lookup g scope name =
    .ok ((scope :: outer).findSome? fun scope =>
      visited.find? fun d => g.Belongs scope d ∧ g.name? d = some name)

namespace ScopeTable.Exact

variable {t : ScopeTable} {g : Graph} {visited loose : List NodeId} {p : Place} {id : NodeId} {node : Node}

open Classical in
/-- **Looking up a name** in an exact table. -/
theorem lookup_eq (h : t.Exact g visited) (hvisited : ∀ id ∈ visited, id < g.size) {scope : NodeId}
    {scopes : List NodeId} (hchain : t.chain scope = scopes) (name : String) : t.lookup g scope name =
      .ok (scopes.findSome? fun scope =>
        visited.find? fun d => g.Belongs scope d ∧ g.name? d = some name) := by
  have hlt : ∀ d ∈ t.visible scope, d < g.size := by
    intro d hd
    obtain ⟨other, -, hd⟩ := List.mem_flatMap.mp hd
    rw [h.declared] at hd
    exact hvisited d (List.mem_filter.mp hd).1
  have hname : ∀ scope, (t.declarations scope).find? (g.isNamed name) =
      visited.find? fun d => g.Belongs scope d ∧ g.name? d = some name := by
    intro scope
    rw [h.declared, List.find?_filter]
    congr 1
    funext d
    simp [Graph.isNamed]
  rw [lookup, Graph.firstNamed_eq hlt, visible, hchain, List.find?_flatMap]
  simp only [hname]

/-- **What an exact table answers** for the scopes around what is inside a node. -/
theorem answers (h : t.Exact g visited) (tree : g.Tree loose) (hvisited : ∀ id ∈ visited, id < g.size)
    (hp : g.Stands p id) (hnode : g.node? id = some node) (hknown : (p.enter id node).scopes ⊆ visited) :
    t.Answers g visited (p.enter id node).scopes := by
  have hinner : ∀ scope outer, scope :: outer <:+ (p.enter id node).scopes →
      t.Linked (scope :: outer) ∧ t.chain scope = scope :: outer := by
    intro scope outer hsuffix
    obtain ⟨q, hq, rfl, node', hnode', hopens⟩ := hp.outer_enter hnode hsuffix
    have hsubset := List.Subset.trans hsuffix.subset hknown
    exact ⟨h.nests.linked hq (Graph.tag?_eq hnode') hopens hsubset,
      h.nests.chain_scope tree hq (Graph.tag?_eq hnode') hopens hsubset⟩
  refine ⟨fun scope _ => h.declared scope, ?_, fun scope outer hsuffix => (hinner scope outer hsuffix).2,
    fun scope outer name hsuffix => h.lookup_eq hvisited (hinner scope outer hsuffix).2 name⟩
  cases hscopes : (p.enter id node).scopes with
  | nil => trivial
  | cons scope outer => exact (hinner scope outer (hscopes ▸ List.suffix_refl _)).1

end ScopeTable.Exact

/-! ## Walks that only watch -/

namespace Walk

variable {σ : Type} {g : Graph}

/-- Which nodes calls are about. -/
def visits (calls : List (Call σ)) : List NodeId := calls.map fun call => call.visit.node

/-- A call tells the handler where the node stands, and the table has a property that depends on what was
visited. -/
structure Call.Tells (g : Graph) (Q : List NodeId → ScopeTable → Prop) (before : List (Call σ))
    (call : Call σ) (p : Place) (node : Node) : Prop where
  /-- The graph is as it was. -/
  graph : call.graph = g
  /-- The node stands at a place. -/
  stands : g.Stands p call.visit.node
  /-- The node is there. -/
  found : g.node? call.visit.node = some node
  /-- The handler is told about the node. -/
  visit : call.visit = visitOf p call.visit.node node
  /-- The scopes around the node were visited. -/
  scopes : (p.enter call.visit.node node).scopes ⊆ visits (before ++ [call])
  /-- The table has the property. -/
  table : Q (visits (before ++ [call])) call.table

/-- The scope that the handler is told is the innermost one. -/
theorem Call.Tells.scope_eq {Q : List NodeId → ScopeTable → Prop} {before : List (Call σ)} {call : Call σ}
    {p : Place} {node : Node} {scope : NodeId} {outer : List NodeId} (h : call.Tells g Q before p node)
    (hscopes : (p.enter call.visit.node node).scopes = scope :: outer) : call.visit.scope = some scope := by
  rw [h.visit, visitOf, hscopes]
  rfl

/-- A walk through a graph that only watches it, and remembers its calls. -/
structure Watching (g : Graph) (Q : List NodeId → ScopeTable → Prop) (V rest : List NodeId)
    (s : State (σ × List (Call σ))) : Prop where
  /-- The walk is under way. -/
  walk : Underway g.size V rest s
  /-- The graph stays. -/
  graph : s.graph = g
  /-- The calls are remembered. -/
  calls : visits s.carried.2 = V
  /-- The table has the property. -/
  table : Q V s.table
  /-- What was visited begins the preorder. -/
  preorder : ∀ after, Preorder g.parts (entered s.todo ++ rest) after →
    Preorder g.parts g.units (V ++ after)
  /-- It had it at every call. -/
  told : ∀ before call after, s.carried.2 = before ++ call :: after →
    ∃ p node, call.Tells g Q before p node

/-- The nodes of some calls are among those of more calls. -/
theorem visits_subset {calls more : List (Call σ)} (h : calls ⊆ more) : visits calls ⊆ visits more :=
  List.map_subset _ h

/-- What holds of every element and those before it holds still if it holds of a new one. -/
theorem forall_split_append {α : Type} {P : List α → α → Prop} {l : List α} {a : α}
    (h : ∀ before b after, l = before ++ b :: after → P before b) (ha : P l a) :
    ∀ before b after, l ++ [a] = before ++ b :: after → P before b := by
  intro before b after heq
  rcases List.eq_nil_or_concat after with rfl | ⟨rest, last, rfl⟩
  · obtain ⟨rfl, hlast⟩ := List.append_inj' heq rfl
    obtain rfl := List.singleton_inj.mp hlast
    exact ha
  · rw [List.concat_eq_append, ← List.cons_append, ← List.append_assoc] at heq
    exact h before b rest (List.append_inj' heq rfl).1

/-- The scopes around what is inside the node that is visited next are visited then. -/
theorem Underway.scopes_enter_subset {n : Nat} {V rest : List NodeId} {s : State σ} {id : NodeId}
    {todo : List Step} {p : Place} (h : Underway n V rest s) (htodo : s.todo = .enter id :: todo)
    (hp : s.graph.Stands p id) (node : Node) : (p.enter id node).scopes ⊆ V ++ [id] := by
  have hmet : id ∈ V ++ entered s.todo := by
    rw [htodo]
    exact List.mem_append_right _ List.mem_cons_self
  have hscopes : p.scopes ⊆ V ++ [id] :=
    List.Subset.trans (h.scopes_subset hp hmet) (List.subset_append_left _ _)
  by_cases hopens : node.tag.opens?.isSome
  · rw [Place.scopes_enter_of_opens? hopens]
    exact List.cons_subset.mpr ⟨List.mem_append_right _ (List.mem_singleton.mpr rfl), hscopes⟩
  · rwa [Place.enter_of_opens?_eq_none (by simpa using hopens)]

/-- The invariant of a walk that only watches.

**Proof sketch.** The handler leaves the graph alone, so that the walk goes on over the same trees. A visit
adds one call to the record, which holds the table at that moment, and of this all that is known of a first
visit is true. -/
theorem watching_keeps {observe : ScopeTable → Visit → Graph → σ → σ} {Q : List NodeId → ScopeTable → Prop}
    (step : ∀ {V t p id node}, Q V t → id ∉ V → g.Stands p id → g.node? id = some node →
      Q (V ++ [id]) (note t p id node)) :
    Keeps (Handler.watching observe).recorded g.size (Watching g Q) where
  enter {V rest s id todo} h htodo := by
    obtain ⟨hstands, node, hnode⟩ := h.walk.stands htodo
    obtain rfl := h.graph
    have htable := step h.table (h.walk.notMem htodo) hstands hnode
    let call : Call σ := ⟨note s.table s.place id node, visitOf s.place id node, s.graph, s.carried.1⟩
    have hvisits : visits (s.carried.2 ++ [call]) = V ++ [id] := by
      rw [← h.calls, visits, List.map_append]
      rfl
    refine ⟨node, s.graph.parts id, s.graph, (_, s.carried.2 ++ [call]),
      visit_eq hnode rfl (h.walk.wellFormed.typed.children_eq hnode), ?_⟩
    have hwalk := h.walk.visit htodo (.refl _ _) (fun _ _ _ hpart => hpart) h.walk.wellFormed hnode
      (observe call.table call.visit s.graph s.carried.1, s.carried.2 ++ [call])
    exact ⟨hwalk, rfl, hvisits, htable, preorder_visited h.preorder htodo rfl, forall_split_append h.told
      ⟨s.place, node, rfl, hstands, hnode, rfl, hvisits ▸ h.walk.scopes_enter_subset htodo hstands node,
        hvisits ▸ htable⟩⟩
  leave {V rest s scope recordType todo} h htodo := by
    refine ⟨h.walk.leave htodo, h.graph, h.calls, h.table, ?_, h.told⟩
    have := h.preorder
    rwa [htodo] at this
  next {V root rest s} h htodo := by
    refine ⟨h.walk.next htodo, h.graph, h.calls, h.table, ?_, h.told⟩
    have := h.preorder
    rwa [htodo] at this
  visits {V rest s} h := by
    have := h.walk.length_le
    rwa [h.graph] at this
  steps {V rest s} h := by
    have := le_stepBound s.graph
    rw [h.graph] at this ⊢
    omega

end Walk

open Walk

/-- **The rule for walks that only watch.** If a property of the table and of what was visited holds at the
start and is kept by every first visit, then the walk ends, the property holds at every call and at the
end, and the nodes that stand somewhere were visited once each, in preorder. -/
theorem walkAll_watching {σ : Type} {g : Graph} (wf : g.WellFormed [])
    (observe : ScopeTable → Visit → Graph → σ → σ) {Q : List NodeId → ScopeTable → Prop} {t : ScopeTable}
    (start : Q [] t)
    (step : ∀ {V t p id node}, Q V t → id ∉ V → g.Stands p id → g.node? id = some node →
      Q (V ++ [id]) (note t p id node)) (carried : σ) :
    ∃ t' c calls, walkAll (Handler.watching observe).recorded t g (carried, []) g.units =
        .ok (t', g, c, calls) ∧ Q (visits calls) t' ∧ (visits calls).Nodup ∧
      (∀ p id, g.Stands p id → id ∈ visits calls) ∧ Preorder g.parts g.units (visits calls) ∧
        ∀ before call after, calls = before ++ call :: after → ∃ p node, call.Tells g Q before p node := by
  have hstart : Watching g Q [] g.units { todo := [], table := t, graph := g, carried := (carried, []) } :=
    ⟨.start wf _ _ _, rfl, rfl, start, fun _ hafter => hafter, fun before call after heq => by simp at heq⟩
  obtain ⟨V, s, hwalk, htodo, hend⟩ := (watching_keeps step).walkAll hstart rfl
  have hgraph := hend.graph
  subst hgraph
  obtain rfl := hend.calls
  refine ⟨s.table, s.carried.1, s.carried.2, hwalk, hend.table, (List.nodup_append.mp hend.walk.nodup).1,
    fun p id hp => ?_, ?_, hend.told⟩
  · exact hend.walk.complete htodo rfl (.refl _ _) hp (hp.lt_size wf.tree)
  · have hpreorder := hend.preorder []
    rw [htodo] at hpreorder
    simpa using hpreorder .nil

/-- There is a scope around what is inside a node. -/
theorem Graph.Stands.exists_scope {g : Graph} (typed : g.WellTyped) {p : Place} {id : NodeId} {node : Node}
    (h : g.Stands p id) (hnode : g.node? id = some node) :
    ∃ scope outer, (p.enter id node).scopes = scope :: outer := by
  by_cases hopens : node.tag.opens?.isSome
  · exact ⟨id, p.scopes, Place.scopes_enter_of_opens? hopens⟩
  · rw [Place.enter_of_opens?_eq_none (by simpa using hopens)]
    refine List.exists_cons_of_ne_nil fun hnone => hopens ?_
    have htag := typed.units.tag_eq (h.mem_units typed hnone)
    rw [tag?_eq hnode, Option.some.injEq] at htag
    rw [htag]
    rfl

/-! ## Walks through documents -/

namespace Walk

variable {σ τ : Type} {g : Graph} {t : ScopeTable} {visited : List NodeId}

/-- At the visit of a node, a table answers for the scopes around what is inside the node as some visited
nodes demand. -/
inductive Call.Answered (g : Graph) (t : ScopeTable) (visited : List NodeId) (call : Call σ) : Prop where
  /-- The innermost of these scopes is the one that the handler is told. -/
  | intro {p : Place} {node : Node} {scope : NodeId} {outer : List NodeId}
    (stands : g.Stands p call.visit.node) (found : g.node? call.visit.node = some node)
    (scopes : (p.enter call.visit.node node).scopes = scope :: outer)
    (told : call.visit.scope = some scope) (answers : t.Answers g visited (scope :: outer))

/-- A table that holds exactly what was visited answers at a visit, if the scopes around it were visited. -/
theorem Call.Tells.answered {Q : List NodeId → ScopeTable → Prop} {before : List (Call σ)} {call : Call σ}
    {p : Place} {node : Node} (h : call.Tells g Q before p node) (wf : g.WellFormed [])
    (hexact : t.Exact g visited) (hlt : ∀ id ∈ visited, id < g.size)
    (hknown : (p.enter call.visit.node node).scopes ⊆ visited) : call.Answered g t visited := by
  obtain ⟨scope, outer, hscopes⟩ := h.stands.exists_scope wf.typed h.found
  have hanswers := hexact.answers wf.tree hlt h.stands h.found hknown
  exact .intro h.stands h.found hscopes (h.scope_eq hscopes) (hscopes ▸ hanswers)

/-- The visits of a walk that begins with an empty table, and of a second walk with the table that the
first one leaves. -/
structure Answering (g : Graph) (t : ScopeTable) (calls : List (Call σ)) (calls' : List (Call τ)) :
    Prop where
  /-- Each node is visited once. -/
  nodup : (visits calls).Nodup
  /-- At each visit the table answers as the nodes demand that were visited so far. -/
  first : ∀ before call after, calls = before ++ call :: after →
    call.Answered g call.table (visits (before ++ [call]))
  /-- The second walk visits the same nodes in the same order, -/
  visits : visits calls' = visits calls
  /-- and never changes the table, -/
  table : ∀ call ∈ calls', call.table = t
  /-- which answers as all nodes demand. -/
  second : ∀ call ∈ calls', call.Answered g t (Walk.visits calls)

end Walk

/-- **Tables of scopes are exact.** Whatever documents a graph was built from, a walk through its units
that starts with an empty table and only watches visits every node once. At every visit the table
answers for the scopes around the node, the innermost of which is the scope that the handler is told,
exactly as the nodes visited so far demand. A second walk leaves the table as it is, and at each of
its visits the table answers as all nodes demand.

**Proof sketch.** A table is exact if it holds just what the visited nodes demand. The empty table is exact
before the first visit, and every first visit keeps it so, while a visit of a node that was visited before
changes nothing. An exact table answers as its nodes demand, for every list of scopes among them; and when a
node is visited, so are the scopes around it. -/
theorem walkAll_answers (documents : List (String × Document)) {σ τ : Type}
    (observe : ScopeTable → Visit → Graph → σ → σ) (again : ScopeTable → Visit → Graph → τ → τ)
    (carried : σ) (later : τ) : ∃ t c c' calls calls',
      walkAll (Handler.watching observe).recorded ∅ (Graph.ofDocuments documents) (carried, [])
        (Graph.ofDocuments documents).units = .ok (t, Graph.ofDocuments documents, c, calls) ∧
      walkAll (Handler.watching again).recorded t (Graph.ofDocuments documents) (later, [])
        (Graph.ofDocuments documents).units = .ok (t, Graph.ofDocuments documents, c', calls') ∧
      Answering (Graph.ofDocuments documents) t calls calls' := by
  have wf := (Graph.sprouting_ofDocuments documents).wellFormed
  generalize Graph.ofDocuments documents = g at *
  obtain ⟨t, c, calls, hwalk, hexact, hnodup, hall, hpreorder, htold⟩ :=
    walkAll_watching wf observe (Q := fun V t => t.Exact g V) (.start g)
      (fun h hnew hp hnode => h.note wf.tree hp hnode hnew) carried
  obtain ⟨t', c', calls', hwalk', rfl, -, -, hpreorder', htold'⟩ :=
    walkAll_watching wf again (Q := fun V t' => t' = t) rfl
      (fun h _ hp hnode => by rw [h, hexact.note_eq wf.tree hp hnode (hall _ _ hp)]) later
  have hvisits : visits calls' = visits calls := hpreorder'.unique hpreorder
  have hlt : ∀ id ∈ visits calls, id < g.size := by
    intro id hid
    obtain ⟨call, hcall, rfl⟩ := List.mem_map.mp hid
    obtain ⟨before, after, rfl⟩ := List.append_of_mem hcall
    obtain ⟨p, node, told⟩ := htold before call after rfl
    exact Graph.lt_size told.found
  have hlater : ∀ call ∈ calls', call.table = t' ∧ call.Answered g t' (visits calls) := by
    intro call hcall
    obtain ⟨before, after, rfl⟩ := List.append_of_mem hcall
    obtain ⟨p, node, told⟩ := htold' before call after rfl
    have hbefore : before ++ [call] ⊆ before ++ call :: after := by
      rw [List.append_cons before call after]
      exact List.subset_append_left _ _
    have hknown := List.Subset.trans told.scopes (visits_subset hbefore)
    exact ⟨told.table, told.answered wf hexact hlt (hvisits ▸ hknown)⟩
  refine ⟨t', c, c', calls, calls', hwalk, hwalk', hnodup, fun before call after heq => ?_, hvisits,
    fun call hcall => (hlater call hcall).1, fun call hcall => (hlater call hcall).2⟩
  obtain ⟨p, node, told⟩ := htold before call after heq
  have hbefore : before ++ [call] ⊆ calls := by
    rw [heq, List.append_cons before call after]
    exact List.subset_append_left _ _
  exact told.answered wf told.table (fun id hid => hlt id (visits_subset hbefore hid)) told.scopes

end ProgramGraph
