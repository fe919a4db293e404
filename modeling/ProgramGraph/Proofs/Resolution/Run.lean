import ProgramGraph.Proofs.Resolution.References
import ProgramGraph.Proofs.Walks.Log

set_option autoImplicit false

/-!
# Runs of a resolution

A resolution is a sequence of visits, each of which resolves one usage, or none. It never fails, and
it comes to every node of the graph that stands somewhere. What holds of all its states is proved
along this sequence.

## Main definitions

* `ProgramGraph.Resolver.Resolves` — what is done at a visit.
* `ProgramGraph.Resolver.Visited` — a visit of a run, with the table at hand.
* `ProgramGraph.Resolver.Runs` — the run up to a number of visits.
* `ProgramGraph.Resolver.Run` — a run to the end.

## Main results

* `ProgramGraph.Resolver.Sound.resolveUsage` — a visit does not fail.
* `ProgramGraph.Resolver.Runs.exists_visit`, `ProgramGraph.Resolver.Runs.split` — a visit of a run.
* `ProgramGraph.Graph.resolveUsages_ok` — resolving the usages of a well-formed graph.
-/

namespace ProgramGraph

namespace Resolver

variable {r r' r₀ : Resolver} {n : Nat} {t t₀ : ScopeTable} {visit : Visit} {V : List NodeId}
  {p : Place} {node : Node} {id : NodeId}

/-! ## Visits -/

/-- What is done at a visit: a member access or a reference is resolved. -/
inductive Resolves (n : Nat) (r : Resolver) (t : ScopeTable) (visit : Visit) : Resolver → Prop where
  /-- The base and then the member of an access are settled. -/
  | access {base base' : NodeId} {member member' : Option NodeId} {r₁ r₂ : Resolver}
    (hpayload : r.graph.payload? visit.node = some (.memberAccess base member))
    (hreaches : Reaches n [] 4 r r₁) (hbase : r.SettlesBase base base' r₁)
    (hreaches' : Reaches n [] 4 r₁ r₂) (hmember : r₁.SettlesMember visit.node base' member member' r₂)
    (hwrites : Reaches n [visit.node] 0 r₂
      { r₂ with graph := r₂.graph.setAccess visit.node base' member' })
    (hsettled : ∀ part ∈ base' :: member'.toList, r₂.graph.tag? part ≠ some .reference)
    (hwritten : (r₂.graph.setAccess visit.node base' member').payload? visit.node =
      some (.memberAccess base' member')) :
    Resolves n r t visit { r₂ with graph := r₂.graph.setAccess visit.node base' member' }
  /-- The declaration that a reference means is found, and the reference is pointed at it. -/
  | reference {name : String} {isStatic : Bool} {old target : Option NodeId} {r₁ r₂ : Resolver}
    {f : Counters → Counters}
    (hpayload : r.graph.payload? visit.node = some (.reference old isStatic))
    (hname : r.graph.name? visit.node = some name) (hreaches : Reaches n [] 4 r r₁)
    (hfinds : r.FindsDeclaration (t.seen visit) visit.recordType name isStatic target r₁)
    (hlink : (r₁.count f).link visit.node target = .ok r₂)
    (hlinks : Reaches n [visit.node] 0 r₁ r₂)
    (hwritten : r₂.graph.payload? visit.node = some (.reference target isStatic)) :
    Resolves n r t visit r₂
  /-- Nothing else is resolved. -/
  | other (htag : r.graph.tag? visit.node ≠ some .reference)
    (htag' : r.graph.tag? visit.node ≠ some .memberAccess) : Resolves n r t visit r

/-- Made-up nodes are no usages. -/
theorem Resolves.graph_eq (h : r.Resolves n t visit r') (hnode : r.graph.node? visit.node = some node)
    (hmade : node.payload.MadeUp n) : r'.graph = r.graph := by
  have hnot : ∀ payload, r.graph.payload? visit.node = some payload → payload.MadeUp n :=
    fun payload hpayload => Option.some.inj ((Graph.payload?_eq hnode).symm.trans hpayload) ▸ hmade
  cases h with
  | other _ _ => rfl
  | access hpayload _ _ _ _ _ _ _ => cases hnot _ hpayload
  | reference hpayload _ _ _ _ _ _ => cases hnot _ hpayload

/-- **A visit** does not fail.

**Proof sketch.** By cases on the node that is visited. References and accesses are resolved by the functions
for them, which do not fail, and for everything else nothing is done. -/
theorem Sound.resolveUsage (h : r.Sound) (hn : n ≤ r.graph.size) (t : ScopeTable) (visit : Visit)
    (hnode : r.graph.node? visit.node = some node)
    (hseen : node.tag = .reference → r.graph.All Tag.isValueDeclaration (t.seen visit)) :
    ∃ r', r.resolveUsage t visit = .ok r' ∧ Reaches n [visit.node] 8 r r' ∧
      r.Resolves n t visit r' := by
  have hpayload := Graph.payload?_eq hnode
  have hname := Graph.name?_eq hnode
  have htag := Graph.tag?_eq hnode
  unfold Resolver.resolveUsage
  rw [Graph.node_eq_ok.mpr hnode]
  simp only [bind, Except.bind]
  cases hkind : node.payload with
  | memberAccess base member =>
    rw [hkind] at hpayload
    obtain ⟨base', member', r₁, r₂, hresolve, hreaches, hbase, hreaches', hmember, hwrites, htotal,
      hwritten, hsettled⟩ := h.resolveAccess hn hname hpayload
    exact ⟨_, hresolve, htotal,
      .access hpayload hreaches hbase hreaches' hmember hwrites hsettled hwritten⟩
  | reference old isStatic =>
    rw [hkind] at hpayload
    obtain ⟨target, r₁, r', hresolve, hreaches, hfinds, ⟨f, hlink⟩, hlinks, htotal,
      hwritten⟩ :=
      h.resolveReference hn t hpayload hname (hseen (by simp [Node.tag, hkind, Payload.tag]))
    exact ⟨r', hresolve, htotal.mono (by omega),
      .reference hpayload hname hreaches hfinds hlink hlinks hwritten⟩
  | _ =>
    refine ⟨r, rfl, (Reaches.refl h n _).mono (by omega), .other ?_ ?_⟩ <;>
      rw [htag, Node.tag, hkind] <;> simp [Payload.tag]

/-- A visit of a run: what was visited before, where the node stands, and the table at hand. -/
structure Visited (n : Nat) (t₀ : ScopeTable) (V : List NodeId) (p : Place) (id : NodeId)
    (node : Node) (t : ScopeTable) (r r' : Resolver) : Prop where
  /-- The node is there. -/
  found : r.graph.node? id = some node
  /-- It stands at the place of the walk. -/
  stands : r.graph.Stands p id
  /-- It is visited for the first time. -/
  notMem : id ∉ V
  /-- It is a unit or a part of something visited before. -/
  whole : id ∈ r.graph.units ∨ ∃ w ∈ V, id ∈ r.graph.parts w
  /-- The scopes around it were visited before. -/
  scopes : p.scopes ⊆ V
  /-- The table knows the scopes around it. -/
  nests : t.Nests r.graph (V ++ [id])
  /-- The table holds the declarations that were indexed, and made-up ones behind them. -/
  more : t₀.Extends n t r.graph
  /-- The index stays right. -/
  reaches : Reaches n [id] 8 r r'
  /-- What is done. -/
  resolves : r.Resolves n t (Walk.visitOf p id node) r'
  /-- The usage of the visit is resolved. -/
  resolved : r.resolveUsage t (Walk.visitOf p id node) = .ok r'

/-- The run up to a number of visits. -/
inductive Runs (n : Nat) (t₀ : ScopeTable) (r₀ : Resolver) : List NodeId → Resolver → Prop where
  /-- Nothing was visited. -/
  | start : Runs n t₀ r₀ [] r₀
  /-- One visit more. -/
  | visit {V : List NodeId} {p : Place} {id : NodeId} {node : Node} {t : ScopeTable}
    {r r' : Resolver} (before : Runs n t₀ r₀ V r) (now : Visited n t₀ V p id node t r r') :
    Runs n t₀ r₀ (V ++ [id]) r'

namespace Runs

/-- **A run keeps the index right,** and is a step of a resolution. -/
theorem reaches (h : Runs n t₀ r₀ V r) (sound : r₀.Sound) : r.Sound ∧ Step n V r₀ r := by
  induction h with
  | start => exact ⟨sound, .refl n [] r₀⟩
  | visit _ now ih =>
    obtain ⟨hsound, hstep⟩ := ih
    refine ⟨now.reaches.sound, ?_⟩
    exact (hstep.weaken (List.subset_append_left ..)).trans sound hsound
      (now.reaches.step.weaken (List.subset_append_right ..))

/-- Nothing is visited twice. -/
theorem nodup (h : Runs n t₀ r₀ V r) : V.Nodup := by
  induction h with
  | start => exact List.nodup_nil
  | visit _ now ih =>
    rw [List.nodup_append]
    refine ⟨ih, List.nodup_singleton _, ?_⟩
    rintro id hid other hother rfl
    exact now.notMem (List.mem_singleton.mp hother ▸ hid)

/-- What was visited is a unit or a part of something visited. -/
theorem whole (h : Runs n t₀ r₀ V r) (sound : r₀.Sound) :
    ∀ id ∈ V, id ∈ r.graph.units ∨ ∃ w ∈ V, id ∈ r.graph.parts w := by
  induction h with
  | start => exact fun id hid => absurd hid List.not_mem_nil
  | @visit V p other node t r r' before now ih =>
    intro id hid
    have hstep := now.reaches.step
    have hold : id ∈ r.graph.units ∨ ∃ w ∈ V, id ∈ r.graph.parts w := by
      rcases List.mem_append.mp hid with hid | hid
      · exact ih id hid
      · exact List.mem_singleton.mp hid ▸ now.whole
    rcases hold with hunit | ⟨w, hw, hpart⟩
    · obtain ⟨new, hnew, -⟩ := hstep.graph.units
      exact Or.inl (hnew ▸ List.mem_append_left _ hunit)
    · have hne : w ∉ [other] := fun heq => now.notMem (List.mem_singleton.mp heq ▸ hw)
      exact Or.inr ⟨w, List.mem_append_left _ hw, hstep.mem_parts (before.reaches sound).1 hne hpart⟩

/-- A part of something that was not visited was not visited. -/
theorem notMem_of_mem_parts (h : Runs n t₀ r₀ V r) (sound : r₀.Sound) {w : NodeId} (hw : w ∉ V)
    (hpart : id ∈ r.graph.parts w) : id ∉ V := by
  intro hid
  have tree := (h.reaches sound).1.wellFormed.tree
  rcases h.whole sound id hid with hunit | ⟨w', hw', hpart'⟩
  · exact tree.root_notMem id (List.mem_append_left _ hunit) w hpart
  · exact hw (tree.whole_unique id w w' hpart hpart' ▸ hw')

/-- The run up to some of its visits, and the rest of it. -/
theorem exists_upTo (h : Runs n t₀ r₀ V r) (sound : r₀.Sound) {before after : List NodeId}
    (hV : V = before ++ after) : ∃ r₁, Runs n t₀ r₀ before r₁ ∧ Step n after r₁ r := by
  induction h generalizing after with
  | start =>
    obtain ⟨rfl, rfl⟩ := List.append_eq_nil_iff.mp hV.symm
    exact ⟨r₀, .start, .refl n [] r₀⟩
  | @visit V p id node t r r' earlier now ih =>
    rcases List.eq_nil_or_concat after with rfl | ⟨rest, last, rfl⟩
    · rw [List.append_nil] at hV
      exact ⟨r', hV ▸ .visit earlier now, .refl n [] r'⟩
    · rw [List.concat_eq_append, ← List.append_assoc] at hV
      obtain ⟨hearlier, hlast⟩ := List.append_inj' hV rfl
      obtain ⟨r₁, hruns, hstep⟩ := ih hearlier
      refine ⟨r₁, hruns, ?_⟩
      rw [List.concat_eq_append, ← hlast]
      exact (hstep.weaken (List.subset_append_left ..)).trans (hruns.reaches sound).1
        (earlier.reaches sound).1 (now.reaches.step.weaken (List.subset_append_right ..))

/-- The last visit of a run. -/
theorem exists_last (h : Runs n t₀ r₀ V r) {before : List NodeId} (hV : V = before ++ [id]) :
    ∃ p node t r₁, Runs n t₀ r₀ before r₁ ∧ Visited n t₀ before p id node t r₁ r := by
  cases h with
  | start => exact absurd hV.symm (by simp)
  | visit earlier now =>
    obtain ⟨rfl, hid⟩ := List.append_inj' hV rfl
    obtain rfl := List.singleton_inj.mp hid
    exact ⟨_, _, _, _, earlier, now⟩

/-- **A visit of a run:** the run before it, what was done, and the rest of the run. -/
theorem exists_visit {before after : List NodeId} (h : Runs n t₀ r₀ (before ++ id :: after) r)
    (sound : r₀.Sound) : ∃ p node t r₁ r₂, Runs n t₀ r₀ before r₁ ∧
      Visited n t₀ before p id node t r₁ r₂ ∧ Step n after r₂ r := by
  obtain ⟨r₂, hruns, hafter⟩ := h.exists_upTo sound (List.append_cons before id after)
  obtain ⟨p, node, t, r₁, hbefore, hvisit⟩ := hruns.exists_last rfl
  exact ⟨p, node, t, r₁, r₂, hbefore, hvisit, hafter⟩

/-- **The visit of a node** in a run: the run before it, what was done, and the rest of the run, in
which only other usages are resolved. -/
theorem split (h : Runs n t₀ r₀ V r) (sound : r₀.Sound) (hid : id ∈ V) :
    ∃ before p node t r₁ r₂ after, Runs n t₀ r₀ before r₁ ∧ r₁.Sound ∧ Step n before r₀ r₁ ∧
      Visited n t₀ before p id node t r₁ r₂ ∧ Step n after r₂ r ∧ id ∉ after ∧ before ⊆ V := by
  obtain ⟨before, after, rfl⟩ := List.append_of_mem hid
  obtain ⟨p, node, t, r₁, r₂, hbefore, hvisit, hafter⟩ := h.exists_visit sound
  obtain ⟨hsound, hstep⟩ := hbefore.reaches sound
  have hnot : id ∉ after := (List.nodup_cons.mp (List.nodup_append.mp h.nodup).2.1).1
  exact ⟨before, p, node, t, r₁, r₂, after, hbefore, hsound, hstep, hvisit, hafter, hnot,
    List.subset_append_left ..⟩

end Runs

/-! ## The walk -/

/-- The state of a resolution that has not begun, right after indexing. -/
theorem Sound.start {g : Graph} {index : Index} (wf : g.WellFormed [])
    (h : Index.Indexed g t index V) : Sound ⟨g, index⟩ where
  wellFormed := wf
  records type record hrecord := by
    change index.record? type = some record at hrecord
    rw [h.lists.records] at hrecord
    obtain ⟨node, hnode, htag, -⟩ := Graph.spells_iff.mp (List.find?_some hrecord)
    rw [Graph.tag?_eq hnode, htag]
  enums type enum henum := by
    change index.enum? type = some enum at henum
    rw [h.lists.enums] at henum
    obtain ⟨node, hnode, htag, -⟩ := Graph.spells_iff.mp (List.find?_some henum)
    rw [Graph.tag?_eq hnode, htag]
  injective type other record hrecord hother := by
    change index.record? type = some record at hrecord
    change index.record? other = some record at hother
    rw [h.lists.records] at hrecord hother
    obtain ⟨node, hnode, -, rfl⟩ := Graph.spells_iff.mp (List.find?_some hrecord)
    obtain ⟨node', hnode', -, rfl⟩ := Graph.spells_iff.mp (List.find?_some hother)
    rw [Option.some.inj (hnode.symm.trans hnode')]
  superTypes type hrecord := by
    change index.record? type = none at hrecord
    change index.superTypesOf type = []
    rw [h.superTypes, hrecord]
    rfl
  dummies type name field hfield := by
    change index.dummies.get? (type, name) = some field at hfield
    rw [h.lists.dummies] at hfield
    exact absurd hfield (by simp [Assoc.get?, EmptyCollection.emptyCollection, Assoc.find])
  placeholderUnit unit hunit := by
    change index.placeholderUnit = some unit at hunit
    rw [h.lists.placeholderUnit] at hunit
    exact absurd hunit (by simp)

/-- A resolution under way: the walk, its table, and the run so far. -/
structure Resolving (t₀ : ScopeTable) (r₀ : Resolver) (V rest : List NodeId)
    (s : Walk.State Index) : Prop where
  /-- The walk is under way. -/
  walk : Walk.Underway r₀.graph.size V rest s
  /-- What was visited is a run. -/
  run : Runs r₀.graph.size t₀ r₀ V ⟨s.graph, s.carried⟩
  /-- The table knows the scopes around scopes. -/
  nests : s.table.Nests s.graph V
  /-- The table holds the declarations that were indexed, and made-up ones behind them. -/
  more : t₀.Extends r₀.graph.size s.table s.graph
  /-- Few nodes are made at each visit of a node that was there at the start. -/
  size : s.graph.size ≤ r₀.graph.size + 8 * (V.filter (· < r₀.graph.size)).length

/-- What can be seen from a usage are the declarations of the scopes around it. -/
theorem seen_visitOf {g : Graph} {loose : List NodeId} (nests : t.Nests g V) (tree : g.Tree loose)
    (hp : g.Stands p id) (hknown : p.scopes ⊆ V) (hopens : node.tag.opens? = none) :
    t.seen (Walk.visitOf p id node) = p.scopes.flatMap t.declarations := by
  unfold ScopeTable.seen Walk.visitOf
  rw [Place.enter_of_opens?_eq_none hopens]
  cases hscopes : p.scopes with
  | nil => rfl
  | cons scope rest =>
    rw [← hscopes]
    simp only [hscopes, List.head?_cons, ScopeTable.visible]
    rw [nests.chain tree hp hknown (by rw [hscopes]; rfl), hscopes]

/-- What can be seen from a usage are value declarations. -/
theorem all_seen {g g' : Graph} {loose loose' : List NodeId} (nests : t.Nests g' V)
    (more : t₀.Extends n t g') (holds : t₀.Holds g) (wf : g.WellFormed loose) (tree : g'.Tree loose')
    (hgrows : g.Grows n g') (hp : g'.Stands p id) (hknown : p.scopes ⊆ V)
    (hopens : node.tag.opens? = none) :
    g'.All Tag.isValueDeclaration (t.seen (Walk.visitOf p id node)) := by
  intro d hd
  rw [seen_visitOf nests tree hp hknown hopens] at hd
  obtain ⟨scope, -, hd⟩ := List.mem_flatMap.mp hd
  exact (more.mem_declarations holds wf hgrows hd).1 d (List.mem_singleton.mpr rfl)

namespace Resolving

variable {index : Index} {V₀ rest : List NodeId} {s : Walk.State Index} {todo : List Walk.Step}

/-- There are not more nodes than a fixed number of times those at the start. -/
theorem length_le (h : Resolving t₀ r₀ V rest s) : V.length ≤ 9 * r₀.graph.size := by
  have hsubset : V.filter (· < r₀.graph.size) ⊆ List.range r₀.graph.size := fun id hid => by
    rw [List.mem_range]
    simpa using (List.mem_filter.mp hid).2
  have hold : (V.filter (· < r₀.graph.size)).length ≤ r₀.graph.size := by
    have := (List.subperm_of_subset (h.run.nodup.filter _) hsubset).length_le
    rwa [List.length_range] at this
  have := h.walk.length_le
  have := h.size
  omega

/-- A visit of a node that was there at the start makes few nodes, and no other visit makes any. -/
theorem size_visit (h : Resolving t₀ r₀ V rest s) (sound : r₀.Sound)
    (hnode : s.graph.node? id = some node)
    (hreaches : Reaches r₀.graph.size [id] 8 ⟨s.graph, s.carried⟩ r')
    (hresolves : Resolves r₀.graph.size ⟨s.graph, s.carried⟩ t (Walk.visitOf p id node) r') :
    r'.graph.size ≤ r₀.graph.size + 8 * ((V ++ [id]).filter (· < r₀.graph.size)).length := by
  have hsize := h.size
  have hgrowth := hreaches.size
  rw [List.filter_append, List.length_append]
  rcases Nat.lt_or_ge id r₀.graph.size with hlt | hge
  · have : ([id].filter (· < r₀.graph.size)).length = 1 := by simp [hlt]
    simp only at hgrowth
    omega
  · have hfresh := ((h.run.reaches sound).2.graph.fresh id node hge hnode).2
    rw [hresolves.graph_eq hnode hfresh]
    exact Nat.le_trans hsize (by omega)

/-- **A visit.**

**Proof sketch.** The node stands where the walk says, and the scopes around it were visited. So all that the
table shows to it are value declarations, and resolving it does not fail. What this writes is a step that
keeps the walk, the table and the run in order. -/
theorem enter (wf : r₀.graph.WellFormed []) (sound : r₀.Sound) (holds : t₀.Holds r₀.graph)
    (h : Resolving t₀ r₀ V rest s) (htodo : s.todo = .enter id :: todo) :
    ∃ node parts graph carried, Walk.visit handler s id todo =
        .ok (Walk.visited s id node parts todo graph carried) ∧
      Resolving t₀ r₀ (V ++ [id]) rest (Walk.visited s id node parts todo graph carried) := by
  obtain ⟨hstands, node, hnode⟩ := h.walk.stands htodo
  obtain ⟨hsound, hstep⟩ := h.run.reaches sound
  have hnot := h.walk.notMem htodo
  have hwhole := h.walk.whole id (List.mem_append_right _ (htodo ▸ List.mem_cons_self ..))
  have hscopes : s.place.scopes ⊆ V := h.walk.scopes_subset hstands
    (List.mem_append_right _ (htodo ▸ List.mem_cons_self ..))
  have hnests := h.nests.note h.walk.wellFormed.tree hstands hnode
  have hmore := h.more.note holds wf rfl hstep.graph hstands hnode
  have hseen : node.tag = .reference → s.graph.All Tag.isValueDeclaration
      ((Walk.note s.table s.place id node).seen (Walk.visitOf s.place id node)) := by
    intro htag
    exact all_seen hnests hmore holds wf h.walk.wellFormed.tree hstep.graph hstands
      (List.Subset.trans hscopes (List.subset_append_left ..)) (by rw [htag]; rfl)
  obtain ⟨⟨graph, carried⟩, hresolve, hreaches, hresolves⟩ :=
    hsound.resolveUsage hstep.graph.size (Walk.note s.table s.place id node)
      (Walk.visitOf s.place id node) hnode hseen
  have hhandler : handler (Walk.note s.table s.place id node) (Walk.visitOf s.place id node) s.graph
      s.carried = .ok (graph, carried) := by
    have hchecked : graph.checked = .ok graph := Graph.checked_eq_ok hreaches.sound.wellFormed.faultless
    simp only [handler, hresolve, bind, Except.bind, hchecked]
    rfl
  obtain ⟨node', hnode', -⟩ := hreaches.step.graph.nodes id node hnode
  have hwalk := h.walk.visit htodo hreaches.step.graph
    (fun w hw part hpart => hreaches.step.mem_parts hsound (fun hmem => hw (List.mem_singleton.mp hmem)) hpart)
    hreaches.sound.wellFormed hnode carried
  refine ⟨node, graph.parts id, graph, carried, Walk.visit_eq hnode hhandler
    (hreaches.sound.wellFormed.typed.children_eq hnode'), hwalk, ?_, ?_, ?_, ?_⟩
  · exact .visit h.run ⟨hnode, hstands, hnot, hwhole, hscopes, hnests, hmore, hreaches, hresolves,
      hresolve⟩
  · refine hnests.grows h.walk.wellFormed.tree hreaches.sound.wellFormed.tree hreaches.step.graph
      fun other hother => ?_
    rcases List.mem_append.mp hother with hother | hother
    · exact h.walk.placed other hother
    · exact ⟨s.place, List.mem_singleton.mp hother ▸ hstands⟩
  · exact hmore.grows hreaches.step.graph
  · exact h.size_visit sound hnode hreaches hresolves

/-- A resolution begins. -/
theorem start {g : Graph} (wf : g.WellFormed []) (hindexed : Index.Indexed g t₀ index V₀) :
    Resolving t₀ ⟨g, index⟩ [] g.units { todo := [], table := t₀, graph := g, carried := index } :=
  ⟨.start wf _ _ _, .start, hindexed.nests, .refl _ _ _, Nat.le_add_right _ _⟩

/-- The invariant of the walk that resolves the usages of a graph. -/
theorem keeps (wf : r₀.graph.WellFormed []) (sound : r₀.Sound) (holds : t₀.Holds r₀.graph) :
    Walk.Keeps handler (9 * r₀.graph.size) (Resolving t₀ r₀) where
  enter h htodo := h.enter wf sound holds htodo
  leave h htodo := ⟨h.walk.leave htodo, h.run, h.nests, h.more, h.size⟩
  next h htodo := ⟨h.walk.next htodo, h.run, h.nests, h.more, h.size⟩
  visits h := h.length_le
  steps {V rest s} h := by
    have := Walk.le_stepBound s.graph
    have := (h.run.reaches sound).2.graph.size
    simp only at this
    omega

end Resolving

/-- A run to the end, and the index and the table it began with. -/
structure Run (g : Graph) (t₀ : ScopeTable) (index : Index) (V₀ V : List NodeId) (r : Resolver) :
    Prop where
  /-- The index and the table were built. -/
  built : Index.build g = .ok (t₀, index)
  /-- The graph was indexed. -/
  indexed : Index.Indexed g t₀ index V₀
  /-- The index was right at the start. -/
  start : Sound ⟨g, index⟩
  /-- The index is right in the end. -/
  sound : r.Sound
  /-- The visits. -/
  runs : Runs g.size t₀ ⟨g, index⟩ V r
  /-- All nodes are visited that stand somewhere and are not made up. -/
  complete : ∀ p id, r.graph.Stands p id → id < g.size → id ∈ V
  /-- What is visited stands somewhere. -/
  placed : ∀ id ∈ V, ∃ p, r.graph.Stands p id

end Resolver

/-- **The visits of a resolution** of a well-formed graph, which does not fail, can be logged. -/
theorem Graph.resolveUsages_logged {g : Graph} (wf : g.WellFormed []) :
    ∃ r t₀ t index V₀ V, g.resolveUsages = .ok (r.graph, r.index) ∧
      walkAll Resolver.handler.logged t₀ g (index, []) g.units = .ok (t, r.graph, r.index, V) ∧
        Resolver.Run g t₀ index V₀ V r := by
  obtain ⟨t₀, index, V₀, hbuild, hindexed⟩ := Index.build_ok wf
  have sound := Resolver.Sound.start wf hindexed
  obtain ⟨V, _, hlogged, htodo, s, rfl, hend⟩ :=
    (Resolver.Resolving.keeps wf sound hindexed.holds).logged.walkAll
      ⟨_, rfl, .start wf hindexed⟩ rfl
  obtain ⟨hsound, hstep⟩ := hend.run.reaches sound
  have hwalk : walkAll Resolver.handler t₀ g index g.units = .ok (s.table, s.graph, s.carried) :=
    walkAll_of_logged hlogged
  refine ⟨⟨s.graph, s.carried⟩, t₀, s.table, index, V₀, V, ?_, hlogged, hbuild, hindexed, sound, hsound,
    hend.run, ?_, ?_⟩
  · simp only [Graph.resolveUsages, hbuild, bind, Except.bind, Graph.resolveWith, hwalk]
    rfl
  · exact fun p id hp hid => hend.walk.complete htodo rfl hstep.graph hp hid
  · exact hend.walk.placed

/-- **Resolving the usages** of a well-formed graph does not fail. -/
theorem Graph.resolveUsages_ok {g : Graph} (wf : g.WellFormed []) :
    ∃ r t₀ index V₀ V, g.resolveUsages = .ok (r.graph, r.index) ∧
      Resolver.Run g t₀ index V₀ V r := by
  obtain ⟨r, t₀, -, index, V₀, V, hresolve, -, run⟩ := g.resolveUsages_logged wf
  exact ⟨r, t₀, index, V₀, V, hresolve, run⟩

end ProgramGraph
