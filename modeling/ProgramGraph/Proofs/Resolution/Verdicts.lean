import ProgramGraph.Proofs.Resolution.Run

set_option autoImplicit false

/-!
# Verdicts

What a usage was resolved to stays as it is until the end of the run. So the links of the resolved
graph can be traced back to the moment at which they were found.

## Main definitions

* `ProgramGraph.Resolver.Run.Reference` — how a reference was resolved in a run.
* `ProgramGraph.Resolver.Run.Access` — how a member access was resolved in a run.

## Main results

* `ProgramGraph.Resolver.Run.reference`, `ProgramGraph.Resolver.Run.access` — the moments at which
  the links of the resolved graph were found.
* `ProgramGraph.Resolver.Runs.access` — the same for an access at a certain point of the run.
-/

namespace ProgramGraph.Resolver

variable {g : Graph} {t₀ : ScopeTable} {index : Index} {V₀ V : List NodeId} {r : Resolver}
  {id : NodeId}

/-- Usages are not made up in a step. -/
theorem Step.usage_lt_size {n : Nat} {r₀ : Resolver} {done : List NodeId} (h : Step n done r₀ r)
    {payload : Payload} (hpayload : r.graph.payload? id = some payload)
    (hkind : payload.tag = .reference ∨ payload.tag = .memberAccess) : id < r₀.graph.size := by
  obtain ⟨node, hnode, rfl⟩ := Graph.exists_node_of_payload? hpayload
  rcases Nat.lt_or_ge id r₀.graph.size with hlt | hge
  · exact hlt
  · have := (h.graph.fresh id node hge hnode).2.not_isExpression
    rcases hkind with htag | htag <;> rw [htag] at this <;> exact absurd this (by decide)

namespace Run

/-- How a reference was resolved in a run: it stands at a place, the table and the resolver at the
moment, and the resolver once its declaration was found. -/
structure Reference (g : Graph) (t₀ : ScopeTable) (index : Index) (r : Resolver) (name : String)
    (isStatic : Bool) (target : Option NodeId) (p : Place) (t : ScopeTable) (r₁ r₂ : Resolver) :
    Prop where
  /-- The index was right. -/
  sound : r₁.Sound
  /-- The index was right afterwards. -/
  sound' : r₂.Sound
  /-- The run up to the moment. -/
  before : ∃ done, Step g.size done ⟨g, index⟩ r₁
  /-- No usage is resolved while the declaration is searched. -/
  during : Step g.size [] r₁ r₂
  /-- The rest of the run. -/
  after : ∃ done, Step g.size done r₂ r
  /-- The table holds the declarations that were indexed, and made-up ones behind them. -/
  more : t₀.Extends g.size t r₁.graph
  /-- How the declaration is found. -/
  finds : r₁.FindsDeclaration (p.scopes.flatMap t.declarations) p.types.head? name isStatic target r₂

/-- How a member access was resolved in a run: the resolver at the moment, with the base settled,
and with the member settled. -/
structure Access (g : Graph) (t₀ : ScopeTable) (index : Index) (r : Resolver) (id base base' : NodeId)
    (member member' : Option NodeId) (r₁ r₂ r₃ : Resolver) : Prop where
  /-- The run up to the moment. -/
  runs : ∃ before, id ∉ before ∧ Runs g.size t₀ ⟨g, index⟩ before r₁ ∧
    Step g.size before ⟨g, index⟩ r₁
  /-- The index was right. -/
  sound : r₁.Sound
  /-- The index was right with the base settled. -/
  sound' : r₂.Sound
  /-- The index was right with the member settled. -/
  sound'' : r₃.Sound
  /-- No usage is resolved while the base is settled. -/
  during : Step g.size [] r₁ r₂
  /-- No usage is resolved while the member is settled. -/
  during' : Step g.size [] r₂ r₃
  /-- The rest of the run. -/
  after : ∃ done, Step g.size done r₃ r
  /-- How the base is settled. -/
  base : r₁.SettlesBase base base' r₂
  /-- How the member is settled. -/
  member : r₂.SettlesMember id base' member member' r₃

/-- Usages are not made up. -/
theorem lt_size (run : Run g t₀ index V₀ V r) {payload : Payload}
    (hpayload : r.graph.payload? id = some payload)
    (hkind : payload.tag = .reference ∨ payload.tag = .memberAccess) : id < g.size :=
  (run.runs.reaches run.start).2.usage_lt_size hpayload hkind

/-- A usage that was not visited is as it was at the start. -/
theorem payload?_of_notMem (run : Run g t₀ index V₀ V r) {payload : Payload}
    (hpayload : r.graph.payload? id = some payload)
    (hkind : payload.tag = .reference ∨ payload.tag = .memberAccess) (hid : id ∉ V) :
    g.payload? id = some payload :=
  (run.runs.reaches run.start).2.payload?_back hid hpayload hkind

end Run

/-- **The visit of a reference,** seen from the place at which it stands.

**Proof sketch.** A reference opens no scope, so what is seen at its visit is what is declared in the scopes
of its place. -/
theorem Visited.reference {n : Nat} {before : List NodeId} {p : Place} {node : Node} {t : ScopeTable}
    {r₁ r₃ : Resolver} (h : Visited n t₀ before p id node t r₁ r₃) (sound : r₁.Sound)
    (htag : r₁.graph.tag? id = some .reference) :
    ∃ name isStatic old target r₂, r₁.graph.name? id = some name ∧
      r₁.graph.payload? id = some (.reference old isStatic) ∧ Reaches n [] 4 r₁ r₂ ∧
        r₁.FindsDeclaration (p.scopes.flatMap t.declarations) p.types.head? name isStatic target r₂ ∧
          Reaches n [id] 0 r₂ r₃ ∧
            r₃.graph.payload? id = some (.reference target isStatic) := by
  have hopens : node.tag.opens? = none := by
    rw [Graph.tag?_eq h.found, Option.some.injEq] at htag
    rw [htag]
    rfl
  have hseen := seen_visitOf h.nests sound.wellFormed.tree h.stands
    (List.Subset.trans h.scopes (List.subset_append_left ..)) hopens
  have haround : (Walk.visitOf p id node).recordType = p.types.head? := by
    unfold Walk.visitOf
    rw [Place.enter_of_opens?_eq_none hopens]
  cases h.resolves with
  | other hother _ => exact absurd htag hother
  | access haccess _ _ _ _ _ _ _ =>
    have := Graph.tag?_of_payload? haccess
    exact absurd (htag.symm.trans this) (by simp [Payload.tag])
  | @reference name isStatic old target r₂ _ f hold hname hreaches hfinds hlink hlinks hwritten =>
    rw [hseen, haround] at hfinds
    exact ⟨name, isStatic, old, target, r₂, hname, hold, hreaches, hfinds, hlinks, hwritten⟩

/-- **The moment of a member access,** up to which the run went.

**Proof sketch.** The access was visited at some point of the run. Before this no step touched its payload, so
it was resolved from what was there at the start; and later steps leave alone what was settled. -/
theorem Runs.access {before after : List NodeId}
    (runs : Runs g.size t₀ ⟨g, index⟩ (before ++ id :: after) r) (start : Sound ⟨g, index⟩) {base' : NodeId}
    {member' : Option NodeId} (hpayload : r.graph.payload? id = some (.memberAccess base' member')) :
    (∀ part ∈ base' :: member'.toList, r.graph.tag? part ≠ some .reference) ∧
      ∃ base member r₁ r₂ r₃, g.payload? id = some (.memberAccess base member) ∧
        Runs g.size t₀ ⟨g, index⟩ before r₁ ∧
          Run.Access g t₀ index r id base base' member member' r₁ r₂ r₃ := by
  obtain ⟨p, node, t, r₁, r₄, hruns, hvisit, hafter⟩ := runs.exists_visit start
  obtain ⟨hsound, hbefore⟩ := hruns.reaches start
  have hnot : id ∉ after := (List.nodup_cons.mp (List.nodup_append.mp runs.nodup).2.1).1
  have htag : r₁.graph.tag? id = some .memberAccess := by
    have hgrows := hvisit.reaches.step.graph.trans hafter.graph
    exact hgrows.tag?_back (Graph.tag?_of_payload? hpayload) rfl
  cases hvisit.resolves with
  | other _ hother => exact absurd htag hother
  | reference hreference _ _ _ _ _ _ =>
    have := Graph.tag?_of_payload? hreference
    exact absurd (htag.symm.trans this) (by simp [Payload.tag])
  | @access base base'' member member'' r₂ r₃ hold hreaches hbase hreaches' hmember hwrites hsettled
      hwritten =>
    have hkept := hafter.usages id _ hnot hwritten (Or.inr rfl)
    rw [hpayload, Option.some.injEq, Payload.memberAccess.injEq] at hkept
    obtain ⟨rfl, rfl⟩ := hkept
    have hstep : Step g.size (id :: after) r₃ r :=
      (hwrites.step.weaken (List.cons_subset_cons _ (List.nil_subset _))).trans hreaches'.sound
        hvisit.reaches.sound (hafter.weaken (List.subset_cons_self ..))
    refine ⟨fun part hpart hreference => ?_, base, member, r₁, r₂, r₃, ?_, hruns, ?_⟩
    · exact hsettled part hpart (hstep.graph.tag?_back hreference rfl)
    · have hlt := (runs.reaches start).2.usage_lt_size hpayload (Or.inr rfl)
      obtain ⟨old, hfound⟩ := Graph.exists_node hlt
      have hkind := hbefore.graph.tag? (Graph.tag?_eq hfound)
      rw [htag, Option.some.injEq] at hkind
      have hsame := hbefore.usages id _ hvisit.notMem (Graph.payload?_eq hfound)
        (Or.inr hkind.symm)
      rw [Graph.payload?_eq hfound, ← hsame]
      exact hold
    · exact ⟨⟨before, hvisit.notMem, hruns, hbefore⟩, hsound, hreaches.sound, hreaches'.sound,
        hreaches.step, hreaches'.step, ⟨_, hstep⟩, hbase, hmember⟩

namespace Run

/-- **The moment of a reference.**

**Proof sketch.** The run is split at the visit of the reference. What is found there is written to it, and it
is not visited again, so that this is what it means in the end. The place of the visit is its place in the
end, as whatever stands somewhere stands there when the graph has grown, and places are unique. -/
theorem reference (run : Run g t₀ index V₀ V r) (hid : id ∈ V) {target : Option NodeId}
    {isStatic : Bool} {name : String}
    (hpayload : r.graph.payload? id = some (.reference target isStatic))
    (hname : r.graph.name? id = some name) :
    ∃ p t r₁ r₂, r.graph.Stands p id ∧
      Reference g t₀ index r name isStatic target p t r₁ r₂ := by
  obtain ⟨before, p, node, t, r₁, r₃, after, -, hsound, hbefore, hvisit, hafter, hnot, -⟩ :=
    run.runs.split run.start hid
  have htag : r₁.graph.tag? id = some .reference := by
    have hgrows := hvisit.reaches.step.graph.trans hafter.graph
    exact hgrows.tag?_back (Graph.tag?_of_payload? hpayload) rfl
  have hstands : r.graph.Stands p id := by
    obtain ⟨q, hq⟩ := run.placed id hid
    have hlt := run.lt_size hpayload (Or.inl rfl)
    have hstep := (run.runs.reaches run.start).2
    have hq' := hstep.graph.stands_back (Nat.le_refl _) hq hlt
    have hp' := hbefore.graph.stands_back (Nat.le_refl _) hvisit.stands hlt
    rwa [hp'.unique run.start.wellFormed.tree hq']
  obtain ⟨name', isStatic', old, target', r₂, hname', -, hreaches, hfinds, hlinks, hwritten⟩ :=
    hvisit.reference hsound htag
  have hkept := hafter.usages id _ hnot hwritten (Or.inl rfl)
  rw [hpayload, Option.some.injEq, Payload.reference.injEq] at hkept
  obtain ⟨rfl, rfl⟩ := hkept
  have hnameKept := (hvisit.reaches.step.graph.trans hafter.graph).name? hname'
  obtain rfl := Option.some.inj (hname.symm.trans hnameKept)
  refine ⟨p, t, r₁, r₂, hstands, hsound, hreaches.sound, ⟨before, hbefore⟩, hreaches.step,
    ⟨id :: after, ?_⟩, hvisit.more, hfinds⟩
  exact (hlinks.step.weaken (List.cons_subset_cons _ (List.nil_subset _))).trans hreaches.sound
    hvisit.reaches.sound (hafter.weaken (List.subset_cons_self ..))

/-- **The moment of a reference that stands somewhere.** It stood there from the start. -/
theorem reference_of_stands (run : Run g t₀ index V₀ V r) {p : Place} (hp : r.graph.Stands p id)
    {target : Option NodeId} {isStatic : Bool} {name : String}
    (hpayload : r.graph.payload? id = some (.reference target isStatic))
    (hname : r.graph.name? id = some name) :
    g.Stands p id ∧ ∃ t r₁ r₂, Reference g t₀ index r name isStatic target p t r₁ r₂ := by
  have hlt := run.lt_size hpayload (Or.inl rfl)
  obtain ⟨q, t, r₁, r₂, hq, moment⟩ := run.reference (run.complete p id hp hlt) hpayload hname
  obtain rfl := hp.unique run.sound.wellFormed.tree hq
  exact ⟨(run.runs.reaches run.start).2.graph.stands_back (Nat.le_refl _) hp hlt, t, r₁, r₂, moment⟩

/-- **The moment of a member access.** Its links are final. -/
theorem access (run : Run g t₀ index V₀ V r) (hid : id ∈ V) {base' : NodeId}
    {member' : Option NodeId} (hpayload : r.graph.payload? id = some (.memberAccess base' member')) :
    (∀ part ∈ base' :: member'.toList, r.graph.tag? part ≠ some .reference) ∧
      ∃ base member r₁ r₂ r₃, g.payload? id = some (.memberAccess base member) ∧
        Access g t₀ index r id base base' member member' r₁ r₂ r₃ := by
  obtain ⟨before, after, rfl⟩ := List.append_of_mem hid
  obtain ⟨hsettled, base, member, r₁, r₂, r₃, hold, -, moment⟩ := run.runs.access run.start hpayload
  exact ⟨hsettled, base, member, r₁, r₂, r₃, hold, moment⟩

end Run

end ProgramGraph.Resolver
