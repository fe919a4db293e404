import ProgramGraph.Proofs.Rerun.Reindexing
import ProgramGraph.Proofs.Sessions.Forest

set_option autoImplicit false

/-!
# The first declaration of a type

A resolution indexes the first record that declares a type, in the order of the units. Records that
were made up in earlier resolutions are among them, and the unit they were put in keeps its place: it
stands before the units of all documents that are added later. So a real record is indexed under its
type unless a record was made up for the type before, in a unit that stands before all units with a
real one.

## Main definitions

* `ProgramGraph.Graph.Segregated` — real and made-up declarations are kept in different units.
* `ProgramGraph.Graph.Declares` — a unit declares a type by a record, real or made up.
* `ProgramGraph.Graph.Outrun` — a made-up unit with a record for a type stands before all units with
  a real one.

## Main results

* `ProgramGraph.Graph.History.segregated` — in every history they are kept apart.
* `ProgramGraph.Graph.after_precedence` — which types have a made-up record indexed though there is a
  real one.
* `ProgramGraph.after_precedence_outrun` — a type whose real record is not indexed.
-/

namespace ProgramGraph

namespace Graph

variable {g g' : Graph} {id whole part record unit other : NodeId} {n : Nat} {type : Descriptor}
  {past : List Graph}

/-- What was there before a document is built has the same parts afterwards. -/
theorem BuildsOn.parts_eq (h : g.BuildsOn g' []) (wf : g.WellFormed []) (hwhole : whole < g.size) :
    g'.parts whole = g.parts whole := by
  have keeps : g.Keeps g' := Keeps.of_nodes fun id node hnode =>
    ⟨node, (h.below id (lt_size hnode)).trans hnode, rfl, rfl,
      fun entries superTypes heq => ⟨entries, superTypes, heq, List.Subset.refl _⟩⟩
  obtain ⟨node, hnode⟩ := exists_node hwhole
  rw [Graph.parts_eq hnode, Graph.parts_eq ((h.below whole hwhole).trans hnode),
    partsOf_keep (wf.typed.nodes whole node hnode) keeps]

/-! ## Real and made-up declarations -/

/-- Real and made-up declarations are kept apart: what belongs to something made up is made up, and
records are made up in units that are. -/
structure Segregated (g : Graph) : Prop where
  /-- What belongs to something made up is made up. -/
  part : ∀ whole part, part ∈ g.parts whole → g.IsMadeUp whole → g.IsMadeUp part
  /-- Made-up records are declared in made-up units. -/
  record : ∀ whole record, record ∈ g.parts whole → g.tag? record = some .record →
    g.IsMadeUp record → g.IsMadeUpUnit whole

/-- A record that is made up inside something that was there before is declared in a made-up unit.

**Proof sketch.** By the way in which the payload of the whole changed, as it got a part. Only a unit gets
declarations, and only if it is made up; records get fields only, and what is an operand of an access is an
expression. -/
theorem Grows.isMadeUpUnit_of_part (h : g.Grows g.size g') (wf : g.WellFormed [])
    (typed' : g'.WellTyped) (hwhole : whole < g.size) (hpart : record ∈ g'.parts whole)
    (hrecord : g'.tag? record = some .record) (hge : g.size ≤ record) : g'.IsMadeUpUnit whole := by
  obtain ⟨node, hnode⟩ := exists_node hwhole
  obtain ⟨node', hnode', -, hdummy, hevolves⟩ := h.nodes whole node hnode
  -- a payload that stays has no new parts
  have hsame : g'.payload? whole ≠ g.payload? whole := fun hsame => by
    rw [h.parts_eq_of_payload? wf.typed hwhole hsame] at hpart
    exact absurd (wf.tree.part_lt whole record hpart) (Nat.not_lt.mpr hge)
  have hold : record ∉ g.partsOf node.payload := fun hmem =>
    absurd (wf.tree.part_lt whole record (by rwa [parts_eq hnode])) (Nat.not_lt.mpr hge)
  have hfits := typed'.nodes whole node' hnode'
  have hdeclared := h.declared whole node
  rw [parts_eq hnode'] at hpart
  rw [payload?_eq hnode, payload?_eq hnode'] at hsame
  rw [payload?_eq hnode'] at hdeclared
  refine ⟨node', hnode', ?_⟩
  rw [Node.tag, hdummy]
  generalize node.payload = payload at hevolves hsame hold hdeclared
  generalize node'.payload = payload' at hevolves hsame hfits hpart hdeclared
  cases hevolves with
  | same => exact absurd rfl hsame
  | @unit declarations new hnew =>
    refine ⟨rfl, ?_⟩
    by_contra hreal
    exact hsame (hdeclared declarations hnode (by simpa using hreal) rfl)
  | @record body new hnew =>
    have hfield : record ∈ body.fields ++ new := by
      simp only [partsOf, Payload.parts, List.mem_append] at hpart hold ⊢
      tauto
    have htag := All.tag_eq hfits.1 hfield
    exact absurd (htag.symm.trans hrecord) (by decide)
  | reference _ _ _ => exact absurd hpart List.not_mem_nil
  | memberAccess _ _ =>
    have hexpression := (List.mem_filter.mp hpart).2
    rw [hrecord] at hexpression
    exact absurd hexpression (by decide)

namespace Segregated

/-- Nothing is made up in the empty graph. -/
theorem empty : ({} : Graph).Segregated :=
  ⟨fun _ _ h => absurd h List.not_mem_nil, fun _ _ h => absurd h List.not_mem_nil⟩

/-- **A document is added.**

**Proof sketch.** Nothing that is built is made up. So what is made up is old, and it stands in what is old.
-/
theorem builds (h : g.Segregated) (wf : g.WellFormed []) (hbuilds : g.BuildsOn g' []) :
    g'.Segregated := by
  have hmade : ∀ {id}, g'.IsMadeUp id → id < g.size ∧ g.IsMadeUp id := by
    rintro id ⟨node, hnode, hdummy⟩
    rcases Nat.lt_or_ge id g.size with hlt | hge
    · exact ⟨hlt, node, (hbuilds.below id hlt).symm.trans hnode, hdummy⟩
    · rw [hbuilds.raw.dummy id node hge hnode] at hdummy
      exact absurd hdummy (by decide)
  have hnode : ∀ {id}, id < g.size → g'.node? id = g.node? id := fun hlt => hbuilds.below _ hlt
  refine ⟨fun whole part hpart hwhole => ?_, fun whole record hpart hrecord hmadeUp => ?_⟩
  · obtain ⟨hlt, hwhole⟩ := hmade hwhole
    rw [hbuilds.parts_eq wf hlt] at hpart
    obtain ⟨node, hfound, hdummy⟩ := h.part whole part hpart hwhole
    exact ⟨node, (hnode (lt_size hfound)).trans hfound, hdummy⟩
  · obtain ⟨hlt, hmadeUp⟩ := hmade hmadeUp
    have hwhole : whole < g.size := by
      by_contra hge
      exact absurd hlt (Nat.not_lt.mpr (hbuilds.part_le whole (Nat.not_lt.mp hge) record hpart))
    rw [hbuilds.parts_eq wf hwhole] at hpart
    rw [tag?, hnode hlt, ← tag?] at hrecord
    obtain ⟨node, hfound, hunit⟩ := h.record whole record hpart hrecord hmadeUp
    exact ⟨node, (hnode hwhole).trans hfound, hunit⟩

/-- **Usages are resolved.**

**Proof sketch.** What is new is made up, so only old nodes are left to be looked at, which have the old
parts. A record that is made up now stands in the unit for made-up declarations, as nothing else takes up a
new record. -/
theorem grows (h : g.Segregated) (wf : g.WellFormed []) (wf' : g'.WellFormed [])
    (hgrows : g.Grows g.size g') : g'.Segregated := by
  refine ⟨fun whole part hpart hwhole => ?_, fun whole record hpart hrecord hmade => ?_⟩
  · rcases Nat.lt_or_ge part g.size with hlt | hge
    · have hpart' := (hgrows.mem_parts_back hpart).resolve_right (Nat.not_le.mpr hlt)
      obtain ⟨node, hnode, -⟩ := exists_node_of_mem_parts hpart'
      rw [hgrows.isMadeUp_iff (lt_size hnode)] at hwhole
      exact (hgrows.isMadeUp_iff hlt).mpr (h.part whole part hpart' hwhole)
    · exact hgrows.isMadeUp hge (wf'.tree.part_lt whole part hpart)
  · obtain ⟨node, hnode, -⟩ := exists_node_of_mem_parts hpart
    rcases Nat.lt_or_ge whole g.size with hwhole | hwhole
    · rcases Nat.lt_or_ge record g.size with hlt | hge
      · have hpart' := (hgrows.mem_parts_back hpart).resolve_right (Nat.not_le.mpr hlt)
        obtain ⟨old, hold⟩ := exists_node hlt
        have htag := hgrows.tag? (tag?_eq hold)
        rw [hrecord, ← tag?_eq hold] at htag
        exact hgrows.isMadeUpUnit
          (h.record whole record hpart' htag.symm ((hgrows.isMadeUp_iff hlt).mp hmade))
      · exact hgrows.isMadeUpUnit_of_part wf wf'.typed hwhole hpart hrecord hge
    · rcases hgrows.tag?_whole wf'.typed hpart hwhole with hunit | ⟨-, hfield⟩
      · rw [tag?_eq hnode, Option.some.injEq] at hunit
        exact ⟨node, hnode, hunit, (hgrows.fresh whole node hwhole hnode).1⟩
      · exact absurd (hrecord.symm.trans hfield) (by decide)

/-- What is below something made up is made up. -/
theorem below (h : g.Segregated) (typed : g.WellTyped) (hbelow : g.Below whole id)
    (hwhole : g.IsMadeUp whole) : g.IsMadeUp id := by
  induction hbelow with
  | refl => exact hwhole
  | tail _ hpart ih => exact h.part _ _ (typed.hasPart_iff.mp hpart) ih

/-- A record is made up if and only if its unit is. -/
theorem isMadeUp_iff (h : g.Segregated) (wf : g.WellFormed []) (hunit : unit ∈ g.units)
    (hbelow : g.Below unit record) (hrecord : g.tag? record = some .record) :
    g.IsMadeUp record ↔ g.IsMadeUp unit := by
  refine ⟨fun hmade => ?_, fun hmade => h.below wf.typed hbelow hmade⟩
  rcases Relation.ReflTransGen.cases_tail hbelow with rfl | ⟨whole, habove, hpart⟩
  · exact hmade
  · obtain ⟨node, hnode, htag, hdummy⟩ :=
      h.record whole record (wf.typed.hasPart_iff.mp hpart) hrecord hmade
    -- units are parts of nothing
    rcases Relation.ReflTransGen.cases_tail habove with rfl | ⟨outer, -, houter⟩
    · exact ⟨node, hnode, hdummy⟩
    · exact absurd ((tag?_eq hnode).trans (congrArg some htag))
        (wf.typed.tag?_part_ne_unit (wf.typed.hasPart_iff.mp houter))

end Segregated

/-- **In every history** real and made-up declarations are kept apart. -/
theorem History.segregated (h : History (g :: past)) : g.Segregated := by
  apply h.invariant .empty
  intro g g' orderly hg hnext
  have wf := orderly.wellFormed
  cases hnext with
  | parse d path => exact hg.builds wf (d.build_ok path (.refl wf))
  | resolve hresolve =>
    obtain ⟨r, t₀, index, V₀, V, rfl, run⟩ := exists_run wf hresolve
    exact hg.grows wf run.sound.wellFormed (run.runs.reaches run.start).2.graph

/-! ## The first record for a type -/

/-- **The first unit.** What is found first in preorder is found in the first unit with anything to be
found.

**Proof sketch.** The preorder of the units up to the other one is a first part of the whole, and something is
found in it. So what is found first lies below one of these units, and the unit above it is unique. -/
theorem idxOf_lt_of_find? {test : NodeId → Bool} {visited : List NodeId} {found : NodeId}
    (wf : g.WellFormed []) (hpreorder : Preorder g.parts g.units visited)
    (hfound : visited.find? test = some found) (hunit : unit ∈ g.units) (hbelow : g.Below unit found)
    (hother : other ∈ g.units) (hbelow' : g.Below other id) (htest : test id = true) :
    unit = other ∨ g.units.idxOf unit < g.units.idxOf other := by
  obtain ⟨before, after, hsplit⟩ := List.append_of_mem hother
  have hmem : ∀ {roots all}, Preorder g.parts roots all →
      ∀ {sub}, sub ∈ all ↔ ∃ root ∈ roots, g.Below root sub := by
    intro roots all h sub
    rw [h.mem_iff, ← wf.typed.hasPart_eq]
    rfl
  rw [hsplit, List.append_cons] at hpreorder
  obtain ⟨visited₁, visited₂, rfl, hpreorder₁, -⟩ := Preorder.append_iff.mp hpreorder
  have hid : id ∈ visited₁ := (hmem hpreorder₁).mpr ⟨other, by simp, hbelow'⟩
  -- something is found no later than in the other unit
  have hfirst : found ∈ visited₁ := by
    obtain ⟨first, hfirst⟩ := Option.isSome_iff_exists.mp (List.find?_isSome.mpr ⟨id, hid, htest⟩)
    rw [List.find?_append, hfirst, Option.some_or, Option.some.injEq] at hfound
    exact hfound ▸ List.mem_of_find?_eq_some hfirst
  obtain ⟨root, hroot, habove⟩ := (hmem hpreorder₁).mp hfirst
  have hroot' : root ∈ g.units := by
    rw [hsplit, List.append_cons]
    exact List.mem_append_left _ hroot
  obtain rfl := wf.tree.unit_unique wf.typed hunit hroot' hbelow habove
  rcases List.mem_append.mp hroot with hbefore | hlast
  · have hnodup : g.units.Nodup := by simpa using wf.tree.roots
    have hnot : other ∉ before := by
      rw [hsplit, List.nodup_append] at hnodup
      exact fun hmem => hnodup.2.2 other hmem other List.mem_cons_self rfl
    right
    rw [hsplit, List.idxOf_append_of_mem hbefore, List.idxOf_append_of_notMem hnot,
      List.idxOf_cons_self, Nat.add_zero]
    exact List.idxOf_lt_length_of_mem hbefore
  · exact Or.inl (List.mem_singleton.mp hlast)

/-- A unit holds a record whose name spells a type. -/
def Declares (g : Graph) (unit : NodeId) (type : Descriptor) (record : NodeId) : Prop :=
  unit ∈ g.units ∧ g.Below unit record ∧ g.spells .record type record = true

/-- A made-up unit with a record for a type stands before all units with a real one. -/
def Outrun (g : Graph) (type : Descriptor) : Prop :=
  ∃ unit made, g.IsMadeUpUnit unit ∧ g.Declares unit type made ∧
    ∀ other real, g.Declares other type real → ¬ g.IsMadeUp real → g.units.idxOf unit < g.units.idxOf other

/-- **The record indexed under a type** for which there is a record at all is real, unless a unit with a
made-up one stands before all units with a real one.

**Proof sketch.** The index takes the first record of the type that is visited, and units are visited in
order. If it is made up, its unit is, and each unit with a real record comes later. If on the other hand a
unit with a made-up record comes before all with a real one, then a real first record would stand in a unit
both before and behind it. -/
theorem Segregated.exists_record? {t : ScopeTable} {index : Index} {visited : List NodeId}
    {declared : NodeId} (h : g.Segregated) (wf : g.WellFormed [])
    (hindexed : Index.Indexed g t index visited) (hdeclares : g.Declares unit type declared) :
    ∃ record, index.record? type = some record ∧ g.spells .record type record = true ∧
      (g.IsMadeUp record ↔ g.Outrun type) := by
  have hmem : ∀ {sub}, sub ∈ visited ↔ ∃ root ∈ g.units, g.Below root sub := by
    intro sub
    rw [hindexed.preorder.mem_iff, ← wf.typed.hasPart_eq]
    rfl
  have htag : ∀ {sub}, g.spells .record type sub = true → g.tag? sub = some .record := by
    intro sub hspells
    obtain ⟨node, hnode, hrecord, -⟩ := spells_iff.mp hspells
    rw [tag?_eq hnode, hrecord]
  obtain ⟨record, hfound⟩ := Option.isSome_iff_exists.mp (List.find?_isSome.mpr
    ⟨declared, hmem.mpr ⟨unit, hdeclares.1, hdeclares.2.1⟩, hdeclares.2.2⟩)
  have hspells := List.find?_some hfound
  obtain ⟨first, hfirst, hbelow⟩ := hmem.mp (List.mem_of_find?_eq_some hfound)
  have hmade := h.isMadeUp_iff wf hfirst hbelow (htag hspells)
  refine ⟨record, (hindexed.lists.records type).trans hfound, hspells, fun hmadeUp => ?_, ?_⟩
  · obtain ⟨node, hnode, hdummy⟩ := hmade.mp hmadeUp
    have hunit := wf.typed.units.tag_eq hfirst
    rw [tag?_eq hnode, Option.some.injEq] at hunit
    refine ⟨first, record, ⟨node, hnode, hunit, hdummy⟩, ⟨hfirst, hbelow, hspells⟩, ?_⟩
    rintro other real' ⟨hother, hbelow', hspells'⟩ hreal'
    refine (idxOf_lt_of_find? wf hindexed.preorder hfound hfirst hbelow hother hbelow'
      hspells').resolve_left ?_
    rintro rfl
    exact hreal' (h.below wf.typed hbelow' (hmade.mp hmadeUp))
  · rintro ⟨earliest, made, ⟨node, hnode, -, hdummy⟩, ⟨hunit, hbelow', hspells'⟩, hbefore⟩
    by_contra hreal'
    -- the unit with the real record would have to stand before and behind the made-up one
    have hlater := hbefore first record ⟨hfirst, hbelow, hspells⟩ hreal'
    rcases idxOf_lt_of_find? wf hindexed.preorder hfound hfirst hbelow hunit hbelow' hspells' with
      rfl | hearlier
    · exact absurd hlater (Nat.lt_irrefl _)
    · exact absurd hlater (Nat.lt_asymm hearlier)

/-- One more operation is a step of a history, or changes nothing.

**Proof sketch.** By cases on the operation. Parsing leaves the graph or builds a document in it. -/
theorem advances_of_perform {operation : Operation} (h : g.perform operation = .ok g') :
    g' = g ∨ g.Advances g' := by
  cases operation with
  | build d path =>
    obtain ⟨-, rfl⟩ := checked_eq_ok_iff.mp h
    exact Or.inr (.parse d path)
  | parse path contents =>
    simp only [Graph.perform] at h
    split at h
    · next unit? g₁ hparse =>
      obtain ⟨-, rfl⟩ := checked_eq_ok_iff.mp h
      rcases built_of_parseFile hparse with ⟨-, rfl⟩ | ⟨d, hbuilt⟩
      · exact Or.inl rfl
      · cases hbuilt
        exact Or.inr (.parse d path)
    · cases h
      exact Or.inl rfl
  | resolve =>
    cases hresolve : g.resolveUsages with
    | error fault =>
      simp only [Graph.perform, hresolve] at h
      cases h
    | ok result =>
      obtain ⟨g₁, index⟩ := result
      simp only [Graph.perform, hresolve] at h
      cases h
      exact Or.inr (.resolve hresolve)

/-- One more operation makes a history longer, or changes nothing. -/
theorem History.perform {operation : Operation} (hpast : History (g :: past))
    (h : g.perform operation = .ok g') : ∃ past', History (g' :: past') := by
  rcases advances_of_perform h with rfl | hnext
  · exact ⟨past, hpast⟩
  · exact ⟨_, .next hpast hnext⟩

/-- What is done in a session is a history. -/
theorem exists_history {session : List Operation} (h : after session = .ok g) :
    ∃ past, History (g :: past) := by
  induction session using List.reverseRecOn generalizing g with
  | nil =>
    cases h
    exact ⟨[], .start⟩
  | append_singleton session operation ih =>
    rw [after_concat] at h
    cases hbefore : after session with
    | error fault =>
      rw [hbefore] at h
      cases h
    | ok g₀ =>
      rw [hbefore] at h
      obtain ⟨past, hpast⟩ := ih hbefore
      exact hpast.perform h

/-- **Every session** is a history. -/
theorem exists_history_after (session : List Operation) :
    ∃ g past, after session = .ok g ∧ History (g :: past) := by
  obtain ⟨g, hafter, -⟩ := exists_settled_after session
  obtain ⟨past, hhistory⟩ := exists_history hafter
  exact ⟨g, past, hafter, hhistory⟩

/-- What is computed of the graph after a session holds of it. -/
theorem of_after_eq {session : List Operation} {P : Graph → Prop} [DecidablePred P]
    (hafter : after session = .ok g) (h : (after session).map (fun g => decide (P g)) = .ok true) : P g := by
  rw [hafter] at h
  exact of_decide_eq_true (Except.ok.inj h)

/-- **Which records are indexed.** In every run, after whatever session, some record is indexed under a
type for which a unit holds a record at the start of the run. It is a real one, unless a made-up unit
with a record for the type stands before all units with a real one.

**Proof sketch.** The index holds the first record of a type in the order of the walk, so the record of the
unit that stands first among those with one. Real and made-up records are never in the same unit, by the
history (`Segregated`). Hence the first record is made up just if the unit that comes first is, which is what
`Outrun` says. -/
theorem after_precedence (session : List Operation) :
    ∃ g g' index, after session = .ok g ∧ g.resolveUsages = .ok (g', index) ∧
      ∀ type unit declared, g.Declares unit type declared →
        ∃ record, index.record? type = some record ∧ g'.spells .record type record = true ∧
          (g'.IsMadeUp record ↔ g.Outrun type) := by
  obtain ⟨g, hafter, hg⟩ := exists_settled_after session
  obtain ⟨past, hhistory⟩ := exists_history hafter
  obtain ⟨r, t₀, index, V₀, V, hresolve, run⟩ := resolveUsages_ok hg.wellFormed
  have hstep := (run.runs.reaches run.start).2
  refine ⟨g, r.graph, r.index, hafter, hresolve, fun type unit declared hdeclares => ?_⟩
  obtain ⟨record, hrecord, hspells, hiff⟩ :=
    hhistory.segregated.exists_record? hg.wellFormed run.indexed hdeclares
  obtain ⟨node, hnode, -⟩ := spells_iff.mp hspells
  have hlt := lt_size hnode
  refine ⟨record, hstep.records type record hrecord, ?_, ?_⟩
  · rw [hstep.graph.spells_eq hlt, hspells]
  · rw [hstep.graph.isMadeUp_iff hlt, hiff]

end Graph

open Document in
/-- A record is made up for a type before the document that declares it is added. -/
def belatedRecord : List Operation :=
  [.build { declarations := [.function "main" none none false [] (some
      [.expression (.member (.ref "x" (some "Foo") false none) "y" none none none)])] } "a.json",
    .resolve, .build { declarations := [.record "Foo" "class" [] []] } "b.json"]

/-- **A made-up record is indexed though there is a real one.** When the usages are resolved again, the
type of the record that was added last is still that of the record made up before. -/
theorem after_precedence_outrun : ∃ g g' index unit real record,
    Graph.after belatedRecord = .ok g ∧ g.resolveUsages = .ok (g', index) ∧
      g.Declares unit (.parse "Foo") real ∧ ¬ g.IsMadeUp real ∧
        index.record? (.parse "Foo") = some record ∧ g'.IsMadeUp record := by
  obtain ⟨g, hafter, hg⟩ := Graph.exists_settled_after belatedRecord
  obtain ⟨r, _, _, _, _, hresolve, -⟩ := Graph.resolveUsages_ok hg.wellFormed
  have hrun : (Graph.after belatedRecord >>= fun g => g.resolveUsages.map fun s => decide (
      (11 ∈ g.units ∧ 13 ∈ g.parts 11 ∧ g.spells .record (.parse "Foo") 13 = true ∧
        (g.node? 13).map Node.dummy = some false) ∧
      s.2.record? (.parse "Foo") = some 8 ∧ (s.1.node? 8).map Node.dummy = some true)) = .ok true := by
    decide +kernel
  rw [hafter] at hrun
  simp only [bind, Except.bind, hresolve, Except.map, Except.ok.injEq, decide_eq_true_eq] at hrun
  obtain ⟨⟨hunit, hpart, hspells, hreal⟩, hrecord, hdummy⟩ := hrun
  refine ⟨g, r.graph, r.index, 11, 13, 8, hafter, hresolve,
    ⟨hunit, .single (hg.wellFormed.typed.hasPart_iff.mpr hpart), hspells⟩, ?_, hrecord, ?_⟩
  · rintro ⟨node, hnode, hmade⟩
    rw [hnode, Option.map_some, hmade] at hreal
    exact absurd hreal (by decide)
  · exact Option.map_eq_some_iff.mp hdummy

end ProgramGraph
