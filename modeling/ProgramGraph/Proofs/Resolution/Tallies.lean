import Mathlib.Data.Set.Card
import ProgramGraph.Proofs.Building.Raw
import ProgramGraph.Proofs.Resolution.Effects

set_option autoImplicit false

/-!
# What a resolution counts

A resolution counts the declarations that it makes up and the usages that it settles, and the index
counts the declared types before. What it counts as made up is what the graph has more afterwards. Of a
graph in which nothing was resolved before, every usage that is visited is counted once, as what it is
in the end.

## Main definitions

* `ProgramGraph.Counters.madeUp` — how many nodes are made up for the dummies that are counted.
* `ProgramGraph.Graph.typesOf` — the types that are declared by nodes of a kind.

## Main results

* `ProgramGraph.Resolver.Does.size` — made-up nodes are counted.
* `ProgramGraph.Resolver.Runs.tally` — usages are counted once.
* `ProgramGraph.Index.Indexed.counted` — declared types are counted once.
-/

namespace ProgramGraph

/-- How many nodes are made up for the dummies that are counted: a record comes with the field that
stands for it. -/
def Counters.madeUp (c : Counters) : Nat := c.dummyFields + 2 * c.dummyRecords

/-- The counters of what was there before: all but those of the dummies. -/
def Counters.found (c : Counters) : Counters := { c with dummyFields := 0, dummyRecords := 0 }

/-- What is counted as something is a usage. -/
theorem Payload.tag_of_verdict? {payload : Payload} {v : Verdict} (h : payload.verdict? = some v) :
    payload.tag = .reference ∨ payload.tag = .memberAccess := by
  cases payload with
  | reference _ _ => exact Or.inl rfl
  | memberAccess _ _ => exact Or.inr rfl
  | _ => cases h

/-- What is no usage stays none. -/
theorem Graph.Grows.verdict?_eq_none_iff {n : Nat} {g g' : Graph} {id : NodeId} (h : g.Grows n g')
    (hlt : id < g.size) : g'.verdict? id = none ↔ g.verdict? id = none := by
  have hkind : ∀ payload payload' : Payload, payload'.tag = payload.tag →
      (payload'.verdict? = none ↔ payload.verdict? = none) := by
    intro payload payload' htag
    cases payload <;> cases payload' <;> simp [Payload.tag, Payload.verdict?] at htag ⊢
  obtain ⟨node, hnode⟩ := exists_node hlt
  obtain ⟨payload', hpayload', hevolves⟩ := h.exists_payload (payload?_eq hnode)
  rw [verdict?, hpayload', verdict?, payload?_eq hnode]
  exact hkind _ _ hevolves.tag

/-- A unit is added if there is none for made-up declarations. -/
theorem Graph.size_placeholderUnit (g : Graph) :
    g.placeholderUnit.2.size + g.units.length = g.size + g.placeholderUnit.2.units.length := by
  cases hunit : g.placeholderUnit? with
  | some unit => rw [placeholderUnit_of_some hunit]
  | none =>
    obtain ⟨-, hadds, hunits⟩ := placeholderUnit_of_none hunit
    rw [hadds.size, hunits, List.length_append, List.length_singleton]
    omega

namespace Resolver

variable {r r' r₀ : Resolver} {vs : List Verdict} {n : Nat} {V done : List NodeId} {t₀ : ScopeTable}
  {id : NodeId}

/-! ## Made-up nodes -/

/-- **Every write** makes as many nodes as it counts, besides units.

**Proof sketch.** One case for each kind of write: the sizes before and after, the number of units and the
counters are known, and the equation is arithmetic. -/
theorem Writes.size (h : r.Writes r') :
    r'.graph.size + (r.graph.units.length + r.index.counters.madeUp) =
      r.graph.size + (r'.graph.units.length + r'.index.counters.madeUp) := by
  cases h with
  | beliefs h =>
    rw [h.sameTree.size, h.units]
  | remember => rfl
  | unit h =>
    have hsize := r.graph.size_placeholderUnit
    simp only
    omega
  | @record unit type hunit =>
    have hunits : (r.makeRecord type).2.graph.units.length = r.graph.units.length := by
      rw [makeRecord_eq hunit]
      exact congrArg List.length (r.graph.units_addTyped ..)
    have hsize : (r.makeRecord type).2.graph.size = r.graph.size + 2 := by
      rw [makeRecord_eq hunit]
      exact Graph.size_makeRecord ..
    have hcounted : (r.makeRecord type).2.index.counters.madeUp = r.index.counters.madeUp + 2 := by
      rw [makeRecord_eq hunit]
      simp only [Resolver.count, Counters.madeUp]
      omega
    omega
  | @field type record name hrecord _ o =>
    have hunits : (r.makeField record name o).2.graph.units.length = r.graph.units.length :=
      congrArg List.length (r.graph.units_addTyped ..)
    have hsize : (r.makeField record name o).2.graph.size = r.graph.size + 1 :=
      (Graph.size_modify ..).trans (Graph.size_addTyped ..)
    have hcounted : (r.makeField record name o).2.index.counters.madeUp = r.index.counters.madeUp + 1 := by
      simp only [makeField, Resolver.count, Counters.madeUp]
      omega
    omega
  | target reference target =>
    have hsize : (r.graph.setTarget reference target).size = r.graph.size := Graph.size_modify ..
    rw [hsize]
    rfl
  | access access base member =>
    have hsize : (r.graph.setAccess access base member).size = r.graph.size := Graph.size_modify ..
    rw [hsize]
    rfl

/-- **Whatever is done** makes as many nodes as are counted, besides units. -/
theorem Does.size (h : r.Does vs r') :
    r'.graph.size + (r.graph.units.length + r.index.counters.madeUp) =
      r.graph.size + (r'.graph.units.length + r'.index.counters.madeUp) := by
  induction h with
  | refl => rfl
  | write _ now ih =>
    have hnow := now.size
    omega
  | @judge vs r' _ v ih =>
    have hcounted : (r'.count (Counters.judge v)).index.counters.madeUp = r'.index.counters.madeUp := by
      rcases v with ⟨_ | _⟩ | ⟨_ | _⟩ <;> rfl
    rw [hcounted]
    exact ih

/-! ## Counted usages -/

/-- No write counts a usage or a declared type. -/
theorem Writes.found (h : r.Writes r') : r'.index.counters.found = r.index.counters.found := by
  cases h with
  | @record unit type hunit => rw [makeRecord_eq hunit]; rfl
  | _ => rfl

/-- **The usages** that are counted. -/
theorem Does.tally (h : r.Does vs r') (v : Verdict) :
    r'.index.counters.tally v = r.index.counters.tally v + vs.count v := by
  have hfound : ∀ c : Counters, c.tally v = c.found.tally v := by
    intro c
    rcases v with ⟨_ | _⟩ | ⟨_ | _⟩ <;> rfl
  induction h with
  | refl => rfl
  | write _ now ih => rw [hfound, now.found, ← hfound, ih]
  | judge _ w ih =>
    change (Counters.judge w _).tally v = _
    rw [Counters.tally_judge, ih, List.count_append, List.count_singleton, Nat.add_assoc]
    simp only [beq_iff_eq]

/-- Declared types are not counted again. -/
theorem Does.indexed (h : r.Does vs r') :
    r'.index.counters.recordsIndexed = r.index.counters.recordsIndexed ∧
      r'.index.counters.enumsIndexed = r.index.counters.enumsIndexed := by
  induction h with
  | refl => exact ⟨rfl, rfl⟩
  | write _ now ih =>
    exact ⟨(congrArg Counters.recordsIndexed now.found).trans ih.1,
      (congrArg Counters.enumsIndexed now.found).trans ih.2⟩
  | judge _ v ih =>
    rcases v with ⟨_ | _⟩ | ⟨_ | _⟩ <;> exact ih

/-! ## Runs -/

/-- The usages that are not resolved stay what they are. -/
theorem Step.verdict?_eq (h : Step n done r r') (hid : id ∉ done) (hlt : id < r.graph.size) :
    r'.graph.verdict? id = r.graph.verdict? id := by
  cases hverdict : r.graph.verdict? id with
  | none => exact (h.graph.verdict?_eq_none_iff hlt).mpr hverdict
  | some v =>
    obtain ⟨payload, hpayload, hv⟩ := Option.bind_eq_some_iff.mp hverdict
    rw [Graph.verdict?, h.usages id payload hid hpayload (Payload.tag_of_verdict? hv)]
    exact hv

/-- What was not visited yet is no usage, or it is counted when it is visited. -/
theorem Step.isOpen_or (h : Step r₀.graph.size V r₀ r) (raw : r₀.graph.Raw) (hid : id ∉ V) :
    r.graph.IsOpen id ∨ r.graph.verdict? id = none := by
  cases hverdict : r.graph.verdict? id with
  | none => exact Or.inr rfl
  | some v =>
    obtain ⟨payload, hpayload, hv⟩ := Option.bind_eq_some_iff.mp hverdict
    have hstart := h.payload?_back hid hpayload (Payload.tag_of_verdict? hv)
    obtain ⟨node, hnode, rfl⟩ := Graph.exists_node_of_payload? hstart
    have hraw := raw.payload id node hnode
    left
    cases hkind : node.payload with
    | reference target isStatic =>
      rw [hkind] at hpayload
      exact Or.inl (Graph.tag?_of_payload? hpayload)
    | memberAccess base member =>
      rw [hkind] at hraw hpayload
      obtain ⟨stub, rfl, htag⟩ := hraw
      exact Or.inr ⟨base, stub, hpayload, h.graph.tag? htag⟩
    | _ =>
      rw [hkind] at hv
      cases hv

/-- What was visited is there. -/
theorem Runs.lt_size (h : Runs n t₀ r₀ V r) (sound : r₀.Sound) : ∀ id ∈ V, id < r.graph.size := by
  intro id hid
  have tree := (h.reaches sound).1.wellFormed.tree
  rcases h.whole sound id hid with hunit | ⟨w, -, hpart⟩
  · exact tree.root_lt id (List.mem_append_left _ hunit)
  · exact tree.part_lt w id hpart

/-- **Every usage is counted once,** as what it is in the end, if nothing was resolved or counted
before.

**Proof sketch.** By induction on the visits. What was visited before stays what it is. The visit itself
counts what it leaves, if there was a usage to be resolved, and nothing otherwise. -/
theorem Runs.tally (h : Runs r₀.graph.size t₀ r₀ V r) (sound : r₀.Sound) (raw : r₀.graph.Raw)
    {v : Verdict} (hzero : r₀.index.counters.tally v = 0) :
    r.index.counters.tally v = V.countP fun id => r.graph.verdict? id = some v := by
  induction h with
  | start => exact hzero
  | @visit V p id node t r r' before now ih =>
    obtain ⟨hsound, hstep⟩ := before.reaches sound
    have hlt := Graph.lt_size now.found
    obtain ⟨vs, hdoes, hopen, hnone⟩ := does_of_resolveUsage now.resolved
    -- what was visited before stays what it is
    have hothers : V.countP (fun other => decide (r'.graph.verdict? other = some v)) =
        V.countP fun other => decide (r.graph.verdict? other = some v) := by
      refine List.countP_congr fun other hother => ?_
      have hne : other ∉ [id] := fun hmem => now.notMem (List.mem_singleton.mp hmem ▸ hother)
      rw [now.reaches.step.verdict?_eq hne (before.lt_size sound other hother)]
    have hself : vs.count v = [id].countP fun id => decide (r'.graph.verdict? id = some v) := by
      rw [List.countP_singleton]
      rcases hstep.isOpen_or raw now.notMem with hisOpen | hverdict
      · rw [hopen hisOpen]
        change (Option.toList (r'.graph.verdict? id)).count v = _
        cases r'.graph.verdict? id with
        | none => simp
        | some w => simp [List.count_singleton]
      · rw [hnone hverdict, (now.reaches.step.graph.verdict?_eq_none_iff hlt).mpr hverdict]
        rfl
    rw [hdoes.tally, ih, List.countP_append, hothers, hself]

end Resolver

/-! ## Declared types -/

/-- The types that the nodes of a kind declare by their names. -/
def Graph.typesOf (g : Graph) (tag : Tag) : Set Descriptor := {type | ∃ id, g.spells tag type id = true}

/-- There are as many keys as values are found. -/
theorem Assoc.size_eq_ncard {κ ν : Type} [DecidableEq κ] {m : Assoc κ ν} (h : m.keys.Nodup) :
    m.size = {key | ∃ value, m.get? key = some value}.ncard := by
  have hkeys : {key | ∃ value, m.get? key = some value} = (m.keys.toFinset : Set κ) := by
    ext key
    rw [Finset.mem_coe, List.mem_toFinset, mem_keys_iff]
    rfl
  rw [hkeys, Set.ncard_coe_finset, List.toFinset_card_of_nodup h, length_keys]

namespace Index.Indexed

variable {g : Graph} {t : ScopeTable} {index : Index} {V : List NodeId}

/-- A map from types to their first declarations has as many keys as there are types declared, where
everything stands somewhere. -/
theorem size_eq (h : Indexed g t index V) (hstands : ∀ id, id < g.size → ∃ p, g.Stands p id)
    {m : Assoc Descriptor NodeId} {tag : Tag} (hnodup : m.keys.Nodup)
    (hfirst : ∀ type, m.get? type = V.find? (g.spells tag type)) : m.size = (g.typesOf tag).ncard := by
  rw [Assoc.size_eq_ncard hnodup]
  congr 1
  ext type
  change (∃ value, m.get? type = some value) ↔ ∃ id, g.spells tag type id = true
  rw [hfirst, ← Option.isSome_iff_exists, List.find?_isSome]
  refine ⟨fun ⟨id, _, hspells⟩ => ⟨id, hspells⟩, fun ⟨id, hspells⟩ => ⟨id, ?_, hspells⟩⟩
  obtain ⟨node, hnode, -⟩ := Graph.spells_iff.mp hspells
  obtain ⟨p, hp⟩ := hstands id (Graph.lt_size hnode)
  exact h.complete p id hp

/-- **The declared types** are counted, each of them once. -/
theorem counted (h : Indexed g t index V) (hstands : ∀ id, id < g.size → ∃ p, g.Stands p id) :
    index.counters.recordsIndexed = (g.typesOf .record).ncard ∧
      index.counters.enumsIndexed = (g.typesOf .enum).ncard := by
  rw [h.counters]
  exact ⟨h.size_eq hstands h.lists.nodup.1 h.lists.records, h.size_eq hstands h.lists.nodup.2 h.lists.enums⟩

/-- No usage is counted before usages are resolved. -/
theorem tally_eq_zero (h : Indexed g t index V) (v : Verdict) : index.counters.tally v = 0 := by
  rw [h.counters]
  rcases v with ⟨_ | _⟩ | ⟨_ | _⟩ <;> rfl

/-- Nothing is made up before usages are resolved. -/
theorem madeUp_eq_zero (h : Indexed g t index V) : index.counters.madeUp = 0 := by
  rw [h.counters]
  rfl

end Index.Indexed

end ProgramGraph
