import ProgramGraph.Proofs.Resolution.Wiring

set_option autoImplicit false

/-!
# Types in step with observations

Widening a set of observed types leaves the type alone, and primitive observations may be dropped, so
a type can be out of step with its set. While documents are built and usages are resolved this never
happens but to references: a field that hears of an access takes over the type that was observed on
it, and its set already holds all that it is widened by.

## Main definitions

* `ProgramGraph.Belief.InStep` — the type is the join of what was observed.
* `ProgramGraph.Graph.InStep` — all types are in step but those of references.

## Main results

* `ProgramGraph.Belief.InStep.observe` — observations keep a type in step.
* `ProgramGraph.Belief.InStep.widen_eq` — widening by the set of an access adds nothing.
* `ProgramGraph.Graph.InStep.changes` — what a resolution changes keeps types in step.
-/

namespace ProgramGraph

/-! ## Single beliefs -/

namespace TypeSet

variable {s : TypeSet} {os : List Observation}

/-- Types that are there already are not inserted. -/
theorem insertAll_of_subset (h : ∀ o ∈ os, o.type ∈ s.types) : s.insertAll os = s := by
  induction os with
  | nil => rfl
  | cons o rest ih =>
    rw [insertAll, List.foldl_cons, insert_eq_self (h o (List.mem_cons_self ..))]
    exact ih fun other hother => h other (List.mem_cons_of_mem _ hother)

end TypeSet

/-- Types of the same shape are primitive together. -/
theorem Descriptor.isPrimitive_congr {t u : Descriptor} (h : t.unqualified = u.unqualified) :
    t.isPrimitive = u.isPrimitive := by
  obtain ⟨hname, hadjustment⟩ : t.name = u.name ∧ t.adjustment = u.adjustment := by
    simpa [unqualified] using h
  rw [isPrimitive, isPrimitive, hasAdjustment, hasAdjustment, hname, hadjustment]

/-- Types of the same shape are known together. -/
theorem Descriptor.isUnknown_congr {t u : Descriptor} (h : t.unqualified = u.unqualified) :
    t.isUnknown = u.isUnknown := by
  have hname : t.unqualified.name = u.unqualified.name := by rw [h]
  exact congrArg (· == unknownName) hname

namespace Belief

variable {a b : Belief} {o : Observation}

/-- The type of a belief is the join of what was observed, or unknown if nothing was; and beside a
primitive type nothing else was observed. -/
structure InStep (b : Belief) : Prop where
  /-- No unknown type was observed. -/
  hears : b.Hears
  /-- The type is the join of what was observed. -/
  join : b.observed.types = [] ∧ b.type.type = .unknown ∨
    Descriptor.common? b.observed.types = some b.type.type
  /-- Nothing was observed beside a primitive type. -/
  primitive : b.type.type.isUnknown = false → b.type.type.isPrimitive = true →
    ∀ t ∈ b.observed.types, t = b.type.type

/-- **In step after an observation** that is not ignored. -/
theorem common?_observe (h : ¬ b.ignores o = true) :
    Descriptor.common? (b.observe o).observed.types = some (b.observe o).type.type := by
  have hstep := outOfStep_observe h
  rw [← TypeSet.type_join?]
  simpa [outOfStep] using hstep

/-- What is not ignored is known, and it is not primitive beside a primitive type. -/
theorem not_ignores_iff : ¬ b.ignores o = true ↔ o.type.isUnknown = false ∧
    (b.type.type.isUnknown = false → b.type.type.isPrimitive = true →
      o.type.isPrimitive = false) := by
  unfold ignores
  cases o.type.isUnknown <;> cases b.type.type.isUnknown <;> cases b.type.type.isPrimitive <;>
    cases o.type.isPrimitive <;> simp

namespace InStep

/-- A known type stands for something observed. -/
theorem common?_eq (h : b.InStep) (hknown : b.type.type.isUnknown = false) :
    Descriptor.common? b.observed.types = some b.type.type := by
  rcases h.join with ⟨-, hunknown⟩ | hjoin
  · rw [hunknown] at hknown
    exact absurd hknown (by decide)
  · exact hjoin

/-- **Observations keep a type in step.**

**Proof sketch.** Only the last condition needs an argument: what becomes known as primitive was all observed
alike. If the types differed in modifiers only, some primitive type would have been known before, and then the
new one would have been ignored. -/
theorem observe (h : b.InStep) (o : Observation) : (b.observe o).InStep := by
  by_cases hignores : b.ignores o = true
  · have hsame : b.observe o = b := if_pos hignores
    rwa [hsame]
  · have hjoin := common?_observe hignores
    refine ⟨h.hears.observe o, Or.inr hjoin, fun hknown hprimitive => ?_⟩
    have hmem : ∀ t, t ∈ (b.observe o).observed.types ↔ t ∈ b.observed.types ∨ t = o.type := by
      intro t
      rw [observe_of_not_ignores hignores]
      exact TypeSet.mem_types_insert
    rcases Descriptor.common?_spec hjoin with hall | ⟨hall, u, hu, v, hv, hne⟩ | ⟨hunknown, -⟩
    · exact hall
    · -- all that was observed has one shape, so a primitive type was known before
      exfalso
      have hshape : ∀ t ∈ (b.observe o).observed.types,
          t.unqualified = (b.observe o).type.type.unqualified :=
        fun t ht => by rw [← hall t ht, Descriptor.unqualified_unqualified]
      have hprim : o.type.isPrimitive = true := by
        rw [Descriptor.isPrimitive_congr (hshape o.type ((hmem _).mpr (Or.inr rfl))), hprimitive]
      obtain ⟨w, hw⟩ : ∃ w, w ∈ b.observed.types := by
        by_contra hnone
        rw [not_exists] at hnone
        have honly : ∀ t ∈ (b.observe o).observed.types, t = o.type :=
          fun t ht => ((hmem t).mp ht).resolve_left (hnone t)
        exact hne ((honly u hu).trans (honly v hv).symm)
      have hb : Descriptor.common? b.observed.types = some b.type.type := by
        rcases h.join with ⟨hnil, -⟩ | hb
        · rw [hnil] at hw
          exact absurd hw List.not_mem_nil
        · exact hb
      have hold : b.type.type.unqualified = (b.observe o).type.type.unqualified := by
        have hwshape := hshape w ((hmem w).mpr (Or.inl hw))
        rcases Descriptor.common?_spec hb with hsame | ⟨hplain, -⟩ | ⟨-, x, hx, y, hy, hxy⟩
        · rw [← hsame w hw, hwshape]
        · rw [← hplain w hw, Descriptor.unqualified_unqualified, hwshape]
        · exact absurd ((hshape x ((hmem x).mpr (Or.inl hx))).trans
            (hshape y ((hmem y).mpr (Or.inl hy))).symm) hxy
      have hnot := (not_ignores_iff.mp hignores).2
        ((Descriptor.isUnknown_congr hold).trans hknown)
        ((Descriptor.isPrimitive_congr hold).trans hprimitive)
      exact absurd (hprim.symm.trans hnot) (by decide)
    · rw [hunknown] at hknown
      exact absurd hknown (by decide)

/-- A belief is in step whoever listens. -/
theorem listeners (h : b.InStep) (listeners : List Listener) : { b with listeners }.InStep :=
  ⟨h.hears, h.join, h.primitive⟩

end InStep

/-- Nothing was observed. -/
theorem inStep_empty : ({} : Belief).InStep :=
  ⟨fun _ ht => absurd ht List.not_mem_nil, Or.inl ⟨rfl, rfl⟩, fun hknown => absurd hknown (by decide)⟩

namespace IsRaw

/-- A belief as it was built is in step. -/
theorem inStep (h : b.IsRaw) : b.InStep := by
  obtain ⟨o, rfl⟩ := h
  exact inStep_empty.observe o

/-- A belief as it was built rose from nothing. -/
theorem rises (h : b.IsRaw) : ({} : Belief).Rises b := by
  obtain ⟨o, rfl⟩ := h
  exact rises_observe {} o

/-- What was observed at first is the type. -/
theorem types_cases (h : b.IsRaw) :
    b.observed.types = [] ∧ b.type.type.isUnknown = true ∨ b.observed.types = [b.type.type] := by
  obtain ⟨o, rfl⟩ := h
  by_cases hignores : ({} : Belief).ignores o = true
  · have hsame : ({} : Belief).observe o = {} := if_pos hignores
    rw [hsame]
    exact Or.inl ⟨rfl, rfl⟩
  · right
    have hjoin := common?_observe hignores
    have htypes : (({} : Belief).observe o).observed.types = [o.type] := by
      rw [observe_of_not_ignores hignores, TypeSet.types_insert]
      rfl
    rw [htypes] at hjoin ⊢
    rw [← Option.some.inj hjoin]

end IsRaw

/-- **Widening by the set of an access adds nothing** after its type was observed.

**Proof sketch.** What was observed on the access is its own type at most. If this was added, widening finds
nothing new. If it was ignored, it is primitive and so is all that is known already, and widening by primitive
types only is ignored as well. -/
theorem InStep.widen_eq (h : b.InStep) (ha : a.IsRaw) :
    (b.observe a.type).widen ((b.observe a.type).observed.observations ++ a.observed.observations) =
      b.observe a.type := by
  have hall : ∀ {k : Descriptor → Prop}, (∀ t ∈ (b.observe a.type).observed.types, k t) →
      (∀ t ∈ a.observed.types, k t) → ∀ o ∈ (b.observe a.type).observed.observations ++
        a.observed.observations, k o.type := by
    intro k hk hk' o ho
    rcases List.mem_append.mp ho with ho | ho
    · exact hk _ (List.mem_map_of_mem ho)
    · exact hk' _ (List.mem_map_of_mem ho)
  by_cases hsubset : ∀ t ∈ a.observed.types, t ∈ (b.observe a.type).observed.types
  · have hsame := TypeSet.insertAll_of_subset (hall (fun _ ht => ht) hsubset)
    unfold widen
    split
    · rfl
    · rw [hsame]
  · -- the type was ignored, and all types are primitive
    rcases ha.types_cases with ⟨hnil, -⟩ | htypes
    · rw [hnil] at hsubset
      exact absurd (fun _ ht => absurd ht List.not_mem_nil) hsubset
    · have hnot : a.type.type ∉ (b.observe a.type).observed.types := by
        rw [htypes] at hsubset
        simpa using hsubset
      have hknown : a.type.type.isUnknown = false :=
        ha.inStep.hears _ (htypes ▸ List.mem_singleton.mpr rfl)
      by_cases hignores : b.ignores a.type = true
      · have hsame : b.observe a.type = b := if_pos hignores
        simp only [ignores, hknown, Bool.false_or, Bool.and_eq_true, Bool.not_eq_true'] at hignores
        obtain ⟨⟨hb, hprimitive⟩, hprim⟩ := hignores
        have hnonempty : (b.observed.size != 0) = true := by
          obtain ⟨w, hw⟩ := Descriptor.exists_mem_of_common? (h.common?_eq hb)
          rw [← TypeSet.length_types]
          simpa using List.length_pos_of_mem hw |>.ne'
        rw [hsame] at hall ⊢
        unfold widen
        rw [if_pos]
        rw [hnonempty, Bool.and_true, List.all_eq_true]
        refine hall (k := fun t => t.isPrimitive = true) (fun t ht => ?_) fun t ht => ?_
        · rw [h.primitive hb hprimitive t ht, hprimitive]
        · rw [htypes] at ht
          rw [List.mem_singleton.mp ht, hprim]
      · refine absurd ?_ hnot
        rw [observe_of_not_ignores hignores]
        exact TypeSet.mem_types_insert.mpr (Or.inr rfl)

end Belief

/-! ## Graphs -/

namespace Graph

variable {g g' : Graph} {id field access : NodeId} {b : Belief} {done : List NodeId}

/-- The types of all nodes but references are in step with what was observed. -/
structure InStep (g : Graph) : Prop where
  /-- Types are in step. -/
  beliefs : ∀ id b, g.belief? id = some b → g.tag? id ≠ some .reference → b.InStep
  /-- Nothing is observed on a member access but its first type. -/
  accesses : ∀ id b, g.belief? id = some b → g.tag? id = some .memberAccess → b.IsRaw
  /-- Beliefs rose from nothing. -/
  rises : ∀ id b, g.belief? id = some b → ({} : Belief).Rises b

/-- Whoever has a belief has a kind. -/
theorem exists_tag_of_belief? (h : g.belief? id = some b) : ∃ tag, g.tag? id = some tag := by
  obtain ⟨node, hnode, -⟩ := Option.bind_eq_some_iff.mp h
  exact ⟨node.tag, tag?_eq hnode⟩

namespace InStep

/-- **New nodes** are in step. -/
theorem quiet (h : g.InStep) (hquiet : g.Quiet g') : g'.InStep := by
  refine ⟨fun id b hb htag => ?_, fun id b hb htag => ?_, fun id b hb => ?_⟩
  · rcases hquiet.fresh id b hb with hold | ⟨-, hraw⟩
    · exact h.beliefs id b hold fun hreference => htag (hquiet.tags id _ hreference)
    · exact hraw.inStep
  · rcases hquiet.fresh id b hb with hold | ⟨-, hraw⟩
    · obtain ⟨tag, hkind⟩ := exists_tag_of_belief? hold
      obtain rfl := Option.some.inj ((hquiet.tags id _ hkind).symm.trans htag)
      exact h.accesses id b hold hkind
    · exact hraw
  · rcases hquiet.fresh id b hb with hold | ⟨-, hraw⟩
    · exact h.rises id b hold
    · exact hraw.rises

/-- **A field that is informed** of the types of an access observes the type of the access. -/
theorem informed_eq (h : g.InStep) (wired : g.Wired) (hfield : g.tag? field = some .field)
    (haccess : g.tag? access = some .memberAccess) :
    g.informed field access = g.observe field (g.typeOf access) := by
  obtain ⟨b, hb⟩ := Option.isSome_iff_exists.mp (wired.typed field _ hfield rfl)
  obtain ⟨a, ha⟩ := Option.isSome_iff_exists.mp (wired.typed access _ haccess rfl)
  have hne : g.tag? field ≠ some .reference := by simp [hfield]
  have hbelief := wired.belief?_observe hne (g.typeOf access)
  rw [hb, Option.map_some] at hbelief
  -- the access is neither the field nor a reference that means it
  have hother : (g.observe field (g.typeOf access)).belief? access = some a := by
    rw [(wired.still_observe field (g.typeOf access)).others access, ha]
    rintro (rfl | hmeans)
    · exact absurd (hfield.symm.trans haccess) (by simp)
    · exact absurd ((tag?_of_targetOf hmeans).symm.trans haccess) (by simp)
  refine widen_eq_self hbelief ?_
  rw [observedAt, observedAt, hbelief, hother, typeOf_eq ha]
  exact (h.beliefs field b hb hne).widen_eq (h.accesses access a ha haccess)

/-- **Informing a field** of the types of an access.

**Proof sketch.** The types of an access are in step, so that to inform the field comes to a single
observation on it. This leaves everything but the field and its followers alone, and the field is in step
after an observation. -/
theorem informed (h : g.InStep) (wired : g.Wired) (hfield : g.tag? field = some .field)
    (haccess : g.tag? access = some .memberAccess) : (g.informed field access).InStep := by
  rw [h.informed_eq wired hfield haccess]
  generalize g.typeOf access = o
  have hstill := wired.still_observe field o
  have hothers : ∀ id, id ≠ field → g.tag? id ≠ some .reference →
      (g.observe field o).belief? id = g.belief? id := by
    intro id hne hreference
    refine hstill.others id ?_
    rintro (heq | hmeans)
    · exact hne heq
    · exact hreference (tag?_of_targetOf hmeans)
  refine ⟨fun id b hb htag => ?_, fun id b hb htag => ?_, fun id b hb => ?_⟩
  · rw [hstill.tree.tag?] at htag
    by_cases heq : id = field
    · subst heq
      rw [wired.belief?_observe htag] at hb
      obtain ⟨b₀, hb₀, rfl⟩ := Option.map_eq_some_iff.mp hb
      exact (h.beliefs id b₀ hb₀ htag).observe o
    · rw [hothers id heq htag] at hb
      exact h.beliefs id b hb htag
  · rw [hstill.tree.tag?] at htag
    rw [hothers id (fun heq => by rw [heq, hfield] at htag; exact absurd htag (by simp))
      (by simp [htag])] at hb
    exact h.accesses id b hb htag
  · obtain ⟨b₀, hb₀, hrises⟩ := hstill.rises.exists_earlier hb
    exact (h.rises id b₀ hb₀).trans hrises

/-- **A reference that listens to something else** leaves types in step. -/
theorem rewired (h : g.InStep) {reference : NodeId} {target : Option NodeId} {l : Listener}
    (hrewired : Rewired reference target l g g')
    (htarget : g.All Tag.isValueDeclaration target.toList) : g'.InStep := by
  refine ⟨fun id b hb htag => ?_, fun id b hb htag => ?_, fun id b hb => ?_⟩
  · obtain ⟨b₀, hb₀, rfl⟩ := hrewired.exists_belief hb
    rw [hrewired.tags] at htag
    exact (h.beliefs id b₀ hb₀ htag).listeners _
  · rw [hrewired.tags] at htag
    obtain ⟨b₀, hb₀, rfl⟩ := hrewired.exists_belief hb
    have hraw := h.accesses id b₀ hb₀ htag
    have hnot : target ≠ some id := by
      rintro rfl
      obtain ⟨tag, hkind, hvalue⟩ := htarget id (List.mem_singleton.mpr rfl)
      obtain rfl := Option.some.inj (htag.symm.trans hkind)
      exact absurd hvalue (by decide)
    have hlisteners : b₀.listeners.filter (·.owner != some reference) ++
        (if target = some id then [l] else []) = b₀.listeners := by
      rw [if_neg hnot, hraw.listeners, List.filter_nil, List.append_nil]
    rwa [hlisteners]
  · obtain ⟨b₀, hb₀, rfl⟩ := hrewired.exists_belief hb
    exact (h.rises id b₀ hb₀).trans ⟨List.Subset.refl _, Or.inl rfl⟩

/-- **Beliefs of a reference that rise** leave the others in step. -/
theorem still (h : g.InStep) {reference : NodeId} (hreference : g.tag? reference = some .reference)
    (hstill : Still (· = reference) g g') : g'.InStep := by
  have hothers : ∀ id, g.tag? id ≠ some .reference → g'.belief? id = g.belief? id :=
    fun id hid => hstill.others id fun heq => hid (heq ▸ hreference)
  refine ⟨fun id b hb htag => ?_, fun id b hb htag => ?_, fun id b hb => ?_⟩
  · rw [hstill.tree.tag?] at htag
    rw [hothers id htag] at hb
    exact h.beliefs id b hb htag
  · rw [hstill.tree.tag?] at htag
    rw [hothers id (by simp [htag])] at hb
    exact h.accesses id b hb htag
  · obtain ⟨b₀, hb₀, hrises⟩ := hstill.rises.exists_earlier hb
    exact (h.rises id b₀ hb₀).trans hrises

/-- **One change** keeps types in step. -/
theorem change (h : g.InStep) (wired : g.Wired) (hchange : Change done g g') : g'.InStep := by
  cases hchange with
  | quiet hquiet => exact h.quiet hquiet
  | inform hfield haccess => exact h.informed wired hfield haccess
  | point _ hpayload htarget =>
    obtain ⟨now, l, hrewired, -, hstill⟩ := wired.exists_still hpayload htarget
    exact (h.rewired hrewired htarget).still
      ((hrewired.tags _).trans (tag?_of_payload? hpayload)) hstill

/-- **What a resolution changes** keeps types in step. -/
theorem changes (h : g.InStep) (wired : g.Wired) (hchanges : Changes done g g') : g'.InStep := by
  have hboth : g'.Wired ∧ g'.InStep := by
    induction hchanges with
    | refl => exact ⟨wired, h⟩
    | tail _ hchange ih => exact ⟨ih.1.change hchange, ih.2.change ih.1 hchange⟩
  exact hboth.2

end InStep

end Graph

end ProgramGraph
