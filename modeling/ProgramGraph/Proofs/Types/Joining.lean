import Mathlib.Order.Bounds.Basic
import ProgramGraph.Proofs.Beliefs.Rising

set_option autoImplicit false

/-!
# Joins are least upper bounds

Types are ordered by how much they say: a type is below its unqualified form and below the unknown
type, which says nothing. In this order the join of some types is their least upper bound. So a join
depends on nothing but the upper bounds of the types: not on their order, not on repetitions, and not
on whether some of them were joined before.

## Main results

* `ProgramGraph.Descriptor.isLUB_common?` — a join is the least upper bound of the types.
* `ProgramGraph.Descriptor.common?_eq_of_upperBounds_eq` — types with the same upper bounds have the
  same join.
* `ProgramGraph.Descriptor.common?_append` — types may be joined in parts.
* `ProgramGraph.TypeSet.join?_isLUB` — the joins of sets of observed types.

## Design

The order is the relation `ProgramGraph.Descriptor.IsBelow` that types go up in. On top of it is
`ProgramGraph.Descriptor.unknown` alone: a type that has the unknown name and a modifier or an
adjustment is a type like any other.
-/

namespace ProgramGraph

/-! ## The order of types -/

namespace Descriptor

variable {ts us : List Descriptor} {t u bound : Descriptor}

/-- Types, ordered by how much they say. -/
instance : PartialOrder Descriptor where
  le := IsBelow
  le_refl _ := Or.inl rfl
  le_trans t u bound htu hbound := by
    rcases htu with rfl | rfl | rfl
    · exact hbound
    · rcases hbound with rfl | rfl | rfl
      · exact Or.inr (Or.inl rfl)
      · exact Or.inr (Or.inl rfl)
      · exact Or.inr (Or.inr rfl)
    · rcases hbound with rfl | rfl | rfl <;> exact Or.inr (Or.inr rfl)
  le_antisymm t u htu hut := by
    rcases htu with rfl | rfl | rfl
    · rfl
    · rcases hut with h | h | rfl
      · exact h
      · exact h
      · rfl
    · rcases hut with h | h | h <;> exact h

/-- The type of which nothing is known is on top. -/
instance : OrderTop Descriptor where
  top := unknown
  le_top _ := Or.inr (Or.inr rfl)

/-- What is above a type and not on top has its shape. -/
theorem eq_unknown_or_unqualified_eq (h : t ≤ u) : u = unknown ∨ u.unqualified = t.unqualified := by
  rcases h with rfl | rfl | rfl
  · exact Or.inr rfl
  · exact Or.inr rfl
  · exact Or.inl rfl

/-- What is above two types is above their unqualified forms. -/
theorem unqualified_le (ht : t ≤ bound) (hu : u ≤ bound) (hne : t ≠ u) : t.unqualified ≤ bound := by
  rcases ht with rfl | rfl | rfl
  · -- the bound is the first type; it has no modifier, because the second one is below it
    rcases hu with rfl | rfl | rfl
    · exact absurd rfl hne
    · exact le_rfl
    · exact le_rfl
  · exact le_rfl
  · exact le_top

/-! ## Joins of lists -/

/-- **A join is the least upper bound.** -/
theorem isLUB_common? (h : common? ts = some t) : IsLUB {u | u ∈ ts} t := by
  obtain ⟨w, hw⟩ := exists_mem_of_common? h
  rcases common?_spec h with hall | ⟨hall, u, hu, v, hv, hne⟩ | ⟨rfl, u, hu, v, hv, hne⟩
  · refine ⟨fun u hu => (hall u hu).le, fun bound hbound => ?_⟩
    rw [← hall w hw]
    exact hbound hw
  · refine ⟨fun x hx => Or.inr (Or.inl (hall x hx).symm), fun bound hbound => ?_⟩
    rw [← hall u hu]
    exact unqualified_le (hbound hu) (hbound hv) hne
  · refine ⟨fun _ _ => le_top, fun bound hbound => ?_⟩
    rcases eq_unknown_or_unqualified_eq (hbound hu) with rfl | hshape
    · exact le_rfl
    · rcases eq_unknown_or_unqualified_eq (hbound hv) with rfl | hshape'
      · exact le_rfl
      · exact absurd (hshape.symm.trans hshape') hne

/-- **Only the upper bounds count.** -/
theorem common?_eq_of_upperBounds_eq (hts : ts ≠ []) (hus : us ≠ [])
    (h : upperBounds {t | t ∈ ts} = upperBounds {t | t ∈ us}) : common? ts = common? us := by
  obtain ⟨t, ht⟩ := Option.isSome_iff_exists.mp (common?_isSome hts)
  obtain ⟨u, hu⟩ := Option.isSome_iff_exists.mp (common?_isSome hus)
  have hlub : IsLUB {t | t ∈ us} t := by
    rw [IsLUB, ← h]
    exact isLUB_common? ht
  rw [ht, hu, hlub.unique (isLUB_common? hu)]

/-- **The order of the types does not matter,** nor how often each of them is there. -/
theorem common?_eq_of_mem_iff (h : ∀ t, t ∈ ts ↔ t ∈ us) : common? ts = common? us := by
  by_cases hts : ts = []
  · subst hts
    rw [List.eq_nil_iff_forall_not_mem.mpr fun t ht => List.not_mem_nil ((h t).mpr ht)]
  · have hus : us ≠ [] := by
      rintro rfl
      exact hts (List.eq_nil_iff_forall_not_mem.mpr fun t ht => List.not_mem_nil ((h t).mp ht))
    exact common?_eq_of_upperBounds_eq hts hus (congrArg upperBounds (Set.ext h))

/-- **Types may be joined in parts.** -/
theorem common?_append (ht : common? ts = some t) (hu : common? us = some u) :
    common? (ts ++ us) = common? [t, u] := by
  obtain ⟨w, hw⟩ := exists_mem_of_common? ht
  refine common?_eq_of_upperBounds_eq (List.ne_nil_of_mem (List.mem_append_left us hw))
    (List.cons_ne_nil _ _) (Set.ext fun bound => ?_)
  have hts : t ≤ bound ↔ ∀ w ∈ ts, w ≤ bound := isLUB_le_iff (isLUB_common? ht)
  have hus : u ≤ bound ↔ ∀ w ∈ us, w ≤ bound := isLUB_le_iff (isLUB_common? hu)
  calc (∀ w ∈ ts ++ us, w ≤ bound)
      ↔ (∀ w ∈ ts, w ≤ bound) ∧ ∀ w ∈ us, w ≤ bound := List.forall_mem_append
    _ ↔ t ≤ bound ∧ u ≤ bound := by rw [hts, hus]
    _ ↔ ∀ w ∈ [t, u], w ≤ bound := by simp

end Descriptor

/-! ## Joins of sets -/

namespace TypeSet

open Descriptor (common? common?_append common?_eq_of_mem_iff isLUB_common?)

/-- The types of a set that is made of a list. -/
theorem mem_types_ofList {os : List Observation} {t : Descriptor} :
    t ∈ (ofList os).types ↔ ∃ o ∈ os, t = o.type := by
  rw [ofList, mem_types_insertAll]
  simp [types, empty]

/-- **The join of a set of observed types** is the least upper bound of the types, whatever the
origins are. It does not depend on the order in which the types are held; and the join of two sets
together is the join of their joins.

**Proof sketch.** There are three shapes of a join: all types are the same, they differ in modifiers only, or
they are discordant. In each of them the join is the least upper bound (`isLUB_common?`). Independence of the
order is uniqueness of the join, and the join of a union follows from associativity (`common?_append`). -/
theorem join?_isLUB (s s' : TypeSet) (hs : s.types ≠ []) (hs' : s'.types ≠ []) :
    ∃ j j', s.join? = some j ∧ s'.join? = some j' ∧
      IsLUB {t | t ∈ s.types} j.type ∧
      ((∀ t, t ∈ s.types ↔ t ∈ s'.types) → j.type = j'.type) ∧
      ∃ l l', (s.insertAll s'.observations).join? = some l ∧ (ofList [j, j']).join? = some l' ∧
        l.type = l'.type := by
  obtain ⟨j, hj, hcommon⟩ := exists_join? hs
  obtain ⟨j', hj', hcommon'⟩ := exists_join? hs'
  have hunion : ∀ t, t ∈ (s.insertAll s'.observations).types ↔ t ∈ s.types ++ s'.types := by
    intro t
    rw [mem_types_insertAll, List.mem_append, types, types, List.mem_map, List.mem_map]
    simp only [eq_comm]
  have hpair : ∀ t, t ∈ (ofList [j, j']).types ↔ t ∈ [j.type, j'.type] := by
    intro t
    simp [mem_types_ofList]
  refine ⟨j, j', hj, hj', isLUB_common? hcommon, fun hsame => ?_, ?_⟩
  · rw [common?_eq_of_mem_iff hsame, hcommon'] at hcommon
    exact (Option.some.inj hcommon).symm
  · obtain ⟨t, ht⟩ := List.exists_mem_of_ne_nil _ hs
    obtain ⟨l, hl, hall⟩ := exists_join? (s := s.insertAll s'.observations)
      (List.ne_nil_of_mem ((hunion t).mpr (List.mem_append_left _ ht)))
    obtain ⟨l', hl', hboth⟩ := exists_join? (s := ofList [j, j'])
      (List.ne_nil_of_mem ((hpair j.type).mpr List.mem_cons_self))
    refine ⟨l, l', hl, hl', Option.some.inj ?_⟩
    calc some l.type
        = common? (s.types ++ s'.types) := hall.symm.trans (common?_eq_of_mem_iff hunion)
      _ = common? [j.type, j'.type] := common?_append hcommon hcommon'
      _ = some l'.type := (common?_eq_of_mem_iff hpair).symm.trans hboth

/-- Two qualified forms of a type, in either order: both sets join to the type, and so do they
together. -/
theorem join?_isLUB_qualified :
    let s := ofList [.spelled "const int", .spelled "volatile int"]
    let s' := ofList [.spelled "volatile int", .spelled "const int"]
    s.types ≠ [] ∧ s'.types ≠ [] ∧ (∀ t, t ∈ s.types ↔ t ∈ s'.types) ∧
      ∃ j j', s.join? = some j ∧ s'.join? = some j' ∧ IsLUB {t | t ∈ s.types} j.type ∧
        j.type = j'.type ∧
        ∃ l l', (s.insertAll s'.observations).join? = some l ∧ (ofList [j, j']).join? = some l' ∧
          l.type = l'.type := by
  intro s s'
  have hs : s.types ≠ [] := by decide +kernel
  have hs' : s'.types ≠ [] := by decide +kernel
  have hsame : ∀ t, t ∈ s.types ↔ t ∈ s'.types := by
    intro t
    simp [s, s', mem_types_ofList, or_comm]
  obtain ⟨j, j', hj, hj', hlub, hfree, hparts⟩ := join?_isLUB s s' hs hs'
  exact ⟨hs, hs', hsame, j, j', hj, hj', hlub, hfree hsame, hparts⟩

end TypeSet

end ProgramGraph
