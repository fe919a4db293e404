import Mathlib.Data.List.Perm.Subperm
import Mathlib.Tactic.Common
import ProgramGraph.Graph.Propagation

set_option autoImplicit false

/-!
# Sets of observed types

Facts about growing sets of types and about their joins, as far as beliefs are made of them.

## Main results

* `ProgramGraph.TypeSet.prefix_insertAll` — a set grows at its end.
* `ProgramGraph.TypeSet.insertAll_eq_self` — a set that does not get larger stays what it is.
* `ProgramGraph.Descriptor.common?_cases` — a join is a member, the first member without modifier,
  or the unknown type.
-/

namespace ProgramGraph

/-! ## Joins -/

namespace Descriptor

/-- **The three joins.** A join is the first member, the first member without its modifier, or the
unknown type. -/
theorem common?_cases {first : Descriptor} {rest : List Descriptor} {t : Descriptor}
    (h : common? (first :: rest) = some t) :
    t = first ∨ t = first.unqualified ∨ t = unknown := by
  simp only [common?] at h
  split_ifs at h with hsame hshape
  · exact Or.inl (Option.some.inj h).symm
  · exact Or.inr (Or.inl (Option.some.inj h).symm)
  · exact Or.inr (Or.inr (Option.some.inj h).symm)

/-- A nonempty list has a join. -/
theorem common?_isSome {ts : List Descriptor} (h : ts ≠ []) : (common? ts).isSome := by
  cases ts with
  | nil => exact absurd rfl h
  | cons first rest =>
    simp only [common?]
    split_ifs <;> rfl

/-- The unqualified form has no modifier to lose. -/
@[simp] theorem unqualified_unqualified (t : Descriptor) : t.unqualified.unqualified = t.unqualified :=
  rfl

end Descriptor

/-! ## Growing sets -/

namespace TypeSet

/-- There are as many types as the set has members. -/
@[simp] theorem length_types (s : TypeSet) : s.types.length = s.size := by
  simp [types, size]

/-- An insertion puts a new observation at the end. -/
theorem observations_insert (s : TypeSet) (o : Observation) :
    (s.insert o).observations =
      if o.type ∈ s.types then s.observations else s.observations ++ [o] := by
  unfold insert
  split <;> simp [*]

/-- A type that is there already is not inserted. -/
theorem insert_eq_self {s : TypeSet} {o : Observation} (h : o.type ∈ s.types) :
    s.insert o = s := by
  unfold insert
  rw [dif_pos h]

/-- A new type makes the set larger by one. -/
theorem size_insert_of_notMem {s : TypeSet} {o : Observation} (h : o.type ∉ s.types) :
    (s.insert o).size = s.size + 1 := by
  simp [size, observations_insert, h]

/-- **Sets grow at the end.** -/
theorem prefix_insert (s : TypeSet) (o : Observation) :
    s.observations <+: (s.insert o).observations := by
  rw [observations_insert]
  split
  · exact List.prefix_refl _
  · exact List.prefix_append _ _

/-- **Sets grow at the end,** also by several observations. -/
theorem prefix_insertAll (s : TypeSet) (os : List Observation) :
    s.observations <+: (s.insertAll os).observations := by
  induction os generalizing s with
  | nil => exact List.prefix_refl _
  | cons o rest ih => exact (s.prefix_insert o).trans (ih (s.insert o))

/-- Two sets with the same observations are the same. -/
theorem eq_of_observations {s t : TypeSet} (h : s.observations = t.observations) : s = t := by
  cases s; cases t; simpa using h

/-- **No growth, no change.** -/
theorem insertAll_eq_self {s : TypeSet} {os : List Observation}
    (h : (s.insertAll os).size ≤ s.size) : s.insertAll os = s := by
  refine (eq_of_observations ?_).symm
  exact (s.prefix_insertAll os).eq_of_length_le h

/-- The members after an insertion. -/
theorem mem_types_insert {s : TypeSet} {o : Observation} {t : Descriptor} :
    t ∈ (s.insert o).types ↔ t ∈ s.types ∨ t = o.type := by
  rw [types_insert]
  split
  · next h => exact ⟨Or.inl, fun h' => h'.elim id fun h' => h' ▸ h⟩
  · simp

/-- The members after several insertions. -/
theorem mem_types_insertAll {s : TypeSet} {os : List Observation} {t : Descriptor} :
    t ∈ (s.insertAll os).types ↔ t ∈ s.types ∨ ∃ o ∈ os, t = o.type := by
  induction os generalizing s with
  | nil => simp [insertAll]
  | cons o rest ih =>
    rw [insertAll, List.foldl_cons]
    refine (ih (s := s.insert o)).trans ?_
    rw [mem_types_insert]
    simp only [List.mem_cons, exists_eq_or_imp]
    tauto

/-- The members of a set lie within every list that holds them all. -/
theorem size_le_of_subset {s : TypeSet} {U : List Descriptor} (h : ∀ t ∈ s.types, t ∈ U) :
    s.size ≤ U.length := by
  rw [← length_types]
  exact (List.subperm_of_subset s.distinct h).length_le

/-- **The join of a set,** seen as a type. -/
theorem type_join? (s : TypeSet) : s.join?.map Observation.type = Descriptor.common? s.types := by
  unfold join?
  split
  · next h => simp [types, h, Descriptor.common?]
  · rw [Option.map_map]
    simp [Function.comp_def]

/-- A set with members has a join, whose type is the join of the types. -/
theorem exists_join? {s : TypeSet} (hs : s.types ≠ []) :
    ∃ j, s.join? = some j ∧ Descriptor.common? s.types = some j.type := by
  obtain ⟨t, ht⟩ := Option.isSome_iff_exists.mp (Descriptor.common?_isSome hs)
  have hjoin := s.type_join?
  rw [ht] at hjoin
  obtain ⟨j, hj, rfl⟩ := Option.map_eq_some_iff.mp hjoin
  exact ⟨j, hj, ht⟩

/-- A set into which something was put has a join. -/
theorem exists_join?_insert (s : TypeSet) (o : Observation) :
    ∃ j, (s.insert o).join? = some j ∧ Descriptor.common? (s.insert o).types = some j.type :=
  exists_join? (List.ne_nil_of_mem (mem_types_insert.mpr (Or.inr rfl)))

end TypeSet

end ProgramGraph
