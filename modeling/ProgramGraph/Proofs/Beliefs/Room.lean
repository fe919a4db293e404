import Mathlib.Tactic.Ring
import ProgramGraph.Proofs.Beliefs.Sets

set_option autoImplicit false

/-!
# Room to change

How often a belief can still change. All types that can turn up lie in a list that is closed under
what joins make. A set can only grow within that list, and a type that changes while its set stands
still has been out of step with the set before and is in step afterwards.

## Main definitions

* `ProgramGraph.Descriptor.Closed` — lists that are closed under joins.
* `ProgramGraph.Belief.Within` — beliefs whose types lie in a list.
* `ProgramGraph.Belief.room` — twice the types the set has still room for, and one more for a type
  out of step.

## Main results

* `ProgramGraph.Belief.cost_observe`, `ProgramGraph.Belief.cost_widen` — each refinement is paid for
  by the room it uses up, at two notices a listener.
-/

namespace ProgramGraph

/-! ## Closed lists of types -/

namespace Descriptor

/-- A list of types that holds the unknown type and with each type its unqualified form. -/
structure Closed (U : List Descriptor) : Prop where
  unknown_mem : unknown ∈ U
  unqualified_mem : ∀ t ∈ U, t.unqualified ∈ U

/-- The types in a list, their unqualified forms, and the unknown type. -/
def closure (ts : List Descriptor) : List Descriptor := unknown :: (ts ++ ts.map unqualified)

/-- Every list lies in its closure. -/
theorem subset_closure {ts : List Descriptor} : ts ⊆ closure ts :=
  fun _ h => List.mem_cons_of_mem _ (List.mem_append_left _ h)

/-- **The closure is closed.** -/
theorem closed_closure (ts : List Descriptor) : Closed (closure ts) where
  unknown_mem := List.mem_cons_self
  unqualified_mem := by
    intro t ht
    simp only [closure, List.mem_cons, List.mem_append, List.mem_map] at ht ⊢
    obtain rfl | h | ⟨u, hu, rfl⟩ := ht
    · exact Or.inl rfl
    · exact Or.inr (Or.inr ⟨t, h, rfl⟩)
    · exact Or.inr (Or.inr ⟨u, hu, rfl⟩)

/-- The size of a closure. -/
theorem length_closure (ts : List Descriptor) : (closure ts).length = 2 * ts.length + 1 := by
  simp only [closure, List.length_cons, List.length_append, List.length_map]
  omega

/-- A closed list holds the joins of its members. -/
theorem Closed.common?_mem {U ts : List Descriptor} (hU : Closed U) (hts : ∀ t ∈ ts, t ∈ U)
    {t : Descriptor} (h : common? ts = some t) : t ∈ U := by
  cases ts with
  | nil => simp [common?] at h
  | cons first rest =>
    have hfirst : first ∈ U := hts first List.mem_cons_self
    obtain rfl | rfl | rfl := common?_cases h
    · exact hfirst
    · exact hU.unqualified_mem first hfirst
    · exact hU.unknown_mem

end Descriptor

/-! ## Refining one belief -/

namespace Belief

open Descriptor (Closed)

variable {U : List Descriptor} {b : Belief} {o : Observation} {os : List Observation}

/-- The types of a belief lie in a list. -/
structure Within (U : List Descriptor) (b : Belief) : Prop where
  observed_mem : ∀ t ∈ b.observed.types, t ∈ U
  type_mem : b.type.type ∈ U

/-- Whether the type of a belief is not the join of its set. -/
def outOfStep (b : Belief) : Bool := b.observed.join?.map Observation.type != some b.type.type

/-- How often a belief can still change within a list of types. -/
def room (U : List Descriptor) (b : Belief) : Nat :=
  2 * (U.length - b.observed.size) + b.outOfStep.toNat

/-- An observation leaves the listeners as they are. -/
@[simp] theorem listeners_observe (b : Belief) (o : Observation) :
    (b.observe o).listeners = b.listeners := by
  unfold observe
  split <;> rfl

/-- Widening leaves the listeners as they are. -/
@[simp] theorem listeners_widen (b : Belief) (os : List Observation) :
    (b.widen os).listeners = b.listeners := by
  unfold widen
  split <;> rfl

/-- What is observed and not ignored joins the set, and the join of the set becomes the type. -/
theorem observe_of_not_ignores (h : ¬ b.ignores o = true) :
    b.observe o = { b with
      observed := b.observed.insert o, type := (b.observed.insert o).join?.getD o } := by
  unfold observe
  rw [if_neg h]

/-- **In step after an observation.** What is observed and not ignored leaves the type at the join of
the set. -/
theorem outOfStep_observe (h : ¬ b.ignores o = true) : (b.observe o).outOfStep = false := by
  obtain ⟨j, hj, -⟩ := b.observed.exists_join?_insert o
  rw [observe_of_not_ignores h]
  simp [outOfStep, hj]

/-- Observations stay within a closed list. -/
theorem Within.observe (hU : Closed U) (hb : b.Within U) (ho : o.type ∈ U) :
    (b.observe o).Within U := by
  by_cases h : b.ignores o = true
  · unfold Belief.observe
    rwa [if_pos h]
  · have hset : ∀ t ∈ (b.observed.insert o).types, t ∈ U := by
      intro t ht
      obtain ht | rfl := TypeSet.mem_types_insert.mp ht
      · exact hb.observed_mem t ht
      · exact ho
    rw [observe_of_not_ignores h]
    refine ⟨hset, ?_⟩
    obtain ⟨j, hj, hcommon⟩ := b.observed.exists_join?_insert o
    simpa [hj] using hU.common?_mem hset hcommon

/-- Widening stays within the list. -/
theorem Within.widen (hb : b.Within U) (hos : ∀ o ∈ os, o.type ∈ U) : (b.widen os).Within U := by
  unfold Belief.widen
  split
  · exact hb
  · refine ⟨?_, hb.type_mem⟩
    intro t ht
    obtain ht | ⟨o, ho, rfl⟩ := TypeSet.mem_types_insertAll.mp ht
    · exact hb.observed_mem t ht
    · exact hos o ho

/-- The set of a belief has no more members than the list has. -/
theorem Within.size_le (hb : b.Within U) : b.observed.size ≤ U.length :=
  TypeSet.size_le_of_subset hb.observed_mem

/-- No belief has room for more than two changes for each type and one more. -/
theorem room_le (U : List Descriptor) (b : Belief) : b.room U ≤ 2 * U.length + 1 := by
  have := Bool.toNat_le b.outOfStep
  unfold room
  omega

/-- Growth uses up room, even if it leaves the type out of step. -/
theorem room_lt_of_size_lt {next : Belief} (hnext : next.Within U)
    (h : b.observed.size < next.observed.size) : next.room U < b.room U := by
  have hle := hnext.size_le
  have := Bool.toNat_le next.outOfStep
  unfold room
  omega

/-! ## Notices are paid for by room -/

/-- A listener is told at most twice of one refinement. -/
theorem length_announceRefined_le (b next : Belief) (id : NodeId) (h : next.listeners = b.listeners) :
    (b.announceRefined next id).length ≤ 2 * b.listeners.length := by
  have haudience : (next.audience id).length ≤ b.listeners.length := by
    rw [← h]
    exact List.length_filter_le _ _
  unfold announceRefined announce
  rw [List.length_append]
  split <;> split <;> simp only [List.length_map, List.length_nil] <;> omega

/-- Nobody is told where neither the set grew nor the type changed. -/
theorem announceRefined_eq_nil {next : Belief} {id : NodeId}
    (hsize : next.observed.size ≤ b.observed.size) (htype : b.type.type = next.type.type) :
    b.announceRefined next id = [] := by
  unfold announceRefined
  rw [if_neg (by omega), if_pos htype, List.append_nil]

/-- A refinement that uses up room can pay for two notices to every listener. -/
theorem cost_of_room_lt {next : Belief} {id : NodeId} {L : Nat} (hL : b.listeners.length ≤ L)
    (hlisteners : next.listeners = b.listeners) (h : next.room U < b.room U) :
    (b.announceRefined next id).length + 2 * L * next.room U ≤ 2 * L * b.room U := by
  have htold := length_announceRefined_le b next id hlisteners
  calc (b.announceRefined next id).length + 2 * L * next.room U
      ≤ 2 * L + 2 * L * next.room U := by omega
    _ = 2 * L * (next.room U + 1) := by ring
    _ ≤ 2 * L * b.room U := Nat.mul_le_mul_left _ h

/-- A refinement that nobody is told of only has to leave the room alone. -/
theorem cost_of_quiet {next : Belief} {id : NodeId} {L : Nat}
    (hsize : next.observed.size ≤ b.observed.size) (htype : b.type.type = next.type.type)
    (h : next.room U ≤ b.room U) :
    (b.announceRefined next id).length + 2 * L * next.room U ≤ 2 * L * b.room U := by
  rw [announceRefined_eq_nil hsize htype, List.length_nil, Nat.zero_add]
  exact Nat.mul_le_mul_left _ h

/-- **An observation pays for its notices.**

**Proof sketch.** An observation that is ignored changes nothing. One that adds a type lets the set grow. One
that adds none leaves the belief in step, so if the type changed it was out of step. -/
theorem cost_observe {id : NodeId} {L : Nat} (hU : Closed U) (hb : b.Within U) (ho : o.type ∈ U)
    (hL : b.listeners.length ≤ L) :
    (b.announceRefined (b.observe o) id).length + 2 * L * (b.observe o).room U ≤
      2 * L * b.room U := by
  by_cases hignored : b.ignores o = true
  · have hsame : b.observe o = b := by
      unfold observe
      rw [if_pos hignored]
    rw [hsame]
    exact cost_of_quiet le_rfl rfl le_rfl
  have hstep := outOfStep_observe hignored
  by_cases hmem : o.type ∈ b.observed.types
  · have hset : (b.observe o).observed = b.observed := by
      rw [observe_of_not_ignores hignored]
      exact TypeSet.insert_eq_self hmem
    have hroom : (b.observe o).room U = 2 * (U.length - b.observed.size) := by
      simp [room, hset, hstep]
    by_cases htype : b.type.type = (b.observe o).type.type
    · refine cost_of_quiet (by rw [hset]) htype ?_
      rw [hroom, room]
      omega
    · have hwas : b.outOfStep = true := by
        by_contra hin
        have h1 : b.observed.join?.map Observation.type = some b.type.type := by
          simpa [outOfStep] using hin
        have h2 : b.observed.join?.map Observation.type = some (b.observe o).type.type := by
          simpa [outOfStep, hset] using hstep
        exact htype (Option.some.inj (h1.symm.trans h2))
      refine cost_of_room_lt hL (listeners_observe b o) ?_
      rw [hroom, room, hwas]
      simp
  · refine cost_of_room_lt hL (listeners_observe b o) ?_
    refine room_lt_of_size_lt (hb.observe hU ho) ?_
    rw [observe_of_not_ignores hignored]
    simp only [TypeSet.size_insert_of_notMem hmem]
    omega

/-- **Widening pays for its notices.** Either the set grows, or nothing changes. -/
theorem cost_widen {id : NodeId} {L : Nat} (hb : b.Within U) (hos : ∀ o ∈ os, o.type ∈ U)
    (hL : b.listeners.length ≤ L) :
    (b.announceRefined (b.widen os) id).length + 2 * L * (b.widen os).room U ≤
      2 * L * b.room U := by
  by_cases hgrown : b.observed.size < (b.widen os).observed.size
  · exact cost_of_room_lt hL (listeners_widen b os)
      (room_lt_of_size_lt (hb.widen hos) hgrown)
  · have hsame : b.widen os = b := by
      unfold widen at hgrown ⊢
      split_ifs with hprimitive
      · rfl
      · rw [if_neg hprimitive] at hgrown
        simp only [TypeSet.insertAll_eq_self (Nat.le_of_not_lt hgrown)]
    rw [hsame]
    exact cost_of_quiet le_rfl rfl le_rfl

end Belief

end ProgramGraph
