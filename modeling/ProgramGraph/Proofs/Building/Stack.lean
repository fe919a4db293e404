import ProgramGraph.Builder

set_option autoImplicit false

/-!
# The stack of a builder

The open containers of a builder are a stack, with the unit at its bottom. Nothing takes the unit from
the stack: closing stops where one container is left, and where a record is opened once more for its
implicit constructor, what is taken from the stack afterwards was put on it before.

## Main definitions

* `ProgramGraph.Builder.Rooted` — the unit is at the bottom of the stack.

## Main results

* `ProgramGraph.Builder.Rooted.push`, `ProgramGraph.Builder.Rooted.pop` — it stays there.
* `ProgramGraph.Builder.leave_of_complete`, `ProgramGraph.Builder.leave_of_incomplete` — closing a
  container.
-/

namespace ProgramGraph.Builder

variable {b : Builder} {id : NodeId} {outer : List NodeId}

/-- The unit is at the bottom of the stack. -/
def Rooted (b : Builder) : Prop := b.containers.getLast? = some b.unit

/-- The innermost container is the one on top of the stack. -/
theorem current_of_containers (h : b.containers = id :: outer) : b.current = id := by
  unfold current
  rw [h]
  rfl

namespace Rooted

/-- In a unit that was just started, nothing else is open. -/
theorem start (g : Graph) (name : String) : (Builder.start g name).Rooted := rfl

/-- The unit is open. -/
theorem unit_mem (h : b.Rooted) : b.unit ∈ b.containers := List.mem_of_getLast? h

/-- Something is open all the time. -/
theorem ne_nil (h : b.Rooted) : b.containers ≠ [] := List.ne_nil_of_mem h.unit_mem

/-- The innermost container is open. -/
theorem current_mem (h : b.Rooted) : b.current ∈ b.containers := by
  obtain ⟨c, outer, hcontainers⟩ := List.exists_cons_of_ne_nil h.ne_nil
  rw [current_of_containers hcontainers, hcontainers]
  exact List.mem_cons_self

/-- Only the unit is open if there is one container. -/
theorem containers_eq (h : b.Rooted) (hone : b.containers.length ≤ 1) : b.containers = [b.unit] := by
  unfold Rooted at h
  match hcontainers : b.containers with
  | [] => simp [hcontainers] at h
  | [c] => simpa [hcontainers] using h
  | _ :: _ :: _ => simp [hcontainers] at hone

/-- A container is put on the stack. -/
theorem push (h : b.Rooted) (id : NodeId) : (b.push id).Rooted := by
  unfold Rooted Builder.push
  rw [List.getLast?_cons, h]
  rfl

/-- A container is taken from the stack that is not the only one. -/
theorem pop (h : b.Rooted) (hopen : 1 < b.containers.length) : b.pop.Rooted := by
  unfold Rooted Builder.pop
  rw [List.getLast?_tail, if_neg (Nat.ne_of_gt hopen)]
  exact h

end Rooted

/-! ## Nodes that are expected -/

/-- A node that is there may well be expected. -/
theorem expect_eq_self (h : id < b.graph.size) : b.expect id = b :=
  congrArg (fun graph => { b with graph }) (Graph.expect_eq_self h)

/-! ## Closing containers -/

/-- Where no more than one container is open, nothing is closed. -/
theorem leave_of_length_le (h : b.containers.length ≤ 1) : b.leave = (none, b) := by
  rw [leave, if_pos h]

/-- Where more than one container is open, there is one around the innermost container. -/
theorem ne_nil_of_one_lt (hcontainers : b.containers = id :: outer) (hopened : 1 < b.containers.length) :
    outer ≠ [] := by
  rintro rfl
  rw [hcontainers] at hopened
  exact absurd hopened (Nat.lt_irrefl _)

/-- Otherwise the innermost container is closed. -/
theorem leave_eq (hcontainers : b.containers = id :: outer) (houter : outer ≠ []) :
    b.leave = (some id, (b.pop.expect id).completeRecord id) := by
  have hopen : ¬ b.containers.length ≤ 1 := by
    rw [hcontainers, List.length_cons]
    exact Nat.not_le.mpr (Nat.succ_lt_succ (List.length_pos_iff.mpr houter))
  rw [leave, if_neg hopen, hcontainers]

/-- **Closing** what is no record without a constructor. -/
theorem leave_of_complete (hcontainers : b.containers = id :: outer) (houter : outer ≠ [])
    (hcomplete : ∀ body, b.graph.payload? id = some (.record body) → body.constructors ≠ []) :
    b.leave.2 = (b.expect id).pop := by
  rw [leave_eq hcontainers houter]
  dsimp only
  unfold completeRecord
  split
  · next hnode => exact absurd rfl (hcomplete _ (congrArg (Option.map Node.payload) hnode))
  · rfl

/-- **Closing** a record without a constructor. The constructor is entered in the record, and then the
constructor and the record are left. -/
theorem leave_of_incomplete (hcontainers : b.containers = id :: outer) (houter : outer ≠ [])
    {node : Node} {body : RecordBody} (hnode : b.graph.node? id = some node)
    (hbody : node.payload = .record body) (hnone : body.constructors = []) :
    b.leave.2 = ((b.expect id).enterFunction node.name .constructor .unknown false).2.pop.pop := by
  have hpush : (b.pop.expect id).push id = b.expect id := by
    unfold push pop expect
    rw [hcontainers]
    rfl
  obtain ⟨name, payload, code, line, dummy, belief⟩ := node
  obtain ⟨sort, superTypes, fields, methods, constructors, records, self⟩ := body
  subst hbody
  subst hnone
  have hnode' : (b.pop.expect id).graph.node? id = _ := hnode
  rw [leave_eq hcontainers houter, completeRecord]
  simp only [hnode', hpush]

/-- Where one container is open, there is nothing to close. -/
theorem leaveAll_of_length_le (h : b.containers.length ≤ 1) (n : Nat) : leaveAll n b = b := by
  cases n with
  | zero => rfl
  | succ n => rw [leaveAll, leave_of_length_le h]; rfl

/-- The innermost container is closed first, if it is not the only one, and then the others. -/
theorem leaveAll_succ (b : Builder) (n : Nat) : leaveAll (n + 1) b = leaveAll n b.leave.2 := by
  by_cases hsingle : b.containers.length ≤ 1
  · rw [leaveAll_of_length_le hsingle, leave_of_length_le hsingle, leaveAll_of_length_le hsingle]
  · rw [leaveAll, if_pos]
    have hopened := Nat.not_le.mp hsingle
    obtain ⟨id, outer, hcontainers⟩ := List.exists_cons_of_length_pos (Nat.zero_lt_of_lt hopened)
    rw [leave_eq hcontainers (ne_nil_of_one_lt hcontainers hopened)]
    rfl

end ProgramGraph.Builder
