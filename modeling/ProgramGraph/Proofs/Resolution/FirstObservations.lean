import ProgramGraph.Proofs.Beliefs.Evolution
import ProgramGraph.Proofs.Resolution.MakingUp

set_option autoImplicit false

/-!
# First observations

Nobody listens to a node yet when its type is observed for the first time, so creating a node leaves
all other beliefs alone. The first type of the field that stands for a record is the one that the
name of the record spells, and this is what the belief about it began with, whatever is observed of
it later.

## Main definitions

* `ProgramGraph.Belief.IsRaw` — a belief that stems from one observation.
* `ProgramGraph.Graph.firstSeen` — a node with a first observation.
* `ProgramGraph.Graph.SelvesBegan` — the fields that stand for records began with their types.

## Main results

* `ProgramGraph.Graph.addTyped_eq` — a first observation tells nobody.
* `ProgramGraph.Graph.SelvesBegan.refines` — the beliefs about these fields evolve.
-/

namespace ProgramGraph

/-- A belief after a first observation, if there was one. -/
def Belief.IsRaw (b : Belief) : Prop := ∃ o : Observation, b = ({} : Belief).observe o

/-- Nobody listens after a first observation. -/
theorem Belief.IsRaw.listeners {b : Belief} (h : b.IsRaw) : b.listeners = [] := by
  obtain ⟨o, rfl⟩ := h
  unfold Belief.observe
  split <;> rfl

namespace Graph

variable {g g' : Graph} {D : NodeId → Prop} {n : Nat} {id : NodeId} {node : Node} {o : Observation}

/-! ## Observing a new node -/

/-- Nothing is announced where nobody listens. -/
theorem announceRefined_eq_nil {b : Belief} (h : b.listeners = []) (o : Observation) :
    b.announceRefined (b.observe o) id = [] := by
  have hlisteners : (b.observe o).listeners = [] := by
    unfold Belief.observe
    split
    · exact h
    · exact h
  unfold Belief.announceRefined Belief.announce Belief.audience
  rw [hlisteners]
  simp

/-- A node with a first observation. -/
def firstSeen (node : Node) (o : Observation) : Node :=
  { node with belief := node.belief.map fun b => b.observe o }

/-- **A first observation tells nobody.** -/
theorem addTyped_eq (h : ∀ b, node.belief = some b → b.listeners = [])
    (g : Graph) (o : Observation) : g.addTyped node o = g.add (firstSeen node o) := by
  have hfound := (g.adds_add node).found
  cases hbelief : node.belief with
  | none =>
    have hnone : (g.add node).2.belief? g.size = none := by rw [belief?, hfound, Option.bind_some, hbelief]
    have hsame : firstSeen node o = node := by rw [firstSeen, hbelief, Option.map_none, ← hbelief]
    rw [hsame]
    change (g.size, (g.add node).2.observe g.size o) = _
    unfold Graph.observe refine settle
    rw [hnone]
    rfl
  | some b =>
    have hsome : (g.add node).2.belief? g.size = some b := by
      rw [belief?, hfound, Option.bind_some, hbelief]
    change (g.size, (g.add node).2.observe g.size o) = (g.size, (g.add (firstSeen node o)).2)
    unfold Graph.observe refine settle
    rw [hsome]
    simp only [announceRefined_eq_nil (h b hbelief), List.isEmpty_nil, if_true]
    rw [setBelief, modify_add g rfl, firstSeen, hbelief, Option.map_some]

/-- The belief about a new node, and those about the others. -/
theorem Adds.belief? (h : g.Adds g' node) (id : NodeId) :
    g'.belief? id = if id = g.size then node.belief else g.belief? id := by
  rw [Graph.belief?, h.nodes]
  split <;> rfl

/-- The belief about one of the others stays. -/
theorem Adds.belief?_of_some (h : g.Adds g' node) {id : NodeId} {b : Belief} (hb : g.belief? id = some b) :
    g'.belief? id = some b := by
  obtain ⟨old, hold, -⟩ := Option.bind_eq_some_iff.mp hb
  rw [h.belief?, if_neg (Nat.ne_of_lt (lt_size hold)), hb]

/-- The belief about a node that was created. -/
theorem belief?_addTyped_self (hnode : node.belief = some {}) (g : Graph) (o : Observation) :
    (g.addTyped node o).2.belief? g.size = some (({} : Belief).observe o) := by
  rw [addTyped_eq fun b hb => by rw [Option.some.inj (hb.symm.trans hnode)],
    (g.adds_add (firstSeen node o)).belief?, if_pos rfl, firstSeen, hnode, Option.map_some]

/-- **Adding a node** to which nobody listens. -/
theorem Refines.of_adds (h : g.Confined D) (hadds : g.Adds g' node)
    (hnode : ∀ b, node.belief = some b → b.listeners = []) : Refines D g g' := by
  refine .of_belief? h (fun _ _ => hadds.belief?_of_some) fun id b hb => ?_
  rw [hadds.belief?] at hb
  split at hb
  · exact Or.inr (hnode b hb)
  · exact Or.inl hb

/-- **Creating a node** with a first observation. -/
theorem refines_addTyped (h : g.Confined D) (hnode : node.belief = some {}) (o : Observation) :
    Refines D g (g.addTyped node o).2 := by
  have hquiet : ∀ b, node.belief = some b → b.listeners = [] := by
    intro b hb
    rw [Option.some.inj (hb.symm.trans hnode)]
  rw [addTyped_eq hquiet]
  refine .of_adds h (g.adds_add _) fun b hb => ?_
  rw [firstSeen, hnode, Option.map_some, Option.some.injEq] at hb
  rw [← hb]
  unfold Belief.observe
  split <;> rfl

/-- **Creating a record.** -/
theorem refines_addRecord (h : g.Confined D) (name sort : String) (superTypes : List Descriptor)
    (dummy : Bool) : Refines D g (g.addRecord name sort superTypes dummy).2 := by
  have hself := refines_addTyped h (show (Node.selfField dummy).belief = some {} from rfl)
    { type := .parse name }
  exact hself.trans (.of_adds hself.confined (adds_addRecord name sort superTypes dummy g)
    fun b hb => absurd hb (by simp [Node.make, Payload.tag, Tag.isTyped]))

/-- **The unit for made-up declarations** is found or made. -/
theorem refines_placeholderUnit (h : g.Confined D) : Refines D g g.placeholderUnit.2 := by
  cases hunit : g.placeholderUnit? with
  | some unit =>
    rw [placeholderUnit_of_some hunit]
    exact .refl h
  | none =>
    obtain ⟨-, hadds, -⟩ := placeholderUnit_of_none hunit
    exact .of_adds h hadds fun b hb => absurd hb (by simp [newPlaceholderUnit, Node.make, Payload.tag, Tag.isTyped])

/-! ## The fields that stand for records -/

/-- What is believed about the field that stands for a record began with the type that the name of
the record spells. -/
def SelvesBegan (g : Graph) : Prop :=
  ∀ record name self, g.name? record = some name → g.selfOf record = some self →
    ∃ b, g.belief? self = some b ∧ b.Began (.parse name)

/-- The field that stands for a record stays where kinds stay. -/
theorem Grows.selfOf_back (h : g.Grows n g') {record self : NodeId} (hlt : record < g.size)
    (hself : g'.selfOf record = some self) : g.selfOf record = some self := by
  obtain ⟨node, hnode⟩ := exists_node hlt
  obtain ⟨payload', hpayload', hevolves⟩ := h.exists_payload (payload?_eq hnode)
  rw [selfOf, hpayload'] at hself
  rw [selfOf, payload?_eq hnode]
  generalize node.payload = payload at hevolves ⊢
  cases hevolves with
  | same => exact hself
  | record _ => exact hself
  | _ => exact absurd hself (by simp)

/-- A node is added: if it is a record, the belief about the field that stands for it began with its
type. -/
theorem SelvesBegan.adds (h : g.SelvesBegan) (hadds : g.Adds g' node)
    (hnode : ∀ body self, node.payload = .record body → body.self = some self →
      ∃ b, g.belief? self = some b ∧ b.Began (.parse node.name)) : g'.SelvesBegan := by
  intro record name self hname hself
  obtain ⟨b, hb, hbegan⟩ : ∃ b, g.belief? self = some b ∧ b.Began (.parse name) := by
    by_cases hnew : record = g.size
    · subst hnew
      rw [name?_eq hadds.found, Option.some.injEq] at hname
      rw [selfOf, payload?_eq hadds.found] at hself
      subst hname
      cases hpayload : node.payload with
      | record body => exact hnode body self hpayload (by simpa [hpayload] using hself)
      | _ => simp [hpayload] at hself
    · have hsame : g'.node? record = g.node? record := by rw [hadds.nodes, if_neg hnew]
      rw [name?, hsame] at hname
      rw [selfOf, payload?, hsame] at hself
      exact h record name self hname hself
  exact ⟨b, hadds.belief?_of_some hb, hbegan⟩

/-- A node changes, but neither its name nor the field that stands for it.

**Proof sketch.** Beliefs stay. At the changed node the record had the same name and the same `self` field
before. -/
theorem SelvesBegan.modify (h : g.SelvesBegan) (whole : NodeId) {f : Node → Node}
    (hname : ∀ node, (f node).name = node.name) (hbelief : ∀ node, (f node).belief = node.belief)
    (hself : ∀ node body', (f node).payload = .record body' →
      ∃ body, node.payload = .record body ∧ body.self = body'.self) :
    (g.modify whole f).SelvesBegan := by
  intro record name self hnamed hrecord
  rw [belief?_modify g whole self hbelief]
  rw [name?, node?_modify] at hnamed
  rw [selfOf, payload?, node?_modify] at hrecord
  by_cases hwhole : whole = record
  · subst hwhole
    rw [if_pos rfl] at hnamed hrecord
    cases hnode : g.node? whole with
    | none => simp [hnode] at hnamed
    | some node =>
      simp only [hnode, Option.map_some, Option.some.injEq, hname] at hnamed hrecord
      split at hrecord
      · next body' heq =>
        obtain ⟨body, hbody, hsame⟩ := hself node body' (Option.some.inj heq)
        refine h whole name self ((name?_eq hnode).trans (congrArg some hnamed)) ?_
        rw [selfOf, payload?_eq hnode, hbody]
        exact hsame.trans hrecord
      · exact absurd hrecord (by simp)
  · rw [if_neg hwhole] at hnamed hrecord
    exact h record name self hnamed hrecord

/-- A record is created. -/
theorem SelvesBegan.addRecord (h : g.SelvesBegan) (name sort : String) (superTypes : List Descriptor)
    (dummy : Bool) : (g.addRecord name sort superTypes dummy).2.SelvesBegan := by
  have hself : (g.addTyped (.selfField dummy) { type := .parse name }).2.SelvesBegan := by
    rw [addTyped_eq fun b hb => by rw [← Option.some.inj hb]]
    exact h.adds (g.adds_add _) fun body self hpayload _ => absurd hpayload (by simp [firstSeen,
      Node.selfField, Node.make])
  refine hself.adds (adds_addRecord name sort superTypes dummy g) fun body self hpayload hbody => ?_
  obtain rfl := Payload.record.inj hpayload
  obtain rfl := Option.some.inj hbody
  exact ⟨_, belief?_addTyped_self rfl g _, Belief.began_observe { type := .parse name }⟩

/-- A made-up field is no record. -/
theorem SelvesBegan.addField (h : g.SelvesBegan) (name : String) (o : Observation) :
    (g.addTyped (madeUpField name) o).2.SelvesBegan := by
  rw [addTyped_eq fun b hb => by rw [← Option.some.inj hb]]
  exact h.adds (g.adds_add _) fun body self hpayload _ => absurd hpayload (by simp [firstSeen,
    madeUpField, Node.make])

/-- The unit for made-up declarations is no record. -/
theorem SelvesBegan.placeholderUnit (h : g.SelvesBegan) : g.placeholderUnit.2.SelvesBegan := by
  cases hunit : g.placeholderUnit? with
  | some unit => rwa [placeholderUnit_of_some hunit]
  | none =>
    obtain ⟨-, hadds, -⟩ := placeholderUnit_of_none hunit
    exact h.adds hadds fun body self hpayload _ => absurd hpayload (by simp [newPlaceholderUnit, Node.make])

/-- **Beliefs about these fields evolve.** -/
theorem SelvesBegan.refines (h : g.SelvesBegan) (hrefines : Refines D g g') (hgrows : g.Grows n g')
    (hnew : ∀ record name self, g.size ≤ record → g'.name? record = some name →
      g'.selfOf record = some self → ∃ b, g'.belief? self = some b ∧ b.Began (.parse name)) :
    g'.SelvesBegan := by
  intro record name self hname hself
  rcases Nat.lt_or_ge record g.size with hlt | hge
  · obtain ⟨node, hnode⟩ := exists_node hlt
    have hkept := hgrows.name? (name?_eq hnode)
    obtain rfl := Option.some.inj (hkept.symm.trans hname)
    obtain ⟨b, hb, hbegan⟩ := h record _ self (name?_eq hnode) (hgrows.selfOf_back hlt hself)
    obtain ⟨b', hb', hevolves, -⟩ := hrefines.evolves self b hb
    exact ⟨b', hb', hevolves.began _ hbegan⟩
  · exact hnew record name self hge hname hself

/-- Beliefs about these fields evolve where no node is made. -/
theorem SelvesBegan.of_size (h : g.SelvesBegan) (hrefines : Refines D g g') (hgrows : g.Grows n g')
    (hsize : g'.size = g.size) : g'.SelvesBegan := by
  refine h.refines hrefines hgrows fun record name self hge hname _ => ?_
  obtain ⟨node, hnode, -⟩ := exists_node_of_name? hname
  exact absurd (hsize ▸ lt_size hnode) (Nat.not_lt.mpr hge)

end Graph

end ProgramGraph
