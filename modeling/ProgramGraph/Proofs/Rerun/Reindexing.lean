import ProgramGraph.Proofs.Rerun.Contents

set_option autoImplicit false

/-!
# Indexing a resolved graph

A resolved graph is indexed anew before usages are resolved a second time. Its old nodes are met in
the same order as before, and the made-up records come after all of them. So a type that was
declared keeps its record, and with it its supertypes; only a type that was not declared may find a
made-up record.

## Main results

* `ProgramGraph.Graph.Grows.filter_preorder` — the nodes of the old units, in the same order.
* `ProgramGraph.Index.Indexed.record?_again` — the records that are indexed the second time.
-/

namespace ProgramGraph

namespace Graph

variable {g g' : Graph} {V A : List NodeId} {id part : NodeId}

/-! ## Order -/

/-- A node that is no expression. -/
def isSolid (g : Graph) (id : NodeId) : Bool := (g.tag? id).any fun tag => !tag.isExpression

/-- A solid node is one that is no expression. -/
theorem isSolid_iff : g.isSolid id = true ↔ ∃ tag, g.tag? id = some tag ∧ tag.isExpression = false := by
  simp [isSolid, Option.any_eq_true]

/-- Below an expression there are only expressions. -/
theorem WellFormed.isSolid_of_mem_parts (wf : g.WellFormed []) (hpart : part ∈ g.parts id)
    (hsolid : g.isSolid part = true) : g.isSolid id = true := by
  obtain ⟨node, hnode, -⟩ := exists_node_of_mem_parts hpart
  refine isSolid_iff.mpr ⟨node.tag, tag?_eq hnode, ?_⟩
  obtain ⟨tag, htag, hmay⟩ := wf.typed.all_parts hnode part hpart
  obtain ⟨tag', htag', hk⟩ := isSolid_iff.mp hsolid
  obtain rfl := Option.some.inj (htag.symm.trans htag')
  exact Tag.isExpression_eq_false_of_mayHave hmay hk

/-- Records are no expressions, so they are found without them. -/
theorem find?_isSolid (ids : List NodeId) (type : Descriptor) :
    (ids.filter g.isSolid).find? (g.spells .record type) = ids.find? (g.spells .record type) := by
  rw [← List.head?_filter, ← List.head?_filter, List.filter_filter]
  congr 1
  refine List.filter_congr fun id _ => ?_
  cases hid : g.spells .record type id with
  | false => rfl
  | true =>
    obtain ⟨node, hnode, htag, -⟩ := spells_iff.mp hid
    rw [isSolid, tag?_eq hnode, htag]
    rfl

/-- What a node spells stays. -/
theorem Grows.spells_eq {n : Nat} (h : g.Grows n g') (hid : id < g.size) {tag : Tag}
    {type : Descriptor} : g'.spells tag type id = g.spells tag type id := by
  obtain ⟨node, hnode⟩ := exists_node hid
  obtain ⟨node', hnode', hname, -, hevolves⟩ := h.nodes id node hnode
  have htag : node'.tag = node.tag := hevolves.tag
  simp only [spells, hnode, hnode', Option.any_some, hname, htag]

section

variable (h : g.Grows g.size g') (raw : g.Raw) (wf : g.WellFormed [])

include h raw wf

/-- **The nodes of the old units,** made-up ones and expressions left out, are met in the same
order. -/
theorem Grows.filter_preorder (hV : Preorder g.parts g.units V) (hA : Preorder g'.parts g.units A) :
    A.filter g.isSolid = V.filter g.isSolid := by
  have hlt : ∀ {id}, g.isSolid id = true → id < g.size := by
    intro id hid
    obtain ⟨tag, htag, -⟩ := isSolid_iff.mp hid
    exact lt_size_of_tag? htag
  have hold := hV.filter fun id part hpart => wf.isSolid_of_mem_parts hpart
  have hnew : Preorder (fun id => (g'.parts id).filter g.isSolid) (g.units.filter g.isSolid)
      (A.filter g.isSolid) := by
    refine hA.filter fun id part hpart hpartSolid => ?_
    have hback := (h.mem_parts_back hpart).resolve_right (Nat.not_le.mpr (hlt hpartSolid))
    exact wf.isSolid_of_mem_parts hback hpartSolid
  refine hnew.unique (hold.congr fun id hid => ?_)
  obtain ⟨tag, htag, hk⟩ := isSolid_iff.mp (List.mem_filter.mp hid).2
  rw [← h.filter_parts raw wf htag hk, List.filter_filter]
  refine List.filter_congr fun part _ => ?_
  cases hpart : g.isSolid part with
  | true => simp [hlt hpart]
  | false => rfl

/-- What is made up below the old units are fields.

**Proof sketch.** Induction along the preorder. A new part of an old node is a field, since only records get
parts below the old units and expressions get none; and a made-up field has no parts itself. -/
theorem Grows.tag?_of_mem_preorder (wf' : g'.WellFormed []) (hA : Preorder g'.parts g.units A) :
    ∀ id ∈ A, id < g.size ∨ g'.tag? id = some .field := by
  refine hA.forall_mem (fun id part hpart hid => ?_) fun id hid => Or.inl ?_
  · rcases Nat.lt_or_ge part g.size with hlt | hge
    · exact Or.inl hlt
    · right
      rcases Nat.lt_or_ge id g.size with hold | hmade
      · obtain ⟨node, hnode⟩ := exists_node hold
        cases hk : node.tag.isExpression with
        | false => exact (h.mem_fieldsOf_of_mem_parts raw wf wf' (tag?_eq hnode) hk hpart hge).2
        | true =>
          -- the parts of an expression are expressions, and these are not made up
          exfalso
          have hsolid : g'.isSolid part = true := by
            obtain ⟨node', hnode'⟩ := exists_node (wf'.tree.part_lt id part hpart)
            exact isSolid_iff.mpr ⟨_, tag?_eq hnode',
              (h.fresh part node' hge hnode').2.not_isExpression⟩
          obtain ⟨tag, htag, hk'⟩ := isSolid_iff.mp (wf'.isSolid_of_mem_parts hpart hsolid)
          rw [h.tag? (tag?_eq hnode), Option.some.injEq] at htag
          rw [htag, hk'] at hk
          exact absurd hk (by decide)
      · rcases hid with hlt | hfield
        · exact absurd hlt (Nat.not_lt.mpr hmade)
        · obtain ⟨node, hnode, hmem⟩ := exists_node_of_mem_parts hpart
          have hmadeUp := (h.fresh id node hmade hnode).2
          rw [tag?_eq hnode, Option.some.injEq, Node.tag] at hfield
          generalize node.payload = payload at hfield hmadeUp hmem
          cases hmadeUp with
          | unit _ => exact absurd hfield (by simp [Payload.tag])
          | record _ => exact absurd hfield (by simp [Payload.tag])
          | field => exact absurd hmem List.not_mem_nil
  · exact wf.tree.root_lt id (by simpa using hid)

end

end Graph

/-! ## The index -/

namespace Index.Indexed

variable {g g' : Graph} {t t' : ScopeTable} {index index' : Index} {V V' : List NodeId}

/-- **The records that are indexed the second time:** the same as the first time, and made-up ones
for types that had none.

**Proof sketch.** The second walk goes through the old units first, and then through those that were made up.
Made-up fields apart, the first part meets the same nodes as the first walk, so it finds the same record; in
the second part all nodes are new. -/
theorem record?_again (h : Indexed g t index V) (h' : Indexed g' t' index' V')
    (grows : g.Grows g.size g') (raw : g.Raw) (wf : g.WellFormed []) (wf' : g'.WellFormed [])
    (type : Descriptor) :
    ∃ made, index'.record? type = (index.record? type).or made ∧
      ∀ record, made = some record → g.size ≤ record := by
  obtain ⟨new, hunits, hnew⟩ := grows.units
  have hpreorder := h'.preorder
  rw [hunits] at hpreorder
  obtain ⟨A, B, rfl, hA, hB⟩ := Preorder.append_iff.mp hpreorder
  refine ⟨B.find? (g'.spells .record type), ?_, ?_⟩
  · have hspells : ∀ id ∈ A, g'.spells .record type id = g.spells .record type id := by
      intro id hid
      rcases grows.tag?_of_mem_preorder raw wf wf' hA id hid with hlt | hfield
      · exact grows.spells_eq hlt
      · -- a made-up field is no record
        obtain ⟨node', hnode', htag⟩ := Graph.exists_node_of_tag? hfield
        have hnone : g.spells .record type id = false := by
          rw [← Bool.not_eq_true, Graph.spells_iff]
          rintro ⟨node, hnode, hrecord, -⟩
          have hkept := grows.tag? (Graph.tag?_eq hnode)
          rw [hfield, hrecord] at hkept
          exact absurd hkept (by decide)
        rw [hnone]
        simp [Graph.spells, hnode', htag]
    have hfirst : A.find? (g'.spells .record type) = V.find? (g.spells .record type) := by
      calc A.find? (g'.spells .record type)
          = A.find? (g.spells .record type) := by
            rw [← List.head?_filter, ← List.head?_filter, List.filter_congr hspells]
        _ = (A.filter g.isSolid).find? (g.spells .record type) := (Graph.find?_isSolid A type).symm
        _ = (V.filter g.isSolid).find? (g.spells .record type) := by
            rw [grows.filter_preorder raw wf h.preorder hA]
        _ = V.find? (g.spells .record type) := Graph.find?_isSolid V type
    rw [h'.lists.records, h.lists.records, List.find?_append, hfirst]
  · intro record hrecord
    have hbelow : ∀ id ∈ B, g.size ≤ id := by
      refine hB.forall_mem (fun id part hpart hid => ?_) hnew
      exact grows.le_of_mem_parts hid hpart
    exact hbelow record (List.mem_of_find?_eq_some hrecord)

/-- A type that was declared keeps its record. -/
theorem record?_kept (h : Indexed g t index V) (h' : Indexed g' t' index' V')
    (grows : g.Grows g.size g') (raw : g.Raw) (wf : g.WellFormed []) (wf' : g'.WellFormed [])
    {type : Descriptor} {record : NodeId} (hrecord : index.record? type = some record) :
    index'.record? type = some record := by
  obtain ⟨made, hmade, -⟩ := h.record?_again h' grows raw wf wf' type
  rw [hmade, hrecord]
  rfl

/-- A record that is not made up was indexed under the type before. -/
theorem record?_back (h : Indexed g t index V) (h' : Indexed g' t' index' V')
    (grows : g.Grows g.size g') (raw : g.Raw) (wf : g.WellFormed []) (wf' : g'.WellFormed [])
    {type : Descriptor} {record : NodeId} (hrecord : index'.record? type = some record)
    (hlt : record < g.size) : index.record? type = some record := by
  obtain ⟨made, hmade, hle⟩ := h.record?_again h' grows raw wf wf' type
  rw [hmade, Option.or_eq_some_iff] at hrecord
  rcases hrecord with hold | ⟨-, hnew⟩
  · exact hold
  · exact absurd hlt (Nat.not_lt.mpr (hle record hnew))

/-- A type that was declared keeps its supertypes. -/
theorem superTypesOf_kept (h : Indexed g t index V) (h' : Indexed g' t' index' V')
    (grows : g.Grows g.size g') (raw : g.Raw) (wf : g.WellFormed []) (wf' : g'.WellFormed [])
    {type : Descriptor} {record : NodeId} (hrecord : index.record? type = some record) :
    index'.superTypesOf type = index.superTypesOf type := by
  have hrecord' := hrecord
  rw [h.lists.records] at hrecord'
  obtain ⟨node, hnode, htag, -⟩ := Graph.spells_iff.mp (List.find?_some hrecord')
  rw [h.superTypes, h'.superTypes, h.record?_kept h' grows raw wf wf' hrecord, hrecord]
  simp only [Option.map_some, Option.getD_some]
  exact grows.superTypesOf (by rw [Graph.tag?_eq hnode, htag])

end Index.Indexed

end ProgramGraph
