import ProgramGraph.Proofs.Walks.Underway

set_option autoImplicit false

/-!
# Tables of scopes

During a walk the table knows for every scope that was visited which scope is around it. So the
chain of scopes it answers for the innermost scope is the list of scopes that are open.

## Main definitions

* `ProgramGraph.ScopeTable.Nests` — the table knows the scopes around scopes.
* `ProgramGraph.ScopeTable.Linked` — the scopes of a list are each around the one before.

## Main results

* `ProgramGraph.Walk.parent?_note`, `ProgramGraph.Walk.declarations_note` — what a visit enters.
* `ProgramGraph.ScopeTable.chain_eq` — the chain of scopes around a scope.
* `ProgramGraph.ScopeTable.Nests.linked`, `ProgramGraph.ScopeTable.Nests.chain` — the chain is the place.
-/

namespace ProgramGraph

/-! ## Entering and declaring -/

namespace ScopeTable

variable (t : ScopeTable) (scope other id : NodeId)

/-- A declaration in a scope does not change what is around scopes. -/
theorem parent?_declare : (t.declare scope id).parent? other = t.parent? other := by
  unfold declare
  split <;> rfl

/-- The scope around a scope, after one was entered. -/
theorem parent?_enter (parent : Option NodeId) (kind : ScopeKind) :
    (t.enter scope parent kind).parent? other =
      if other = scope then parent <|> t.parent? other else t.parent? other := by
  cases parent with
  | none => simp [enter, parent?]
  | some outer =>
    simp only [enter, parent?]
    by_cases h : other = scope
    · subst h
      simp [Assoc.get?_put_self]
    · simp [h, Assoc.get?_put_of_ne _ _ h]

/-- The declarations of a scope, after one was declared. -/
theorem declarations_declare :
    (t.declare scope id).declarations other =
      if other = scope ∧ id ∉ t.declarations scope then t.declarations scope ++ [id]
      else t.declarations other := by
  unfold declare
  by_cases hmem : id ∈ t.declarations scope
  · have hdeclares : t.declares scope id = true := by simp [declares, hmem]
    rw [if_pos hdeclares, if_neg fun h => h.2 hmem]
  · have hdeclares : t.declares scope id = false := by simp [declares, hmem]
    rw [if_neg (by simp [hdeclares])]
    by_cases h : other = scope
    · subst h
      rw [if_pos ⟨rfl, hmem⟩, declarations, Assoc.get?_put_self]
      rfl
    · rw [if_neg fun h' => h h'.1, declarations, Assoc.get?_put_of_ne _ _ h]
      rfl

end ScopeTable

namespace Walk

variable (t : ScopeTable) (p : Place) (id scope : NodeId) (node : Node)

/-- **The scopes after a visit.** -/
theorem parent?_note :
    (note t p id node).parent? scope =
      if scope = id ∧ node.tag.opens?.isSome then p.scopes.head? <|> t.parent? scope
      else t.parent? scope := by
  unfold note
  cases hvalue : node.tag.isValueDeclaration <;> cases hscopes : p.scopes <;>
    cases hopens : node.tag.opens? <;>
    simp only [ScopeTable.parent?_enter, ScopeTable.parent?_declare, Option.isSome_some,
      Option.isSome_none, Bool.false_eq_true, and_true, and_false, if_false, List.head?_nil,
      List.head?_cons]

/-- A value declaration is entered into the scope around it, whatever it opens itself. -/
theorem declarations_note_of_head? {outer : NodeId} (hvalue : node.tag.isValueDeclaration = true)
    (hscopes : p.scopes.head? = some outer) :
    (note t p id node).declarations scope = (t.declare outer id).declarations scope := by
  obtain ⟨scopes, types⟩ := p
  obtain ⟨rest, rfl⟩ := List.head?_eq_some_iff.mp hscopes
  unfold note
  rw [hvalue]
  cases node.tag.opens? <;> rfl

/-- Nothing else is entered anywhere. -/
theorem declarations_note_of_none
    (hnone : node.tag.isValueDeclaration = true → p.scopes.head? = none) :
    (note t p id node).declarations scope = t.declarations scope := by
  unfold note
  cases hvalue : node.tag.isValueDeclaration with
  | false => cases node.tag.opens? <;> rfl
  | true =>
    obtain ⟨scopes, types⟩ := p
    obtain rfl := List.head?_eq_none_iff.mp (hnone hvalue)
    cases node.tag.opens? <;> rfl

/-- **The declarations after a visit.** -/
theorem declarations_note :
    (note t p id node).declarations scope =
      if node.tag.isValueDeclaration = true ∧ p.scopes.head? = some scope ∧
        id ∉ t.declarations scope then t.declarations scope ++ [id]
      else t.declarations scope := by
  by_cases hnone : node.tag.isValueDeclaration = true → p.scopes.head? = none
  · rw [declarations_note_of_none t p id scope node hnone, if_neg]
    rintro ⟨hvalue, hscopes, -⟩
    rw [hnone hvalue] at hscopes
    cases hscopes
  · obtain ⟨hvalue, hscopes⟩ := Classical.not_imp.mp hnone
    obtain ⟨outer, houter⟩ := Option.ne_none_iff_exists'.mp hscopes
    rw [declarations_note_of_head? t p id scope node hvalue houter, houter]
    simp only [ScopeTable.declarations_declare, hvalue, Option.some.injEq, true_and]
    by_cases h : scope = outer
    · subst h
      rfl
    · simp [h, Ne.symm h]

end Walk

/-! ## Chains -/

namespace ScopeTable

/-- Each scope of a list is the scope around the one before, and the last has none around it. -/
def Linked (t : ScopeTable) : List NodeId → Prop
  | [] => True
  | scope :: scopes => t.parent? scope = scopes.head? ∧ Linked t scopes

variable {t : ScopeTable} {scope : NodeId} {scopes : List NodeId}

/-- The chain that follows the links. -/
theorem chainUpTo_eq (h : t.Linked (scope :: scopes)) {n : Nat} (hn : scopes.length ≤ n) :
    t.chainUpTo n scope = scope :: scopes := by
  induction scopes generalizing scope n with
  | nil =>
    have hnone : t.parent? scope = none := h.1
    cases n with
    | zero => rfl
    | succ n => rw [chainUpTo, hnone]
  | cons outer scopes ih =>
    have hsome : t.parent? scope = some outer := h.1
    cases n with
    | zero => simp at hn
    | succ n =>
      simp only [List.length_cons] at hn
      simp only [chainUpTo, hsome, ih h.2 (Nat.le_of_succ_le_succ hn)]

/-- All scopes but the last have a scope around them. -/
theorem length_le_size (h : t.Linked (scope :: scopes)) (hnodup : (scope :: scopes).Nodup) :
    scopes.length ≤ t.parents.size := by
  have hsubset : (scope :: scopes).dropLast ⊆ t.parents.keys := by
    clear hnodup
    induction scopes generalizing scope with
    | nil => simp
    | cons outer scopes ih =>
      rw [List.dropLast_cons_cons]
      intro other hother
      rcases List.mem_cons.mp hother with rfl | hother
      · exact Assoc.mem_keys_iff.mpr ⟨outer, h.1⟩
      · exact ih h.2 hother
  have hnodup' : (scope :: scopes).dropLast.Nodup := hnodup.sublist (List.dropLast_sublist _)
  calc scopes.length = (scope :: scopes).dropLast.length := by simp
    _ ≤ t.parents.keys.length := (List.subperm_of_subset hnodup' hsubset).length_le
    _ = t.parents.size := t.parents.length_keys

/-- **The chain of a scope** follows the links to the end. -/
theorem chain_eq (h : t.Linked (scope :: scopes)) (hnodup : (scope :: scopes).Nodup) :
    t.chain scope = scope :: scopes :=
  chainUpTo_eq h (length_le_size h hnodup)

end ScopeTable

/-! ## Scopes of a graph -/

namespace Graph

variable {g : Graph} {loose : List NodeId} {p : Place} {id : NodeId}

/-- No node is a scope around itself. -/
theorem Stands.notMem_scopes (tree : g.Tree loose) (h : g.Stands p id) : id ∉ p.scopes := by
  intro hmem
  have := (h.scopes_eq tree h hmem).length_le
  rw [List.length_cons] at this
  omega

/-- The scopes around a node are distinct. -/
theorem Stands.nodup_scopes (tree : g.Tree loose) (h : g.Stands p id) : p.scopes.Nodup := by
  induction h with
  | unit _ => exact List.nodup_nil
  | @part p w part node above _ _ ih =>
    by_cases hopens : node.tag.opens?.isSome
    · rw [Place.scopes_enter_of_opens? hopens]
      exact List.nodup_cons.mpr ⟨above.notMem_scopes tree, ih⟩
    · rwa [Place.enter_of_opens?_eq_none (by simpa using hopens)]

end Graph

/-- The table knows the scopes around scopes: what it says is right, and it says what is around the
scopes in a list. -/
structure ScopeTable.Nests (t : ScopeTable) (g : Graph) (known : List NodeId) : Prop where
  /-- What the table says is right. -/
  sound : ∀ scope outer, t.parent? scope = some outer →
    ∃ p, g.Stands p scope ∧ p.scopes.head? = some outer ∧
      ∃ tag, g.tag? scope = some tag ∧ tag.opens?.isSome
  /-- The table says what is around the scopes in the list. -/
  complete : ∀ scope ∈ known, ∀ p tag, g.Stands p scope → g.tag? scope = some tag →
    tag.opens?.isSome → t.parent? scope = p.scopes.head?

namespace ScopeTable.Nests

variable {t : ScopeTable} {g g' : Graph} {known loose : List NodeId} {p : Place} {id : NodeId}

/-- A scope is no reference. -/
theorem ne_reference {tag : Tag} (h : tag.opens?.isSome) : tag ≠ .reference := by
  rintro rfl
  exact absurd h (by decide)

/-- The table stays right in a growing graph. -/
theorem grows {n : Nat} (h : t.Nests g known) (tree : g.Tree loose) (tree' : g'.Tree loose)
    (hgrows : g.Grows n g') (hknown : ∀ id ∈ known, ∃ p, g.Stands p id) : t.Nests g' known where
  sound scope outer hparent := by
    obtain ⟨p, hp, hhead, tag, htag, hopens⟩ := h.sound scope outer hparent
    exact ⟨p, hgrows.stands_of_tag? hp htag (ne_reference hopens), hhead, tag, hgrows.tag? htag, hopens⟩
  complete scope hscope p tag hp htag hopens := by
    obtain ⟨q, hq⟩ := hknown scope hscope
    obtain ⟨node, hnode⟩ := Graph.exists_node (hq.lt_size tree)
    have htag' := Graph.tag?_eq hnode
    obtain rfl := Option.some.inj ((hgrows.tag? htag').symm.trans htag)
    obtain rfl := hp.unique tree' (hgrows.stands_of_tag? hq htag' (ne_reference hopens))
    exact h.complete scope hscope p _ hq htag' hopens

/-- A visit keeps the table right.

**Proof sketch.** The table changes at the visited node only, if this opens a scope inside another. Where a
node stands is unique, so what is entered there is what it must be. A unit has no scope around it, which the
table shows by having none for it. -/
theorem note (h : t.Nests g known) (tree : g.Tree loose) (hp : g.Stands p id) {node : Node}
    (hnode : g.node? id = some node) : (Walk.note t p id node).Nests g (known ++ [id]) where
  sound scope outer hparent := by
    rw [Walk.parent?_note] at hparent
    split at hparent
    · next hcase =>
      obtain ⟨rfl, hopens⟩ := hcase
      cases hhead : p.scopes.head? with
      | none =>
        rw [hhead] at hparent
        exact h.sound scope outer hparent
      | some first =>
        rw [hhead] at hparent
        exact ⟨p, hp, hhead.trans hparent, node.tag, Graph.tag?_eq hnode, hopens⟩
    · exact h.sound scope outer hparent
  complete scope hscope q tag hq htag hopens := by
    rw [Walk.parent?_note]
    by_cases hid : scope = id
    · subst hid
      obtain rfl := hq.unique tree hp
      obtain rfl := Option.some.inj ((Graph.tag?_eq hnode).symm.trans htag)
      rw [if_pos ⟨rfl, hopens⟩]
      cases hhead : q.scopes.head? with
      | some first => rfl
      | none =>
        -- a unit: the table cannot say that there is a scope around it
        cases hparent : t.parent? scope with
        | none => rfl
        | some outer =>
          obtain ⟨q', hq', hhead', -⟩ := h.sound scope outer hparent
          rw [hq'.unique tree hq, hhead] at hhead'
          exact absurd hhead' (by simp)
    · rw [if_neg fun hcase => hid hcase.1]
      have hscope' : scope ∈ known := by
        rcases List.mem_append.mp hscope with hscope | hscope
        · exact hscope
        · exact absurd (List.mem_singleton.mp hscope) hid
      exact h.complete scope hscope' q tag hq htag hopens

/-- The scopes from one on outwards are each around the one before. -/
theorem linked (h : t.Nests g known) {scope : NodeId} {tag : Tag} (hp : g.Stands p scope)
    (htag : g.tag? scope = some tag) (hopens : tag.opens?.isSome) (hknown : scope :: p.scopes ⊆ known) :
    t.Linked (scope :: p.scopes) := by
  obtain ⟨hscope, hknown⟩ := List.cons_subset.mp hknown
  have hlinked : ∀ scopes, scopes <:+ p.scopes → t.Linked scopes := by
    intro scopes
    induction scopes with
    | nil => intro _; trivial
    | cons scope rest ih =>
      intro hsuffix
      obtain ⟨q, hq, rfl, node, hnode, hopens⟩ := hp.outer hsuffix
      refine ⟨?_, ih ((List.suffix_cons _ _).trans hsuffix)⟩
      exact h.complete scope (hknown (hsuffix.subset (List.mem_cons_self ..))) q node.tag hq
        (Graph.tag?_eq hnode) hopens
  exact ⟨h.complete scope hscope p tag hp htag hopens, hlinked p.scopes (List.suffix_refl _)⟩

/-- The chain of a scope is the scope itself and its place. -/
theorem chain_scope (h : t.Nests g known) (tree : g.Tree loose) {scope : NodeId} {tag : Tag}
    (hp : g.Stands p scope) (htag : g.tag? scope = some tag) (hopens : tag.opens?.isSome)
    (hknown : scope :: p.scopes ⊆ known) : t.chain scope = scope :: p.scopes :=
  chain_eq (h.linked hp htag hopens hknown)
    (List.nodup_cons.mpr ⟨hp.notMem_scopes tree, hp.nodup_scopes tree⟩)

/-- **The chain is the place.** The scopes around a node form the chain of the innermost one. -/
theorem chain (h : t.Nests g known) (tree : g.Tree loose) (hp : g.Stands p id) (hknown : p.scopes ⊆ known)
    {scope : NodeId} (hscope : p.scopes.head? = some scope) : t.chain scope = p.scopes := by
  obtain ⟨rest, hscopes⟩ := List.head?_eq_some_iff.mp hscope
  have hsuffix : scope :: rest <:+ p.scopes := ⟨[], hscopes.symm⟩
  obtain ⟨q, hq, rfl, node, hnode, hopens⟩ := hp.outer hsuffix
  rw [hscopes] at hknown ⊢
  exact h.chain_scope tree hq (Graph.tag?_eq hnode) hopens hknown

end ScopeTable.Nests

end ProgramGraph
