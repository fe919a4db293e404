import ProgramGraph.Proofs.Translation.Hanging

set_option autoImplicit false

/-!
# Documents are built faithfully

However a document looks, the graph in which it is built shows its tree at the unit, and the tree has
all nodes that were built.

## Main results

* `ProgramGraph.Document.Expression.builds`, `ProgramGraph.Document.Statement.builds`,
  `ProgramGraph.Document.Declaration.builds` — the parts of a document.
* `ProgramGraph.Document.builds_record` — a record with its implicit constructor.
* `ProgramGraph.Document.build_faithful` — a document.

## Design

Each part is built as members that have the trees of the part, by recursion on the document. An
expression is made and not hung up, a statement is put into the block around it, and a declaration is
put into the container around it together with the variables that go to the unit instead.
-/

namespace ProgramGraph.Document

open Builder

variable {b : Builder}

/-! ## Expressions -/

mutual

/-- **An expression** is built as its tree, and not hung up.

**Proof sketch.** By recursion over the expression. The operands are built first, one after the other, and
then a node is added that links to them. For the member of an access a reference is built behind the base. -/
theorem Expression.builds (e : Expression) {b : Builder} (hb : b.Founded) :
    b.Builds (e.build b).2 [] [⟨(e.build b).1, e.tree .known⟩] := by
  cases e with
  | ref name type isStatic line =>
    have hmade := (Builds.refl b).addTyped (Graph.isNew_make name (.reference none isStatic)) rfl rfl
      (.ofText? type) line rfl nofun
    cases isStatic <;> exact hmade
  | member base name type memberType line =>
    have hbase := base.builds hb
    have hstub := (Builds.refl (base.build b).2).addTyped (Graph.isNew_make name (.reference none false))
      rfl rfl (.ofText? (memberType <|> type)) none rfl nofun
    refine (hbase.trans hb hstub).addTyped (Graph.isNew_make name (.memberAccess _ (some _))) rfl rfl
      (.ofText? type) line rfl fun _ m hm => ?_
    rcases List.mem_cons.mp hm with rfl | hm
    · exact base.isExpression_tree
    · obtain rfl := List.mem_singleton.mp hm
      rfl
  | call name base arguments type line =>
    obtain ⟨bases, hbaseIds, hbaseTrees, hbase⟩ := Expression.builds_option base hb
    obtain ⟨others, hids, htrees, harguments⟩ := Expression.builds_list arguments (hbase.founded hb)
    have hmade := (hbase.trans hb harguments).addTyped
      (Graph.isNew_make name (.call (Expression.buildOption b base).1
        (Expression.buildList (Expression.buildOption b base).2 arguments).1)) rfl rfl (.ofText? type) line
      (by rw [List.map_append, ← hbaseIds, ← hids]; rfl) nofun
    rw [List.map_append, ← hbaseTrees, ← htrees] at hmade
    cases base <;> exact hmade
  | literal value type =>
    exact (Builds.refl b).addTyped (Graph.isNew_literal value) rfl rfl (.ofText? type) none rfl nofun

/-- An expression that may be left out. -/
theorem Expression.builds_option (o : Option Expression) {b : Builder} (hb : b.Founded) :
    ∃ ms, (Expression.buildOption b o).1.toList = ms.map Member.id ∧
      Expression.optionTrees .known o = ms.map Member.tree ∧
        b.Builds (Expression.buildOption b o).2 [] ms := by
  cases o with
  | none => exact ⟨[], rfl, rfl, .refl b⟩
  | some e => exact ⟨_, rfl, rfl, e.builds hb⟩

/-- Expressions one after the other. -/
theorem Expression.builds_list (es : List Expression) {b : Builder} (hb : b.Founded) :
    ∃ ms, (Expression.buildList b es).1 = ms.map Member.id ∧
      Expression.listTrees .known es = ms.map Member.tree ∧
        b.Builds (Expression.buildList b es).2 [] ms := by
  cases es with
  | nil => exact ⟨[], rfl, rfl, .refl b⟩
  | cons e es =>
    have hfirst := e.builds hb
    obtain ⟨ms, hids, htrees, hothers⟩ := Expression.builds_list es (hfirst.founded hb)
    refine ⟨_ :: ms, ?_, ?_, hfirst.trans hb hothers⟩
    · exact congrArg (_ :: ·) hids
    · exact congrArg (_ :: ·) htrees

end

/-! ## Statements -/

/-- **A block** that is filled with statements. -/
theorem builds_block {b₁ : Builder} {ms : List Member} (hb : b.Founded)
    (hin : (b.enter (.make "" (.block []))).Builds b₁ ms ms) {statements : List Statement}
    (htrees : ms.map Member.tree = Statement.listTrees .known statements) :
    ∃ m : Member, m.tree = .node { name := "", shape := .block } (Statement.listTrees .known statements) ∧
      b.Builds b₁.leave.2 [m] [m] := by
  have hroles : ∀ m ∈ ms, m.tree.role.isStatement = true := fun m hm =>
    Statement.isStatement_listTrees statements _ (htrees ▸ List.mem_map_of_mem hm)
  have htakes : (Payload.block []).takes ms = .block (ms.map Member.id) :=
    Payload.takes_of_take (f := Payload.block) (fun m hm ids =>
      congrArg Payload.block (if_pos (hroles m hm))) []
  have hvariable : ∀ m ∈ ms, m.tree.role ≠ .variable := by
    intro m hm heq
    have hstatement := hroles m hm
    rw [heq] at hstatement
    cases hstatement
  exact ⟨_, congrArg (SyntaxTree.node _) htrees, hin.close_plain hb nofun nofun hvariable htakes rfl⟩

/-- A block that was opened is the innermost container. -/
theorem tag?_enter_block (hb : b.Founded) :
    (b.enter (.make "" (.block []))).graph.tag? (b.enter (.make "" (.block []))).current = some .block :=
  Graph.tag?_eq (node?_enter_self b _ hb)

/-- **A variable** is made as its tree, behind its initial value. -/
theorem builds_variable (hb : b.Founded) (name : String) (type : Option String)
    (initializer : Option Expression) :
    b.Builds ((Expression.buildOption b initializer).2.addTyped
        (.make name (.var (Expression.buildOption b initializer).1)) (.ofText? type)).2 []
      [⟨(Expression.buildOption b initializer).2.graph.size,
        variableTree .known name type initializer⟩] := by
  obtain ⟨ms, hids, htrees, hinit⟩ := Expression.builds_option initializer hb
  have hmade := hinit.addTyped (Graph.isNew_make name (.var (Expression.buildOption b initializer).1)) rfl rfl
    (.ofText? type) none hids nofun
  rw [← htrees] at hmade
  exact hmade

mutual

/-- **A statement** is put into the block around it as its tree.

**Proof sketch.** By cases on the statement. Each is a composition: what it consists of is built, then a node
that links to this is added, and this node is hung up in the block. A block is entered, filled and left
(`builds_block`). -/
theorem Statement.builds (s : Statement) {b : Builder} (hb : b.Founded)
    (hblock : b.graph.tag? b.current = some .block) :
    ∃ m : Member, m.tree = s.tree .known ∧ b.Builds (s.build b) [m] [m] := by
  cases s with
  | declare name type initializer =>
    obtain ⟨_, _, _, hinit⟩ := Expression.builds_option initializer hb
    have hblock' : (Expression.buildOption b initializer).2.graph.tag?
        (Expression.buildOption b initializer).2.current = some .block := by
      rw [hinit.current_eq, hinit.tag? hb.current_lt, hblock]
    have hvar := builds_variable hb name type initializer
    have hdeclared := hvar.add (.make "" (.declarationStatement [_])) rfl nofun
    have heq : Statement.build b (.declare name type initializer) = Builder.hang _ .statement _ :=
      declareVariable_of_block (hinit.founded hb) hblock' name (.ofText? type) _
    rw [heq]
    exact ⟨_, rfl, hdeclared.put hb .statement rfl⟩
  | returned value =>
    obtain ⟨ms, hids, htrees, hvalue⟩ := Expression.builds_option value hb
    have hmade := hvalue.add (.make "" (.returnStatement (Expression.buildOption b value).1)) hids nofun
    rw [← htrees] at hmade
    have heq : Statement.build b (.returned value) = Builder.hang _ .statement _ := addStatement_eq _ _
    rw [heq]
    exact ⟨_, rfl, hmade.put hb .statement rfl⟩
  | expression e =>
    have heq : Statement.build b (.expression e) = Builder.hang _ .statement _ := addStatement_eq _ _
    rw [heq]
    exact ⟨_, rfl, (e.builds hb).put hb .statement e.role_tree⟩
  | block statements =>
    obtain ⟨ms, htrees, hin⟩ := Statement.builds_list statements (Founded.enter b _ hb)
      (tag?_enter_block hb)
    rw [Statement.build, enterBlock_eq]
    exact builds_block hb hin htrees

/-- Statements one after the other. -/
theorem Statement.builds_list (ss : List Statement) {b : Builder} (hb : b.Founded)
    (hblock : b.graph.tag? b.current = some .block) :
    ∃ ms : List Member, ms.map Member.tree = Statement.listTrees .known ss ∧
      b.Builds (Statement.buildList b ss) ms ms := by
  cases ss with
  | nil => exact ⟨[], rfl, .refl b⟩
  | cons s ss =>
    obtain ⟨m, htree, hfirst⟩ := s.builds hb hblock
    obtain ⟨ms, htrees, hothers⟩ := Statement.builds_list ss (hfirst.founded hb) (by
      rw [hfirst.current_eq, hfirst.tag? hb.current_lt, hblock])
    exact ⟨m :: ms, congrArg₂ List.cons htree htrees, hfirst.trans hb hothers⟩

end

/-! ## Functions -/

/-- **Parameters** are put into the function around them. -/
theorem buildParameters_builds (ps : List Parameter) (hb : b.Founded) :
    ∃ ms : List Member, ms.map Member.tree = ps.map (Parameter.tree .known) ∧
      b.Builds (buildParameters b ps) ms ms := by
  induction ps generalizing b with
  | nil => exact ⟨[], rfl, .refl b⟩
  | cons p ps ih =>
    have hmade := (Builds.refl b).addTyped (Graph.isNew_make p.name (.parameter p.variadic)) rfl rfl
      (.ofText? p.type) none rfl nofun
    have hfirst := hmade.put hb .parameter rfl
    obtain ⟨ms, htrees, hothers⟩ := ih (hfirst.founded hb)
    have heq : buildParameters b (p :: ps) = buildParameters (Builder.hang _ .parameter _) ps :=
      congrArg (fun b => buildParameters b ps) (addParameter_eq b p.name (.ofText? p.type) p.variadic)
    rw [heq]
    refine ⟨_ :: ms, ?_, hfirst.trans hb hothers⟩
    rw [List.map_cons, List.map_cons, htrees]
    rfl

/-- **The body** of a function is put into it. -/
theorem buildBody_builds (body : Option (List Statement)) (hb : b.Founded) :
    ∃ m : Option Member, m.toList.map Member.tree = bodyTrees .known body ∧
      b.Builds (buildBody b body) m.toList m.toList := by
  cases body with
  | none => exact ⟨none, rfl, .refl b⟩
  | some statements =>
    obtain ⟨ms, htrees, hin⟩ := Statement.builds_list statements (Founded.enter b _ hb)
      (tag?_enter_block hb)
    obtain ⟨m, htree, hbuilds⟩ := builds_block hb hin htrees
    rw [buildBody, enterBlock_eq]
    exact ⟨some m, congrArg (fun tree => [tree]) htree, hbuilds⟩

/-- **A function** is put into its container as its tree.

**Proof sketch.** The function is opened, and its parameters and its body are built in it, which gives two
lists of members. Neither of them holds variables, so all of them are taken up when the function is closed. -/
theorem builds_function {owner : Option String} (hb : b.Founded) (hw : b.Within owner) (name : String)
    (kind : FunctionKind) (returnType : Observation) (isStatic : Bool) (parameters : List Parameter)
    (body : Option (List Statement)) :
    ∃ m : Member,
      m.tree = functionTree .known name kind (functionType owner kind returnType) isStatic parameters body ∧
      b.Builds (buildBody (buildParameters (b.enterFunction name kind returnType isStatic).2 parameters)
        body).leave.2 [m] [m] := by
  rw [enterFunction_eq hw hb]
  have hopen := Founded.enter b (newFunction owner name kind returnType isStatic) hb
  obtain ⟨ms, htrees, hparameters⟩ := buildParameters_builds parameters hopen
  obtain ⟨m, htree, hbody⟩ := buildBody_builds body (hparameters.founded hopen)
  have hms : ∀ m ∈ ms, m.tree.role = .parameter := by
    intro m hm
    obtain ⟨p, -, hp⟩ := List.mem_map.mp (htrees ▸ List.mem_map_of_mem hm)
    exact hp ▸ rfl
  have hm : ∀ m' ∈ m, m'.tree.role = .block := by
    intro m' hm'
    obtain rfl := hm'
    cases body with
    | none => cases htree
    | some statements => rw [(List.cons.inj htree).1]; rfl
  have hvariable : ∀ m' ∈ ms ++ m.toList, m'.tree.role ≠ .variable := by
    intro m' hm' heq
    rcases List.mem_append.mp hm' with hm' | hm'
    · exact absurd (heq.symm.trans (hms m' hm')) (by decide)
    · exact absurd (heq.symm.trans (hm m' (Option.mem_toList.mp hm'))) (by decide)
  have hclosed := (hparameters.trans hopen hbody).close_plain hb nofun nofun hvariable
    (Payload.takes_function hms hm kind isStatic) (by
      rw [List.map_append]
      cases m <;> rfl)
  refine ⟨_, ?_, hclosed⟩
  have hlength : (ms.map Member.id).length = parameters.length := by
    rw [List.length_map, ← List.length_map, htrees, List.length_map]
  rw [List.map_append, htrees, htree, label_newFunction, Payload.shape, hlength]
  rfl

/-! ## Enumerations -/

/-- **Constants** are put into the enumeration around them. -/
theorem builds_constants {owner : String} (names : List String) (hb : b.Founded)
    (hnamed : b.graph.name? b.current = some owner) :
    ∃ ms : List Member, ms.map Member.tree = names.map (constantTree .known owner) ∧
      b.Builds (names.foldl (fun b name => (b.addEnumConstant name).2) b) ms ms := by
  induction names generalizing b with
  | nil => exact ⟨[], rfl, .refl b⟩
  | cons name names ih =>
    have hmade := (Builds.refl b).addTyped (Graph.isNew_make name .enumConstant) rfl rfl
      { type := .parse owner } none rfl nofun
    have hfirst := hmade.put hb .constant rfl
    obtain ⟨ms, htrees, hothers⟩ := ih (hfirst.founded hb) (by
      rw [hfirst.current_eq, hfirst.name? hb.current_lt, hnamed])
    rw [List.foldl_cons, addEnumConstant_eq, currentName_eq hnamed]
    refine ⟨_ :: ms, ?_, hfirst.trans hb hothers⟩
    rw [List.map_cons, List.map_cons, htrees]
    rfl

/-- **An enumeration** is put into its container as its tree. -/
theorem builds_enum {owner : Option String} (hb : b.Founded) (hw : b.Within owner) (name : String)
    (superTypes constants : List String) :
    ∃ m : Member, m.tree = enumTree .known name superTypes constants ∧
      b.Builds (constants.foldl (fun b name => (b.addEnumConstant name).2)
        (b.enterEnum name (superTypes.map .parse)).2).leave.2 [m] [m] := by
  rw [enterEnum_eq hw hb]
  have hopen := Founded.enter b (.make name (.enum [] (superTypes.map .parse))) hb
  obtain ⟨ms, htrees, hin⟩ := builds_constants constants hopen
    (Graph.name?_eq (node?_enter_self b _ hb))
  have hms : ∀ m ∈ ms, m.tree.role = .constant := by
    intro m hm
    obtain ⟨name, -, hname⟩ := List.mem_map.mp (htrees ▸ List.mem_map_of_mem hm)
    exact hname ▸ rfl
  have htakes : (Payload.enum [] (superTypes.map .parse)).takes ms =
      .enum (ms.map Member.id) (superTypes.map .parse) :=
    Payload.takes_of_take (f := fun ids => .enum ids (superTypes.map .parse))
      (fun m hm ids => by rw [hms m hm]; rfl) []
  have hclosed := hin.close_plain hb nofun nofun
    (fun m hm heq => absurd (heq.symm.trans (hms m hm)) (by decide)) htakes rfl
  exact ⟨_, congrArg (SyntaxTree.node _) htrees, hclosed⟩

/-! ## Records -/

/-- **The implicit constructor** of a record in which the members were built.

**Proof sketch.** If there is no constructor among the members, closing the record opens one more function in
it and leaves it at once, so that one more member is built. Otherwise closing changes nothing. -/
theorem builds_complete {b₁ : Builder} {ms : List Member} (hb : b.Founded) (name sort : String)
    (superTypes : List Descriptor) (self : NodeId)
    (hin : (b.enter (newRecord name sort superTypes self)).Builds b₁ ms ms)
    (hw : b₁.Within (some name)) :
    ∃ (b₂ : Builder) (members : List Member),
      members.map Member.tree = complete .known name (ms.map Member.tree) ∧
      (b.enter (newRecord name sort superTypes self)).Builds b₂ members members ∧
      b₁.leave.2 = b₂.pop := by
  have hopen := Founded.enter b (newRecord name sort superTypes self) hb
  have hnode := hin.node?_enter hb
  have hpayload := Payload.takes_inner (Graph.newRecord sort superTypes self) ms
  unfold complete
  rw [Member.ofRole_tree]
  by_cases hnone : Member.ofRole .constructor ms = []
  -- One more function is opened in the record, and left at once without parameters and without a body.
  · have hclosed := (Builds.refl b₁).close (hin.founded hopen) (Builds.refl (b₁.enter
      (newFunction (some name) name .constructor .unknown false))) nofun [] (List.Perm.refl _) rfl
    have hleave := leave_of_incomplete hin.containers hb.rooted.ne_nil hnode hpayload
      (congrArg (List.map Member.id) hnone)
    rw [expect_eq_self (Graph.lt_size hnode), enterFunction_eq hw (hin.founded hopen)] at hleave
    rw [hnone, List.map_nil, if_pos rfl]
    refine ⟨_, ms ++ [_], ?_, hin.trans hopen hclosed, hleave⟩
    rw [List.map_append]
    change _ ++ [SyntaxTree.node (newFunction ..).label []] = _
    rw [label_newFunction]
    rfl
  · rw [if_neg (fun h => hnone (List.map_eq_nil_iff.mp h))]
    refine ⟨b₁, ms, rfl, hin, ?_⟩
    rw [leave_of_complete hin.containers hb.rooted.ne_nil fun body hbody => ?_,
      expect_eq_self (Graph.lt_size hnode)]
    have hsame := Option.some.inj ((Graph.payload?_eq hnode).symm.trans hbody)
    obtain rfl := Payload.record.inj (hpayload.symm.trans hsame)
    exact fun h => hnone (List.map_eq_nil_iff.mp h)

/-- The tree of a record that is filled with members. -/
theorem node_newRecord (name sort : String) (superTypes : List String) (self : Member)
    (hself : self.tree = selfTree .known name) (members : List Member) :
    SyntaxTree.node
      ((newRecord name sort (superTypes.map .parse) self.id).takes (Member.inner members)).label
      ((self :: (Member.ofRole .field members ++ Member.ofRole .method members ++
        Member.ofRole .constructor members ++ Member.ofRole .nominal members)).map Member.tree) =
      recordTree .known name sort superTypes (members.map Member.tree) := by
  have htakes := Payload.takes_inner (Graph.newRecord sort (superTypes.map .parse) self.id) members
  have hlabel : ((newRecord name sort (superTypes.map .parse) self.id).takes (Member.inner members)).label =
      { name, shape := ((Payload.record (Graph.newRecord sort (superTypes.map .parse) self.id)).takes
          (Member.inner members)).shape } := rfl
  rw [hlabel, htakes, recordTree]
  simp only [Member.ofRole_tree, List.map_cons, List.map_append, hself]
  simp [Payload.shape, Graph.newRecord]

/-- **A record** is put into its container as its tree, and the variables in it into the unit.

**Proof sketch.** The field that stands for the record is added first, then the members are built and
completed. All of them are declarations, so that the lists of the record, taken together, are a permutation of
them. -/
theorem builds_record {owner : Option String} {b₁ : Builder} {ms : List Member} (hb : b.Founded)
    (hw : b.Within owner) (name sort : String) (superTypes : List String)
    (hin : (b.enterRecord name sort (superTypes.map .parse)).2.Builds b₁ ms ms) (hw₁ : b₁.Within (some name))
    (hdeclared : ∀ m ∈ ms, m.tree.role.isDeclared = true) :
    ∃ members : List Member, members.map Member.tree =
      recordTree .known name sort superTypes (complete .known name (ms.map Member.tree)) ::
        SyntaxTree.ofRole .variable (ms.map Member.tree) ∧
      b.Builds b₁.leave.2 members members := by
  rw [enterRecord_eq hw hb] at hin
  have hself := (Builds.refl b).add (newSelf name) rfl nofun
  obtain ⟨b₂, members, htrees, hfilled, hleave⟩ := builds_complete (hself.founded hb) _ _ _ _ hin hw₁
  -- A record has a list for each role of a declaration, so it takes all of its members up.
  have hmembers : ∀ m ∈ members, m.tree.role.isDeclared = true := by
    intro m hm
    have hmem : m.tree ∈ complete .known name (ms.map Member.tree) := htrees ▸ List.mem_map_of_mem hm
    refine isDeclared_complete (fun tree htree => ?_) m.tree hmem
    obtain ⟨m, hm, rfl⟩ := List.mem_map.mp htree
    exact hdeclared m hm
  have htakes := Payload.takes_inner (Graph.newRecord sort (superTypes.map .parse) b.graph.size) members
  have hclosed := hself.close hb hfilled nofun _ ((Member.sorted_perm hmembers).cons _) (by
    refine (congrArg Payload.links htakes).trans ?_
    simp [Payload.links, Payload.parts, Graph.newRecord])
  rw [hleave]
  refine ⟨_, ?_, hclosed⟩
  have htree := node_newRecord name sort superTypes ⟨b.graph.size, .node (newSelf name).label []⟩
    (congrArg (fun label => SyntaxTree.node label []) (label_newSelf name)) members
  rw [htrees] at htree
  rw [List.map_cons, ← Member.ofRole_tree, htrees, ofRole_variable_complete]
  exact congrArg (fun tree => tree :: _) htree

/-! ## Declarations -/

mutual

/-- **A declaration** is put into the container around it as its trees.

**Proof sketch.** By cases on the declaration, as for statements. A record is a container that is filled with
its members, to which the invariant of the container around it is handed on. -/
theorem Declaration.builds (d : Declaration) {b : Builder} (hb : b.Founded) {owner : Option String}
    (hw : b.Within owner) :
    ∃ ms : List Member, ms.map Member.tree = d.trees .known owner ∧
      b.Builds (d.build b owner.isSome) ms ms := by
  cases d with
  | record name sort superTypes members =>
    obtain ⟨hb', hw'⟩ := within_enterRecord hw hb name sort (superTypes.map .parse)
    obtain ⟨ms, htrees, hin⟩ := Declaration.builds_list members hb' hw'
    have hdeclared : ∀ m ∈ ms, m.tree.role.isDeclared = true := fun m hm =>
      Declaration.isDeclared_listTrees members (some name) _ (htrees ▸ List.mem_map_of_mem hm)
    have hbuilds := builds_record hb hw name sort superTypes hin (hw'.builds hb' hin) hdeclared
    rw [htrees] at hbuilds
    exact hbuilds
  | enum name superTypes constants =>
    obtain ⟨m, htree, hbuilds⟩ := builds_enum hb hw name superTypes constants
    exact ⟨[m], congrArg (fun tree => [tree]) htree, hbuilds⟩
  | field name type modifiers initializer =>
    obtain ⟨ms, hids, htrees, hinit⟩ := Expression.builds_option initializer hb
    have hmade := hinit.addTyped
      (Graph.isNew_make name (.field modifiers (Expression.buildOption b initializer).1)) rfl rfl
      (.ofText? type) none hids nofun
    rw [← htrees] at hmade
    have heq : (Declaration.field name type modifiers initializer).build b owner.isSome =
        Builder.hang _ .field _ := addField_eq (hw.builds hb hinit) (hinit.founded hb) _ _ _ _
    rw [heq]
    exact ⟨[_], rfl, hmade.put hb .field rfl⟩
  | function name kind returnType isStatic parameters body =>
    obtain ⟨m, htree, hbuilds⟩ := builds_function hb hw name (functionKind kind owner.isSome)
      (.ofText? returnType) isStatic parameters body
    exact ⟨[m], congrArg (fun tree => [tree]) htree, hbuilds⟩
  | var name type initializer =>
    obtain ⟨_, _, _, hinit⟩ := Expression.builds_option initializer hb
    have heq : (Declaration.var name type initializer).build b owner.isSome = Builder.hang _ .variable _ :=
      declareVariable_of_within (hw.builds hb hinit) (hinit.founded hb) _ _ _
    rw [heq]
    exact ⟨[_], rfl, (builds_variable hb name type initializer).put hb .variable rfl⟩

/-- Declarations one after the other. -/
theorem Declaration.builds_list (ds : List Declaration) {b : Builder} (hb : b.Founded)
    {owner : Option String} (hw : b.Within owner) :
    ∃ ms : List Member, ms.map Member.tree = Declaration.listTrees .known owner ds ∧
      b.Builds (Declaration.buildList b owner.isSome ds) ms ms := by
  cases ds with
  | nil => exact ⟨[], rfl, .refl b⟩
  | cons d ds =>
    obtain ⟨ms, htrees, hfirst⟩ := d.builds hb hw
    obtain ⟨others, hothers, hrest⟩ := Declaration.builds_list ds (hfirst.founded hb) (hw.builds hb hfirst)
    refine ⟨ms ++ others, ?_, hfirst.trans hb hrest⟩
    rw [List.map_append, htrees, hothers]
    rfl

end

/-! ## Documents -/

/-- A unit that was just started: nothing is open in it. -/
theorem within_start (g : Graph) (name : String) :
    (Builder.start g name).Founded ∧ (Builder.start g name).Within none ∧
      (Builder.start g name).graph.node? g.size = some (.make name (.unit [])) := by
  have hsize : (Builder.start g name).graph.size = g.size + 1 := Graph.size_add ..
  have hnode : (Builder.start g name).graph.node? g.size = some (.make name (.unit [])) :=
    (Graph.node?_add ..).trans (if_pos rfl)
  refine ⟨⟨.start g name, fun c hc => ?_⟩, .unit rfl (Graph.tag?_eq hnode), hnode⟩
  obtain rfl := List.mem_singleton.mp hc
  rw [hsize]
  exact Nat.lt_succ_self _

/-- **A document** is shown as its tree, which consists of the nodes that are built. -/
theorem builds (d : Document) (path : String) (g : Graph) :
    ∃ all, (d.build path g).2.Shows [⟨(d.build path g).1, d.tree .known path⟩] all ∧
      all.Perm (List.Ico g.size (d.build path g).2.size) := by
  obtain ⟨hb, hw, hstart⟩ := within_start g (d.name.getD path)
  obtain ⟨ms, htrees, hin⟩ := Declaration.builds_list d.declarations hb hw
  rw [Option.isSome_none] at hin
  have hsize : (Builder.start g (d.name.getD path)).graph.size = g.size + 1 := Graph.size_add ..
  have hlt : g.size < (Builder.start g (d.name.getD path)).graph.size := by
    rw [hsize]
    exact Nat.lt_succ_self _
  have hfinish : (d.build path g).2 =
      (Declaration.buildList (Builder.start g (d.name.getD path)) false d.declarations).graph := by
    change (Builder.finish _).graph = _
    rw [Builder.finish, leaveAll_of_length_le]
    exact Nat.le_of_eq (congrArg List.length hin.containers)
  -- Everything is hung up in the unit, in the order of the document.
  have hshare : (Builder.start g (d.name.getD path)).share g.size ms = ms :=
    List.filter_eq_self.mpr fun m _ => by
      rw [beq_iff_eq, host]
      split <;> rfl
  have hnode := hin.old g.size hlt
  rw [hstart, hshare, Option.map_some] at hnode
  have htakes : (Payload.unit []).takes ms = .unit (ms.map Member.id) :=
    Payload.takes_of_take (f := Payload.unit) (fun m hm ids => congrArg Payload.unit (if_pos
      (Declaration.isDeclared_listTrees d.declarations none _ (htrees ▸ List.mem_map_of_mem hm)))) []
  obtain ⟨all, hall, hperm⟩ := hin.shows
  rw [hfinish]
  have hkind : ((Node.make (d.name.getD path) (.unit [])).takes ms).tag ≠ .memberAccess := fun h =>
    absurd ((Payload.tag_takes (.unit []) ms).symm.trans h) (by decide)
  refine ⟨g.size :: all, .single hnode ?_ (congrArg Payload.links htakes) (absurd · hkind) hall, ?_⟩
  · change SyntaxTree.node _ _ = SyntaxTree.node { name := _, shape := ((Payload.unit []).takes ms).shape } _
    rw [htakes, htrees]
    rfl
  · rw [hsize] at hperm
    rw [List.Ico.eq_cons (Nat.lt_of_lt_of_le hlt hin.size)]
    exact hperm.cons _

/-- **What is read** of a document is its tree. -/
theorem syntaxTree_build (d : Document) (path : String) (g : Graph) :
    (d.build path g).2.syntaxTree (d.build path g).1 = .ok (d.tree .known path) := by
  obtain ⟨all, hall, hperm⟩ := d.builds path g
  refine hall.syntaxTree_eq ?_
  rw [hperm.length_eq, List.Ico.length]
  exact Nat.sub_le ..

/-- **What is below the unit** is what was built, once each. -/
theorem subnodes_build (d : Document) (path : String) (g : Graph) :
    ∃ ids, (d.build path g).2.subnodes (d.build path g).1 = .ok ids ∧ ids.Nodup ∧
      ∀ id, id ∈ ids ↔ g.size ≤ id ∧ id < (d.build path g).2.size := by
  obtain ⟨all, hall, hperm⟩ := d.builds path g
  refine ⟨all, hall.subnodes_eq ?_, hperm.nodup_iff.mpr (List.Ico.nodup ..), fun id => ?_⟩
  · rw [hperm.length_eq, List.Ico.length]
    exact Nat.sub_le ..
  · rw [hperm.mem_iff, List.Ico.mem]

/-- **Building is faithful.** What is read at the unit is the tree of the document, and the nodes below
the unit are those that were built, once each.

**Proof sketch.** Both parts are inductions over the document, one case for every kind of expression,
statement and declaration. The invariant says that what was built so far reads as the trees of what was
translated, and that the nodes below it are an interval of new numbers without gaps; whatever is added later
gets greater numbers and so disturbs neither. -/
theorem build_faithful (d : Document) (path : String) (g : Graph) :
    (d.build path g).2.syntaxTree (d.build path g).1 = .ok (d.tree .known path) ∧
      ∃ ids, (d.build path g).2.subnodes (d.build path g).1 = .ok ids ∧ ids.Nodup ∧
        ∀ id, id ∈ ids ↔ g.size ≤ id ∧ id < (d.build path g).2.size :=
  ⟨d.syntaxTree_build path g, d.subnodes_build path g⟩

/-- A variable with a type that is unknown by its name, but decorated. -/
def unknownPointer : Document := { declarations := [.var "x" (some "UNKNOWN*") none] }

/-- The type is not kept as it is written. -/
theorem unknownPointer_not_literal :
    ((unknownPointer.build "pointer.json" {}).2.typeOf 1).type ≠ .parse "UNKNOWN*" ∧
      (unknownPointer.build "pointer.json" {}).2.syntaxTree (unknownPointer.build "pointer.json" {}).1 ≠
        .ok (unknownPointer.tree (fun o => o) "pointer.json") := by
  refine ⟨by decide +kernel, ?_⟩
  rw [syntaxTree_build]
  intro h
  have htype : Observation.known (.ofText? (some "UNKNOWN*")) = .ofText? (some "UNKNOWN*") := by
    injection h with htree
    injection htree with _ hparts
    injection hparts with hpart _
    injection hpart with hlabel _
    injection hlabel with _ _ hsome
    exact Option.some.inj hsome
  exact absurd htype (by decide +kernel)

end ProgramGraph.Document
