import ProgramGraph.Proofs.Building.Containers

set_option autoImplicit false

/-!
# The functions of a builder

Each function of a builder keeps it in order. A function that makes an expression leaves it loose,
one that makes a declaration or a statement hangs it up, and one that opens a container leaves
nothing loose either.

## Main definitions

* `ProgramGraph.Builder.Opens` — a builder opens a container.

## Main results

* `ProgramGraph.Builder.Ok.enterRecord`, `ProgramGraph.Builder.Ok.enterFunction`,
  `ProgramGraph.Builder.Ok.enterBlock` — opening containers.
* `ProgramGraph.Builder.Ok.leave` — closing one.
* `ProgramGraph.Builder.Ok.addField`, `ProgramGraph.Builder.Ok.declareVariable` — declarations.
* `ProgramGraph.Builder.Ok.reference`, `ProgramGraph.Builder.Ok.member`,
  `ProgramGraph.Builder.Ok.call` — expressions.
-/

namespace ProgramGraph.Builder

variable {g₀ : Graph} {b b' : Builder} {loose rest outer : List NodeId} {id c : NodeId}

/-- A builder opens a container. -/
structure Opens (g₀ : Graph) (b b' : Builder) (id : NodeId) (rest : List NodeId) : Prop where
  /-- The builder is in order. -/
  ok : b'.Ok g₀ rest
  /-- It went on. -/
  follows : b.Follows b'
  /-- The container is the innermost one. -/
  containers : b'.containers = id :: b.containers

/-- A container that hangs somewhere is opened. -/
theorem Goes.push (h : b.Goes g₀ b' rest) (hid : b'.graph.Hangs [] id) (hle : g₀.size ≤ id) :
    b.Opens g₀ (b'.push id) id rest :=
  ⟨h.ok.push hid hle, ⟨h.follows.unit, h.follows.graph⟩, congrArg (id :: ·) h.containers⟩

/-- A record that is the innermost container. -/
theorem exists_record_of_inRecord (h : b.inRecord = true) :
    ∃ body, b.graph.payload? b.current = some (.record body) := by
  obtain ⟨payload, hpayload, htag⟩ := (Option.any_eq_true _ _).mp h
  have hrecord := Graph.tag?_of_payload? hpayload
  rw [beq_iff_eq.mp htag] at hrecord
  exact Graph.exists_record_of_tag? hrecord

/-- A block has statements. -/
theorem exists_block_of_tag? {g : Graph} (h : g.tag? id = some .block) :
    ∃ statements, g.payload? id = some (.block statements) := by
  obtain ⟨node, hnode, htag⟩ := Graph.exists_node_of_tag? h
  rw [Graph.payload?_eq hnode]
  cases hpayload : node.payload with
  | block statements => exact ⟨statements, rfl⟩
  | _ => simp [Node.tag, hpayload, Payload.tag] at htag

/-- An enumeration has constants. -/
theorem exists_enum_of_tag? {g : Graph} (h : g.tag? id = some .enum) :
    ∃ entries superTypes, g.payload? id = some (.enum entries superTypes) := by
  obtain ⟨node, hnode, htag⟩ := Graph.exists_node_of_tag? h
  rw [Graph.payload?_eq hnode]
  cases hpayload : node.payload with
  | enum entries superTypes => exact ⟨entries, superTypes, rfl⟩
  | _ => simp [Node.tag, hpayload, Payload.tag] at htag

namespace Ok

/-! ## Hanging up declarations -/

/-- A declaration is hung up in the unit. -/
theorem declareInUnit (h : b.Ok g₀ (id :: rest)) (hid : b.graph.All Tag.isTopLevel [id]) :
    b.Goes g₀ (b.declareInUnit id) rest ∧ (b.declareInUnit id).graph.Hangs [] id := by
  obtain ⟨declarations, hunit⟩ := Graph.exists_unit_of_tag? h.unit
  have htaken : b.Goes g₀ (b.declareInUnit id) rest ∧ (b.declareInUnit id).graph.Hangs [] id ∧ _ :=
    h.take h.rooted.unit_mem hunit (.declaration hid)
  exact ⟨htaken.1, htaken.2.1⟩

/-- A record or an enumeration is hung up in the record around it or in the unit. -/
theorem attachNominal (h : b.Ok g₀ (id :: rest)) (hid : b.graph.All Tag.isNominal [id]) :
    b.Goes g₀ (b.attachNominal id) rest ∧ (b.attachNominal id).graph.Hangs [] id := by
  rw [Builder.attachNominal, h.expect_current]
  split
  · next hrecord =>
    obtain ⟨body, hbody⟩ := exists_record_of_inRecord hrecord
    refine (h.take h.rooted.current_mem hbody ?_).imp_right And.left
    exact .record hid
  · refine h.declareInUnit (hid.imp fun tag htag => ?_)
    cases tag <;> simp_all [Tag.isNominal, Tag.isTopLevel]

/-- A function is hung up in the record around it or in the unit.

**Proof sketch.** In a record the function becomes a method or a constructor, and otherwise a declaration of
the unit. Its own payload stays, as it is not the container itself. -/
theorem attachFunction (h : b.Ok g₀ (id :: rest)) (hid : b.graph.tag? id = some .function)
    (kind : FunctionKind) :
    b.Goes g₀ (b.attachFunction kind id) rest ∧ (b.attachFunction kind id).graph.Hangs [] id ∧
      ∀ payload, b.graph.payload? id = some payload → payload.tag = .function →
        (b.attachFunction kind id).graph.payload? id = some payload := by
  rw [Builder.attachFunction, h.expect_current]
  split
  · next hrecord =>
    obtain ⟨body, hbody⟩ := exists_record_of_inRecord hrecord
    refine and_assoc.mp ⟨(h.take h.rooted.current_mem hbody ?_).imp_right And.left,
      fun payload hpayload htag => ?_⟩
    · by_cases hkind : kind = .constructor
      · simp only [if_pos hkind]
        exact .constructor hid
      · simp only [if_neg hkind]
        exact .method hid
    have hne : id ≠ b.current := by
      rintro heq
      rw [heq, hbody] at hpayload
      obtain rfl := Option.some.inj hpayload
      exact absurd htag (by simp [Payload.tag])
    rw [← hpayload]
    exact congrArg (Option.map Node.payload) (Graph.node?_modifyPayload_of_ne hne)
  · obtain ⟨hgoes, hhangs⟩ := h.declareInUnit (.single hid rfl)
    refine ⟨hgoes, hhangs, fun payload hpayload htag => ?_⟩
    exact Graph.payload?_appendDeclaration hpayload (by rw [htag]; decide)

/-! ## Opening containers -/

/-- **Opening a record.**

**Proof sketch.** The field that stands for the record is made first and is loose. The record takes it as its
only part, is hung up in the container around it and becomes the innermost container. -/
theorem enterRecord (h : b.Ok g₀ rest) (name sort : String) (superTypes : List Descriptor) :
    b.Opens g₀ (b.enterRecord name sort superTypes).2 (b.graph.size + 1) rest := by
  obtain ⟨hself, hselfNode⟩ := h.addTyped (.selfField false) { type := .parse name }
    ⟨rfl, (Graph.isNew_make "this" (.field [] none)).belief,
      (Graph.isNew_make "this" (.field [] none)).typed⟩ trivial Graph.All.nil (List.Perm.refl _)
  have hbelief : (b.addTyped (.selfField false) { type := .parse name }).2.graph.belief? b.graph.size =
      some (({} : Belief).observe { type := .parse name }) := by
    rw [Graph.belief?, hselfNode]
    rfl
  have hsize : (b.addTyped (.selfField false) { type := .parse name }).2.graph.size =
      b.graph.size + 1 := Graph.size_addTyped ..
  let record : Node :=
    { Node.make name (.record (Graph.newRecord sort superTypes b.graph.size)) with dummy := false }
  have hraw : record.payload.IsRaw (b.addTyped (.selfField false) { type := .parse name }).2.graph
      record.name := fun self hself' => Option.some.inj hself' ▸ hbelief
  obtain ⟨hadded, hrecord⟩ := hself.ok.add record ((Graph.isNew_make name _).isFresh hraw)
    ⟨.single (Graph.tag?_eq hselfNode) rfl, Graph.All.nil, Graph.All.nil, b.graph.size, rfl, rfl,
      Graph.name?_eq hselfNode⟩ (show List.Perm _ ([b.graph.size] ++ rest) from List.Perm.refl _)
  rw [hsize] at hadded hrecord
  obtain ⟨hgoes, hhangs⟩ := hadded.ok.attachNominal (.single (Graph.tag?_eq hrecord) rfl)
  have htotal := (hself.trans hadded).trans hgoes
  have hfst := Graph.fst_addRecord name sort superTypes false b.graph
  have heq : (b.enterRecord name sort superTypes).2 =
      ((((b.addTyped (.selfField false) { type := .parse name }).2.add record).2.attachNominal
        (b.graph.size + 1)).push (b.graph.size + 1)) := by
    unfold Builder.enterRecord
    simp only [hfst]
    rfl
  rw [heq]
  exact htotal.push hhangs (Nat.le_succ_of_le h.graph.size)

/-- **Opening an enumeration.** -/
theorem enterEnum (h : b.Ok g₀ rest) (name : String) (superTypes : List Descriptor) :
    b.Opens g₀ (b.enterEnum name superTypes).2 b.graph.size rest ∧
      (b.enterEnum name superTypes).2.graph.tag? b.graph.size = some .enum := by
  obtain ⟨hadded, hnode⟩ := h.add (.make name (.enum [] superTypes))
    ((Graph.isNew_make name _).isFresh trivial) Graph.All.nil (List.Perm.refl _)
  have htag : (b.add (.make name (.enum [] superTypes))).2.graph.tag? b.graph.size = some .enum :=
    Graph.tag?_eq hnode
  obtain ⟨hgoes, hhangs⟩ := hadded.ok.attachNominal (.single htag rfl)
  exact ⟨(hadded.trans hgoes).push hhangs h.graph.size, hgoes.follows.tag? htag⟩

/-- **Opening a function,** which has neither parameters nor a body at first. -/
theorem enterFunction (h : b.Ok g₀ rest) (name : String) (kind : FunctionKind)
    (returnType : Observation) (isStatic : Bool) :
    b.Opens g₀ (b.enterFunction name kind returnType isStatic).2 b.graph.size rest ∧
      (b.enterFunction name kind returnType isStatic).2.graph.payload? b.graph.size =
        some (.function kind isStatic [] none) := by
  unfold Builder.enterFunction
  generalize (if (kind = .constructor && b.inRecord) = true then
    ({ type := .parse b.currentName } : Observation) else returnType) = type
  obtain ⟨hadded, hnode⟩ := h.addTyped _ type
    (Graph.isNew_make name (.function kind isStatic [] none)) trivial ⟨Graph.All.nil, Graph.All.nil⟩
    (List.Perm.refl _)
  obtain ⟨hgoes, hhangs, hpayload⟩ := hadded.ok.attachFunction (Graph.tag?_eq hnode) kind
  exact ⟨(hadded.trans hgoes).push hhangs h.graph.size, hpayload _ (Graph.payload?_eq hnode) rfl⟩

/-- **Opening a block** in a function without a body or in a block.

**Proof sketch.** The block is added as a loose node. Then it is hung up in the function, as its body, or in
the block around it, as a statement, and it is opened. -/
theorem enterBlock (h : b.Ok g₀ rest)
    (hcurrent : (∃ kind isStatic parameters,
        b.graph.payload? b.current = some (.function kind isStatic parameters none)) ∨
      b.graph.tag? b.current = some .block) :
    b.Opens g₀ b.enterBlock.2 b.graph.size rest ∧
      b.enterBlock.2.graph.tag? b.graph.size = some .block := by
  obtain ⟨hadded, hnode⟩ := h.add (.make "" (.block []))
    ((Graph.isNew_make "" _).isFresh trivial) Graph.All.nil (List.Perm.refl _)
  have htag : (b.add (.make "" (.block []))).2.graph.tag? b.graph.size = some .block :=
    Graph.tag?_eq hnode
  have hmem := hadded.ok.rooted.current_mem
  suffices hopens : ∀ {f : Payload → Payload} (old : Payload),
      (b.add (.make "" (.block []))).2.graph.payload? b.current = some old →
      old.Takes (b.add (.make "" (.block []))).2.graph b.graph.size (f old) →
      b.Opens g₀ (((b.add (.make "" (.block []))).2.modifyCurrent f).push b.graph.size) b.graph.size
          rest ∧
        ((b.add (.make "" (.block []))).2.modifyCurrent f).graph.tag? b.graph.size =
          some .block by
    rcases hcurrent with ⟨kind, isStatic, parameters, hfunction⟩ | hblock
    · obtain ⟨node, hfound, heq⟩ := Graph.exists_node_of_payload? hfunction
      refine hopens (.function kind isStatic parameters none) ?_ (.body htag)
      rw [← heq]
      exact Graph.payload?_eq ((b.graph.adds_add _).other hfound)
    · obtain ⟨statements, hstatements⟩ := exists_block_of_tag? (hadded.follows.tag? hblock)
      exact hopens (.block statements) hstatements (.statement (.single htag rfl))
  intro f old hold htakes
  rw [← hadded.current] at hold
  obtain ⟨hgoes, hhangs, -⟩ := hadded.ok.take hmem hold htakes
  exact ⟨(hadded.trans hgoes).push hhangs h.graph.size, hgoes.follows.tag? htag⟩

/-! ## Closing containers -/

/-- Completing a record, or leaving any other container as it is. -/
theorem completeRecord (h : b.Ok g₀ rest) (hc : b.graph.Hangs [] c) (hle : g₀.size ≤ c) :
    b.Goes g₀ (b.completeRecord c) rest := by
  have hfilled : ∀ name, b.Goes g₀
      ((b.push c).enterFunction name .constructor .unknown false).2.pop.pop rest := by
    intro name
    obtain ⟨hopens, -⟩ := (h.push hc hle).enterFunction name .constructor .unknown false
    -- The constructor and the record are on top of what was open before, which is not empty.
    have hcontainers : ((b.push c).enterFunction name .constructor .unknown false).2.containers =
        b.graph.size :: c :: b.containers := hopens.containers
    have hopen := List.length_pos_iff.mpr h.rooted.ne_nil
    refine ⟨(hopens.ok.pop ?_).pop ?_, ⟨hopens.follows.unit, hopens.follows.graph⟩, ?_⟩
    · rw [hcontainers, List.length_cons, List.length_cons]
      omega
    · rw [Builder.pop, hcontainers, List.tail_cons, List.length_cons]
      omega
    · rw [Builder.pop, Builder.pop, hcontainers]
      rfl
  unfold Builder.completeRecord
  split
  · exact hfilled _
  · exact .refl h

/-- **Closing a container** that is not the only one. -/
theorem leave (h : b.Ok g₀ rest) (hcontainers : b.containers = c :: outer) (houter : outer ≠ []) :
    b.leave.2.Ok g₀ rest ∧ b.Follows b.leave.2 ∧ b.leave.2.containers = outer := by
  have hmem : c ∈ b.containers := hcontainers ▸ List.mem_cons_self ..
  have hpop : b.pop.Ok g₀ rest := by
    refine h.pop ?_
    rw [hcontainers, List.length_cons]
    exact Nat.succ_lt_succ (List.length_pos_iff.mpr houter)
  have hgoes := hpop.completeRecord (h.containers c hmem) (h.built c hmem)
  have hsame : b.pop.expect c = b.pop := expect_eq_self (h.lt_size hmem)
  rw [leave_eq hcontainers houter, hsame]
  refine ⟨hgoes.ok, ⟨hgoes.follows.unit, hgoes.follows.graph⟩, hgoes.containers.trans ?_⟩
  rw [Builder.pop, hcontainers, List.tail_cons]

/-- A container that was opened is closed. -/
theorem leave_of_opens (hb : b.Ok g₀ outer) (h : b.Opens g₀ b' id rest) {b'' : Builder}
    (hgoes : b'.Goes g₀ b'' loose) : b.Goes g₀ b''.leave.2 loose := by
  obtain ⟨hok, hfollows, hcontainers⟩ :=
    hgoes.ok.leave (hgoes.containers.trans h.containers) hb.rooted.ne_nil
  exact ⟨hok, (h.follows.trans hgoes.follows).trans hfollows, hcontainers⟩

/-- Closing all containers. -/
theorem finish (h : b.Ok g₀ rest) : b.finish.Ok g₀ rest ∧ b.Follows b.finish := by
  have hall : ∀ n, ∀ b : Builder, b.Ok g₀ rest → (leaveAll n b).Ok g₀ rest ∧ b.Follows (leaveAll n b) := by
    intro n
    induction n with
    | zero => exact fun b h => ⟨h, .refl b⟩
    | succ n ih =>
      intro b h
      match hcontainers : b.containers with
      | [] => exact absurd hcontainers h.rooted.ne_nil
      | [_] =>
        rw [leaveAll_of_length_le (Nat.le_of_eq (congrArg List.length hcontainers))]
        exact ⟨h, .refl b⟩
      | c :: c' :: outer =>
        obtain ⟨hok, hfollows, -⟩ := h.leave hcontainers (List.cons_ne_nil c' outer)
        obtain ⟨hok', hfollows'⟩ := ih _ hok
        rw [leaveAll_succ]
        exact ⟨hok', hfollows.trans hfollows'⟩
  exact hall _ b h

/-! ## Declarations -/

/-- **Adding a constant** to an enumeration. -/
theorem addEnumConstant (h : b.Ok g₀ rest) (hcurrent : b.graph.tag? b.current = some .enum)
    (name : String) : b.Goes g₀ (b.addEnumConstant name).2 rest := by
  obtain ⟨hadded, hnode⟩ := h.addTyped _ { type := .parse b.currentName }
    (Graph.isNew_make name .enumConstant) trivial trivial (List.Perm.refl _)
  obtain ⟨entries, superTypes, hold⟩ := exists_enum_of_tag? (hadded.follows.tag? hcurrent)
  rw [← hadded.current] at hold
  refine hadded.trans (hadded.ok.take hadded.ok.rooted.current_mem hold ?_).1
  exact .constant (Graph.tag?_eq hnode)

/-- **Adding a field** to a record or to the unit. -/
theorem addField (h : b.Ok g₀ loose) (name : String) (type : Observation) (modifiers : List String)
    {initializer : Option NodeId} (hinit : b.graph.All Tag.isExpression initializer.toList)
    (before : loose.Perm (initializer.toList ++ rest)) :
    b.Goes g₀ (b.addField name type modifiers initializer).2 rest := by
  obtain ⟨hadded, hnode⟩ := h.addTyped _ type
    (Graph.isNew_make name (.field modifiers initializer)) trivial hinit before
  have htag : (b.addTyped (.make name (.field modifiers initializer)) type).2.graph.tag?
      b.graph.size = some .field := Graph.tag?_eq hnode
  change b.Goes g₀ ((b.addTyped _ _).2.attachField b.graph.size) rest
  rw [Builder.attachField, hadded.ok.expect_current]
  split
  · next hrecord =>
    obtain ⟨body, hbody⟩ := exists_record_of_inRecord hrecord
    refine hadded.trans (hadded.ok.take hadded.ok.rooted.current_mem hbody ?_).1
    exact .field htag
  · exact hadded.trans (hadded.ok.declareInUnit (.single htag rfl)).1

/-- **Adding a parameter** to a function without a body. -/
theorem addParameter (h : b.Ok g₀ rest) {kind : FunctionKind} {isStatic : Bool}
    {parameters : List NodeId}
    (hcurrent : b.graph.payload? b.current = some (.function kind isStatic parameters none))
    (name : String) (type : Observation) (variadic : Bool) :
    b.Goes g₀ (b.addParameter name type variadic).2 rest ∧
      (b.addParameter name type variadic).2.graph.payload? b.current =
        some (.function kind isStatic (parameters ++ [b.graph.size]) none) := by
  obtain ⟨hadded, hnode⟩ := h.addTyped _ type (Graph.isNew_make name (.parameter variadic)) trivial
    trivial (List.Perm.refl _)
  have hold : (b.addTyped (.make name (.parameter variadic)) type).2.graph.payload?
      (b.addTyped (.make name (.parameter variadic)) type).2.current =
        some (.function kind isStatic parameters none) := by
    have hlt := Graph.lt_size_of_tag? (Graph.tag?_of_payload? hcurrent)
    rw [hadded.current, ← hcurrent]
    exact Graph.payload?_addTyped_of_ne _ _ (Nat.ne_of_lt hlt)
  rw [← hadded.current]
  refine (hadded.ok.take hadded.ok.rooted.current_mem hold ?_).imp hadded.trans And.right
  exact .parameter (Graph.tag?_eq hnode)

/-! ## Statements -/

/-- **Adding a statement** to a block. -/
theorem addStatement (h : b.Ok g₀ (id :: rest)) (hcurrent : b.graph.tag? b.current = some .block)
    (hid : b.graph.All Tag.isStatement [id]) : b.Goes g₀ (b.addStatement id) rest := by
  obtain ⟨statements, hold⟩ := exists_block_of_tag? hcurrent
  refine (h.take h.rooted.current_mem hold ?_).1
  exact .statement hid

/-- **Declaring a variable** in a block or in the unit.

**Proof sketch.** The variable is added as a loose node. In a block, a statement that declares it is added on
top of it and hung up there, and otherwise it is hung up in the unit. -/
theorem declareVariable (h : b.Ok g₀ loose) (name : String) (type : Observation)
    {initializer : Option NodeId} (hinit : b.graph.All Tag.isExpression initializer.toList)
    (before : loose.Perm (initializer.toList ++ rest)) :
    b.Goes g₀ (b.declareVariable name type initializer).2 rest := by
  obtain ⟨hadded, hnode⟩ := h.addTyped _ type (Graph.isNew_make name (.var initializer)) trivial hinit
    before
  have htag : (b.addTyped (.make name (.var initializer)) type).2.graph.tag? b.graph.size =
      some .var := Graph.tag?_eq hnode
  generalize hb : (b.addTyped (.make name (.var initializer)) type).2 = b₁ at hadded hnode htag
  change b.Goes g₀ ((b.addTyped (.make name (.var initializer)) type).2.attachVariable b.graph.size) rest
  rw [hb, attachVariable, hadded.ok.expect_current]
  split
  · next hblock =>
    obtain ⟨payload, hpayload, hkind⟩ := (Option.any_eq_true _ _).mp hblock
    have hcurrent : b₁.graph.tag? b₁.current = some .block := by
      rw [Graph.tag?_of_payload? hpayload, beq_iff_eq.mp hkind]
    obtain ⟨hstatement, hstatementNode⟩ := hadded.ok.add
      (.make "" (.declarationStatement [b.graph.size])) ((Graph.isNew_make "" _).isFresh trivial)
      (.single htag rfl) (show List.Perm _ ([b.graph.size] ++ rest) from List.Perm.refl _)
    have hcurrent' := hstatement.follows.tag? hcurrent
    rw [← hstatement.current] at hcurrent'
    exact (hadded.trans hstatement).trans
      (hstatement.ok.addStatement hcurrent' (.single (Graph.tag?_eq hstatementNode) rfl))
  · exact hadded.trans (hadded.ok.declareInUnit (.single htag rfl)).1

/-- **Adding a return statement** to a block. -/
theorem addReturn (h : b.Ok g₀ loose) (hcurrent : b.graph.tag? b.current = some .block)
    {value : Option NodeId} (hvalue : b.graph.All Tag.isExpression value.toList)
    (before : loose.Perm (value.toList ++ rest)) : b.Goes g₀ (b.addReturn value).2 rest := by
  obtain ⟨hadded, hnode⟩ := h.add (.make "" (.returnStatement value))
    ((Graph.isNew_make "" _).isFresh trivial) hvalue before
  have hcurrent' := hadded.follows.tag? hcurrent
  rw [← hadded.current] at hcurrent'
  exact hadded.trans (hadded.ok.addStatement hcurrent' (.single (Graph.tag?_eq hnode) rfl))

/-! ## Expressions -/

/-- **A reference** is loose and means nothing. -/
theorem reference (h : b.Ok g₀ rest) (name : String) (type : Observation) (isStatic : Bool) :
    b.Goes g₀ (b.addTyped (.make name (.reference none isStatic)) type).2 (b.graph.size :: rest) ∧
      (b.addTyped (.make name (.reference none isStatic)) type).2.graph.tag? b.graph.size =
        some .reference ∧
      (b.addTyped (.make name (.reference none isStatic)) type).2.graph.name? b.graph.size =
        some name := by
  obtain ⟨hadded, hnode⟩ := h.addTyped _ type (Graph.isNew_make name (.reference none isStatic)) rfl
    (fun d hd => absurd hd (by simp)) (List.Perm.refl _)
  exact ⟨hadded, Graph.tag?_eq hnode, Graph.name?_eq hnode⟩

/-- **A member access** is made of its base and of a reference.

**Proof sketch.** The reference in the place of the member is made behind the base. Both are expressions and
of the right names, so the access may take both as parts. -/
theorem member (h : b.Ok g₀ (id :: rest)) (hid : b.graph.All Tag.isExpression [id]) (name : String)
    (type memberType : Observation) :
    b.Goes g₀ (b.member id name type memberType).2 ((b.member id name type memberType).1 :: rest) ∧
      (b.member id name type memberType).2.graph.tag? (b.member id name type memberType).1 =
        some .memberAccess := by
  obtain ⟨hstub, hstubTag, hstubName⟩ := h.reference name memberType false
  have hbase := hid.keep hstub.follows.graph.keeps
  have hparts : (b.reference name memberType).2.graph.partsOf
      (.memberAccess id (some b.graph.size)) = [id, b.graph.size] := by
    obtain ⟨tag, htag, hk⟩ := hbase id (List.mem_singleton.mpr rfl)
    refine List.filter_eq_self.mpr fun part hpart => ?_
    rcases List.mem_cons.mp hpart with rfl | hpart
    · exact (Option.any_eq_true _ _).mpr ⟨tag, htag, hk⟩
    · rw [List.mem_singleton.mp hpart]
      exact (Option.any_eq_true _ _).mpr ⟨.reference, hstubTag, rfl⟩
  obtain ⟨hadded, hnode⟩ := hstub.ok.addTyped _ type
    (Graph.isNew_make name (.memberAccess id (some b.graph.size))) ⟨_, rfl, hstubTag⟩
    ⟨hbase.imp fun tag hk => by simp [hk], fun m hm => by
      obtain rfl := Option.some.inj hm
      exact ⟨hstubName, Or.inl hstubTag⟩⟩ (by
      change List.Perm _ ((b.reference name memberType).2.graph.partsOf
        (.memberAccess id (some b.graph.size)) ++ rest)
      rw [hparts]
      exact List.Perm.swap ..)
  exact ⟨hstub.trans hadded, Graph.tag?_eq hnode⟩

/-- **A call** is made of its base and its arguments. -/
theorem call (h : b.Ok g₀ loose) (name : String) {base : Option NodeId} {arguments : List NodeId}
    (hparts : b.graph.All Tag.isExpression (base.toList ++ arguments)) (type : Observation)
    (before : loose.Perm (base.toList ++ arguments ++ rest)) :
    b.Goes g₀ (b.call name base arguments type).2 (b.graph.size :: rest) ∧
      (b.call name base arguments type).2.graph.tag? b.graph.size = some .call := by
  obtain ⟨hadded, hnode⟩ := h.addTyped _ type (Graph.isNew_make name (.call base arguments)) trivial
    hparts before
  exact ⟨hadded, Graph.tag?_eq hnode⟩

/-- **A literal** is loose. -/
theorem literal (h : b.Ok g₀ rest) (value : String) (type : Observation) :
    b.Goes g₀ (b.literal value type).2 (b.graph.size :: rest) ∧
      (b.literal value type).2.graph.tag? b.graph.size = some .literal := by
  obtain ⟨hadded, hnode⟩ := h.addTyped { Node.make value (.literal value) with code := some value }
    type ⟨rfl, (Graph.isNew_make value (.literal value)).belief,
      (Graph.isNew_make value (.literal value)).typed⟩ trivial trivial
    (show List.Perm _ ([] ++ rest) from List.Perm.refl _)
  exact ⟨hadded, Graph.tag?_eq hnode⟩

/-- Noting the line of a loose node. -/
theorem atLine (h : b.Ok g₀ (id :: rest)) (line : Option Nat) :
    b.Goes g₀ (b.atLine id line) (id :: rest) := by
  have hle := h.graph.loose_le id List.mem_cons_self
  have hlt := h.graph.wellFormed.tree.root_lt id (List.mem_append_right _ List.mem_cons_self)
  cases line with
  | none => exact .refl h
  | some n =>
    have hsame : b.graph.SameTree (b.graph.modify id fun node => { node with line := some n }) :=
      Graph.sameTree_modify hlt fun _ => rfl
    refine h.goes (.of_sameTree hsame rfl) (h.graph.of_sameTree hsame (fun other => ?_)
      (fun other hother => ?_) ?_)
    · exact b.graph.belief?_modify id other fun _ => rfl
    · rw [Graph.node?_modify, if_neg (Nat.ne_of_gt (Nat.lt_of_lt_of_le hother hle))]
    · rfl

end Ok

end ProgramGraph.Builder
