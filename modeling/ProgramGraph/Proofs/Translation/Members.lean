import Mathlib.Data.List.Intervals
import ProgramGraph.Proofs.Building.Stack
import ProgramGraph.Proofs.Translation.Documents

set_option autoImplicit false

/-!
# Members of a unit under construction

A builder shows more and more trees. Some of them are hung up in the container that is open or in the
unit, and nothing else happens to the nodes that were there before.

## Main definitions

* `ProgramGraph.Payload.take` — a container takes a node up, by the role that the node has.
* `ProgramGraph.Builder.hang` — a node is hung up.
* `ProgramGraph.Builder.Builds` — a builder goes on to show some members, and hangs some up.

## Main results

* `ProgramGraph.Builder.Builds.trans` — one step after the other.
* `ProgramGraph.Builder.Builds.add` — members become the parts of a new one.
* `ProgramGraph.Builder.Builds.hang` — a member is hung up.
* `ProgramGraph.Builder.Builds.close` — a container is opened, filled and closed.

## Design

What happens to the old nodes is said by the list of members that are hung up, since only the unit and
the open container take up anything, each in the order of the list. So one step after the other is one
list behind the other, and no step has to say what it leaves alone.
-/

namespace ProgramGraph

/-! ## Taking up -/

/-- A record takes a node up. -/
def RecordBody.take (role : Role) (id : NodeId) (body : RecordBody) : RecordBody :=
  match role with
  | .field => { body with fields := body.fields ++ [id] }
  | .method => { body with methods := body.methods ++ [id] }
  | .constructor => { body with constructors := body.constructors ++ [id] }
  | .nominal => { body with records := body.records ++ [id] }
  | _ => body

namespace Payload

/-- A container takes a node up, if it holds nodes of this role. -/
def take (role : Role) (id : NodeId) : Payload → Payload
  | .unit declarations => .unit (if role.isDeclared then declarations ++ [id] else declarations)
  | .record body => .record (body.take role id)
  | .enum entries superTypes => .enum (if role = .constant then entries ++ [id] else entries) superTypes
  | .function kind isStatic parameters body =>
    .function kind isStatic (if role = .parameter then parameters ++ [id] else parameters)
      (if role = .block then some (body.getD id) else body)
  | .block statements => .block (if role.isStatement then statements ++ [id] else statements)
  | other => other

/-- A container takes members up, one after the other. -/
def takes (payload : Payload) (ms : List Member) : Payload :=
  ms.foldl (fun payload m => payload.take m.tree.role m.id) payload

variable {ms ms' : List Member}

/-- Members are taken up one list after the other. -/
theorem takes_append (payload : Payload) :
    payload.takes (ms ++ ms') = (payload.takes ms).takes ms' := List.foldl_append

/-- A container stays what it is. -/
theorem tag_take (role : Role) (id : NodeId) (payload : Payload) :
    (payload.take role id).tag = payload.tag := by
  cases payload <;> rfl

/-- A container stays what it is. -/
theorem tag_takes (payload : Payload) (ms : List Member) : (payload.takes ms).tag = payload.tag := by
  induction ms generalizing payload with
  | nil => rfl
  | cons m ms ih => exact (ih _).trans (tag_take ..)

/-- A container that appends each of some members to one list. -/
theorem takes_of_take {f : List NodeId → Payload}
    (h : ∀ m ∈ ms, ∀ ids, (f ids).take m.tree.role m.id = f (ids ++ [m.id])) (ids : List NodeId) :
    (f ids).takes ms = f (ids ++ ms.map Member.id) := by
  induction ms generalizing ids with
  | nil => exact congrArg f (List.append_nil _).symm
  | cons m ms ih =>
    have hrest := ih (fun other hother => h other (List.mem_cons_of_mem _ hother)) (ids ++ [m.id])
    rw [takes, List.foldl_cons, h m List.mem_cons_self ids]
    refine hrest.trans (congrArg f ?_)
    rw [List.append_assoc]
    rfl

/-- A function takes parameters up, and perhaps a body. -/
theorem takes_function {body : Option Member} (hms : ∀ m ∈ ms, m.tree.role = .parameter)
    (hbody : ∀ m ∈ body, m.tree.role = .block) (kind : FunctionKind) (isStatic : Bool) :
    (Payload.function kind isStatic [] none).takes (ms ++ body.toList) =
      .function kind isStatic (ms.map Member.id) (body.map Member.id) := by
  have hparameters : (Payload.function kind isStatic [] none).takes ms =
      .function kind isStatic (ms.map Member.id) none :=
    takes_of_take (f := fun ids => .function kind isStatic ids none)
      (fun m hm ids => by rw [hms m hm]; rfl) []
  rw [takes_append, hparameters]
  cases body with
  | none => rfl
  | some m =>
    change (Payload.function kind isStatic (ms.map Member.id) none).take m.tree.role m.id = _
    rw [hbody m rfl]
    rfl

end Payload

/-- The members of one role, in order. -/
def Member.ofRole (role : Role) (ms : List Member) : List Member :=
  ms.filter fun m => m.tree.role == role

/-- A record takes members up, each sort apart. -/
theorem Payload.takes_record (body : RecordBody) (ms : List Member) :
    (Payload.record body).takes ms = .record
      { body with
        fields := body.fields ++ (Member.ofRole .field ms).map Member.id
        methods := body.methods ++ (Member.ofRole .method ms).map Member.id
        constructors := body.constructors ++ (Member.ofRole .constructor ms).map Member.id
        records := body.records ++ (Member.ofRole .nominal ms).map Member.id } := by
  induction ms generalizing body with
  | nil => simp [takes, Member.ofRole]
  | cons m ms ih =>
    rw [takes, List.foldl_cons, ← takes, take, ih]
    cases hrole : m.tree.role <;> simp [RecordBody.take, Member.ofRole, hrole]

/-- The members that do not go to the unit, in order. -/
def Member.inner (ms : List Member) : List Member :=
  ms.filter fun m => m.tree.role != .variable

/-- Some members go to the unit, and the others do not. -/
theorem Member.inner_append_perm (ms : List Member) :
    (Member.inner ms ++ Member.ofRole .variable ms).Perm ms :=
  List.perm_append_comm.trans (List.filter_append_perm (fun m : Member => m.tree.role == .variable) ms)

/-- Where there is no variable, nothing goes to the unit. -/
theorem Member.inner_eq {ms : List Member} (h : ∀ m ∈ ms, m.tree.role ≠ .variable) : Member.inner ms = ms :=
  List.filter_eq_self.mpr fun m hm => bne_iff_ne.mpr (h m hm)

/-- If no member has a role, there are none of that role. -/
theorem Member.ofRole_eq_nil {role : Role} {ms : List Member} (h : ∀ m ∈ ms, m.tree.role ≠ role) :
    Member.ofRole role ms = [] :=
  List.filter_eq_nil_iff.mpr fun m hm heq => h m hm (beq_iff_eq.mp heq)

/-- What does not go to the unit has its role. -/
theorem Member.ofRole_inner {role : Role} (h : role ≠ .variable) (ms : List Member) :
    Member.ofRole role (Member.inner ms) = Member.ofRole role ms := by
  unfold Member.ofRole Member.inner
  rw [List.filter_filter]
  refine List.filter_congr fun m _ => ?_
  by_cases hrole : m.tree.role = role
  · rw [hrole, beq_self_eq_true, bne_iff_ne.mpr h, Bool.and_true]
  · rw [beq_eq_false_iff_ne.mpr hrole, Bool.false_and]

/-- **A record** takes those members up that do not go to the unit. -/
theorem Payload.takes_inner (body : RecordBody) (ms : List Member) :
    (Payload.record body).takes (Member.inner ms) = .record
      { body with
        fields := body.fields ++ (Member.ofRole .field ms).map Member.id
        methods := body.methods ++ (Member.ofRole .method ms).map Member.id
        constructors := body.constructors ++ (Member.ofRole .constructor ms).map Member.id
        records := body.records ++ (Member.ofRole .nominal ms).map Member.id } := by
  rw [takes_record, Member.ofRole_inner (by decide), Member.ofRole_inner (by decide),
    Member.ofRole_inner (by decide), Member.ofRole_inner (by decide)]

/-- Members of different roles, one role after the other. -/
theorem Member.flatMap_ofRole_perm {roles : List Role} (h : roles.Nodup) (ms : List Member) :
    (roles.flatMap fun role => Member.ofRole role ms).Perm (ms.filter fun m => m.tree.role ∈ roles) := by
  induction roles with
  | nil =>
    rw [List.filter_eq_nil_iff.mpr fun m _ => by simp]
    exact List.Perm.refl _
  | cons role roles ih =>
    obtain ⟨hnew, hnodup⟩ := List.nodup_cons.mp h
    have hfirst : (ms.filter fun m => m.tree.role ∈ role :: roles).filter (fun m => m.tree.role == role) =
        Member.ofRole role ms := by
      rw [List.filter_filter]
      exact List.filter_congr fun m _ => by by_cases hm : m.tree.role = role <;> simp [hm]
    have hothers : (ms.filter fun m => m.tree.role ∈ role :: roles).filter (fun m => !m.tree.role == role) =
        ms.filter fun m => m.tree.role ∈ roles := by
      rw [List.filter_filter]
      exact List.filter_congr fun m _ => by by_cases hm : m.tree.role = role <;> simp [hm, hnew]
    have hsplit := List.filter_append_perm (fun m : Member => m.tree.role == role)
      (ms.filter fun m => m.tree.role ∈ role :: roles)
    rw [hfirst, hothers] at hsplit
    exact ((ih hnodup).append_left _).trans hsplit

/-- Declarations that do not go to the unit, each sort apart. -/
theorem Member.sorted_perm {ms : List Member} (h : ∀ m ∈ ms, m.tree.role.isDeclared = true) :
    (Member.ofRole .field ms ++ Member.ofRole .method ms ++ Member.ofRole .constructor ms ++
      Member.ofRole .nominal ms).Perm (Member.inner ms) := by
  have hsorted := Member.flatMap_ofRole_perm
    (show [Role.field, .method, .constructor, .nominal].Nodup by decide) ms
  have hinner : Member.inner ms =
      ms.filter fun m => m.tree.role ∈ [Role.field, .method, .constructor, .nominal] := by
    refine List.filter_congr fun m hm => ?_
    have hdeclared := h m hm
    cases hrole : m.tree.role <;> rw [hrole] at hdeclared <;> first | rfl | cases hdeclared
  rw [hinner]
  simpa only [List.flatMap_cons, List.flatMap_nil, List.append_nil, List.append_assoc] using hsorted

/-- The trees of members of one role. -/
theorem Member.ofRole_tree (role : Role) (ms : List Member) :
    SyntaxTree.ofRole role (ms.map Member.tree) = (Member.ofRole role ms).map Member.tree :=
  List.filter_map

/-- A node takes members up. -/
def Node.takes (node : Node) (ms : List Member) : Node :=
  { node with payload := node.payload.takes ms }

namespace Builder

variable {b b' b'' : Builder} {hung hung' made made' ms : List Member} {id : NodeId} {role : Role}

/-- Where a node is hung up: variables in the unit, all others in the innermost open container. -/
def host (b : Builder) (role : Role) : NodeId := if role = .variable then b.unit else b.current

/-- Hangs a node up. -/
def hang (b : Builder) (role : Role) (id : NodeId) : Builder :=
  { b with graph := b.graph.modifyPayload (b.host role) (Payload.take role id) }

/-- The members that are hung up in one container. -/
def share (b : Builder) (container : NodeId) (ms : List Member) : List Member :=
  ms.filter fun m => b.host m.tree.role == container

/-- The open containers are there, and the unit is at the bottom of the stack. -/
structure Founded (b : Builder) : Prop where
  /-- The unit is at the bottom. -/
  rooted : b.Rooted
  /-- The open containers are there. -/
  lt : ∀ c ∈ b.containers, c < b.graph.size

/-- A builder goes on: it shows members that are made of exactly the new nodes, and the old nodes
differ only in that some members are hung up. -/
structure Builds (b b' : Builder) (hung made : List Member) : Prop where
  /-- The unit stays. -/
  unit : b'.unit = b.unit
  /-- The same containers are open. -/
  containers : b'.containers = b.containers
  /-- No node is removed. -/
  size : b.graph.size ≤ b'.graph.size
  /-- The old nodes take the members up that are hung up. -/
  old : ∀ id < b.graph.size,
    b'.graph.node? id = (b.graph.node? id).map fun node => node.takes (b.share id hung)
  /-- The members are shown, and consist of the new nodes. -/
  shows : ∃ all, b'.graph.Shows made all ∧ all.Perm (List.Ico b.graph.size b'.graph.size)

/-! ## Adding -/

/-- A new node is there. -/
theorem node?_add_self (b : Builder) (node : Node) :
    (b.add node).2.graph.node? b.graph.size = some node :=
  (Graph.node?_add ..).trans (if_pos rfl)

/-- Old nodes are left alone. -/
theorem node?_add_of_lt (b : Builder) (node : Node) (hlt : id < b.graph.size) :
    (b.add node).2.graph.node? id = b.graph.node? id :=
  (Graph.node?_add ..).trans (if_neg (Nat.ne_of_lt hlt))

/-! ## Hosts -/

/-- Hosts depend on the unit and the open containers. -/
theorem host_congr (hunit : b'.unit = b.unit) (hcontainers : b'.containers = b.containers) (role : Role) :
    b'.host role = b.host role := by
  rw [host, host, current, current, hunit, hcontainers]

/-- The unit is there. -/
theorem Founded.unit_lt (h : b.Founded) : b.unit < b.graph.size := h.lt _ h.rooted.unit_mem

/-- The innermost container is there. -/
theorem Founded.current_lt (h : b.Founded) : b.current < b.graph.size := h.lt _ h.rooted.current_mem

/-- Hosts are there. -/
theorem Founded.host_lt (h : b.Founded) (role : Role) : b.host role < b.graph.size := by
  unfold host
  split
  · exact h.unit_lt
  · exact h.current_lt

/-- A new node is no host. -/
theorem Founded.share_eq_nil (h : b.Founded) (hid : b.graph.size ≤ id) (ms : List Member) :
    b.share id ms = [] := by
  refine List.filter_eq_nil_iff.mpr fun m _ => ?_
  rw [beq_iff_eq]
  exact Nat.ne_of_lt (Nat.lt_of_lt_of_le (h.host_lt _) hid)

/-- The shares of a container in two lists. -/
theorem share_append (b : Builder) (id : NodeId) :
    b.share id (ms ++ hung) = b.share id ms ++ b.share id hung := List.filter_append ..

/-- Where nothing is taken up, nothing changes. -/
theorem map_takes_nil (node : Option Node) : node.map (fun node => node.takes []) = node := by
  cases node <;> rfl

/-- Members are taken up one after the other. -/
theorem map_takes_append (node : Option Node) (ms ms' : List Member) :
    (node.map fun node => node.takes ms).map (fun node => node.takes ms') =
      node.map fun node => node.takes (ms ++ ms') := by
  simp only [Option.map_map, Function.comp_def, Node.takes, Payload.takes_append]

/-- What is seen after a node is hung up. -/
theorem node?_hang (b : Builder) (m : Member) (hrole : m.tree.role = role) (id : NodeId) :
    (b.hang role m.id).graph.node? id =
      (b.graph.node? id).map fun node => node.takes (b.share id [m]) := by
  subst hrole
  unfold hang Graph.modifyPayload share
  rw [Graph.node?_modify]
  by_cases hhost : b.host m.tree.role = id
  · rw [if_pos hhost, List.filter_cons_of_pos (by rw [hhost, beq_self_eq_true])]
    rfl
  · rw [if_neg hhost, List.filter_cons_of_neg (by rwa [beq_iff_eq])]
    exact (map_takes_nil _).symm

/-- Hanging a node up makes none. -/
theorem size_hang (b : Builder) (role : Role) (id : NodeId) :
    (b.hang role id).graph.size = b.graph.size := Graph.size_modify ..

namespace Builds

/-- The unit and the open containers stay there. -/
theorem founded (h : b.Builds b' hung made) (hb : b.Founded) : b'.Founded := by
  refine ⟨?_, fun c hc => ?_⟩
  · rw [Rooted, h.unit, h.containers]
    exact hb.rooted
  · rw [h.containers] at hc
    exact Nat.lt_of_lt_of_le (hb.lt c hc) h.size

/-- What goes to a container does not depend on what was built meanwhile. -/
theorem share_eq (h : b.Builds b' hung made) (id : NodeId) (ms : List Member) :
    b'.share id ms = b.share id ms := by
  simp only [share, host_congr h.unit h.containers]

/-- Nothing happens. -/
theorem refl (b : Builder) : b.Builds b [] [] :=
  ⟨rfl, rfl, Nat.le_refl _, fun _ _ => (map_takes_nil _).symm, [], .nil, by rw [List.Ico.self_empty]⟩

/-- **One step after the other.** -/
theorem trans (hb : b.Founded) (h : b.Builds b' hung made) (h' : b'.Builds b'' hung' made') :
    b.Builds b'' (hung ++ hung') (made ++ made') := by
  obtain ⟨all, hall, hperm⟩ := h.shows
  obtain ⟨all', hall', hperm'⟩ := h'.shows
  refine ⟨h'.unit.trans h.unit, h'.containers.trans h.containers, Nat.le_trans h.size h'.size,
    fun id hid => ?_, all ++ all', ?_, ?_⟩
  · rw [h'.old id (Nat.lt_of_lt_of_le hid h.size), h.old id hid, map_takes_append, share_append, h.share_eq]
  · refine (hall.stays fun id hid => ?_).append hall'
    obtain ⟨hge, hlt⟩ := List.Ico.mem.mp (hperm.mem_iff.mp hid)
    rw [h'.old id hlt, h.share_eq, hb.share_eq_nil hge, map_takes_nil]
  · exact (hperm.append hperm').trans (List.Perm.of_eq (List.Ico.append_consecutive h.size h'.size))

/-- **Making a member** of those that were made. -/
theorem add (h : b.Builds b' hung made) (node : Node) (links : node.payload.links = made.map Member.id)
    (kinds : node.tag = .memberAccess → ∀ m ∈ made, m.tree.label.shape.isExpression = true) :
    b.Builds (b'.add node).2 hung [⟨b'.graph.size, .node node.label (made.map Member.tree)⟩] := by
  obtain ⟨all, hall, hperm⟩ := h.shows
  have hsize : (b'.add node).2.graph.size = b'.graph.size + 1 := Graph.size_add ..
  refine ⟨h.unit, h.containers, Nat.le_trans h.size (by omega), fun id hid => ?_, b'.graph.size :: all,
    .single (b'.node?_add_self node) rfl links kinds (hall.stays fun id hid => ?_), ?_⟩
  · rw [b'.node?_add_of_lt node (Nat.lt_of_lt_of_le hid h.size), h.old id hid]
  · exact b'.node?_add_of_lt node (List.Ico.mem.mp (hperm.mem_iff.mp hid)).2
  · rw [hsize, List.Ico.succ_top h.size]
    exact (hperm.cons _).trans (List.perm_append_singleton ..).symm

/-- **Hanging a member up.** -/
theorem hang (hb : b.Founded) (h : b.Builds b' hung made) {m : Member} (hrole : m.tree.role = role) :
    b.Builds (b'.hang role m.id) (hung ++ [m]) made := by
  obtain ⟨all, hall, hperm⟩ := h.shows
  refine ⟨h.unit, h.containers, ?_, fun id hid => ?_, all, hall.stays fun id hid => ?_, ?_⟩
  · rw [size_hang]
    exact h.size
  · rw [node?_hang _ m hrole, h.old id hid, map_takes_append, share_append, h.share_eq]
  · have hge := (List.Ico.mem.mp (hperm.mem_iff.mp hid)).1
    rw [node?_hang _ m hrole, h.share_eq, hb.share_eq_nil hge, map_takes_nil]
  · rwa [size_hang]

/-- **Hanging up** the one member that was made. -/
theorem put (hb : b.Founded) {m : Member} (h : b.Builds b' [] [m]) (role : Role)
    (hrole : m.tree.role = role) : b.Builds (b'.hang role m.id) [m] [m] := h.hang hb hrole

end Builds

/-! ## Containers -/

/-- Makes a container, hangs it up and opens it. -/
def enter (b : Builder) (node : Node) : Builder :=
  ((b.add node).2.hang node.payload.shape.role b.graph.size).push b.graph.size

section Enter

variable (b) (node : Node)

/-- The container is there, like the others. -/
theorem Founded.enter (hb : b.Founded) : (b.enter node).Founded := by
  have hrooted : ((b.add node).2.hang node.payload.shape.role b.graph.size).Rooted := hb.rooted
  refine ⟨hrooted.push _, fun c hc => ?_⟩
  refine Nat.lt_of_lt_of_eq ?_ ((size_hang ..).trans (Graph.size_add ..)).symm
  rcases List.mem_cons.mp hc with rfl | hc
  · exact Nat.lt_succ_self _
  · exact Nat.lt_succ_of_lt (hb.lt c hc)

/-- Opening a container makes one node. -/
theorem size_enter : (b.enter node).graph.size = b.graph.size + 1 :=
  (size_hang ..).trans (Graph.size_add ..)

/-- The container is there, and empty so far. -/
theorem node?_enter_self (hb : b.Founded) : (b.enter node).graph.node? b.graph.size = some node := by
  have hhost : (b.add node).2.host node.payload.shape.role ≠ b.graph.size :=
    Nat.ne_of_lt (hb.host_lt node.payload.shape.role)
  exact (Graph.node?_modify ..).trans ((if_neg hhost).trans (b.node?_add_self node))

/-- The container is hung up. -/
theorem node?_enter_of_lt {m : Member} (hid : m.id = b.graph.size)
    (hrole : m.tree.role = node.payload.shape.role) {id : NodeId} (hlt : id < b.graph.size) :
    (b.enter node).graph.node? id = (b.graph.node? id).map fun node => node.takes (b.share id [m]) := by
  have hhung := (b.add node).2.node?_hang m hrole id
  rw [hid, b.node?_add_of_lt node hlt] at hhung
  exact hhung

/-- In the container are the members that do not go to the unit. -/
theorem share_enter_self (hb : b.Founded) (ms : List Member) :
    (b.enter node).share b.graph.size ms = Member.inner ms := by
  have hunit : b.unit ≠ b.graph.size := Nat.ne_of_lt hb.unit_lt
  refine List.filter_congr fun m _ => ?_
  by_cases hrole : m.tree.role = .variable
  · have hhost : (b.enter node).host m.tree.role = b.unit := if_pos hrole
    rw [hhost, hrole, beq_eq_false_iff_ne.mpr hunit]
    rfl
  · have hhost : (b.enter node).host m.tree.role = b.graph.size := if_neg hrole
    rw [hhost, beq_self_eq_true, bne_iff_ne.mpr hrole]

/-- Outside are the others. -/
theorem share_enter_of_ne {id : NodeId} (hid : id ≠ b.graph.size) (ms : List Member) :
    (b.enter node).share id ms = b.share id (Member.ofRole .variable ms) := by
  unfold share Member.ofRole
  rw [List.filter_filter]
  refine List.filter_congr fun m _ => ?_
  by_cases hrole : m.tree.role = .variable
  · have hhost : (b.enter node).host m.tree.role = b.host m.tree.role := by
      rw [host, host, if_pos hrole, if_pos hrole]
      rfl
    rw [hhost, beq_iff_eq.mpr hrole, Bool.and_true]
  · have hhost : (b.enter node).host m.tree.role = b.graph.size := if_neg hrole
    rw [hhost, beq_eq_false_iff_ne.mpr hrole, Bool.and_false, beq_eq_false_iff_ne.mpr (Ne.symm hid)]

end Enter

/-- The role of a container stays. -/
theorem role_takes (payload : Payload) (ms : List Member) :
    (payload.takes ms).shape.role = payload.shape.role := by
  induction ms generalizing payload with
  | nil => rfl
  | cons m ms ih =>
    refine (ih _).trans ?_
    cases payload <;> rfl

/-- What is seen of a container that is filled. -/
theorem Builds.node?_enter {node : Node} (hin : (b.enter node).Builds b' made made) (hb : b.Founded) :
    b'.graph.node? b.graph.size = some (node.takes (Member.inner made)) := by
  have hlt : b.graph.size < (b.enter node).graph.size := by
    rw [size_enter]
    exact Nat.lt_succ_self _
  rw [hin.old _ hlt, node?_enter_self b node hb, share_enter_self b node hb]
  rfl

/-- What is seen, after a container is filled, of the nodes that were there before it: their hosts took
up the container and the variables in it. -/
theorem Builds.node?_enter_of_lt {node : Node} (hin : (b.enter node).Builds b' made made) {m : Member}
    (hid : m.id = b.graph.size) (hrole : m.tree.role = node.payload.shape.role) (hlt : id < b.graph.size) :
    b'.graph.node? id =
      (b.graph.node? id).map fun node => node.takes (b.share id (m :: Member.ofRole .variable made)) := by
  have hlt' : id < (b.enter node).graph.size := by
    rw [size_enter]
    exact Nat.lt_succ_of_lt hlt
  rw [hin.old id hlt', Builder.node?_enter_of_lt b node hid hrole hlt, map_takes_append,
    share_enter_of_ne b node (Nat.ne_of_lt hlt), ← share_append]
  rfl

/-- **Filling a container.** It was made of some members, and is opened, filled and closed; variables
that are made in it go to the unit.

**Proof sketch.** Below the container are the parts that were there before and what was put into it, which is
known to have the numbers between that of the container and the present size. The payload of the container
lists them in the order of their roles; permuting the lists accordingly gives its tree, and appending the
intervals gives its range. -/
theorem Builds.close {b₀ b₁ : Builder} {parts : List Member} {node : Node} (hb : b.Founded)
    (h : b.Builds b₀ [] parts) (hin : (b₀.enter node).Builds b₁ made made)
    (hnode : node.tag ≠ .memberAccess) (ms : List Member) (hperm : ms.Perm (parts ++ Member.inner made))
    (links : (node.payload.takes (Member.inner made)).links = ms.map Member.id) :
    b.Builds b₁.pop
      (⟨b₀.graph.size, .node (node.takes (Member.inner made)).label (ms.map Member.tree)⟩ ::
        Member.ofRole .variable made)
      (⟨b₀.graph.size, .node (node.takes (Member.inner made)).label (ms.map Member.tree)⟩ ::
        Member.ofRole .variable made) := by
  generalize hm : Member.mk b₀.graph.size
    (.node (node.takes (Member.inner made)).label (ms.map Member.tree)) = m
  have hid : m.id = b₀.graph.size := hm ▸ rfl
  have hrole : m.tree.role = node.payload.shape.role := by
    rw [← hm]
    exact role_takes node.payload (Member.inner made)
  have hcontainers : b₁.pop.containers = b.containers := by
    rw [pop, hin.containers]
    exact h.containers
  have hsize := size_enter b₀ node
  have hgrows : b₀.graph.size < b₁.graph.size := by
    have hle := hin.size
    omega
  have hold : ∀ id < b₀.graph.size, b₁.graph.node? id =
      (b₀.graph.node? id).map fun node => node.takes (b₀.share id (m :: Member.ofRole .variable made)) :=
    fun id hlt => hin.node?_enter_of_lt hid hrole hlt
  have hself : b₁.graph.node? m.id = some (node.takes (Member.inner made)) :=
    hid ▸ hin.node?_enter (h.founded hb)
  obtain ⟨below, hbelow, hrange⟩ := h.shows
  obtain ⟨inside, hinside, hrange'⟩ := hin.shows
  have hparts : b₁.graph.Shows parts below := hbelow.stays fun id hid => by
    obtain ⟨hge, hlt⟩ := List.Ico.mem.mp (hrange.mem_iff.mp hid)
    rw [hold id hlt, h.share_eq, hb.share_eq_nil hge, map_takes_nil]
  -- The parts of the container and the variables, in the order in which they are shown.
  have hsorted : (parts ++ made).Perm (ms ++ Member.ofRole .variable made) := by
    refine ((Member.inner_append_perm made).symm.append_left parts).trans ?_
    rw [← List.append_assoc]
    exact hperm.symm.append_right _
  obtain ⟨all, hall, hpermAll⟩ := (hparts.append hinside).perm hsorted
  obtain ⟨before, after, rfl, hbefore, hafter⟩ := Graph.Shows.append_iff.mp hall
  refine ⟨hin.unit.trans h.unit, hcontainers, Nat.le_trans h.size (Nat.le_of_lt hgrows),
    fun id hlt => ?_, m.id :: (before ++ after), ?_, ?_⟩
  · exact (hold id (Nat.lt_of_lt_of_le hlt h.size)).trans (by
      rw [h.old id hlt, h.share_eq, Option.map_map]
      rfl)
  · refine .cons hself (hm ▸ rfl) links (fun htag => absurd ?_ hnode) hbefore hafter
    exact (Payload.tag_takes ..).symm.trans htag
  · rw [hid]
    refine (hpermAll.symm.cons _).trans ((List.perm_middle.symm.trans
      ((hrange.append (hrange'.cons _)))).trans (List.Perm.of_eq ?_))
    rw [hsize, ← List.Ico.eq_cons hgrows]
    exact List.Ico.append_consecutive h.size (Nat.le_of_lt hgrows)

end Builder

end ProgramGraph
