import ProgramGraph.Proofs.Reading.Expressions

set_option autoImplicit false

/-!
# Decoding statements and declarations

Statements and declarations are decoded from the values they are encoded as. Expressions in them are
decoded as deep as a text may be nested, statements and declarations as deep as they are told; the value
has to keep within both.

## Main definitions

* `ProgramGraph.Document.Declaration.LinesFit` — the line numbers in a declaration fit 32 bits.

## Main results

* `ProgramGraph.Document.Statement.decode_encode` — a statement is decoded from its value.
* `ProgramGraph.Document.Declaration.decode_encode` — a declaration is decoded from its value.
* `ProgramGraph.Document.Declaration.isExact_encode` — the numbers in its value fit.
-/

namespace ProgramGraph.Document

open Json (Value Shape maxDepth)
open Json.Value (asText asOption asList asText_text asBool_bool asText_ofText? asList_map asOption_ok)

/-! ## Line numbers -/

mutual

/-- The line numbers in a statement fit 32 bits. -/
def Statement.LinesFit : Statement → Prop
  | .declare _ _ initializer => Expression.OptionLinesFit initializer
  | .returned value => Expression.OptionLinesFit value
  | .expression e => e.LinesFit
  | .block statements => Statement.ListLinesFit statements

/-- The line numbers in statements fit 32 bits. -/
def Statement.ListLinesFit : List Statement → Prop
  | [] => True
  | s :: rest => s.LinesFit ∧ Statement.ListLinesFit rest

end

/-- The line numbers in a function body that may be missing fit 32 bits. -/
def BodyLinesFit : Option (List Statement) → Prop
  | none => True
  | some statements => Statement.ListLinesFit statements

mutual

/-- The line numbers in a declaration fit 32 bits. -/
def Declaration.LinesFit : Declaration → Prop
  | .record _ _ _ members => Declaration.ListLinesFit members
  | .enum _ _ _ => True
  | .field _ _ _ initializer => Expression.OptionLinesFit initializer
  | .function _ _ _ _ _ body => BodyLinesFit body
  | .var _ _ initializer => Expression.OptionLinesFit initializer

/-- The line numbers in declarations fit 32 bits. -/
def Declaration.ListLinesFit : List Declaration → Prop
  | [] => True
  | d :: rest => d.LinesFit ∧ Declaration.ListLinesFit rest

end

/-! ## Statements -/

variable {n : Nat}

/-- An expression that may be left out is read back. -/
theorem asExpression_encodeOption {e : Option Expression} (fits : Expression.OptionLinesFit e)
    (deep : (Expression.encodeOption e).depth ≤ maxDepth) :
    asOption asExpression (Expression.encodeOption e) = .ok e :=
  Expression.decode_encodeOption e maxDepth fits deep

/-- An object with a known kind is decoded by the shape of this kind. -/
theorem Statement.decode_object {kind : String} {ms : List (String × Value)}
    (known : kind ∈ Statement.kinds.names) (untagged : ∀ m ∈ ms, m.1 ≠ "kind") :
    Statement.decode (n + 1) (.object (("kind", .text kind) :: ms))
      = Statement.ofParts (Statement.decode n) kind (.named ms) := by
  have split : Statement.kinds.split (.object (("kind", .text kind) :: ms)) = .ok (kind, .named ms) :=
    Json.Alternatives.split_object known untagged
  rw [Statement.decode, split]
  rfl

/-- Statements are written one by one. -/
theorem Statement.encodeList_eq_map (ss : List Statement) :
    Statement.encodeList ss = ss.map Statement.encode := by
  induction ss with
  | nil => rfl
  | cons s ss ih => rw [Statement.encodeList, ih, List.map_cons]

mutual

/-- A statement is decoded from its value as deep as this is nested.

**Proof sketch.** By recursion over the statement. The shape of each kind reads the parts of the value one
after the other, and each of them was written from a part that is read back: texts at once, expressions and
nested statements by what is known of them, with one level less to go. -/
theorem Statement.decode_encode : ∀ (s : Statement) (n : Nat), s.LinesFit → s.encode.depth ≤ n →
    n ≤ maxDepth + 1 → Statement.decode n s.encode = .ok s
  | .declare name type initializer => by
    intro n fits within limit
    obtain ⟨n, rfl, deep⟩ := Value.exists_of_depth_object_le within
    simp only [Value.membersDepth, Value.depth] at deep
    rw [Statement.encode, Statement.decode_object (by simp [Statement.kinds]) (by simp)]
    exact Shape.Reads.decode _ <| Shape.Reads.pure Statement.declare (by simp)
      |>.extend (by simp) (asText_text name)
      |>.extend (by simp) (asText_ofText? type)
      |>.extend (by simp) (asExpression_encodeOption fits (by omega))
  | .returned value => by
    intro n fits within limit
    obtain ⟨n, rfl, deep⟩ := Value.exists_of_depth_object_le within
    simp only [Value.membersDepth, Value.depth] at deep
    rw [Statement.encode, Statement.decode_object (by simp [Statement.kinds]) (by simp)]
    exact Shape.Reads.decode _ <| Shape.Reads.pure Statement.returned (by simp)
      |>.extend (by simp) (asExpression_encodeOption fits (by omega))
  | .expression e => by
    intro n fits within limit
    obtain ⟨n, rfl, deep⟩ := Value.exists_of_depth_object_le within
    simp only [Value.membersDepth, Value.depth] at deep
    rw [Statement.encode, Statement.decode_object (by simp [Statement.kinds]) (by simp)]
    exact Shape.Reads.decode _ <| Shape.Reads.pure Statement.expression (by simp)
      |>.extend (by simp) (Expression.decode_encode e maxDepth fits (by omega))
  | .block statements => by
    intro n fits within limit
    obtain ⟨n, rfl, deep⟩ := Value.exists_of_depth_object_le within
    simp only [Value.membersDepth, Value.depth] at deep
    have inner := Statement.decode_encodeList statements n fits (by omega) (by omega)
    rw [Statement.encode, Statement.decode_object (by simp [Statement.kinds]) (by simp),
      Statement.encodeList_eq_map]
    exact Shape.Reads.decode _ <| Shape.Reads.pure Statement.block (by simp)
      |>.extend (by simp) (asList_map Statement.encode _ statements inner)

/-- Statements are decoded from their values. -/
theorem Statement.decode_encodeList : ∀ (ss : List Statement) (n : Nat), Statement.ListLinesFit ss →
    Value.elementsDepth (Statement.encodeList ss) ≤ n → n ≤ maxDepth + 1 →
    ∀ s ∈ ss, Statement.decode n s.encode = .ok s
  | [] => by
    intro n _ _ _ s hs
    cases hs
  | s :: ss => by
    intro n fits deep limit
    rw [Statement.encodeList, Value.elementsDepth, Nat.max_le] at deep
    rw [List.forall_mem_cons]
    exact ⟨Statement.decode_encode s n fits.1 deep.1 limit,
      Statement.decode_encodeList ss n fits.2 deep.2 limit⟩

end

mutual

/-- All numbers in the value of a statement are exact. -/
theorem Statement.isExact_encode : ∀ s : Statement, s.LinesFit → s.encode.IsExact
  | .declare name type initializer => by
    intro fits
    have inner := Expression.isExact_encodeOption initializer fits
    simp [Statement.encode, Value.IsExact, Value.MembersExact, isExact_ofText?, inner]
  | .returned value => by
    intro fits
    have inner := Expression.isExact_encodeOption value fits
    simp [Statement.encode, Value.IsExact, Value.MembersExact, inner]
  | .expression e => by
    intro fits
    have inner := Expression.isExact_encode e fits
    simp [Statement.encode, Value.IsExact, Value.MembersExact, inner]
  | .block statements => by
    intro fits
    have inner := Statement.isExact_encodeList statements fits
    simp [Statement.encode, Value.IsExact, Value.MembersExact, inner]

/-- All numbers in the values of statements are exact. -/
theorem Statement.isExact_encodeList : ∀ ss : List Statement, Statement.ListLinesFit ss →
    Value.ElementsExact (Statement.encodeList ss)
  | [] => by
    intro _
    exact trivial
  | s :: ss => by
    intro fits
    exact ⟨Statement.isExact_encode s fits.1, Statement.isExact_encodeList ss fits.2⟩

end

/-! ## Parts of declarations -/

/-- A list of texts is read back. -/
theorem asText_encodeTexts (texts : List String) : asList asText (encodeTexts texts) = .ok texts :=
  asList_map .text asText texts fun s _ => asText_text s

/-- A parameter is read back. -/
theorem asParameter_encode (p : Parameter) : asParameter p.encode = .ok p :=
  Shape.Reads.decode _ <| Shape.Reads.pure Parameter.mk (by simp)
    |>.extend (by simp) (asText_text p.name)
    |>.extend (by simp) (asText_ofText? p.type)
    |>.extend (by simp) (asBool_bool p.variadic)

/-- The kind of a function, which may be left out, is read back. -/
theorem asName_encodeKind (kind : Option FunctionKind) :
    asOption (Json.Value.asName functionKinds) (encodeKind kind) = .ok kind := by
  cases kind with
  | none => rfl
  | some kind => cases kind <;> rfl

/-- The body of a function, which may be left out, is read back. -/
theorem asStatements_encodeBody {body : Option (List Statement)} (fits : BodyLinesFit body)
    (deep : (encodeBody body).depth ≤ maxDepth) :
    asOption (asList asStatement) (encodeBody body) = .ok body := by
  cases body with
  | none => rfl
  | some statements =>
    rw [encodeBody, Value.depth] at deep
    have inner := Statement.decode_encodeList statements maxDepth fits (by omega) (Nat.le_succ _)
    refine asOption_ok (by simp [encodeBody]) ?_
    rw [encodeBody, Statement.encodeList_eq_map]
    exact asList_map Statement.encode _ statements inner

/-! ## Declarations -/

/-- An object with a known kind is decoded by the shape of this kind. -/
theorem Declaration.decode_object {kind : String} {ms : List (String × Value)}
    (known : kind ∈ Declaration.kinds.names) (untagged : ∀ m ∈ ms, m.1 ≠ "kind") :
    Declaration.decode (n + 1) (.object (("kind", .text kind) :: ms))
      = Declaration.ofParts (Declaration.decode n) kind (.named ms) := by
  have split : Declaration.kinds.split (.object (("kind", .text kind) :: ms))
      = .ok (kind, .named ms) := Json.Alternatives.split_object known untagged
  rw [Declaration.decode, split]
  rfl

/-- Declarations are written one by one. -/
theorem Declaration.encodeList_eq_map (ds : List Declaration) :
    Declaration.encodeList ds = ds.map Declaration.encode := by
  induction ds with
  | nil => rfl
  | cons d ds ih => rw [Declaration.encodeList, ih, List.map_cons]

mutual

/-- A declaration is decoded from its value as deep as this is nested.

**Proof sketch.** Structural recursion on the declaration. In each case the members of the written object are
read in turn, each by the lemma for its type, and the depth that is left is one less for what is inside. -/
theorem Declaration.decode_encode : ∀ (d : Declaration) (n : Nat), d.LinesFit → d.encode.depth ≤ n →
    n ≤ maxDepth + 1 → Declaration.decode n d.encode = .ok d
  | .record name sort superTypes members => by
    intro n fits within limit
    obtain ⟨n, rfl, deep⟩ := Value.exists_of_depth_object_le within
    simp only [Value.membersDepth, Value.depth] at deep
    have inner := Declaration.decode_encodeList members n fits (by omega) (by omega)
    rw [Declaration.encode, Declaration.decode_object (by simp [Declaration.kinds]) (by simp),
      Declaration.encodeList_eq_map]
    exact Shape.Reads.decode _ <| Shape.Reads.pure Declaration.record (by simp)
      |>.extend (by simp) (asText_text name)
      |>.extend (by simp) (asText_text sort)
      |>.extend (by simp) (asText_encodeTexts superTypes)
      |>.extend (by simp) (asList_map Declaration.encode _ members inner)
  | .enum name superTypes constants => by
    intro n _ within _
    obtain ⟨n, rfl, -⟩ := Value.exists_of_depth_object_le within
    rw [Declaration.encode, Declaration.decode_object (by simp [Declaration.kinds]) (by simp)]
    exact Shape.Reads.decode _ <| Shape.Reads.pure Declaration.enum (by simp)
      |>.extend (by simp) (asText_text name)
      |>.extend (by simp) (asText_encodeTexts superTypes)
      |>.extend (by simp) (asText_encodeTexts constants)
  | .field name type modifiers initializer => by
    intro n fits within limit
    obtain ⟨n, rfl, deep⟩ := Value.exists_of_depth_object_le within
    simp only [Value.membersDepth, Value.depth] at deep
    rw [Declaration.encode, Declaration.decode_object (by simp [Declaration.kinds]) (by simp)]
    exact Shape.Reads.decode _ <| Shape.Reads.pure Declaration.field (by simp)
      |>.extend (by simp) (asText_text name)
      |>.extend (by simp) (asText_ofText? type)
      |>.extend (by simp) (asText_encodeTexts modifiers)
      |>.extend (by simp) (asExpression_encodeOption fits (by omega))
  | .function name kind returnType isStatic parameters body => by
    intro n fits within limit
    obtain ⟨n, rfl, deep⟩ := Value.exists_of_depth_object_le within
    simp only [Value.membersDepth, Value.depth] at deep
    rw [Declaration.encode, Declaration.decode_object (by simp [Declaration.kinds]) (by simp)]
    exact Shape.Reads.decode _ <| Shape.Reads.pure Declaration.function (by simp)
      |>.extend (by simp) (asText_text name)
      |>.extend (by simp) (asName_encodeKind kind)
      |>.extend (by simp) (asText_ofText? returnType)
      |>.extend (by simp) (asBool_bool isStatic)
      |>.extend (by simp) (asList_map Parameter.encode _ parameters fun p _ => asParameter_encode p)
      |>.extend (by simp) (asStatements_encodeBody fits (by omega))
  | .var name type initializer => by
    intro n fits within limit
    obtain ⟨n, rfl, deep⟩ := Value.exists_of_depth_object_le within
    simp only [Value.membersDepth, Value.depth] at deep
    rw [Declaration.encode, Declaration.decode_object (by simp [Declaration.kinds]) (by simp)]
    exact Shape.Reads.decode _ <| Shape.Reads.pure Declaration.var (by simp)
      |>.extend (by simp) (asText_text name)
      |>.extend (by simp) (asText_ofText? type)
      |>.extend (by simp) (asExpression_encodeOption fits (by omega))

/-- Declarations are decoded from their values. -/
theorem Declaration.decode_encodeList : ∀ (ds : List Declaration) (n : Nat),
    Declaration.ListLinesFit ds → Value.elementsDepth (Declaration.encodeList ds) ≤ n →
    n ≤ maxDepth + 1 → ∀ d ∈ ds, Declaration.decode n d.encode = .ok d
  | [] => by
    intro n _ _ _ d hd
    cases hd
  | d :: ds => by
    intro n fits deep limit
    rw [Declaration.encodeList, Value.elementsDepth, Nat.max_le] at deep
    rw [List.forall_mem_cons]
    exact ⟨Declaration.decode_encode d n fits.1 deep.1 limit,
      Declaration.decode_encodeList ds n fits.2 deep.2 limit⟩

end

/-! ## Exact numbers -/

/-- Texts are written as exact values. -/
theorem isExact_encodeTexts (texts : List String) : (encodeTexts texts).IsExact := by
  rw [encodeTexts, Value.IsExact, Value.elementsExact_iff]
  simp [Value.IsExact]

/-- Parameters are written as exact values. -/
theorem isExact_encodeParameters (parameters : List Parameter) :
    Value.ElementsExact (parameters.map Parameter.encode) := by
  rw [Value.elementsExact_iff, List.forall_mem_map]
  intro p _
  simp [Parameter.encode, Value.IsExact, Value.MembersExact, isExact_ofText?]

/-- The body of a function is written as an exact value. -/
theorem isExact_encodeBody {body : Option (List Statement)} (fits : BodyLinesFit body) :
    (encodeBody body).IsExact := by
  cases body with
  | none => exact trivial
  | some statements => exact Statement.isExact_encodeList statements fits

mutual

/-- All numbers in the value of a declaration are exact. -/
theorem Declaration.isExact_encode : ∀ d : Declaration, d.LinesFit → d.encode.IsExact
  | .record name sort superTypes members => by
    intro fits
    have inner := Declaration.isExact_encodeList members fits
    simp [Declaration.encode, Value.IsExact, Value.MembersExact, isExact_encodeTexts, inner]
  | .enum name superTypes constants => by
    intro _
    simp [Declaration.encode, Value.IsExact, Value.MembersExact, isExact_encodeTexts]
  | .field name type modifiers initializer => by
    intro fits
    have inner := Expression.isExact_encodeOption initializer fits
    simp [Declaration.encode, Value.IsExact, Value.MembersExact, isExact_ofText?,
      isExact_encodeTexts, inner]
  | .function name kind returnType isStatic parameters body => by
    intro fits
    have inner := isExact_encodeBody fits
    simp [Declaration.encode, Value.IsExact, Value.MembersExact, encodeKind, isExact_ofText?,
      isExact_encodeParameters, inner]
  | .var name type initializer => by
    intro fits
    have inner := Expression.isExact_encodeOption initializer fits
    simp [Declaration.encode, Value.IsExact, Value.MembersExact, isExact_ofText?, inner]

/-- All numbers in the values of declarations are exact. -/
theorem Declaration.isExact_encodeList : ∀ ds : List Declaration, Declaration.ListLinesFit ds →
    Value.ElementsExact (Declaration.encodeList ds)
  | [] => by
    intro _
    exact trivial
  | d :: ds => by
    intro fits
    exact ⟨Declaration.isExact_encode d fits.1, Declaration.isExact_encodeList ds fits.2⟩

end

end ProgramGraph.Document
