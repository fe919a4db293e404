import ProgramGraph.Document.Decode
import ProgramGraph.Document.Encode
import ProgramGraph.Proofs.Reading.Shapes
import ProgramGraph.Proofs.Reading.Values

set_option autoImplicit false

/-!
# Decoding expressions

An expression is decoded from the value it is encoded as. The decoder may go as deep as this value is
nested; line numbers have to fit 32 bits.

## Main definitions

* `ProgramGraph.Document.Expression.LinesFit` — the line numbers in an expression fit 32 bits.

## Main results

* `ProgramGraph.Document.Expression.decode_encode` — an expression is decoded from its value.
* `ProgramGraph.Document.Expression.isExact_encode` — the numbers in its value fit.
-/

namespace ProgramGraph.Document

open Json (Value Shape)
open Json.Value (asOption asList asText_text asBool_bool asText_ofText? asNumber32_ofNat?)

/-! ## Line numbers -/

/-- A line number, if there is one, fits the 32 bits that it is read with. -/
def LineFits (line : Option Nat) : Prop := ∀ n ∈ line, n < 1 <<< 32

mutual

/-- The line numbers in an expression fit 32 bits. -/
def Expression.LinesFit : Expression → Prop
  | .ref _ _ _ line => LineFits line
  | .member base _ _ _ line => base.LinesFit ∧ LineFits line
  | .call _ base arguments _ line =>
    Expression.OptionLinesFit base ∧ Expression.ListLinesFit arguments ∧ LineFits line
  | .literal _ _ => True

/-- The line numbers in an expression that may be missing fit 32 bits. -/
def Expression.OptionLinesFit : Option Expression → Prop
  | none => True
  | some e => e.LinesFit

/-- The line numbers in expressions fit 32 bits. -/
def Expression.ListLinesFit : List Expression → Prop
  | [] => True
  | e :: rest => e.LinesFit ∧ Expression.ListLinesFit rest

end

/-! ## Simple values -/

variable {n : Nat} {name value : String} {type memberType : Option String} {line : Option Nat}
  {isStatic : Bool} {base : Expression} {base? : Option Expression} {arguments : List Expression}

/-- A text that may be left out is written as an exact value. -/
theorem isExact_ofText? (t : Option String) : (Value.ofText? t).IsExact := by
  cases t <;> simp [Value.ofText?, Value.IsExact]

/-- A line that may be left out is written as an exact value, if it fits. -/
theorem isExact_ofNat? (fits : LineFits line) : (Value.ofNat? line).IsExact := by
  cases line with
  | none => simp [Value.ofNat?, Value.IsExact]
  | some k =>
    have small : k < 1 <<< 32 := fits k rfl
    simp only [Value.ofNat?, Value.ofNat, Value.IsExact, Json.Number.IsExact]
    omega

/-! ## Expressions -/

/-- An object with a known kind is decoded by the shape of this kind. -/
theorem Expression.decode_object {kind : String} {ms : List (String × Value)}
    (known : kind ∈ Expression.kinds.names) (untagged : ∀ m ∈ ms, m.1 ≠ "kind") :
    Expression.decode (n + 1) (.object (("kind", .text kind) :: ms))
      = Expression.ofParts (Expression.decode n) kind (.named ms) := by
  have split : Expression.kinds.split (.object (("kind", .text kind) :: ms)) = .ok (kind, .named ms) :=
    Json.Alternatives.split_object known untagged
  rw [Expression.decode, split]
  rfl

/-- A reference is read back. -/
theorem decode_ref (fits : LineFits line) :
    Expression.decode (n + 1) (Expression.encode (.ref name type isStatic line))
      = .ok (.ref name type isStatic line) := by
  rw [Expression.encode, Expression.decode_object (by simp [Expression.kinds]) (by simp)]
  exact Shape.Reads.decode _ <| Shape.Reads.pure Expression.ref (by simp)
    |>.extend (by simp) (asText_text name)
    |>.extend (by simp) (asText_ofText? type)
    |>.extend (by simp) (asBool_bool isStatic)
    |>.extend (by simp) (asNumber32_ofNat? fits)

/-- A member access is read back, if its base is. -/
theorem decode_member (hbase : Expression.decode n base.encode = .ok base) (fits : LineFits line) :
    Expression.decode (n + 1) (Expression.encode (.member base name type memberType line))
      = .ok (.member base name type memberType line) := by
  rw [Expression.encode, Expression.decode_object (by simp [Expression.kinds]) (by simp)]
  exact Shape.Reads.decode _ <| Shape.Reads.pure Expression.member (by simp)
    |>.extend (by simp) hbase
    |>.extend (by simp) (asText_text name)
    |>.extend (by simp) (asText_ofText? type)
    |>.extend (by simp) (asText_ofText? memberType)
    |>.extend (by simp) (asNumber32_ofNat? fits)

/-- A call is read back, if its base and its arguments are. -/
theorem decode_call
    (hbase : asOption (Expression.decode n) (Expression.encodeOption base?) = .ok base?)
    (harguments : asList (Expression.decode n) (.array (Expression.encodeList arguments))
      = .ok arguments)
    (fits : LineFits line) :
    Expression.decode (n + 1) (Expression.encode (.call name base? arguments type line))
      = .ok (.call name base? arguments type line) := by
  rw [Expression.encode, Expression.decode_object (by simp [Expression.kinds]) (by simp)]
  exact Shape.Reads.decode _ <| Shape.Reads.pure Expression.call (by simp)
    |>.extend (by simp) (asText_text name)
    |>.extend (by simp) hbase
    |>.extend (by simp) harguments
    |>.extend (by simp) (asText_ofText? type)
    |>.extend (by simp) (asNumber32_ofNat? fits)

/-- A literal is read back. -/
theorem decode_literal :
    Expression.decode (n + 1) (Expression.encode (.literal value type)) = .ok (.literal value type) := by
  rw [Expression.encode, Expression.decode_object (by simp [Expression.kinds]) (by simp)]
  exact Shape.Reads.decode _ <| Shape.Reads.pure Expression.literal (by simp)
    |>.extend (by simp) (asText_text value)
    |>.extend (by simp) (asText_ofText? type)

/-- Expressions are written one by one. -/
theorem Expression.encodeList_eq_map (es : List Expression) :
    Expression.encodeList es = es.map Expression.encode := by
  induction es with
  | nil => rfl
  | cons e es ih => rw [Expression.encodeList, ih, List.map_cons]

/-- An expression is never written as the absent value, so it is told apart from one that is left out. -/
theorem Expression.encode_ne_null (e : Expression) : e.encode ≠ .null := by
  cases e <;> simp [Expression.encode]

mutual

/-- An expression is decoded from its value as deep as this is nested.

**Proof sketch.** Structural recursion on the expression, with one lemma for each kind. What is inside is
nested one level less. -/
theorem Expression.decode_encode : ∀ (e : Expression) (n : Nat), e.LinesFit → e.encode.depth ≤ n →
    Expression.decode n e.encode = .ok e
  | .ref name type isStatic line => by
    intro n fits within
    obtain ⟨n, rfl, -⟩ := Value.exists_of_depth_object_le within
    exact decode_ref fits
  | .member base name type memberType line => by
    intro n fits within
    obtain ⟨n, rfl, deep⟩ := Value.exists_of_depth_object_le within
    simp only [Value.membersDepth, Value.depth] at deep
    exact decode_member (Expression.decode_encode base n fits.1 (by omega)) fits.2
  | .call name base arguments type line => by
    intro n fits within
    obtain ⟨n, rfl, deep⟩ := Value.exists_of_depth_object_le within
    simp only [Value.membersDepth, Value.depth] at deep
    have harguments := Expression.decode_encodeList arguments n fits.2.1 (by omega)
    refine decode_call (Expression.decode_encodeOption base n fits.1 (by omega)) ?_ fits.2.2
    rw [Expression.encodeList_eq_map]
    exact Json.Value.asList_map Expression.encode _ arguments harguments
  | .literal value type => by
    intro n fits within
    obtain ⟨n, rfl, -⟩ := Value.exists_of_depth_object_le within
    exact decode_literal

/-- An expression that may be missing is decoded from its value. -/
theorem Expression.decode_encodeOption : ∀ (e : Option Expression) (n : Nat),
    Expression.OptionLinesFit e → (Expression.encodeOption e).depth ≤ n →
    asOption (Expression.decode n) (Expression.encodeOption e) = .ok e
  | none => by
    intro n _ _
    rfl
  | some e => by
    intro n fits deep
    exact Json.Value.asOption_ok e.encode_ne_null (Expression.decode_encode e n fits deep)

/-- Expressions are decoded from their values. -/
theorem Expression.decode_encodeList : ∀ (es : List Expression) (n : Nat),
    Expression.ListLinesFit es → Value.elementsDepth (Expression.encodeList es) ≤ n →
    ∀ e ∈ es, Expression.decode n e.encode = .ok e
  | [] => by
    intro n _ _ e he
    cases he
  | e :: es => by
    intro n fits deep
    rw [Expression.encodeList, Value.elementsDepth, Nat.max_le] at deep
    rw [List.forall_mem_cons]
    exact ⟨Expression.decode_encode e n fits.1 deep.1,
      Expression.decode_encodeList es n fits.2 deep.2⟩

end

mutual

/-- All numbers in the value of an expression are exact. -/
theorem Expression.isExact_encode : ∀ e : Expression, e.LinesFit → e.encode.IsExact
  | .ref name type isStatic line => by
    intro fits
    have hline := isExact_ofNat? fits
    simp [Expression.encode, Value.IsExact, Value.MembersExact, isExact_ofText?, hline]
  | .member base name type memberType line => by
    intro fits
    have hbase := Expression.isExact_encode base fits.1
    have hline := isExact_ofNat? fits.2
    simp [Expression.encode, Value.IsExact, Value.MembersExact, isExact_ofText?, hbase, hline]
  | .call name base arguments type line => by
    intro fits
    have hbase := Expression.isExact_encodeOption base fits.1
    have harguments := Expression.isExact_encodeList arguments fits.2.1
    have hline := isExact_ofNat? fits.2.2
    simp [Expression.encode, Value.IsExact, Value.MembersExact, isExact_ofText?, hbase, harguments,
      hline]
  | .literal value type => by
    intro _
    simp [Expression.encode, Value.IsExact, Value.MembersExact, isExact_ofText?]

/-- All numbers in the value of an expression that may be missing are exact. -/
theorem Expression.isExact_encodeOption : ∀ e : Option Expression,
    Expression.OptionLinesFit e → (Expression.encodeOption e).IsExact
  | none => by
    intro _
    exact trivial
  | some e => Expression.isExact_encode e

/-- All numbers in the values of expressions are exact. -/
theorem Expression.isExact_encodeList : ∀ es : List Expression,
    Expression.ListLinesFit es → Value.ElementsExact (Expression.encodeList es)
  | [] => by
    intro _
    exact trivial
  | e :: es => by
    intro fits
    exact ⟨Expression.isExact_encode e fits.1, Expression.isExact_encodeList es fits.2⟩

end

end ProgramGraph.Document
