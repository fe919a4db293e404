import Mathlib.Tactic.Common
import ProgramGraph.Json.Shape

set_option autoImplicit false

/-!
# Decoding what was encoded

An object with distinct keys is decoded field by field: each field of a shape is found under its name,
wherever it stands, and no other field is in its way. A sum is decoded by its tag, which stands first.

## Main definitions

* `ProgramGraph.Json.Shape.Reads` — a shape reads a structure from the members of an object.

## Main results

* `ProgramGraph.Json.Shape.Reads.extend` — one more field is read.
* `ProgramGraph.Json.Alternatives.split_object` — the tag and the other members of an object.
-/

namespace ProgramGraph.Json

/-! ## Simple values -/

namespace Value

variable {α β : Type} {decode : Value → Except Mismatch α} {v : Value} {a : α}

/-- A text is one. -/
theorem asText_text (s : String) : asText (.text s) = .ok s := rfl

/-- A truth value is one. -/
theorem asBool_bool (b : Bool) : asBool (.bool b) = .ok b := rfl

/-- What is not null is decoded. -/
theorem asOption_ok (present : v ≠ .null) (hv : decode v = .ok a) :
    asOption decode v = .ok (some a) := by
  cases v with
  | null => exact absurd rfl present
  | _ => simp [asOption, hv, Except.map]

/-- A text that may be left out is read back. -/
theorem asText_ofText? (t : Option String) : asOption asText (.ofText? t) = .ok t := by
  cases t <;> rfl

/-- A number that may be left out is read back, if it fits. -/
theorem asNumber32_ofNat? {n : Option Nat} (fits : ∀ k ∈ n, k < 1 <<< 32) :
    asOption asNumber32 (.ofNat? n) = .ok n := by
  cases n with
  | none => rfl
  | some k =>
    have small : k < 1 <<< 32 := fits k rfl
    refine asOption_ok (by simp [ofNat?, ofNat]) ?_
    rw [ofNat?, ofNat, asNumber32, if_pos small]

/-- A list is decoded if each of its elements is. -/
theorem asList_map (encode : β → Value) (decode : Value → Except Mismatch β) (bs : List β)
    (hbs : ∀ b ∈ bs, decode (encode b) = .ok b) : asList decode (.array (bs.map encode)) = .ok bs := by
  rw [asList]
  induction bs with
  | nil => rfl
  | cons b bs ih =>
    have tail := ih fun c hc => hbs c (List.mem_cons_of_mem b hc)
    rw [List.map_cons, List.mapM_cons, hbs b List.mem_cons_self, tail]
    rfl

end Value

/-! ## Structures -/

variable {α β : Type} {ms : List (String × Value)} {name : String} {v : Value}

/-- Numbered members none of which has the key. -/
theorem filterMap_zipIdx_eq_nil (absent : name ∉ ms.map Prod.fst) (start : Nat) :
    (ms.zipIdx start).filterMap (fun ((k, v), place) => if k = name then some (place, v) else none)
      = [] := by
  rw [List.filterMap_eq_nil_iff]
  rintro ⟨⟨k, v⟩, place⟩ hm
  have other : k ≠ name := by
    rintro rfl
    exact absent (List.mem_map_of_mem (List.fst_mem_of_mem_zipIdx hm))
  exact if_neg other

/-- A key that is there once occurs once.

**Proof sketch.** Induction on the members, for all numbers from which they are counted. Behind the occurrence
the key does not occur again. -/
theorem occurrences_of_mem (distinct : (ms.map Prod.fst).Nodup) (hm : (name, v) ∈ ms) :
    ∃ place, occurrences name ms = [(place, v)] := by
  have numbered : ∀ start, ∃ place, (ms.zipIdx start).filterMap
      (fun ((k, v), place) => if k = name then some (place, v) else none) = [(place, v)] := by
    induction ms with
    | nil => cases hm
    | cons m ms ih =>
      obtain ⟨k, w⟩ := m
      rw [List.map_cons, List.nodup_cons] at distinct
      intro start
      obtain heq | hm := List.mem_cons.mp hm
      · cases heq
        exact ⟨start, by simp [filterMap_zipIdx_eq_nil distinct.1]⟩
      · have other : k ≠ name := by
          rintro rfl
          exact distinct.1 (List.mem_map.mpr ⟨_, hm, rfl⟩)
        obtain ⟨place, once⟩ := ih distinct.2 hm (start + 1)
        exact ⟨place, by simp [other, once]⟩
  exact numbered 0

/-- A field that is written is decoded from its value, whatever its index and its default. -/
theorem Parts.field_named {decode : Value → Except Mismatch α} {a : α} (index : Nat)
    (default : Option α) (distinct : (ms.map Prod.fst).Nodup) (hm : (name, v) ∈ ms)
    (hv : decode v = .ok a) : (Parts.named ms).field name index decode default = .ok a := by
  obtain ⟨place, once⟩ := occurrences_of_mem distinct hm
  simp [Parts.field, once, hv, Except.mapError]

namespace Shape

/-- A shape reads a structure from the members of an object, whose keys are distinct. -/
def Reads (shape : Shape α) (ms : List (String × Value)) (a : α) : Prop :=
  (ms.map Prod.fst).Nodup ∧ shape.read (.named ms) = .ok a

/-- A shape that asks for nothing reads members whose keys are distinct. -/
theorem Reads.pure (a : α) (distinct : (ms.map Prod.fst).Nodup) : (Shape.pure a).Reads ms a :=
  ⟨distinct, rfl⟩

/-- One more field is read if it is written and its value can be decoded. -/
theorem Reads.extend {shape : Shape (α → β)} {f : α → β} {decode : Value → Except Mismatch α}
    {default : Option α} {a : α} (hf : shape.Reads ms f) (hm : (name, v) ∈ ms)
    (hv : decode v = .ok a) : (shape.extend name decode default).Reads ms (f a) := by
  obtain ⟨distinct, hread⟩ := hf
  have field := Parts.field_named shape.size default distinct hm hv
  exact ⟨distinct, by simp [Shape.extend, hread, field]⟩

/-- What a shape reads is what it decodes. -/
theorem Reads.decode {shape : Shape α} {a : α} (title : String) (h : shape.Reads ms a) :
    shape.decode title (.named ms) = .ok a := by
  simp [Shape.decode, h.2]

end Shape

/-! ## Sums -/

namespace Alternatives

variable {alts : Alternatives} {tag : String}

/-- Members without the key of the tag stay as they are. -/
theorem splitMembers_untagged (untagged : ∀ m ∈ ms, m.1 ≠ tagKey) :
    alts.splitMembers (some tag) ms = .ok (tag, ms) := by
  induction ms with
  | nil => rfl
  | cons m ms ih =>
    obtain ⟨key, v⟩ := m
    have other : key ≠ tagKey := untagged (key, v) List.mem_cons_self
    have tail := ih fun m hm => untagged m (List.mem_cons_of_mem _ hm)
    rw [splitMembers, if_neg other, tail]
    rfl

/-- The tag that stands first is split off an object. -/
theorem split_object (known : tag ∈ alts.names) (untagged : ∀ m ∈ ms, m.1 ≠ tagKey) :
    alts.split (.object ((tagKey, .text tag) :: ms)) = .ok (tag, .named ms) := by
  have named : alts.ofValue (.text tag) = .ok tag := by
    simp [ofValue, Alternatives.named, known]
  have members : alts.splitMembers none ((tagKey, .text tag) :: ms) = .ok (tag, ms) := by
    rw [splitMembers, if_pos rfl, named, ← splitMembers_untagged untagged]
    rfl
  rw [split, members]
  rfl

end Alternatives

end ProgramGraph.Json
