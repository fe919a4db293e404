set_option autoImplicit false

/-!
# Type descriptors

A program type is written `modifier name adjustment`, as in `const char*`: the *name* is the core
of the type, the *adjustment* is its pointer and array decoration, and the *modifier* is one
qualifying word in front. Two descriptors are the same type when all three parts agree.

## Main definitions

* `ProgramGraph.Descriptor` — the three parts.
* `ProgramGraph.Descriptor.unknown` — the type of which nothing is known.
* `ProgramGraph.Descriptor.render` — the written form.
* `ProgramGraph.Descriptor.reference`, `ProgramGraph.Descriptor.dereference` — one pointer level
  more, one pointer or array level less.

## Main results

* `ProgramGraph.Descriptor.dereference_reference` — taking a level away undoes adding one.
-/

namespace ProgramGraph

/-- A program type. An empty modifier or adjustment means that there is none. -/
structure Descriptor where
  /-- The core type name, such as `char` or `std.vector`. -/
  name : String
  /-- Pointer and array decoration, such as `*` or `[]`. -/
  adjustment : String := ""
  /-- A qualifying word, such as `const`. -/
  modifier : String := ""
deriving DecidableEq, Repr

namespace Descriptor

/-- The name reserved for types of which nothing is known. -/
def unknownName : String := "UNKNOWN"

/-- The type of which nothing is known. -/
def unknown : Descriptor := { name := unknownName }

/-- The unknown type, in case any type will do. -/
instance : Inhabited Descriptor := ⟨unknown⟩

/-- A type is unknown by its name alone, whatever decorates it. -/
def isUnknown (t : Descriptor) : Bool := t.name == unknownName

/-- Whether the type has a qualifying word. -/
def hasModifier (t : Descriptor) : Bool := t.modifier != ""

/-- Whether the type is decorated as a pointer or an array. -/
def hasAdjustment (t : Descriptor) : Bool := t.adjustment != ""

/-- The type without its qualifying word. -/
def unqualified (t : Descriptor) : Descriptor := { t with modifier := "" }

/-- Two types have the same shape when they differ in their qualifying word at most. -/
def sameShape (t u : Descriptor) : Bool := t.name == u.name && t.adjustment == u.adjustment

/-- The written form: the modifier and a blank if there is one, then name and adjustment. -/
def render (t : Descriptor) : String :=
  (if t.hasModifier then t.modifier ++ " " else "") ++ t.name ++ t.adjustment

/-! ## Levels of indirection -/

/-- A decoration without its first `*` or `[]`. -/
def dropLevel : List Char → List Char
  | [] => []
  | '*' :: rest => rest
  | '[' :: ']' :: rest => rest
  | c :: rest => c :: dropLevel rest

/-- One pointer level more. -/
def reference (t : Descriptor) : Descriptor :=
  { t with adjustment := "*" ++ t.adjustment }

/-- One pointer or array level less; a type without levels stays as it is. -/
def dereference (t : Descriptor) : Descriptor :=
  { t with adjustment := String.ofList (dropLevel t.adjustment.toList) }

/-- **Levels cancel.** Taking the first level away undoes adding one in front. -/
theorem dereference_reference (t : Descriptor) : t.reference.dereference = t := by
  simp [reference, dereference, dropLevel]

end Descriptor

end ProgramGraph
