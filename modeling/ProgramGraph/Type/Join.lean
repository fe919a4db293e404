import ProgramGraph.Type.Descriptor

set_option autoImplicit false

/-!
# Joining types

Nothing is known here about which type extends which, so the join of several types is structural:
one type is its own join, types that differ in their modifiers only join to the type without
modifier, and all others to the unknown type. The primitive types are told apart as well, because
a primitive type is never refined by another.

## Main definitions

* `ProgramGraph.Descriptor.isPrimitive` — a primitive name without adjustment.
* `ProgramGraph.Descriptor.common?` — the join of a list of types.
-/

namespace ProgramGraph.Descriptor

/-- The names of the primitive types. -/
def primitiveNames : List String :=
  ["boolean", "bool", "byte", "char", "short", "int", "long", "float", "double", "void"]

/-- A primitive type: a primitive name without pointer or array decoration. -/
def isPrimitive (t : Descriptor) : Bool :=
  !t.hasAdjustment && primitiveNames.contains t.name

/-- The join of a list of types; an empty list has none. The answer does not depend on the order
or on repetitions. -/
def common? : List Descriptor → Option Descriptor
  | [] => none
  | first :: rest =>
    if rest.all (· == first) then some first
    else if rest.all first.sameShape then some first.unqualified
    else some unknown

end ProgramGraph.Descriptor
