import ProgramGraph.Json.Incremental
import ProgramGraph.Json.Printer
import ProgramGraph.Type.Parse

set_option autoImplicit false

/-!
# Types in JSON

A type is written as a string that holds its written form, and any string is read as the type that
its text stands for.

## Main definitions

* `ProgramGraph.Descriptor.encode` — the value of a type.
* `ProgramGraph.Descriptor.read` — the type in a JSON text.
-/

namespace ProgramGraph.Descriptor

/-- A type as a value. -/
def encode (t : Descriptor) : Json.Value := .text t.render

/-- The type in a JSON text. -/
def read (text : String) : Except Json.Failure Descriptor :=
  (Json.whole (Json.textHere "a string") text).map parse

end ProgramGraph.Descriptor
