import ProgramGraph.Json.Mismatch

set_option autoImplicit false

/-!
# Errors

What can go wrong in the operations of the library, by cause.

## Main definitions

* `ProgramGraph.Error` — the causes.
* `ProgramGraph.Error.message` — what is said about one.
-/

namespace ProgramGraph

/-- What can go wrong. -/
inductive Error where
  /-- A text names no kind of node. -/
  | unknownTag (text : String)
  /-- A text names no sort of link. -/
  | unknownLinkKind (text : String)
  /-- A text does not stand for the value that is wanted. -/
  | notDecoded (failure : Json.Failure)
  /-- The text of a file does not stand for a document. -/
  | notADocument (path : String) (failure : Json.Failure)
  /-- A pass failed. -/
  | failed (reason : String)
  /-- No pass has this name. -/
  | unknownPass (name : String)
deriving DecidableEq, Repr

/-- What is said about a failure to decode. -/
def Json.Failure.message : Json.Failure → String
  | .malformed => "malformed JSON"
  | .mismatch m => m.message

/-- What is said about an error. -/
def Error.message : Error → String
  | .unknownTag text => s!"Parse error: Unknown node kind: {text}"
  | .unknownLinkKind text => s!"Parse error: Unknown link kind: {text}"
  | .notDecoded failure => s!"Parse error: {failure.message}"
  | .notADocument path failure => s!"Parse error: {path}: {failure.message}"
  | .failed reason => s!"Frontend error: {reason}"
  | .unknownPass name => s!"Unknown pass: {name}"

end ProgramGraph
