import ProgramGraph.Json.Reader
import ProgramGraph.Json.Shape

set_option autoImplicit false

/-!
# Decoding while reading

The outer layers of a text can be decoded while they are read, so that a value of the wrong shape
is reported even if the text turns out to be malformed further on. Whatever stands inside a
structure with a tag is read completely before it is decoded.

## Main definitions

* `ProgramGraph.Json.Reading` — a function that decodes while reading.
* `ProgramGraph.Json.unexpected` — the failure for a value that stands in the place of another.
* `ProgramGraph.Json.textHere`, `ProgramGraph.Json.optionalTextHere`,
  `ProgramGraph.Json.number32Here`, `ProgramGraph.Json.nameHere` — simple values.
* `ProgramGraph.Json.listHere` — an array, element by element.
* `ProgramGraph.Json.Alternatives.splitHere` — the tag and the fields of a sum.
* `ProgramGraph.Json.whole` — a value that must be all there is.

## Design

A reading takes the text from the start of a value, blanks included, and answers what it decoded
with the rest of the text.
-/

namespace ProgramGraph.Json

/-- A function that decodes while reading. -/
abbrev Reading (α : Type) := List Char → Except Failure (α × List Char)

/-- A reading that must succeed. -/
def wellFormed {α : Type} : Option α → Except Failure α
  | some a => .ok a
  | none => .error .malformed

/-- A decoding within reading. -/
def shaped {α : Type} : Except Mismatch α → Except Failure α
  | .ok a => .ok a
  | .error m => .error (.mismatch m)

/-- The failure for a value that stands in the place of something else. Arrays and objects are known
by their first character. -/
def unexpected (wanted : String) (text : List Char) : Failure :=
  match skipBlanks text with
  | '[' :: _ => .mismatch (.invalidType .sequence wanted)
  | '{' :: _ => .mismatch (.invalidType .map wanted)
  | text => match readScalar text with
    | some (v, _) => .mismatch (v.mismatch wanted)
    | none => .malformed

/-! ## Simple values -/

/-- A text; `wanted` is what it is called in messages. -/
def textHere (wanted : String) : Reading String := fun text =>
  match skipBlanks text with
  | '"' :: rest => wellFormed (readString rest)
  | text => .error (unexpected wanted text)

/-- A text or null. -/
def optionalTextHere (wanted : String) : Reading (Option String) := fun text =>
  match skipBlanks text with
  | 'n' :: rest => do
    let (_, rest) ← wellFormed (readScalar ('n' :: rest))
    return (none, rest)
  | text => do
    let (s, rest) ← textHere wanted text
    return (some s, rest)

/-- A number from zero to below `2 ^ 32`. -/
def number32Here : Reading Nat := fun text =>
  match skipBlanks text with
  | c :: rest =>
    if c = '-' || c.isDigit then do
      let (n, rest) ← wellFormed (readNumber (c :: rest))
      return (← shaped (Value.number n).asNumber32, rest)
    else .error (unexpected "u32" (c :: rest))
  | [] => .error .malformed

/-- One of several names, as a text or as the only key of an object whose value is null. -/
def nameHere {α : Type} (names : List (String × α)) : Reading α := fun text =>
  match skipBlanks text with
  | '"' :: rest => do
    let (name, rest) ← wellFormed (readString rest)
    return (← shaped (Value.pick names name), rest)
  | '{' :: rest => do
    let (name, rest) ← textHere Alternatives.tagTitle rest
    let a ← shaped (Value.pick names name)
    let rest ← wellFormed (skipColon rest)
    match skipBlanks rest with
    | 'n' :: rest =>
      let (_, rest) ← wellFormed (readScalar ('n' :: rest))
      match skipBlanks rest with
      | '}' :: rest => return (a, rest)
      | _ => throw .malformed
    | rest => throw (unexpected "unit" rest)
  | _ => .error .malformed

/-! ## Arrays -/

/-- The elements of an array up to its closing bracket; there is at least one. -/
def elementsHere {α : Type} (element : Reading α) : Nat → Reading (List α)
  | 0, _ => .error .malformed
  | steps + 1, text => do
    let (a, rest) ← element text
    match skipBlanks rest with
    | ',' :: rest =>
      let (as, rest) ← elementsHere element steps rest
      return (a :: as, rest)
    | ']' :: rest => return ([a], rest)
    | _ => throw .malformed

/-- An array; `element` is told how deep its elements may still be nested. -/
def listHere {α : Type} (element : Nat → Reading α) (depth : Nat) : Reading (List α) := fun text =>
  match skipBlanks text, depth with
  | '[' :: _, 0 => .error .malformed
  | '[' :: rest, depth + 1 =>
    match skipBlanks rest with
    | ']' :: rest => .ok ([], rest)
    | rest => elementsHere (element depth) (rest.length + 1) rest
  | text, _ => .error (unexpected "a sequence" text)

/-! ## Sums -/

namespace Alternatives

/-- The members of a structure with a tag up to the closing brace, at least one; `tag` is the one
that was met before. -/
def membersHere (alts : Alternatives) (depth : Nat) :
    Nat → Option String → Reading (String × List (String × Value))
  | 0, _, _ => .error .malformed
  | steps + 1, tag, text => do
    let (key, rest) ← match skipBlanks text with
      | '"' :: rest => wellFormed (readString rest)
      | _ => throw .malformed
    if key = tagKey && tag.isSome then throw (.mismatch (.duplicateField tagKey))
    let rest ← wellFormed (skipColon rest)
    if key = tagKey then
      let (name, rest) ← textHere tagTitle rest
      let tag ← shaped (alts.named name)
      match skipBlanks rest with
      | ',' :: rest => alts.membersHere depth steps (some tag) rest
      | '}' :: rest => return ((tag, []), rest)
      | _ => throw .malformed
    else
      let (v, rest) ← wellFormed (readValue (stepsFor rest) depth rest)
      match skipBlanks rest, tag with
      | ',' :: rest, _ =>
        let ((tag, members), rest) ← alts.membersHere depth steps tag rest
        return ((tag, (key, v) :: members), rest)
      | '}' :: rest, some tag => return ((tag, [(key, v)]), rest)
      | '}' :: _, none => throw (.mismatch (.missingField tagKey))
      | _, _ => throw .malformed

/-- The fields of a structure in an array, from behind its tag on. -/
def valuesHere (depth : Nat) : Reading (List Value) := fun text =>
  match skipBlanks text with
  | ']' :: rest => .ok ([], rest)
  | ',' :: rest => wellFormed (readElements (stepsFor rest) depth rest)
  | _ => .error .malformed

/-- The tag of a sum and its other fields. -/
def splitHere (alts : Alternatives) (depth : Nat) : Reading (String × Parts) := fun text =>
  match skipBlanks text, depth with
  | '[' :: _, 0 => .error .malformed
  | '{' :: _, 0 => .error .malformed
  | '[' :: rest, depth + 1 => do
    match skipBlanks rest with
    | ']' :: _ => throw (.mismatch (.missingField tagKey))
    | rest =>
      let (name, rest) ← textHere tagTitle rest
      let tag ← shaped (alts.named name)
      let (values, rest) ← valuesHere depth rest
      return ((tag, .placed values), rest)
  | '{' :: rest, depth + 1 => do
    match skipBlanks rest with
    | '}' :: _ => throw (.mismatch (.missingField tagKey))
    | rest =>
      let ((tag, members), rest) ← alts.membersHere depth (rest.length + 1) none rest
      return ((tag, .named members), rest)
  | text, _ => .error (unexpected alts.wanted text)

end Alternatives

/-! ## Whole texts -/

/-- A value that must be all there is in a text. -/
def whole {α : Type} (reading : Reading α) (text : String) : Except Failure α := do
  let (a, rest) ← reading text.toList
  if atEnd rest then return a else throw .malformed

end ProgramGraph.Json
