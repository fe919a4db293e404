import ProgramGraph.Json.Mismatch

set_option autoImplicit false

/-!
# Decoding values

A structure is written as an object with a member for each of its fields, or as an array of its
fields in order. A sum of structures is written with one more member, the *tag*, which names the
alternative; in an array the tag comes first. Unknown members are ignored.

If several things are wrong with one structure, the one that stands first in the text counts, and
what is missing counts last.

## Main definitions

* `ProgramGraph.Json.Parts` — the written fields of a structure.
* `ProgramGraph.Json.Shape` — the fields of a structure, with the rule to put it together.
* `ProgramGraph.Json.Shape.decode` — a structure from its written fields.
* `ProgramGraph.Json.Alternatives` — the alternatives of a sum, and
  `ProgramGraph.Json.Alternatives.split`, the tag and the fields of a value.
-/

namespace ProgramGraph.Json

/-! ## Simple values -/

namespace Value

/-- The mismatch of a value that stands in the place of something else. -/
def mismatch (v : Value) (wanted : String) : Mismatch := .invalidType v.found wanted

/-- A text. -/
def asText : Value → Except Mismatch String
  | .text s => .ok s
  | v => .error (v.mismatch "a string")

/-- A truth value. -/
def asBool : Value → Except Mismatch Bool
  | .bool b => .ok b
  | v => .error (v.mismatch "a boolean")

/-- A number from zero to below `2 ^ 32`. -/
def asNumber32 : Value → Except Mismatch Nat
  | .number (.natural n) =>
    if n < 1 <<< 32 then .ok n else .error (.invalidValue (.number (.natural n)) "u32")
  | .number (.negative n) => .error (.invalidValue (.number (.negative n)) "u32")
  | v => .error (v.mismatch "u32")

/-- A list of values of one sort. -/
def asList {α : Type} (decode : Value → Except Mismatch α) : Value → Except Mismatch (List α)
  | .array vs => vs.mapM decode
  | v => .error (v.mismatch "a sequence")

/-- A value that may be null. -/
def asOption {α : Type} (decode : Value → Except Mismatch α) :
    Value → Except Mismatch (Option α)
  | .null => .ok none
  | v => (decode v).map some

/-- Nothing: null, or an empty object. -/
def asUnit : Value → Except Mismatch Unit
  | .null => .ok ()
  | .object [] => .ok ()
  | v => .error (v.mismatch "unit")

/-- One of several names, found by its place among them. -/
def pick {α : Type} (names : List (String × α)) (name : String) : Except Mismatch α :=
  match names.lookup name with
  | some a => .ok a
  | none => .error (.unknownVariant name (names.map Prod.fst))

/-- One of several names, as a text or as the only key of an object. -/
def asName {α : Type} (names : List (String × α)) : Value → Except Mismatch α
  | .text s => pick names s
  | .object [(key, v)] => do
    let a ← pick names key
    v.asUnit
    return a
  | .object _ => .error (.invalidValue .map "map with a single key")
  | v => .error (v.mismatch "string or map")

end Value

/-! ## Structures -/

/-- The written fields of a structure. -/
inductive Parts where
  /-- By name. -/
  | named (members : List (String × Value))
  /-- In order. -/
  | placed (values : List Value)

/-- What is wrong with a field. -/
inductive Flaw where
  | mismatch (m : Mismatch)
  /-- It is missing, and required. -/
  | absent (name : String) (index : Nat)

/-- The members with a key, each with its place. -/
def occurrences (key : String) (members : List (String × Value)) : List (Nat × Value) :=
  members.zipIdx.filterMap fun ((k, v), place) => if k = key then some (place, v) else none

/-- The field with a name and an index, or its default if it is not there. An error comes with its
place in the text. -/
def Parts.field {α : Type} (parts : Parts) (name : String) (index : Nat)
    (decode : Value → Except Mismatch α) (default : Option α) : Except (Nat × Flaw) α :=
  let read (place : Nat) (v : Value) : Except (Nat × Flaw) α :=
    (decode v).mapError fun m => (place, .mismatch m)
  let missing (place : Nat) : Except (Nat × Flaw) α :=
    match default with
    | some a => .ok a
    | none => .error (place, .absent name index)
  match parts with
  | .named members =>
    match occurrences name members with
    | [] => missing members.length
    | [(place, v)] => read place v
    | (place, v) :: (again, _) :: _ => do
      let _ ← read place v
      throw (again, .mismatch (.duplicateField name))
  | .placed values =>
    match values[index]? with
    | some v => read index v
    | none => missing values.length

/-- The fields of a structure, with the rule to put it together. -/
structure Shape (α : Type) where
  /-- The number of fields. -/
  size : Nat
  /-- The structure from its written fields; an error comes with its place. -/
  read : Parts → Except (Nat × Flaw) α

namespace Shape

variable {α β : Type}

/-- A structure without fields. -/
def pure (a : α) : Shape α := { size := 0, read := fun _ => .ok a }

/-- One more field. -/
def extend (shape : Shape (α → β)) (name : String) (decode : Value → Except Mismatch α)
    (default : Option α) : Shape β where
  size := shape.size + 1
  read := fun parts =>
    match shape.read parts, parts.field name shape.size decode default with
    | .ok f, .ok a => .ok (f a)
    | .ok _, .error e => .error e
    | .error e, .ok _ => .error e
    | .error (p, e), .error (q, e') => if q < p then .error (q, e') else .error (p, e)

/-- One more field, which is required. -/
def field (shape : Shape (α → β)) (name : String) (decode : Value → Except Mismatch α) :
    Shape β :=
  shape.extend name decode none

/-- One more field, which may be missing. -/
def fieldOr (shape : Shape (α → β)) (name : String) (default : α)
    (decode : Value → Except Mismatch α) : Shape β :=
  shape.extend name decode (some default)

/-- One more field, which may be missing or null. -/
def optional (shape : Shape (Option α → β)) (name : String) (decode : Value → Except Mismatch α) :
    Shape β :=
  shape.extend name (Value.asOption decode) (some none)

/-- A number of elements in words. -/
def elements (n : Nat) : String := if n = 1 then "1 element" else s!"{n} elements"

/-- The structure from its written fields; `title` is its name in messages. -/
def decode (shape : Shape α) (title : String) (parts : Parts) : Except Mismatch α :=
  match shape.read parts, parts with
  | .error (_, .mismatch m), _ => .error m
  | .error (_, .absent name _), .named _ => .error (.missingField name)
  | .error (_, .absent _ index), .placed _ =>
    .error (.invalidLength index s!"{title} with {elements shape.size}")
  | .ok a, .named _ => .ok a
  | .ok a, .placed values =>
    if values.length ≤ shape.size then .ok a
    else .error (.invalidLength values.length s!"{elements shape.size} in sequence")

/-- A structure that is written as an object or an array. -/
def decodeValue (shape : Shape α) (title : String) : Value → Except Mismatch α
  | .object members => shape.decode title (.named members)
  | .array values => shape.decode title (.placed values)
  | v => .error (v.mismatch title)

end Shape

/-! ## Sums -/

/-- The alternatives of a sum of structures. -/
structure Alternatives where
  /-- The name of the sum in messages. -/
  title : String
  /-- The names of the alternatives. -/
  names : List String

namespace Alternatives

/-- The member that holds the tag. -/
def tagKey : String := "kind"

/-- What a tag is called in messages. -/
def tagTitle : String := "variant identifier"

/-- What a value is called in messages that should be a sum. -/
def wanted (alts : Alternatives) : String := s!"internally tagged enum {alts.title}"

/-- An alternative by name. -/
def named (alts : Alternatives) (name : String) : Except Mismatch String :=
  if alts.names.contains name then .ok name else .error (.unknownVariant name alts.names)

/-- An alternative by name or by number. -/
def ofValue (alts : Alternatives) : Value → Except Mismatch String
  | .text name => alts.named name
  | .number (.natural n) =>
    match alts.names[n]? with
    | some name => .ok name
    | none => .error <| .invalidValue (.number (.natural n))
        s!"variant index 0 <= i < {alts.names.length}"
  | v => .error (v.mismatch tagTitle)

/-- The tag among the members of an object, and the other members; `tag` is the one met before. -/
def splitMembers (alts : Alternatives) (tag : Option String) :
    List (String × Value) → Except Mismatch (String × List (String × Value))
  | [] => match tag with
    | some tag => .ok (tag, [])
    | none => .error (.missingField tagKey)
  | (key, v) :: rest => do
    if key = tagKey then
      if tag.isSome then throw (.duplicateField tagKey)
      alts.splitMembers (some (← alts.ofValue v)) rest
    else
      let (tag, members) ← alts.splitMembers tag rest
      return (tag, (key, v) :: members)

/-- The tag of a value and its other fields. -/
def split (alts : Alternatives) : Value → Except Mismatch (String × Parts)
  | .object members => do
    let (tag, members) ← alts.splitMembers none members
    return (tag, .named members)
  | .array [] => .error (.missingField tagKey)
  | .array (v :: values) => do return (← alts.ofValue v, .placed values)
  | v => .error (v.mismatch alts.wanted)

end Alternatives

end ProgramGraph.Json
