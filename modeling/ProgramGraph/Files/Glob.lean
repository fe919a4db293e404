set_option autoImplicit false

/-!
# Globs

Patterns of paths. A question mark stands for a byte and a star for any number of bytes, none of
them a slash. Two stars between slashes stand for any number of directories. A class in brackets
stands for one of its bytes, and braces enclose alternatives.

A pattern is read into its alternatives, each of which is a sequence of tokens. What a token may
leave of a path is a list, since there are several ways to match a star.

## Main definitions

* `ProgramGraph.Files.Glob` — a pattern, and `ProgramGraph.Files.Glob.ofText?`.
* `ProgramGraph.Files.Glob.matchesPath` — whether a path matches a pattern.
-/

namespace ProgramGraph.Files

/-! ## Tokens -/

/-- A part of a pattern. -/
inductive Token where
  /-- One byte. -/
  | byte (b : UInt8)
  /-- Any byte but a slash. -/
  | any
  /-- Any number of bytes but slashes. -/
  | star
  /-- Any number of directories at the start. -/
  | leading
  /-- Anything inside of a directory. -/
  | inside
  /-- Any number of directories in between. -/
  | between
  /-- A byte in one of some ranges, or in none of them. -/
  | oneOf (negated : Bool) (ranges : List (UInt8 × UInt8))
deriving DecidableEq, Repr

/-- A pattern: its alternatives. -/
abbrev Glob := List (List Token)

/-- The byte between directories. -/
def slash : UInt8 := 47

/-! ## Matching -/

/-- What is left behind any number of bytes other than slashes. -/
def behindName : List UInt8 → List (List UInt8)
  | [] => [[]]
  | b :: rest => (b :: rest) :: (if b = slash then [] else behindName rest)

/-- What is left behind each slash. -/
def behindSlashes : List UInt8 → List (List UInt8)
  | [] => []
  | b :: rest => (if b = slash then [rest] else []) ++ behindSlashes rest

/-- What is left behind any number of bytes. -/
def behindAll : List UInt8 → List (List UInt8)
  | [] => [[]]
  | b :: rest => (b :: rest) :: behindAll rest

/-- What is left of a path behind what a token stands for, in all ways. -/
def Token.rests : Token → List UInt8 → List (List UInt8)
  | .byte b, c :: rest => if b = c then [rest] else []
  | .any, c :: rest => if c = slash then [] else [rest]
  | .star, path => behindName path
  | .leading, path => path :: behindSlashes path
  | .inside, c :: rest => if c = slash then behindAll rest else []
  | .between, c :: rest => if c = slash then rest :: behindSlashes rest else []
  | .oneOf negated ranges, c :: rest =>
    if (ranges.any fun (first, last) => first ≤ c && c ≤ last) != negated then [rest] else []
  | _, [] => []

/-- What is left of a path behind what tokens stand for, in all ways. -/
def restsBehind : List Token → List UInt8 → List (List UInt8)
  | [], path => [path]
  | token :: tokens, path => (token.rests path).flatMap (restsBehind tokens)

/-- Whether a path matches a pattern. -/
def Glob.matchesPath (glob : Glob) (path : String) : Bool :=
  glob.any fun tokens => (restsBehind tokens path.toUTF8.toList).any List.isEmpty

/-! ## Reading -/

/-- The bytes of a character. -/
def bytesOf (c : Char) : List UInt8 := c.toString.toUTF8.toList

/-- The range between two characters. Only between characters of one byte each it has more members
than the bytes of its two ends. -/
def rangeOf (first last : Char) : List (UInt8 × UInt8) :=
  match bytesOf first, bytesOf last with
  | [a], [b] => [(a, b)]
  | as, bs => (as ++ bs).map fun b => (b, b)

/-- The ranges of a class up to its closing bracket, and the rest. The range that was read last may
still get another end, behind a dash. -/
def readRanges (latest : Char × Char) (behindDash : Bool) :
    List Char → Option (List (Char × Char) × List Char)
  | [] => none
  | c :: rest =>
    if c = ']' then some (latest :: (if behindDash then [('-', '-')] else []), rest)
    else if behindDash then readRanges (latest.1, c) false rest
    else if c = '-' then readRanges latest true rest
    else (readRanges (c, c) false rest).map fun (ranges, rest) => (latest :: ranges, rest)

/-- The class behind an opening bracket with its mark of negation, and the rest. Its first
character stands for itself. -/
def readClass (text : List Char) : Option (Bool × List (Char × Char) × List Char) :=
  let (negated, text) := match text with
    | '!' :: rest | '^' :: rest => (true, rest)
    | _ => (false, text)
  match text with
  | [] => none
  | c :: rest => (readRanges (c, c) false rest).map fun (ranges, rest) => (negated, ranges, rest)

/-- Alternatives that are being read. All sequences stand backwards. -/
structure Group where
  /-- What stands before the brace. -/
  before : Glob
  /-- The alternatives that are complete. -/
  complete : Glob := []

/-- The sequences followed by a token. -/
def push (token : Token) (branch : Glob) : Glob := branch.map (token :: ·)

/-- The sequences followed by a character. -/
def pushChar (c : Char) (branch : Glob) : Glob :=
  (bytesOf c).foldl (fun branch b => push (.byte b) branch) branch

/-- The sequences with another token in place of the last slash, unless that slash already belongs
to a token for directories. -/
def replaceSlash (token : Token) (branch : Glob) : Glob :=
  branch.map fun
    | .leading :: rest => .leading :: rest
    | .inside :: rest => .inside :: rest
    | _ :: rest => token :: rest
    | [] => [token]

/-- The sequences of a group behind its closing brace. Empty alternatives do not count. -/
def Group.close (group : Group) (branch : Glob) : Glob :=
  match (group.complete ++ branch).filter (· ≠ []) with
  | [] => group.before
  | alternatives => group.before.flatMap fun b => alternatives.map fun a => a ++ b

/-- What two stars stand for. -/
inductive Span where
  /-- As much as one star. -/
  | name
  /-- Any number of directories at the start. -/
  | leading
  /-- Anything inside of a directory. -/
  | inside
  /-- Any number of directories in between. -/
  | between

/-- What two stars stand for, by whether they stand in braces and at the start, by the character
before them and by what follows. -/
def spanOf (inGroup atStart : Bool) (before : Option Char) (rest : List Char) : Span :=
  let next := rest.head?
  if atStart then (if next = none || next = some '/' then .leading else .name)
  else if before ≠ some '/' then .name
  else if next = none || (inGroup && (next = some ',' || next = some '}')) then .inside
  else if next = some '/' then .between
  else .name

/-- The sequences behind two stars. -/
def Span.push (span : Span) (branch : Glob) : Glob :=
  match span with
  | .name => Files.push .star (Files.push .star branch)
  | .leading => Files.push .leading branch
  | .inside => replaceSlash .inside branch
  | .between => replaceSlash .between branch

/-- Whether the slash behind two stars belongs to them. -/
def Span.takesSlash : Span → Bool
  | .leading | .between => true
  | .name | .inside => false

/-- The alternatives of a pattern, in at most `steps` steps. -/
def readGlob : Nat → List Group → Glob → Option Char → List Char → Option Glob
  | 0, _, _, _, _ => none
  | _ + 1, groups, branch, _, [] =>
    if groups.isEmpty then some (branch.map List.reverse) else none
  | steps + 1, groups, branch, _, '?' :: rest =>
    readGlob steps groups (push .any branch) (some '?') rest
  | steps + 1, groups, branch, before, '*' :: '*' :: rest =>
    let span := spanOf (!groups.isEmpty) (branch.all List.isEmpty) before rest
    match span.takesSlash, rest with
    | true, _ :: rest => readGlob steps groups (span.push branch) (some '/') rest
    | _, rest => readGlob steps groups (span.push branch) (some '*') rest
  | steps + 1, groups, branch, _, '*' :: rest =>
    readGlob steps groups (push .star branch) (some '*') rest
  | steps + 1, groups, branch, _, '[' :: rest =>
    match readClass rest with
    | some (negated, ranges, rest) =>
      if ranges.all fun (first, last) => first ≤ last then
        let token := .oneOf negated (ranges.flatMap fun (first, last) => rangeOf first last)
        readGlob steps groups (push token branch) (some ']') rest
      else none
    | none => readGlob steps groups (pushChar '[' branch) (some '[') rest
  | steps + 1, groups, branch, _, '\x7b' :: rest =>
    readGlob steps ({ before := branch } :: groups) [[]] (some '\x7b') rest
  | steps + 1, group :: groups, branch, _, '\x7d' :: rest =>
    readGlob steps groups (group.close branch) (some '\x7d') rest
  | _ + 1, [], _, _, '\x7d' :: _ => none
  | steps + 1, group :: groups, branch, _, ',' :: rest =>
    let group := { group with complete := group.complete ++ branch }
    readGlob steps (group :: groups) [[]] (some ',') rest
  | steps + 1, groups, branch, _, '\\' :: c :: rest =>
    readGlob steps groups (pushChar c branch) (some c) rest
  | _ + 1, _, _, _, ['\\'] => none
  | steps + 1, groups, branch, _, c :: rest =>
    readGlob steps groups (pushChar c branch) (some c) rest

/-- The pattern that a text stands for. -/
def Glob.ofText? (text : List Char) : Option Glob :=
  readGlob (text.length + 1) [] [[]] none text

end ProgramGraph.Files
