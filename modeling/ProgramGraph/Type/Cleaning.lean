import ProgramGraph.Text.Blank
import ProgramGraph.Text.DecimalDigit
import ProgramGraph.Text.Split

set_option autoImplicit false

/-!
# Cleaning of type text

Type text from different sources carries artifacts: a leading `struct `, anonymous namespaces such
as `{...}::`, array sizes, argument lists, and `::` between name parts. One *pass* takes each
kind away once; since a pass can expose an artifact that was hidden before, passes are repeated
until one changes nothing.

## Main definitions

* `ProgramGraph.Cleaning.pass` — one pass over the text.
* `ProgramGraph.Cleaning.clean` — passes until the text stands still.

## Design

Every text is a list of characters. A span such as `(...)` never crosses a line end, so spans are
cut line by line; the widest span of a line reaches from its first opening to its last closing.
-/

namespace ProgramGraph.Cleaning

open ProgramGraph.Text (isDecimalDigit split trim)

/-! ## The artifacts -/

/-- What stands after the last occurrence of `closing` in a line. -/
def afterLast? (closing : List Char) : List Char → Option (List Char)
  | [] => none
  | c :: rest =>
    match afterLast? closing rest with
    | some tail => some tail
    | none =>
      if closing.isPrefixOf (c :: rest) then some ((c :: rest).drop closing.length) else none

/-- A line without its widest span from `opening` to `closing`. -/
def eraseSpan (opening : Char) (closing : List Char) : List Char → List Char
  | [] => []
  | c :: rest =>
    if c = opening then (afterLast? closing rest).getD (c :: rest)
    else c :: eraseSpan opening closing rest

/-- A text without the widest span of each line. -/
def eraseSpans (opening : Char) (closing : List Char) (text : List Char) : List Char :=
  ['\n'].intercalate ((split '\n' text).map (eraseSpan opening closing))

/-- The word that marks a structure type. -/
def structWord : List Char := "struct ".toList

/-- A text without one leading `struct `. -/
def eraseStruct (text : List Char) : List Char :=
  if structWord.isPrefixOf text then text.drop structWord.length else text

/-- The characters an array size is written with. -/
def isSizeChar (c : Char) : Bool := c == ' ' || isDecimalDigit c

/-- Behind an opening bracket: the closing bracket and what follows it if a size stands before
them, else the whole text. -/
def dropSize (text : List Char) : List Char :=
  match text.dropWhile isSizeChar with
  | ']' :: rest => ']' :: rest
  | _ => text

/-- A text with the size in every bracket pair taken away. -/
def eraseSizes : List Char → List Char
  | [] => []
  | c :: rest => if c = '[' then c :: dropSize (eraseSizes rest) else c :: eraseSizes rest

/-- A text with `.` for every `::`. -/
def dotted : List Char → List Char
  | [] => []
  | ':' :: ':' :: rest => '.' :: dotted rest
  | c :: rest => c :: dotted rest

/-! ## Passes -/

/-- One pass: each kind of artifact is taken away once, in this order. -/
def pass (text : List Char) : List Char :=
  trim <| dotted <| eraseSpans '(' [')'] <| eraseSizes <|
    eraseSpans '{' ['}', ':', ':'] <| eraseStruct text

/-- At most `n` further passes, stopping at the first one that changes nothing. -/
def settle : Nat → List Char → List Char
  | 0, text => text
  | n + 1, text =>
    let next := pass text
    if next = text then text else settle n next

/-- Passes until the text stands still. A pass that changes the text makes it shorter, so there
are no more passes than characters. -/
def clean (text : List Char) : List Char :=
  settle text.length (pass text)

end ProgramGraph.Cleaning
