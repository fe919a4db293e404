import ProgramGraph.Files.Glob
import ProgramGraph.Files.Tree
import ProgramGraph.Text.Blank

set_option autoImplicit false

/-!
# Ignored files

A directory may hold files that list what is not looked at in it and below it, one pattern a line.
The last pattern that matches decides; patterns of a directory count for more than those of the
directories above it. A pattern with an exclamation mark exempts what it matches. Names that begin
with a dot are ignored unless they are exempt.

## Main definitions

* `ProgramGraph.Files.Pattern` — a line of a list, and `ProgramGraph.Files.Pattern.ofLine?`.
* `ProgramGraph.Files.Layer` — the lists of one directory.
* `ProgramGraph.Files.isIgnored` — whether an entry of a directory is ignored.
-/

namespace ProgramGraph.Files

/-! ## Patterns -/

/-- A line of a list. -/
structure Pattern where
  /-- What it matches. -/
  glob : Glob
  /-- Whether it exempts what it matches. -/
  exempts : Bool
  /-- Whether it matches directories only. -/
  directoriesOnly : Bool

/-- A line without the blanks at its end, unless the last one is escaped. -/
def trimLine (line : List Char) : List Char :=
  match line.reverse with
  | ' ' :: '\\' :: _ => line
  | _ => Text.trimEnd line

/-- A line without the mark that it exempts, and whether there was one. A backslash makes an
ordinary character of the one behind it. -/
def takeMark : List Char → Bool × List Char
  | '!' :: rest => (true, rest)
  | line => (false, line)

/-- A line without the slash that ties it to its directory, and whether there was one. -/
def takeRoot : List Char → Bool × List Char
  | '/' :: rest => (true, rest)
  | line => (false, line)

/-- A line without the slash at its end, and whether there was one. -/
def takeEnd (line : List Char) : Bool × List Char :=
  match line.reverse with
  | '/' :: '\\' :: rest => (true, rest.reverse)
  | '/' :: rest => (true, rest.reverse)
  | _ => (false, line)

/-- The text of a pattern that matches below the directory of the list, and at any depth if nothing
ties it to that directory. -/
def anchored (tied : Bool) (line : List Char) : List Char :=
  if tied || line.contains '/' || line == ['*', '*'] then line else ['*', '*', '/'] ++ line

/-- The text of a pattern where two stars at the end do not match the directory itself. -/
def strictlyInside (line : List Char) : List Char :=
  match line.reverse with
  | '*' :: '*' :: '/' :: _ => line ++ ['/', '*']
  | _ => line

/-- The pattern of a line that is neither empty nor a comment, if it is well-formed. -/
def Pattern.ofLine? (line : List Char) : Option Pattern :=
  if line.head? = some '#' || (trimLine line).isEmpty then none
  else
    let (exempts, tied, rest) := match trimLine line with
      | '\\' :: '!' :: rest => (false, false, '!' :: rest)
      | '\\' :: '#' :: rest => (false, false, '#' :: rest)
      | line =>
        let (exempts, rest) := takeMark line
        let (tied, rest) := takeRoot rest
        (exempts, tied, rest)
    let (directoriesOnly, rest) := takeEnd rest
    (Glob.ofText? (strictlyInside (anchored tied rest))).map fun glob =>
      { glob, exempts, directoriesOnly }

/-- The patterns of a list. -/
def patternsOf (text : String) : List Pattern :=
  (Text.split '\n' text.toList).filterMap Pattern.ofLine?

/-- What the last pattern that matches says about a path: whether it is ignored. -/
def verdict? (patterns : List Pattern) (path : String) (isDirectory : Bool) : Option Bool :=
  (patterns.reverse.find? fun pattern =>
    (isDirectory || !pattern.directoriesOnly) && pattern.glob.matchesPath path).map
      fun pattern => !pattern.exempts

/-! ## Directories -/

/-- The lists of one directory. -/
structure Layer where
  /-- What is ignored in any case. -/
  always : List Pattern
  /-- What is ignored in a repository. -/
  inRepository : List Pattern
  /-- Whether a repository begins here. -/
  startsRepository : Bool
  /-- The names on the way from the directory to the one that is looked at. -/
  way : List String

/-- The patterns of the list under a name. -/
def listUnder (name : String) (entries : List (String × Tree)) : List Pattern :=
  match entries.lookup name with
  | some (.file (some text)) => patternsOf text
  | _ => []

/-- The lists of a directory. -/
def Layer.of (way : List String) (entries : List (String × Tree)) : Layer where
  always := listUnder ".ignore" entries
  inRepository := listUnder ".gitignore" entries
  startsRepository := (entries.lookup ".git").isSome
  way := way

/-- What a list of a layer says about an entry of the directory that is looked at. -/
def Layer.verdict? (layer : Layer) (patterns : Layer → List Pattern) (name : String)
    (isDirectory : Bool) : Option Bool :=
  Files.verdict? (patterns layer) ("/".intercalate (layer.way ++ [name])) isDirectory

/-- The layers, innermost first, up to the one where the repository begins. -/
def layersOfRepository : List Layer → List Layer
  | [] => []
  | layer :: rest =>
    if layer.startsRepository then [layer] else layer :: layersOfRepository rest

/-- What the lists of all layers, innermost first, say about an entry. -/
def verdictOf (layers : List Layer) (name : String) (isDirectory : Bool) : Option Bool :=
  let ofList := layers.findSome? fun layer => layer.verdict? Layer.always name isDirectory
  let ofRepository :=
    if layers.any Layer.startsRepository then
      (layersOfRepository layers).findSome? fun layer =>
        layer.verdict? Layer.inRepository name isDirectory
    else none
  ofList <|> ofRepository

/-- Whether an entry is ignored. -/
def isIgnored (layers : List Layer) (name : String) (isDirectory : Bool) : Bool :=
  (verdictOf layers name isDirectory).getD (name.startsWith ".")

end ProgramGraph.Files
