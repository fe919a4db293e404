set_option autoImplicit false

/-!
# Themes

How parts of the output stand out. A style is a list of codes that a terminal understands; a style
without codes leaves a text as it is.

## Main definitions

* `ProgramGraph.Terminal.Style` — a style, and `ProgramGraph.Terminal.Style.apply`.
* `ProgramGraph.Terminal.Theme` — the styles of all parts of the output.
* `ProgramGraph.Terminal.Theme.colored`, `ProgramGraph.Terminal.Theme.plain` — for terminals, and
  for everything else.

## Main results

* `ProgramGraph.Terminal.Style.apply_plain` — the empty style leaves every text as it is.
-/

namespace ProgramGraph.Terminal

/-- A style, by its codes. -/
structure Style where
  codes : List Nat
deriving DecidableEq, Repr

namespace Style

/-- The style that changes nothing. -/
def plain : Style := ⟨[]⟩

/-- The sequence that switches to the codes. -/
def sequence (codes : List Nat) : String :=
  "\x1b[" ++ ";".intercalate (codes.map toString) ++ "m"

/-- A text in a style. -/
def apply (style : Style) (text : String) : String :=
  if style.codes.isEmpty then text else sequence style.codes ++ text ++ sequence [0]

/-- The empty style leaves every text as it is. -/
@[simp] theorem apply_plain (text : String) : plain.apply text = text := rfl

end Style

/-- The styles of all parts of the output. -/
structure Theme where
  header : Style
  success : Style
  warning : Style
  note : Style
  dim : Style
  /-- For declarations that were made up. -/
  dummy : Style
deriving DecidableEq, Repr

namespace Theme

/-- Cyan, green and yellow in bold, magenta, dimmed white, and bright black in italics. -/
def colored : Theme where
  header := ⟨[36, 1]⟩
  success := ⟨[32, 1]⟩
  warning := ⟨[33, 1]⟩
  note := ⟨[35]⟩
  dim := ⟨[37, 2]⟩
  dummy := ⟨[90, 3]⟩

/-- No styles at all. -/
def plain : Theme where
  header := .plain
  success := .plain
  warning := .plain
  note := .plain
  dim := .plain
  dummy := .plain

/-- The styles of a theme in their fixed order. -/
def styles (theme : Theme) : List Style :=
  [theme.header, theme.success, theme.warning, theme.note, theme.dim, theme.dummy]

end Theme

end ProgramGraph.Terminal
