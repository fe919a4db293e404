import ProgramGraph.Terminal.Theme

set_option autoImplicit false

/-!
# Messages

The lines that tell what happens. Each begins with a picture for its purpose.

## Main definitions

* `ProgramGraph.Terminal.Icon` — the pictures.
* `ProgramGraph.Terminal.Theme.titleLine` and the functions below it — the lines in a theme.
-/

namespace ProgramGraph.Terminal

namespace Icon

/-- Stands in front of what is going to happen. -/
def rocket : String := "🚀"

/-- Stands in front of what went well. -/
def check : String := "✅"

/-- Stands in front of what did not go well. -/
def warning : String := "⚠️"

/-- Stands in front of a labelled value. -/
def note : String := "ℹ️"

/-- Stands in front of the statistics. -/
def chart : String := "📊"

/-- Stands in front of the links. -/
def link : String := "🔗"

/-- Stands in front of paths. -/
def file : String := "📄"

/-- Stands in front of what a pass reports. -/
def gear : String := "⚙️"

/-- Stands in front of what was made up. -/
def ghost : String := "👻"

/-- All pictures in their fixed order. -/
def all : List String := [rocket, check, warning, note, chart, link, file, gear, ghost]

end Icon

namespace Theme

/-- Says what is going to happen. -/
def titleLine (theme : Theme) (text : String) : String :=
  Icon.rocket ++ " " ++ theme.header.apply text

/-- Says that something went well. -/
def successLine (theme : Theme) (text : String) : String :=
  Icon.check ++ " " ++ theme.success.apply text

/-- Says that something did not go well. -/
def warningLine (theme : Theme) (text : String) : String :=
  Icon.warning ++ " " ++ theme.warning.apply text

/-- Gives a value with its label. -/
def noteLine (theme : Theme) (label value : String) : String :=
  theme.note.apply Icon.note ++ " " ++ theme.dim.apply label ++ ": " ++ value

/-- Starts a section: an empty line, and the line with its title. -/
def sectionLines (theme : Theme) (icon text : String) : List String :=
  ["", icon ++ " " ++ theme.header.apply text]

/-- Names a file. -/
def fileLine (theme : Theme) (path : String) : String :=
  "  " ++ Icon.file ++ " " ++ theme.dim.apply path

/-- A text that is less important than those around it. -/
def dimmed (theme : Theme) (text : String) : String := theme.dim.apply text

/-- The name of a declaration, marked if it was made up. -/
def declaration (theme : Theme) (name : String) (dummy : Bool) : String :=
  if dummy then Icon.ghost ++ " " ++ theme.dummy.apply name else name

/-- A row of a list. -/
def rowLine (theme : Theme) (label value : String) : String :=
  "  " ++ theme.dim.apply label ++ " " ++ value

end Theme

end ProgramGraph.Terminal
