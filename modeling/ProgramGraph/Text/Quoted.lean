import ProgramGraph.Text.Combining
import ProgramGraph.Text.Hexadecimal
import ProgramGraph.Text.Printable

set_option autoImplicit false

/-!
# Quoted text

How a text is shown in a message: between double quotes, with an escape for every character that
would end the text early or not show.

## Main definitions

* `ProgramGraph.Text.quoted` — a text between quotes.
-/

namespace ProgramGraph.Text

/-- A character as it stands between quotes. -/
def quotedChar (c : Char) : String :=
  match c with
  | '\x00' => "\\0"
  | '\t' => "\\t"
  | '\r' => "\\r"
  | '\n' => "\\n"
  | '\\' => "\\\\"
  | '"' => "\\\""
  | c =>
    if isPrintable c && !isCombining c then c.toString
    else "\\u\x7b" ++ hexadecimal c.toNat ++ "\x7d"

/-- A text between double quotes. -/
def quoted (text : String) : String :=
  "\"" ++ String.join (text.toList.map quotedChar) ++ "\""

end ProgramGraph.Text
