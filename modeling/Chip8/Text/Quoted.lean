import Chip8.Hex
import Chip8.Text.Visible

namespace Chip8.Text

def quotedChar (c : Char) : String :=
  match c with
  | '\x00' => "\\0"
  | '\t' => "\\t"
  | '\r' => "\\r"
  | '\n' => "\\n"
  | '\\' => "\\\\"
  | '"' => "\\\""
  | c =>
    if isVisible c then c.toString
    else "\\u\x7b" ++ Hex.digits 1 c.toNat ++ "\x7d"

/-- A text between double quotes. What would not show up is written out. -/
def quoted (s : String) : String :=
  "\"" ++ String.join (s.toList.map quotedChar) ++ "\""

end Chip8.Text
