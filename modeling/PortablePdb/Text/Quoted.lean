import PortablePdb.Text.Hex
import PortablePdb.Text.Printable

/-!
Text in double quotes. Quotes and backslashes stand behind a backslash, the usual controls
have letters, and any other character that cannot be printed is given by its code point in
braces.
-/

namespace PortablePdb.Text

def escape (c : Char) : String :=
  match c with
  | '"' => "\\\""
  | '\\' => "\\\\"
  | '\n' => "\\n"
  | '\t' => "\\t"
  | '\r' => "\\r"
  | '\x00' => "\\0"
  | c => if isPrintable c then String.singleton c
    else "\\u\x7b" ++ Hex.padded 1 c.toNat ++ "\x7d"

def quoted (text : String) : String :=
  "\"" ++ String.join (text.toList.map escape) ++ "\""

end PortablePdb.Text
