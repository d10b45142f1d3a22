import PortablePdb.Text.Hex

/-!
Values in JSON notation. `Json.pretty` writes every item of a list and every field of an
object on a line of its own, two blanks further in than the brackets around them; an empty
list has no line break.
-/

namespace PortablePdb.Text

inductive Json
  | null
  | bool (b : Bool)
  | num (n : Nat)
  | str (s : String)
  | arr (items : List Json)
  | obj (fields : List (String × Json))

namespace Json

/-- Quotes, backslashes and the characters below the blank cannot stand in a string as
they are. -/
def escape (c : Char) : String :=
  match c with
  | '"' => "\\\""
  | '\\' => "\\\\"
  | '\x08' => "\\b"
  | '\x0c' => "\\f"
  | '\n' => "\\n"
  | '\r' => "\\r"
  | '\t' => "\\t"
  | c => if c.toNat < 0x20 then "\\u" ++ Hex.padded 4 c.toNat else String.singleton c

def quoted (s : String) : String :=
  "\"" ++ String.join (s.toList.map escape) ++ "\""

def newline (depth : Nat) : String :=
  "\n" ++ "".pushn ' ' (2 * depth)

def bracketed (opening closing : String) (depth : Nat) (items : List String) : String :=
  if items.isEmpty then opening ++ closing
  else opening ++ newline (depth + 1) ++ ("," ++ newline (depth + 1)).intercalate items ++
    newline depth ++ closing

mutual

def render (depth : Nat) : Json → String
  | null => "null"
  | bool b => if b then "true" else "false"
  | num n => toString n
  | str s => quoted s
  | arr items => bracketed "[" "]" depth (renderItems (depth + 1) items)
  | obj fields => bracketed "\x7b" "\x7d" depth (renderFields (depth + 1) fields)

def renderItems (depth : Nat) : List Json → List String
  | [] => []
  | item :: rest => render depth item :: renderItems depth rest

def renderFields (depth : Nat) : List (String × Json) → List String
  | [] => []
  | (name, value) :: rest =>
    (quoted name ++ ": " ++ render depth value) :: renderFields depth rest

end

def pretty (j : Json) : String :=
  j.render 0

def optional {α : Type} (encode : α → Json) : Option α → Json
  | none => null
  | some a => encode a

end Json

end PortablePdb.Text
