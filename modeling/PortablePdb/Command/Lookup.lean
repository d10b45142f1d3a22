import PortablePdb.Command.Listing
import PortablePdb.Text.Numeral

/-!
Looks up the place in the source for an offset in the code of a method: the last sequence
point that does not lie behind the offset, and the variables and constants of the scopes
around it.
-/

namespace PortablePdb

inductive LookupError
  | noColon (query : String)
  | badNumeral (fault : Text.Numeral.Fault)
  | unknownMethod (token : UInt32)
  deriving DecidableEq

def LookupError.message : LookupError → String
  | noColon query => s!"expected TOKEN:OFFSET, got {query}"
  | badNumeral fault => fault.message
  | unknownMethod token => s!"no debug information for method {Hex.literal 8 token.toNat}"

namespace Lookup

structure Query where
  token : UInt32
  ilOffset : UInt32
  deriving DecidableEq

def numeral (digits : List Char) : Except LookupError UInt32 :=
  (Text.Numeral.parse digits).mapError .badNumeral

def Query.parse (query : String) : Except LookupError Query :=
  let cs := query.toList
  if ':' ∈ cs then do
    let token ← numeral (cs.takeWhile (· ≠ ':'))
    let ilOffset ← numeral ((cs.dropWhile (· ≠ ':')).drop 1)
    return { token, ilOffset }
  else .error (.noColon query)

def placeLine (d : Document) : Option SequencePoint → String
  | none => "No match :("
  | some p =>
    match p.span with
    | some s => s!"{d.path}:{s.startLine}:{s.startColumn} ({d.language.name})"
    | none => s!"{d.path} (hidden)"

def scopeLines (scope : Scope) : List String :=
  (scope.localVariables.filter (!·.hidden)).map (fun v => "  " ++ v.label) ++
    scope.localConstants.map fun c => "  " ++ c.label

def lines (file : File) (query : Query) : Except LookupError (List String) :=
  match file.findMethodByToken? query.token with
  | none => .error (.unknownMethod query.token)
  | some (d, m) =>
    .ok (placeLine d (m.pointAt? query.ilOffset) ::
      (m.scopesAt query.ilOffset).flatMap scopeLines)

end Lookup

def File.lookup (file : File) (query : String) : Except LookupError (List String) := do
  Lookup.lines file (← Lookup.Query.parse query)

end PortablePdb
