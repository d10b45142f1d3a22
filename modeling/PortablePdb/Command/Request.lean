import PortablePdb.Text.ControlSequence

/-!
The arguments of the command. An argument is an option with two hyphens and a name, a
cluster of letters behind one hyphen, or a path. The value of an option stands behind an
equals sign or is the next argument, unless that is an option itself.

An option whose value may still come is settled only when the next option has been
recognised, when a path follows, or when the arguments end. So an option that is not
recognised is told before a value that is missing.
-/

namespace PortablePdb.Command

inductive UsageError
  | noPath
  | noValue (option : String)
  | repeated (option : String)
  | unneededValue (option value : String)
  | unexpected (argument : String)
  deriving DecidableEq

open Text.ControlSequence in
/-- What was given is told without its control sequences. -/
def UsageError.message : UsageError → String
  | noPath => "the following required arguments were not provided:\n  <PATH>"
  | noValue option => s!"a value is required for '{option}' but none was supplied"
  | repeated option => s!"the argument '{option}' cannot be used multiple times"
  | unneededValue option value =>
    s!"unexpected value '{shown value}' for '{option}' found; no more were expected"
  | unexpected argument => s!"unexpected argument '{shown argument}' found"

/-- Why the arguments ask for nothing to be read. -/
inductive Stop
  | help
  | misuse (e : UsageError)
  deriving DecidableEq

inductive Flag
  | json
  | verbose
  | help
  deriving DecidableEq

namespace Flag

def all : List Flag := [json, verbose, help]

def name : Flag → String
  | json => "json"
  | verbose => "verbose"
  | help => "help"

def letter? : Flag → Option Char
  | json => none
  | verbose => some 'v'
  | help => some 'h'

def ofName? (name : String) : Option Flag :=
  all.find? (·.name = name)

def ofLetter? (letter : Char) : Option Flag :=
  all.find? (·.letter? = some letter)

def label (f : Flag) : String := "--" ++ f.name

theorem ofName_name (f : Flag) : ofName? f.name = some f := by
  cases f <;> decide

end Flag

/-- What to show, and how. A lookup comes before JSON notation, and that before a
listing. -/
structure Request where
  path : Option String
  json : Bool
  verbose : Bool
  lookup : Option String
  deriving DecidableEq

namespace Request

def empty : Request := ⟨none, false, false, none⟩

def lookupLabel : String := "--lookup <TOKEN:OFFSET>"

structure Scan where
  request : Request
  /-- A lookup option that is not settled, and its value if that has come. -/
  pending : Option (Option String)
  /-- Whether two hyphens have ended the options. -/
  pathsOnly : Bool
  deriving DecidableEq

namespace Scan

def start : Scan := ⟨empty, none, false⟩

def fail {α : Type} (e : UsageError) : Except Stop α := .error (.misuse e)

def settle (s : Scan) : Except Stop Scan :=
  match s.pending with
  | none => .ok s
  | some none => fail (.noValue lookupLabel)
  | some (some query) =>
    if s.request.lookup.isSome then fail (.repeated lookupLabel)
    else .ok { s with request := { s.request with lookup := some query }, pending := none }

def withFlag (s : Scan) (flag : Flag) : Except Stop Scan := do
  let s ← s.settle
  match flag with
  | .json =>
    if s.request.json then fail (.repeated flag.label)
    else return { s with request := { s.request with json := true } }
  | .verbose =>
    if s.request.verbose then fail (.repeated flag.label)
    else return { s with request := { s.request with verbose := true } }
  | .help => throw .help

def withLookup (s : Scan) (value : Option String) : Except Stop Scan := do
  let s ← s.settle
  let s := { s with pending := some value }
  if value.isSome then s.settle else return s

def withOption (s : Scan) (cs : List Char) : Except Stop Scan :=
  let name := String.ofList (cs.takeWhile (· ≠ '='))
  let value :=
    if '=' ∈ cs then some (String.ofList ((cs.dropWhile (· ≠ '=')).drop 1)) else none
  if name = "lookup" then s.withLookup value
  else
    match Flag.ofName? name, value with
    | some flag, none => s.withFlag flag
    | some flag, some v => fail (.unneededValue flag.label v)
    | none, _ => fail (.unexpected ("--" ++ name))

/-- Adds the options of a cluster of letters from left to right. -/
def withLetters (s : Scan) : List Char → Except Stop Scan
  | [] => .ok s
  | c :: cs =>
    match Flag.ofLetter? c with
    | some flag => do withLetters (← s.withFlag flag) cs
    | none => fail (.unexpected (String.ofList ['-', c]))

def withPath (s : Scan) (path : String) : Except Stop Scan := do
  if s.request.path.isSome then fail (.unexpected path)
  else
    let s ← s.settle
    return { s with request := { s.request with path := some path } }

def withArgument (s : Scan) (argument : String) : Except Stop Scan :=
  if s.pathsOnly then s.withPath argument
  else
    match argument.toList with
    | ['-', '-'] => .ok { s with pathsOnly := true }
    | '-' :: '-' :: cs => s.withOption cs
    | '-' :: c :: cs => s.withLetters (c :: cs)
    | _ =>
      if s.pending = some none then .ok { s with pending := some (some argument) }
      else s.withPath argument

end Scan

def parse (arguments : List String) : Except Stop (String × Request) := do
  let s ← (← arguments.foldlM Scan.withArgument .start).settle
  match s.request.path with
  | some path => return (path, s.request)
  | none => Scan.fail .noPath

end Request

end PortablePdb.Command
