import PortablePdb.Command.DocumentJson
import PortablePdb.Command.Lookup
import PortablePdb.Command.Request

/-!
The command that shows what is in a file: a listing, the documents in JSON notation, or
the answer to a lookup.
-/

namespace PortablePdb.Command

structure Outcome where
  exitCode : UInt8
  output : String
  error : Option String
  deriving DecidableEq

namespace Outcome

def ofLines (lines : List String) : Outcome :=
  ⟨0, String.join (lines.map (· ++ "\n")), none⟩

def failure (message : String) : Outcome :=
  ⟨1, "", some ("Error: " ++ message)⟩

def usage (e : UsageError) : Outcome :=
  ⟨2, "", some ("error: " ++ e.message)⟩

end Outcome

def helpLines : List String :=
  ["Dumps the document index of a Portable PDB file",
    "",
    "Usage: ppdb_dump [OPTIONS] <PATH>",
    "",
    "Arguments:",
    "  <PATH>  Path to the Portable PDB file",
    "",
    "Options:",
    "      --json                   Print the document index as JSON",
    "  -v, --verbose                Also print sequence points and scopes of every method",
    "      --lookup <TOKEN:OFFSET>  Resolve an IL offset within a method, " ++
      "given as \x60TOKEN:OFFSET\x60, e.g. \x600x06000001:0x10\x60",
    "  -h, --help                   Print help"]

def Stop.outcome : Stop → Outcome
  | help => .ofLines helpLines
  | misuse e => .usage e

def answer (file : File) (r : Request) : Outcome :=
  match r.lookup with
  | some query =>
    match file.lookup query with
    | .ok lines => .ofLines lines
    | .error e => .failure e.message
  | none =>
    if r.json then .ofLines [file.documentsJson.pretty] else .ofLines (file.lines r.verbose)

/-- Answers a request about a file with these contents, or none if it cannot be read. -/
def run (contents : Option ByteArray) (r : Request) : Outcome :=
  match File.load contents with
  | .ok file => answer file r
  | .error e => .failure e.message

end PortablePdb.Command
