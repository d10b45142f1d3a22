import PortablePdb.TableKind
import PortablePdb.Text.Hex

/-!
What can be wrong with a file. A `FormatError` names the cause and the place, `message`
words it, and `hasCause` tells whether a failure of another kind (text that is not UTF-8,
a file that cannot be opened) lies behind it.
-/

namespace PortablePdb

inductive HeaderFault
  | badSignature
  | versionNotUtf8
  | streamNameTooLong
  | streamNameNotUtf8
  | duplicateStreamName
  deriving DecidableEq

def HeaderFault.hasCause : HeaderFault → Bool
  | versionNotUtf8 => true
  | streamNameNotUtf8 => true
  | _ => false

inductive FormatError
  /-- A read of `length` bytes at `offset`, or a move to `offset`, crosses the end of what
  may be read. -/
  | outOfBounds (offset length : Nat)
  | invalidCompressedInteger (offset : Nat)
  | missingStream (name : String)
  | malformedHeader (fault : HeaderFault)
  | invalidRowIndex (table : TableKind) (row : Nat)
  | invalidGuidIndex (index : UInt32)
  /-- The rows `first` to `stop`, `stop` excluded, are no range of rows of the table. -/
  | inconsistentRange (table : TableKind) (first stop : Nat)
  | unsupportedTable (id : Fin 64)
  /-- The sequence points of the method in this row lie in more than one document. -/
  | crossDocumentMethod (method : Nat)
  | invalidSequencePoint
  | invalidStringData
  | invalidIndexWidth (width : Nat)
  | unreadableFile
  deriving DecidableEq

namespace FormatError

def message : FormatError → String
  | outOfBounds offset length => s!"{length} bytes at offset {offset} are out of bounds"
  | invalidCompressedInteger offset => s!"invalid compressed integer at offset {offset}"
  | missingStream name => s!"file does not contain a {name} stream"
  | malformedHeader _ => "malformed header"
  | invalidRowIndex table row => s!"row index {row} is out of bounds for table {table.name}"
  | invalidGuidIndex index => s!"invalid guid index {index}"
  | inconsistentRange table first stop =>
    s!"inconsistent row range {first}..{stop} in table {table.name}"
  | unsupportedTable id => s!"unsupported table {Hex.literal 2 id}"
  | crossDocumentMethod method => s!"method {method} spans multiple documents"
  | invalidSequencePoint => "invalid sequence point"
  | invalidStringData => "invalid string data"
  | invalidIndexWidth width => s!"invalid index width {width}"
  | unreadableFile => "failed to read file"

def hasCause : FormatError → Bool
  | malformedHeader fault => fault.hasCause
  | invalidStringData => true
  | unreadableFile => true
  | _ => false

end FormatError

end PortablePdb
