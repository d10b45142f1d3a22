import PortablePdb.Builder.Edit
import PortablePdb.Builder.Image
import PortablePdb.File.Summary
import PortablePdb.Main
import PortablePdb.Reader.Script
import PortablePdb.Proofs.Compression
import PortablePdb.Proofs.SequencePoint.RoundTrip
import PortablePdb.Proofs.File.Parts
import PortablePdb.Proofs.SequencePoint.Resolution
import PortablePdb.Proofs.SequencePoint.Canonical
import PortablePdb.Proofs.SequencePoint.Arithmetic
import PortablePdb.Proofs.File.Methods
import PortablePdb.Proofs.File.Truncation
import PortablePdb.Proofs.Heap.Lasting
import PortablePdb.Proofs.Builder.Additions
import PortablePdb.Proofs.Builder.Changes
import PortablePdb.Proofs.Builder.Description
import PortablePdb.Proofs.Builder.Run
import PortablePdb.Proofs.Builder.Tables
import PortablePdb.Proofs.Builder.Container
import PortablePdb.Proofs.Builder.Scopes
import PortablePdb.Proofs.Builder.Documents
import PortablePdb.Proofs.Builder.RoundTrip
import PortablePdb.Proofs.Builder.Columns
import PortablePdb.Proofs.Builder.ScopeLists
import PortablePdb.Proofs.Builder.Directory
import PortablePdb.Proofs.Builder.Retrieval
import PortablePdb.Proofs.Scope.Rows
import PortablePdb.Proofs.Document.Rows
import PortablePdb.Proofs.File.Streams
import PortablePdb.Proofs.Table.Counts
import PortablePdb.Proofs.Table.Layout
import PortablePdb.Proofs.File.Documents
import PortablePdb.Proofs.File.Scopes
import PortablePdb.Proofs.Exactness
import PortablePdb.Proofs.File.Locality
import PortablePdb.Proofs.File.Tokens
import PortablePdb.Proofs.CompressedSequence
import PortablePdb.Proofs.Cursor.Limits
import PortablePdb.Proofs.Directory
import PortablePdb.Proofs.File.ScopeOwners
import PortablePdb.Proofs.File.Rejection
import PortablePdb.Proofs.Command.Lookup
import PortablePdb.Proofs.Heap.DocumentName
import PortablePdb.Proofs.File.Heaps
import PortablePdb.Proofs.Builder.DocumentNames
import PortablePdb.Proofs.File.MethodLookup
import PortablePdb.Proofs.File.Accessors
