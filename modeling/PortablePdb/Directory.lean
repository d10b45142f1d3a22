import PortablePdb.Reader.Basic

/-!
The start of a file: a root header and the directory of its streams. A stream is a range
of the file with a name, every range lies within the file, and no two streams have one
name.
-/

namespace PortablePdb

def metadataSignature : UInt32 := 0x424A5342

def alignUp (n : Nat) : Nat :=
  (n + 3) / 4 * 4

structure RootHeader where
  signature : UInt32
  majorVersion : UInt16
  minorVersion : UInt16
  /-- The version text before its first zero. -/
  version : String
  flags : UInt16
  streamCount : UInt16
  deriving DecidableEq

structure StreamHeader where
  name : String
  offset : UInt32
  size : UInt32
  deriving DecidableEq

structure Directory where
  root : RootHeader
  streams : Array StreamHeader
  deriving DecidableEq

def hasSignature (data : ByteArray) : Bool :=
  match Reader.u32.run data with
  | .ok signature => signature == metadataSignature
  | .error _ => false

open Reader

def RootHeader.read : Reader RootHeader := do
  let signature ← u32
  if signature ≠ metadataSignature then throw (.malformedHeader .badSignature)
  let majorVersion ← u16
  let minorVersion ← u16
  let _reserved ← u32
  let versionLength ← u32
  let versionField ← bytes versionLength.toNat
  let text := (versionField.data.toList.takeWhile (· ≠ 0)).toByteArray
  let version ← utf8 text (.malformedHeader .versionNotUtf8)
  let flags ← u16
  let streamCount ← u16
  return { signature, majorVersion, minorVersion, version, flags, streamCount }

namespace StreamHeader

def nameLimit : Nat := 32

def start (header : StreamHeader) : Nat :=
  header.offset.toNat

def stop (header : StreamHeader) : Nat :=
  header.offset.toNat + header.size.toNat

/-- The name takes up a multiple of four bytes, at least one of them zero. -/
def read : Reader StreamHeader := do
  let offset ← u32
  let size ← u32
  let text ← nullTerminated
  if nameLimit ≤ text.size then throw (.malformedHeader .streamNameTooLong)
  let name ← utf8 text (.malformedHeader .streamNameNotUtf8)
  skip (alignUp (text.size + 1) - (text.size + 1))
  return { name, offset, size }

def checkWithin (header : StreamHeader) (size : Nat) : Except FormatError Unit :=
  if header.stop ≤ size then .ok ()
  else .error (.outOfBounds header.start header.size.toNat)

def slice (header : StreamHeader) (data : ByteArray) : Except FormatError ByteArray := do
  header.checkWithin data.size
  return data.extract header.start header.stop

end StreamHeader

namespace Directory

def findIn? (streams : Array StreamHeader) (name : String) : Option StreamHeader :=
  streams.find? fun header => header.name == name

def readStreams : (count : Nat) → Array StreamHeader → Reader (Array StreamHeader)
  | 0, streams => pure streams
  | count + 1, streams => do
    let header ← StreamHeader.read
    ofExcept (header.checkWithin (← get).data.size)
    if (findIn? streams header.name).isSome then
      throw (.malformedHeader .duplicateStreamName)
    readStreams count (streams.push header)

/-- Reads the root header and the headers behind it. The cursor is left behind the last
header. -/
def read : Reader Directory := do
  let root ← RootHeader.read
  let streams ← readStreams root.streamCount.toNat #[]
  return { root, streams }

def find? (directory : Directory) (name : String) : Option StreamHeader :=
  findIn? directory.streams name

def require (directory : Directory) (name : String) : Except FormatError StreamHeader :=
  match directory.find? name with
  | some header => .ok header
  | none => .error (.missingStream name)

end Directory

end PortablePdb
