import PortablePdb.Guid

/-!
The algorithms that the checksum of a document may be computed with, each named by an
identifier of its own. Any other identifier stands for an unknown algorithm.
-/

namespace PortablePdb

inductive HashAlgorithm
  | sha1
  | sha256
  | unknown
  deriving DecidableEq

namespace HashAlgorithm

def sha1Guid : Guid := ⟨0xff1816ec, 0xaa5e, 0x4d10, 0x87f76f4963833460⟩

def sha256Guid : Guid := ⟨0x8829d00f, 0x11b8, 0x4213, 0x878b770e8597ac16⟩

def guid? : HashAlgorithm → Option Guid
  | sha1 => some sha1Guid
  | sha256 => some sha256Guid
  | unknown => none

def ofGuid (g : Guid) : HashAlgorithm :=
  if g = sha1Guid then sha1
  else if g = sha256Guid then sha256
  else unknown

instance : Inhabited HashAlgorithm := ⟨unknown⟩

def all : List HashAlgorithm := [sha1, sha256, unknown]

def name : HashAlgorithm → String
  | sha1 => "SHA1"
  | sha256 => "SHA256"
  | unknown => "unknown"

/-- The name in machine-readable output. -/
def tag : HashAlgorithm → String
  | sha1 => "Sha1"
  | sha256 => "Sha256"
  | unknown => "Unknown"

theorem ofGuid_guid {a : HashAlgorithm} {g : Guid} (h : a.guid? = some g) :
    ofGuid g = a := by
  cases a <;> simp only [guid?, Option.some.injEq, reduceCtorEq] at h <;> subst h <;> decide

end HashAlgorithm

end PortablePdb
