import PortablePdb.Guid

/-!
The source languages that documents name, each by an identifier of its own. Any other
identifier stands for an unknown language.
-/

namespace PortablePdb

inductive Language
  | csharp
  | visualBasic
  | fsharp
  | unknown
  deriving DecidableEq

namespace Language

def csharpGuid : Guid := ⟨0x3f5162f8, 0x07c6, 0x11d3, 0x905300c04fa302a1⟩

def visualBasicGuid : Guid := ⟨0x3a12d0b8, 0xc26c, 0x11d0, 0xb44200a0244a1dd2⟩

def fsharpGuid : Guid := ⟨0xab4f38c9, 0xb6e6, 0x43ba, 0xbe3b58080b2ccce3⟩

def guid? : Language → Option Guid
  | csharp => some csharpGuid
  | visualBasic => some visualBasicGuid
  | fsharp => some fsharpGuid
  | unknown => none

def ofGuid (g : Guid) : Language :=
  if g = csharpGuid then csharp
  else if g = visualBasicGuid then visualBasic
  else if g = fsharpGuid then fsharp
  else unknown

instance : Inhabited Language := ⟨unknown⟩

def all : List Language := [csharp, visualBasic, fsharp, unknown]

def name : Language → String
  | csharp => "C#"
  | visualBasic => "Visual Basic"
  | fsharp => "F#"
  | unknown => "unknown"

/-- The name in machine-readable output. -/
def tag : Language → String
  | csharp => "CSharp"
  | visualBasic => "VisualBasic"
  | fsharp => "FSharp"
  | unknown => "Unknown"

theorem ofGuid_guid {l : Language} {g : Guid} (h : l.guid? = some g) : ofGuid g = l := by
  cases l <;> simp only [guid?, Option.some.injEq, reduceCtorEq] at h <;> subst h <;> decide

end Language

end PortablePdb
