/-
# Sources and exports in files

`SPEC_FULL.md` E6, the check of a file and the exports to and from files.

Reading a source from a file, and exports to and from files.  Each refusal of the disk becomes a
failure that names the file.
-/

import Ndf.Export
import Ndf.Files.Disk
import Ndf.Report

namespace Ndf

/-- The failure of an attempt at a file. -/
def Failure.ofFile (attempt name : String) (e : SystemError) : Failure :=
  ⟨.io ("failed to " ++ attempt ++ " '" ++ name ++ "': " ++ e.message), none⟩

namespace Disk

variable {m : Type → Type} [Monad m]

/-- Reads a source file.  A failure tells where it arose. -/
def report (disk : Disk m) (name : String) : m (Except Failure Report) := do
  let place : Whereabouts := { source := some name }
  match ← disk.read name with
  | .error (.opening e) | .error (.reading e) =>
    return .error ((Failure.ofFile "read" name e).locate place)
  | .ok bytes =>
    match Text.decode bytes with
    | .ok source => return .ok (.ofSource name source)
    | .error validUpTo => return .error ⟨.invalidEncoding validUpTo, some place⟩

/-- Writes an export to a file. -/
def saveExport (disk : Disk m) (name : String) (p : Parsed) : m (Except Failure Unit) := do
  match ← disk.write name ⟨(Export.toBytes p).toArray⟩ with
  | .ok () => return .ok ()
  | .error (.creating e) => return .error (.ofFile "create file" name e)
  | .error (.writing e) => return .error (.ofFile "write to file" name e)

/-- Reads an export from a file. -/
def loadExport (disk : Disk m) (name : String) : m (Except Failure Parsed) := do
  match ← disk.read name with
  | .ok bytes => return Export.ofBytes bytes.data.toList
  | .error (.opening e) => return .error (.ofFile "open file" name e)
  | .error (.reading e) => return .error (.ofFile "read file" name e)

end Disk

end Ndf
