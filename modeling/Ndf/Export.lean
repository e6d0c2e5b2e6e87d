/-
# Exports

`SPEC_FULL.md` E6, the functions on exports.

A parsed source as MessagePack, for tools that want the tree and not the text.
-/

import Ndf.Export.Read
import Ndf.Export.Write

namespace Ndf
namespace Export

open MessagePack (Bytes)

/-- The bytes of a parsed source. -/
def toBytes (p : Parsed) : Bytes := MessagePack.encode (Write.parsed p)

/-- The parsed source that bytes start with, if they do.  What follows it is passed over. -/
def ofBytes? (bytes : Bytes) : Option Parsed := do
  let (v, _) ← MessagePack.decode bytes
  Read.parsed (.levels (maxLevels - 1)) v

/-- Whether reading brings back what writing was given.  Exports name every part of what they hold,
so two are compared by their bytes. -/
def returns (p : Parsed) : Bool := (ofBytes? (toBytes p)).any fun q => toBytes q == toBytes p

/-- Reads an export, or fails. -/
def ofBytes (bytes : Bytes) : Except Failure Parsed :=
  match ofBytes? bytes with
  | some p => .ok p
  | none => .error ⟨.serialization "not an export", none⟩

end Export
end Ndf
