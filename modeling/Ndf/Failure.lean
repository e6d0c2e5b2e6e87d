/-
# Failures

`SPEC_FULL.md` E1, the categorised failures and their context.

What stops an operation outright.  A malformed source does not: its problems are diagnostics and
travel with the tree.  `Fault.message` words each cause; a `Failure` may also say where it arose.
-/

namespace Ndf

/-- Why an operation failed. -/
inductive Fault where
  /-- A source that had to be free of problems has one. -/
  | malformed (message : String) (line column : Nat) (sourceLine : String)
  /-- Bytes that are not UTF-8 behind the given number of bytes that are. -/
  | invalidEncoding (validUpTo : Nat)
  /-- The operation was called off. -/
  | cancelled
  /-- A file could not be read or written. -/
  | io (message : String)
  /-- Bytes that are no export. -/
  | serialization (message : String)
  | internal (message : String)
deriving DecidableEq, Repr

/-- The wording of a fault. -/
def Fault.message : Fault → String
  | .malformed message line column _ =>
    "parse error at " ++ toString line ++ ":" ++ toString column ++ ": " ++ message
  | .invalidEncoding n => "invalid UTF-8 in input after byte " ++ toString n
  | .cancelled => "operation cancelled"
  | .io message => "I/O error: " ++ message
  | .serialization message => "serialization error: " ++ message
  | .internal message => "internal error: " ++ message

/-- Where a failure arose. -/
structure Whereabouts where
  source : Option String := none
  /-- The line and column. -/
  position : Option (Nat × Nat) := none
deriving DecidableEq, Repr

/-- The wording of a place.  A position says nothing without a source. -/
def Whereabouts.display (w : Whereabouts) : String :=
  match w.source, w.position with
  | none, _ => ""
  | some source, none => "at " ++ source
  | some source, some (line, column) =>
    "at " ++ source ++ ":" ++ toString line ++ ":" ++ toString column

/-- A failed operation. -/
structure Failure where
  fault : Fault
  whereabouts : Option Whereabouts := none
deriving DecidableEq, Repr

namespace Failure

/-- The wording of a failure. -/
def message (f : Failure) : String := f.fault.message

/-- The failure at a place. -/
def locate (f : Failure) (w : Whereabouts) : Failure := { f with whereabouts := some w }

/-- Whether the operation was called off. -/
def isCancelled (f : Failure) : Bool :=
  match f.fault with
  | .cancelled => true
  | _ => false

end Failure

end Ndf
