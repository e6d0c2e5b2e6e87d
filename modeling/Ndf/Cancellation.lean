/-
# Calling off

The cancellation flag of `SPEC_FULL.md` §5 and E3.

Flags by which a running parse is called off.  A flag can be copied, and all copies of one are
raised together; once raised, a flag stays so.
-/

namespace Ndf

/-- Flags in the order of their making.  Copies share a cell, and a cell is raised or not. -/
structure Flags where
  /-- The cell of each flag. -/
  cells : List Nat := []
  /-- Whether each cell is raised. -/
  raised : List Bool := []
deriving DecidableEq, Repr

namespace Flags

/-- Adds a flag of its own, not raised. -/
def fresh (f : Flags) : Flags := ⟨f.cells ++ [f.raised.length], f.raised ++ [false]⟩

/-- Adds a copy of the last flag, if there is one. -/
def copy (f : Flags) : Flags := { f with cells := f.cells ++ f.cells.getLast?.toList }

/-- Raises a flag and with it all its copies. -/
def raise (f : Flags) (i : Nat) : Flags :=
  match f.cells[i]? with
  | some cell => { f with raised := f.raised.set cell true }
  | none => f

/-- Whether each flag is raised. -/
def states (f : Flags) : List Bool := f.cells.map fun cell => f.raised.getD cell false

end Flags

end Ndf
