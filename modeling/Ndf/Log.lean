/-
# Logs

`SPEC_FULL.md` E2, the events and their levels.

What a check reports to a log: the events of the parse and one when it is done.
-/

import Ndf.Report

namespace Ndf
namespace Log

/-- How important an event is. -/
inductive Level where
  | trace | debug | info
deriving DecidableEq, Repr

/-- The form of log lines. -/
inductive Format where
  | text | json
deriving DecidableEq, Repr

/-- The form of a name; text, unless the name is that of the other, in any letter case. -/
def Format.ofName (name : String) : Format := if Word.lower name = "json" then .json else .text

/-- An event of a check. -/
inductive Event where
  | parse (event : ParseEvent)
  /-- A source has been checked. -/
  | source (items diagnostics errorNodes : Nat)
  /-- A file has been checked. -/
  | file (path : String) (diagnostics : Nat)
deriving DecidableEq, Repr

namespace Event

/-- How important an event is. -/
def level : Event → Level
  | .parse (.item ..) => .trace
  | .parse _ | .source .. => .debug
  | .file .. => .info

/-- The wording of an event. -/
def message : Event → String
  | .parse (.item ..) => "parsed top-level item"
  | .parse (.recoveredItem _) => "recovered from malformed item"
  | .parse (.recoveredEntry _) => "recovered from malformed object entry"
  | .parse (.skipped _) => "skipped fragment nested too deep"
  | .parse (.cancelled _) => "parse cancelled"
  | .source .. => "checked source"
  | .file .. => "checked file"

end Event

/-- The events of checking a source. -/
def ofSource (source : String) : List Event :=
  let p := parse source
  (runParse {} source).events.map .parse ++
    [.source p.document.items.length p.diagnostics.length p.document.errorCount]

/-- The events of checking a file with the given content. -/
def ofFile (path source : String) : List Event :=
  (runParse {} source).events.map .parse ++ [.file path (parse source).diagnostics.length]

end Log
end Ndf
