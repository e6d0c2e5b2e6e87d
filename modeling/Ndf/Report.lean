/-
# Reports

`SPEC_FULL.md` E6, the report of a file and the rendering of a diagnostic.

A source with its name and parse, and how its problems are shown: a header with the place and the
message, the line of the source, and carets under the part of that line that the span covers.
-/

import Ndf.Parser.Document
import Ndf.Tree.Walk

namespace Ndf

/-- Shows a problem: header, source line and carets.  Behind the end of the source there is no line
to show, only the header. -/
def Diagnostic.render (name source : String) (d : Diagnostic) : String :=
  let text := source.toList
  let size := Text.byteSize text
  let header := name ++ ":" ++ toString d.span.line ++ ":" ++ toString d.span.column ++
    ": error[" ++ d.kind.label ++ "]: " ++ d.message ++ "\n"
  let line := Text.sourceLine text d.span
  if line.isEmpty ∧ size ≤ d.span.start then header
  else
    let covered := Text.slice text (min d.span.start size) (min d.span.stop size)
    let width := max (Text.firstLine covered).length 1
    header ++ "    " ++ String.ofList line ++ "\n" ++ "    " ++
      String.ofList (List.replicate (d.span.column - 1) ' ') ++
      String.ofList (List.replicate width '^') ++ "\n"

/-- A source that has been read. -/
structure Report where
  /-- What the source is called. -/
  name : String
  source : String
  parsed : Parsed

namespace Report

/-- Reads a source under a name. -/
def ofSource (name source : String) : Report := ⟨name, source, parse source⟩

/-- Whether the source has problems. -/
def hasErrors (r : Report) : Bool := r.parsed.hasErrors

/-- The number of problems. -/
def errorCount (r : Report) : Nat := r.parsed.diagnostics.length

/-- Shows all problems. -/
def render (r : Report) : String :=
  String.join (r.parsed.diagnostics.map (Diagnostic.render r.name r.source))

/-- One line with the number of items, references and errors. -/
def summary (r : Report) : String :=
  r.name ++ ": " ++ toString r.parsed.document.items.length ++ " items, " ++
    toString r.parsed.document.references.length ++ " references, " ++
    toString r.errorCount ++ (if r.errorCount = 1 then " error" else " errors")

end Report

end Ndf
