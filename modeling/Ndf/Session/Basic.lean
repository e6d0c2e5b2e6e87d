/-
# Sessions

`SPEC_FULL.md` E6, the interactive session.

A session remembers the last source that it was given, as an input or from a file; commands
without an argument are about that.  `Session.eval` answers one input.  Nothing but a source and a
file that could be read changes what is remembered.
-/

import Ndf.Files.Source
import Ndf.Session.Command
import Ndf.Tree.Dump
import Ndf.Tree.Layout

namespace Ndf

/-- One line about an expression. -/
def Expr.describe : Expr → String
  | .object o => "object " ++ o.typeName.text
  | .reference r => "reference " ++ r.path
  | e => e.typeName

/-- One line about a template. -/
def Template.describe (t : Template) : String :=
  "template " ++ t.name.text ++ " (" ++ toString t.params.length ++ " params)"

/-- One line about an assignment. -/
def Assignment.describe (a : Assignment) : String := a.name.text ++ " is " ++ a.value.describe

/-- One line about an item. -/
def Item.describe : Item → String
  | .assignment a => a.describe
  | .visibility v =>
    v.modifier.spelling ++ " " ++
      match v.declaration with
      | .assignment a => a.describe
      | .template t => t.describe
  | .template t => t.describe
  | .unnamed u => "unnamed object " ++ u.object.typeName.text
  | .member m => "member " ++ m.name.text
  | .expr e => e.describe
  | .error e => "error " ++ Text.quoted e.text

/-- What a session remembers. -/
structure Session where
  /-- The last source that was read. -/
  last : Option Parsed := none

namespace Session

/-- The failure of a command. -/
def refuse (message : String) : Failure := ⟨.internal message, none⟩

/-- What a command is about: its argument, or what is remembered. -/
def target (s : Session) (source : String) : Except Failure Parsed :=
  if source ≠ "" then .ok (parse source)
  else
    match s.last with
    | some p => .ok p
    | none => .error (refuse "nothing parsed yet")

/-- The answer to a source: its problems and a line about each item. -/
def answer (source : String) (p : Parsed) : String :=
  String.join (p.diagnostics.map (Diagnostic.render "<input>" source)) ++
    String.join (p.document.items.map fun i => i.describe ++ "\n")

variable {m : Type → Type} [Monad m]

/-- Reads a source file and remembers it. -/
def load (disk : Disk m) (s : Session) (path : String) : m (Session × Except Failure String) := do
  if path = "" then return (s, .error (refuse ":load needs a path"))
  else
    match ← disk.report path with
    | .ok report => return (⟨some report.parsed⟩, .ok (report.render ++ report.summary))
    | .error e => return (s, .error e)

/-- Exports what is remembered. -/
def save (disk : Disk m) (s : Session) (path : String) : m (Except Failure String) := do
  if path = "" then return .error (refuse ":save needs a path")
  else
    match s.target "" with
    | .error e => return .error e
    | .ok p =>
      match ← disk.saveExport path p with
      | .ok () =>
        return .ok ("saved " ++ toString p.document.items.length ++ " items to " ++ path)
      | .error e => return .error e

/-- Does what a command asks for. -/
def run (disk : Disk m) (s : Session) : Command → m (Session × Except Failure String)
  | .source source =>
    let p := parse source
    return (⟨some p⟩, .ok (answer source p))
  | .help => return (s, .ok Command.helpText)
  | .tree source => return (s, (s.target source).map fun p => p.document.dump)
  | .format source => return (s, (s.target source).map fun p => p.document.format {})
  | .references source =>
    return (s, (s.target source).map fun p =>
      String.intercalate "\n" (p.document.references.map Reference.path))
  | .load path => load disk s path
  | .save path => return (s, ← save disk s path)
  | .unknown name => return (s, .error (refuse ("unknown command ':" ++ name ++ "', try :help")))

/-- Answers an input. -/
def eval (disk : Disk m) (s : Session) (input : String) : m (Session × Except Failure String) :=
  run disk s (.ofInput input)

end Session

end Ndf
