/-
# The command line

`SPEC_FULL.md` E3, the command line, and E6, the file check.

What the arguments ask for: to show a text, to check files, or to hold a dialogue.  Checking prints
the problems and a summary of each file on the standard error, and trees and canonical texts on
the standard output.  The exit status is 0 if all is well, 1 if a file has problems and 2 if
something failed.
-/

import Ndf.Session.Stream

namespace Ndf
namespace CommandLine

/-- What the arguments say. -/
structure Config where
  /-- The files to check, in order. -/
  files : List String := []
  batch : Bool := false
  help : Bool := false
  version : Bool := false
  quiet : Bool := false
  tree : Bool := false
  format : Bool := false
  /-- Where to export to. -/
  emit : Option String := none
deriving DecidableEq, Repr

/-- Reads the arguments. -/
def parseArgs (c : Config) : List String → Except String Config
  | [] =>
    if c.emit.isSome ∧ c.files.length ≠ 1 then .error "--emit needs exactly one input file"
    else .ok c
  | "--emit" :: rest =>
    match rest with
    | [] => .error "--emit requires a path"
    | path :: rest => parseArgs { c with emit := some path } rest
  | arg :: rest =>
    match arg with
    | "-h" | "--help" => parseArgs { c with help := true } rest
    | "-V" | "--version" => parseArgs { c with version := true } rest
    | "-b" | "--batch" => parseArgs { c with batch := true } rest
    | "-q" | "--quiet" => parseArgs { c with quiet := true } rest
    | "--tree" => parseArgs { c with tree := true } rest
    | "--fmt" => parseArgs { c with format := true } rest
    | _ =>
      if arg.toList.head? = some '-' then .error ("unknown option: " ++ arg)
      else parseArgs { c with files := c.files ++ [arg] } rest

/-- What to do. -/
inductive Action where
  /-- Print a text. -/
  | print (text : String)
  /-- Check the files. -/
  | check
  /-- Hold a dialogue. -/
  | talk
deriving DecidableEq, Repr

/-- A headline in bold. -/
def bold (text : String) : String := "\x1b[1m" ++ text ++ "\x1b[0m"

/-- The description of the program. -/
def helpText : String :=
  bold "ndf" ++ " - NDF parser and checker

" ++ bold "USAGE:" ++ "
    ndf [OPTIONS] [FILES...]

" ++ bold "ARGUMENTS:" ++ "
    [FILES...]    Files to check; with none, the REPL starts

" ++ bold "OPTIONS:" ++ "
    -h, --help         Print help information
    -V, --version      Print version information
    -b, --batch        Never start the REPL
    -q, --quiet        No summary lines and no REPL banner
    --tree             Print each file's syntax tree
    --fmt              Print each file in canonical form
    --emit PATH        Export the parse of the single input file as MessagePack

" ++ bold "ENVIRONMENT:" ++ "
    NDF_LOG            Log filter, e.g. debug or ndf_language::parser=trace
    NDF_LOG_FORMAT     text (default) or json

" ++ bold "EXIT STATUS:" ++ "
    0 all files parsed cleanly, 1 diagnostics were reported, 2 fatal error

" ++ bold "EXAMPLES:" ++ "
    ndf                           Start interactive REPL
    ndf units.ndf                 Check units.ndf
    ndf --fmt units.ndf           Print units.ndf in canonical form
    ndf --emit out.msgpack a.ndf  Check a.ndf and export its tree
"

/-- What the arguments ask for. -/
def Config.action (c : Config) : Action :=
  if c.help then .print helpText
  else if c.version then .print ("ndf " ++ Ndf.version ++ "\n")
  else if c.batch ∨ c.files ≠ [] then .check
  else .talk

/-- How the dialogue looks. -/
def Config.look (c : Config) : Dialogue.Look := { banner := !c.quiet }

/-- What is printed about a file. -/
def Config.outputs (c : Config) (r : Report) : List Output :=
  [.err r.render] ++
    (if c.tree then [.out (r.parsed.document.dump ++ "\n")] else []) ++
    (if c.format then [.out (r.parsed.document.format {})] else []) ++
    (if c.quiet then [] else [.err (r.summary ++ "\n")])

/-- What a run prints, and its exit status. -/
structure Run where
  outputs : List Output
  status : Nat
deriving DecidableEq, Repr

/-- The run that ends in a failure after some output. -/
def Run.fatal (before : List Output) (message : String) : Run :=
  ⟨before ++ [Failure.shown message], 2⟩

variable {m : Type → Type} [Monad m]

/-- Exports what was read from a file, if asked to. -/
def emit (disk : Disk m) (c : Config) (r : Report) : m (Except Failure Unit) :=
  match c.emit with
  | none => return .ok ()
  | some path => disk.saveExport path r.parsed

/-- Checks files in order, up to the first that fails.  `clean` says whether those before had no
problem. -/
def checkFiles (disk : Disk m) (c : Config) (clean : Bool) : List String → m Run
  | [] => return ⟨[], if clean then 0 else 1⟩
  | file :: rest => do
    match ← disk.report file with
    | .error e => return .fatal [] e.message
    | .ok report =>
      let outputs := c.outputs report
      match ← emit disk c report with
      | .error e => return .fatal outputs e.message
      | .ok () =>
        let run ← checkFiles disk c (clean && !report.hasErrors) rest
        return { run with outputs := outputs ++ run.outputs }

/-- Runs the program with arguments.  `talk` holds a dialogue and gives what is left to print. -/
def runWith (disk : Disk m) (talk : Dialogue.Look → m (List Output)) (args : List String) :
    m Run :=
  match parseArgs {} args with
  | .error message => return .fatal [] message
  | .ok c =>
    match c.action with
    | .print text => return ⟨[.out text], 0⟩
    | .check => checkFiles disk c true c.files
    | .talk => return ⟨← talk c.look, 0⟩

/-- Runs the program with arguments and a text on its standard input. -/
def run (disk : Disk m) (args : List String) (input : String) : m Run :=
  runWith disk
    (fun look => return (← Dialogue.hold disk look (Stream.readings input)).outputs) args

end CommandLine
end Ndf
