/-
# Commands

`SPEC_FULL.md` E6, the commands of the interactive session.

An input of a session is a command, which starts with a colon, or a source.
-/

import Ndf.Session.Pending

namespace Ndf

/-- What an input asks for. -/
inductive Command where
  /-- To read a source, white space around it included. -/
  | source (text : String)
  | help
  /-- To dump the tree of a source or, if none is given, of the last input. -/
  | tree (source : String)
  /-- To print the canonical text, likewise. -/
  | format (source : String)
  /-- To list the references, likewise. -/
  | references (source : String)
  /-- To read a source file. -/
  | load (path : String)
  /-- To export the last input. -/
  | save (path : String)
  | unknown (name : String)
deriving DecidableEq, Repr

namespace Command

/-- The command of a name with an argument. -/
def named (name argument : String) : Command :=
  match name with
  | "help" | "h" => .help
  | "tree" => .tree argument
  | "fmt" => .format argument
  | "refs" => .references argument
  | "load" => .load argument
  | "save" => .save argument
  | _ => .unknown name

/-- What an input asks for. -/
def ofInput (input : String) : Command :=
  match Text.trim input.toList with
  | ':' :: command =>
    let (name, argument) := Input.splitBlank command
    named (String.ofList name) (String.ofList (Text.trim argument))
  | _ => .source input

/-- The list of commands. -/
def helpText : String :=
  "Enter NDF source to parse it. Commands:
    :tree [source]   Print the syntax tree of source, or of the last input
    :fmt [source]    Print the canonical form
    :refs [source]   List every reference path
    :load PATH       Check a file and make it the last input
    :save PATH       Export the last input as MessagePack
    :help            Show this help
    :quit            Exit (or Ctrl+D)"

/-- Whether an input asks to leave. -/
def isQuit (input : String) : Bool :=
  let text := String.ofList (Text.trim input.toList)
  text == ":quit" || text == ":q"

end Command

end Ndf
