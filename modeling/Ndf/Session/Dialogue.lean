/-
# Dialogues

A session that is held line by line.  Lines are gathered until they make a finished input, which is
then answered; a break drops what is unfinished, and the end of the lines ends the dialogue.
-/

import Ndf.Session.Basic

namespace Ndf

/-- The version of the program. -/
def version : String := "0.1.0"

/-- What comes when a line is asked for. -/
inductive Reading where
  | line (text : String)
  /-- The reader breaks off. -/
  | interrupted
  /-- No more lines. -/
  | eof
  | failed (failure : Failure)

/-- What a program does besides computing. -/
inductive Output where
  /-- Text on the standard output. -/
  | out (text : String)
  /-- Text on the standard error. -/
  | err (text : String)
  /-- An input to keep for recall. -/
  | remember (input : String)
deriving DecidableEq, Repr

/-- A failure as it is shown, in red. -/
def Failure.shown (message : String) : Output := .err ("\x1b[31mError: " ++ message ++ "\x1b[0m\n")

/-- A dialogue between two lines. -/
structure Dialogue where
  session : Session := {}
  /-- The lines of an unfinished input. -/
  pending : Option String := none

/-- How a dialogue looks. -/
structure Dialogue.Look where
  banner : Bool := true
  prompt : String := "ndf> "

/-- A whole dialogue. -/
structure Transcript where
  outputs : List Output
  /-- Every prompt that was shown. -/
  prompts : List String
  /-- What the session remembers at the end. -/
  session : Session

namespace Dialogue

/-- The welcome. -/
def bannerText : String :=
  "NDF REPL v" ++ version ++ "\n" ++
    "Type NDF source to parse it, :help for commands, Ctrl+D to exit.\n\n"

/-- What is printed before a dialogue. -/
def welcome (look : Look) : List Output := if look.banner then [.out bannerText] else []

/-- What is printed behind a dialogue. -/
def farewell : List Output := [.out "\n"]

/-- The prompt in front of the next line. -/
def promptFor (look : Look) (d : Dialogue) : String :=
  if d.pending.isSome then "...  " else look.prompt

variable {m : Type → Type} [Monad m]

/-- How an answer is shown: without the white space at its end, or not at all if it is empty. -/
def shown : Except Failure String → List Output
  | .ok "" => []
  | .ok text => [.out (String.ofList (Text.trimEnd text.toList) ++ "\n")]
  | .error e => [Failure.shown e.message]

/-- Takes a finished input.  There is no dialogue behind one that asks to leave. -/
def take (disk : Disk m) (s : Session) (input : String) : m (Option Dialogue × List Output) := do
  if (Text.trim input.toList).isEmpty then return (some ⟨s, none⟩, [])
  else if Command.isQuit input then return (none, [.remember input])
  else
    let (s, answer) ← s.eval disk input
    return (some ⟨s, none⟩, .remember input :: shown answer)

/-- Takes what comes for a line.  There is no dialogue behind the last one. -/
def step (disk : Disk m) (d : Dialogue) : Reading → m (Option Dialogue × List Output)
  | .line text =>
    let input :=
      match d.pending with
      | some before => before ++ "\n" ++ text
      | none => text
    if Input.isComplete input then take disk d.session input
    else return (some { d with pending := some input }, [])
  | .interrupted =>
    let outputs := if d.pending.isSome then [.out "\nInput cancelled.\n"] else []
    return (some { d with pending := none }, outputs)
  | .eof =>
    if d.pending.isSome then
      return (some { d with pending := none },
        [Failure.shown (Session.refuse "unexpected EOF in multi-line input").message])
    else return (none, [])
  | .failed e => return (some { d with pending := none }, [Failure.shown e.message])

/-- Goes through readings until the dialogue ends. -/
def follow (disk : Disk m) (look : Look) (d : Dialogue) : List Reading → m Transcript
  | [] => return ⟨[], [], d.session⟩
  | reading :: rest => do
    let prompt := promptFor look d
    let (next, outputs) ← step disk d reading
    match next with
    | none => return ⟨outputs, [prompt], d.session⟩
    | some d =>
      let t ← follow disk look d rest
      return ⟨outputs ++ t.outputs, prompt :: t.prompts, t.session⟩

/-- Holds a dialogue.  Behind the readings no more lines come, which ends an unfinished input first
and then the dialogue. -/
def hold (disk : Disk m) (look : Look) (readings : List Reading) : m Transcript := do
  let t ← follow disk look {} (readings ++ [.eof, .eof])
  return { t with outputs := welcome look ++ t.outputs ++ farewell }

end Dialogue

end Ndf
