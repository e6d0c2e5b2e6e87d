/-
# The program

The command line on real files and the standard streams.  This is the only module that does any
input or output; what it reads goes to `CommandLine` and `Dialogue`, and what these answer is
printed.
-/

import Ndf.CommandLine

namespace Ndf
namespace Console

/-- The system's answer in an error. -/
def refusal (e : IO.Error) : SystemError :=
  match e with
  | .noFileOrDirectory .. => .notFound
  | .inappropriateType _ 20 _ => .notDirectory
  | .inappropriateType _ 21 _ => .isDirectory
  | .invalidArgument _ 36 _ => .nameTooLong
  | .permissionDenied _ code details => .other (numbered code details)
  | .alreadyExists _ code details => .other (numbered code details)
  | .invalidArgument _ code details => .other (numbered code details)
  | .resourceExhausted _ code details => .other (numbered code details)
  | .inappropriateType _ code details => .other (numbered code details)
  | .resourceBusy code details => .other (numbered code details)
  | .hardwareFault code details => .other (numbered code details)
  | .otherError code details => .other (numbered code details)
  | e => .other (toString e)
where
  numbered (code : UInt32) (details : String) : String :=
    details ++ " (os error " ++ toString code ++ ")"

/-- Opens a file. -/
def opened (name : String) (mode : IO.FS.Mode) : IO (Except SystemError IO.FS.Handle) := do
  if name.contains (Char.ofNat 0) then return .error .nulInName
  match ← (IO.FS.Handle.mk name mode).toBaseIO with
  | .ok handle => return .ok handle
  | .error e => return .error (refusal e)

/-- The files of the system. -/
def disk : Disk IO where
  read name := do
    match ← opened name .read with
    | .error e => return .error (.opening e)
    | .ok handle =>
      match ← handle.readBinToEnd.toBaseIO with
      | .ok content => return .ok content
      | .error e => return .error (.reading (refusal e))
  write name content := do
    match ← opened name .write with
    | .error e => return .error (.creating e)
    | .ok handle =>
      match ← (handle.write content *> handle.flush).toBaseIO with
      | .ok () => return .ok ()
      | .error e => return .error (.writing (refusal e))

/-- Prints an output.  There is no recall. -/
def print : Output → IO Unit
  | .out text => do
    let stdout ← IO.getStdout
    stdout.putStr text
    stdout.flush
  | .err text => do (← IO.getStderr).putStr text
  | .remember _ => return ()

/-- Holds a dialogue with the standard input, behind the lines of an unfinished input. -/
partial def converse (d : Dialogue) (before : List Char) : IO Unit := do
  let line ← (← IO.getStdin).getLine
  if line.isEmpty then return
  match Stream.gather before line.toList with
  | .inr before => converse d before
  | .inl input =>
    let (next, outputs) ← d.step disk (.line input)
    outputs.forM print
    if let some d := next then converse d []

/-- Holds a dialogue from the welcome to the end of the standard input. -/
def talk (look : Dialogue.Look) : IO (List Output) := do
  (Dialogue.welcome look).forM print
  converse {} []
  return Dialogue.farewell

end Console
end Ndf

/-- Runs the program. -/
def main (args : List String) : IO UInt32 := do
  let run ← Ndf.CommandLine.runWith Ndf.Console.disk Ndf.Console.talk args
  run.outputs.forM Ndf.Console.print
  return run.status.toUInt32
