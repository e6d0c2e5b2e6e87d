/-
# Unfinished input

Whether an input is worth parsing yet.  It is unfinished if the parser ran out of it inside a
construct, so that more lines may still complete it.
-/

import Ndf.Parser.Document
import Ndf.Text.Blank

namespace Ndf
namespace Input

/-- Splits a text at its first white space, which belongs to neither part. -/
def splitBlank (text : List Char) : List Char × List Char :=
  (text.takeWhile (!Text.isBlank ·), (text.dropWhile (!Text.isBlank ·)).drop 1)

/-- The source in an input: all of it or, in a command, what follows the name. -/
def sourceOf (input : List Char) : List Char :=
  match Text.trimStart input with
  | ':' :: command => (splitBlank command).2
  | _ => input

/-- Whether a diagnostic shows that the input ran out.  `stop` is where it ends, white space
aside. -/
def ranOut (stop : Nat) (d : Diagnostic) : Bool :=
  match d.kind with
  | .unterminatedComment | .unterminatedBraceBody => true
  | .unexpectedToken => stop ≤ d.span.start
  | .unterminatedString | .unrecoverableFragment => false

/-- Whether an input is finished. -/
def isComplete (input : String) : Bool :=
  let source := sourceOf input.toList
  let stop := Text.byteSize (Text.trimEnd source)
  !(parse (String.ofList source)).diagnostics.any (ranOut stop)

end Input
end Ndf
