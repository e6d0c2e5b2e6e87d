/-
# Completing words

The words offered while a line is typed: those that start with what stands between the last
separator and the cursor.
-/

import Ndf.Text.Blank
import Ndf.Text.Slice

namespace Ndf
namespace Completion

/-- The words on offer: declarations, literals and operators, types, and commands. -/
def words : List String :=
  ["export", "private", "public", "template", "unnamed", "is",
   "nil", "true", "false", "div", "GUID:\x7b",
   "bool", "string", "int", "float", "TGuid", "int2", "int3", "int4", "float2", "float3",
   "float4", "RGBA", "Vector", "IFTE", "Pair", "MAP",
   ":help", ":tree", ":fmt", ":refs", ":load", ":save", ":quit"]

/-- Whether a character ends a word: white space, brackets, a comma or an equals sign. -/
def isSeparator (c : Char) : Bool := Text.isBlank c || "()[]<>,=".toList.contains c

/-- The text behind the last separator. -/
def lastWord (text : List Char) : List Char := (text.reverse.takeWhile (!isSeparator ·)).reverse

/-- The words that start with a non-empty text. -/
def candidates (word : List Char) : List String :=
  words.filter fun w => !word.isEmpty && word.isPrefixOf w.toList

/-- The byte where a word to complete starts: the byte behind the first of its separator. -/
def start (before : List Char) : Nat :=
  match before.reverse.dropWhile (!isSeparator ·) with
  | [] => 0
  | _ :: rest => Text.byteSize rest + 1

/-- The start of the word in front of a byte offset and the words that complete it.  There is no
answer if the offset or the start lies inside a character; the start does behind a separator of
more than one byte. -/
def complete (line : String) (offset : Nat) : Option (Nat × List String) := do
  let before ← Text.takeBytes offset line.toList
  let word ← Text.slice? before (start before) offset
  some (start before, candidates word)

end Completion
end Ndf
