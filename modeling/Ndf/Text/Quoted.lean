/-
# Quoted text

Text shown inside a message is quoted so that the reader can tell every character of it: the four
common controls and the backslash have a short escape, the quote mark itself is escaped, and an
unprintable character is given by its code point in hexadecimal.

| character | written |
| --- | --- |
| NUL, TAB, CR, LF | `\0`, `\t`, `\r`, `\n` |
| the backslash and the quote mark in use | behind a backslash |
| unprintable | `\u` and the code point in braces |
| all else | as it is |
-/

import Ndf.Text.Unprintable

namespace Ndf
namespace Text

/-- The written form of one character between two marks `mark`. -/
def escape (mark c : Char) : List Char :=
  if c = '\x00' then ['\\', '0']
  else if c = '\t' then ['\\', 't']
  else if c = '\r' then ['\\', 'r']
  else if c = '\n' then ['\\', 'n']
  else if c = '\\' ∨ c = mark then ['\\', c]
  else if isUnprintable c then "\\u\x7b".toList ++ Nat.toDigits 16 c.toNat ++ ['\x7d']
  else [c]

/-- A text between two marks. -/
def quotedWith (mark : Char) (text : List Char) : List Char :=
  mark :: text.flatMap (escape mark) ++ [mark]

/-- A text in double quotes. -/
def quoted (text : String) : String := String.ofList (quotedWith '"' text.toList)

/-- A character in single quotes. -/
def quotedChar (c : Char) : String := String.ofList (quotedWith '\'' [c])

example : quoted "a\"\n'" = "\"a\\\"\\n'\"" := by decide +kernel

example : quotedChar '\'' = "'\\''" := by decide +kernel

end Text
end Ndf
