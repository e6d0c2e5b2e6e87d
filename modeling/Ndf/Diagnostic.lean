/-
# Diagnostics

`SPEC_FULL.md` §6 for the categories, §7 for the policy.

Reading a source never fails.  A problem is recorded as a `Diagnostic` and reading goes on, so one
broken declaration does not hide the rest.  A `Cause` is the reason of a diagnostic; `Cause.kind`
sorts it into a category and `Cause.message` words it.
-/

import Ndf.Span
import Ndf.Text.Quoted

namespace Ndf

namespace Diagnostic

/-- The category of a diagnostic. -/
inductive Kind where
  /-- A delimited comment that is never closed. -/
  | unterminatedComment
  /-- A string literal that is not closed on its line. -/
  | unterminatedString
  /-- A brace comment or guid payload that is never closed. -/
  | unterminatedBraceBody
  /-- One thing was required and another was found. -/
  | unexpectedToken
  /-- Nothing the grammar knows starts here. -/
  | unrecoverableFragment
deriving DecidableEq, Repr

namespace Kind

/-- All categories. -/
def all : List Kind :=
  [.unterminatedComment, .unterminatedString, .unterminatedBraceBody, .unexpectedToken,
    .unrecoverableFragment]

/-- The name of a category in messages. -/
def label : Kind → String
  | .unterminatedComment => "unterminated-comment"
  | .unterminatedString => "unterminated-string"
  | .unterminatedBraceBody => "unterminated-brace-body"
  | .unexpectedToken => "unexpected-token"
  | .unrecoverableFragment => "unrecoverable-fragment"

/-- Whether problems of this category are found in single tokens, before any grammar applies. -/
def isLexical : Kind → Bool
  | .unterminatedComment | .unterminatedString | .unterminatedBraceBody => true
  | .unexpectedToken | .unrecoverableFragment => false

end Kind

/-- Why a diagnostic was recorded.  `found` is the name of the token in the way. -/
inductive Cause where
  /-- A delimited comment without its closing mark. -/
  | unclosedComment (mark : String)
  /-- A brace comment without its closing brace. -/
  | unclosedBrace
  /-- A guid payload without its closing brace. -/
  | unclosedPayload
  /-- A string without its closing quote. -/
  | unclosedString (quote : Char)
  /-- A hexadecimal number without digits. -/
  | missingHexDigits
  /-- A character that no token starts with, where an expression was due. -/
  | strayCharacter (c : Char)
  /-- Something else than what was due. -/
  | expected (due found : String)
  /-- Nothing that starts an expression. -/
  | noExpression (found : String)
  /-- Nothing that starts an object member. -/
  | noMember (found : String)
  /-- A comma between the members of an object, which have no separator. -/
  | strayComma
  /-- An entry of a map that is no pair. -/
  | noPair (found : String)
  /-- A fragment below the last level of nesting. -/
  | tooDeep (limit : Nat)
deriving DecidableEq, Repr

namespace Cause

/-- The category of a cause. -/
def kind : Cause → Kind
  | .unclosedComment _ => .unterminatedComment
  | .unclosedBrace | .unclosedPayload => .unterminatedBraceBody
  | .unclosedString _ => .unterminatedString
  | .missingHexDigits | .strayCharacter _ | .expected .. | .strayComma | .noPair _ =>
    .unexpectedToken
  | .noExpression _ | .noMember _ | .tooDeep _ => .unrecoverableFragment

/-- The wording of a cause. -/
def message : Cause → String
  | .unclosedComment mark => "unterminated comment, expected '" ++ mark ++ "'"
  | .unclosedBrace => "unterminated '\x7b' comment, expected '\x7d'"
  | .unclosedPayload => "unterminated guid body, expected '\x7d'"
  | .unclosedString quote => "unterminated string literal, expected " ++ quote.toString
  | .missingHexDigits => "expected hex digits after '0x'"
  | .strayCharacter c => "unexpected character " ++ Text.quotedChar c
  | .expected due found => "expected " ++ due ++ ", found " ++ found
  | .noExpression found => "expected an expression, found " ++ found
  | .noMember found => "expected an object member, found " ++ found
  | .strayComma => "unexpected ',' between object members"
  | .noPair found => "expected a (key, value) pair, found " ++ found
  | .tooDeep limit => "nesting deeper than " ++ toString limit ++ " levels"

end Cause

end Diagnostic

/-- A problem found in a source text: where, what and of which category. -/
structure Diagnostic where
  span : Span
  message : String
  kind : Diagnostic.Kind
deriving DecidableEq, Repr

namespace Diagnostic

/-- The diagnostic for a cause at a place. -/
def ofCause (cause : Cause) (span : Span) : Diagnostic := ⟨span, cause.message, cause.kind⟩

/-- One line for a reader: category, line, column and message. -/
def display (d : Diagnostic) : String :=
  d.kind.label ++ " at " ++ toString d.span.line ++ ":" ++ toString d.span.column ++ ": " ++
    d.message

end Diagnostic

end Ndf
