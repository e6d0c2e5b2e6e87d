/-
# Tokens

`SPEC_FULL.md` §4.1, "Scanner"; "immediate adjacency" is defined in its glossary.

The lexical units of a source text.  A token keeps what the grammar needs: its kind with the text
it carries, its span, and whether it is *joined*, that is, nothing stands between it and the token
before.  Several forms (`Name[`, `A/B`, `A.B`) differ from looser ones in that flag alone.
-/

import Ndf.Span
import Ndf.Word

namespace Ndf

/-- The notation of a number. -/
inductive NumberKind where
  /-- Digits. -/
  | decimal
  /-- Hexadecimal digits behind `0x`. -/
  | hex
  /-- Digits around a point. -/
  | float
deriving DecidableEq, Repr

/-- The quote marks of a string. -/
inductive Quote where
  | double
  | single
deriving DecidableEq, Repr

/-- The mark itself. -/
def Quote.char : Quote → Char
  | .double => '"'
  | .single => '\''

/-- The four notations of a comment. -/
inductive CommentKind where
  /-- From `//` to the end of the line. -/
  | line
  /-- Between `/*` and `*/`. -/
  | block
  /-- Between `(*` and `*)`. -/
  | round
  /-- Between balanced braces. -/
  | brace
deriving DecidableEq, Repr

/-- What is wrong with a token that cannot be read. -/
inductive LexError where
  /-- A string that is not closed on its line. -/
  | unterminatedString
  /-- A guid payload that is never closed. -/
  | unterminatedBrace
  /-- `0x` without a digit behind it. -/
  | missingHexDigits
  /-- A character that starts no token. -/
  | unexpectedChar (c : Char)
deriving DecidableEq, Repr

/-- Whether tokenizing records a diagnostic for it.  A stray character is left to the grammar. -/
def LexError.isReported : LexError → Bool
  | .unexpectedChar _ => false
  | _ => true

/-- The kinds of token, with the text they carry. -/
inductive TokenKind where
  | lparen | rparen | lbracket | rbracket | comma | colon
  | eq | question | lt | gt | ltEq | gtEq | eqEq | notEq | bang
  | plus | minus | star | percent | amp | pipe
  | slash | dot | tilde | dollar
  /-- A word and its class. -/
  | word (text : String) (wordClass : WordClass)
  /-- A number as it is written. -/
  | number (kind : NumberKind) (text : String)
  /-- A string; the body is kept raw, escapes included. -/
  | string (quote : Quote) (raw : String)
  /-- The payload behind `guid:`, without its braces. -/
  | guidBody (raw : String)
  | comment (kind : CommentKind)
  /-- The end of the source. -/
  | eof
  | error (error : LexError)
deriving DecidableEq, Repr

namespace TokenKind

/-- Whether the grammar passes over the token. -/
def isTrivia : TokenKind → Bool
  | .comment _ => true
  | _ => false

/-- What messages call a token of this kind. -/
def name : TokenKind → String
  | .lparen => "'('"
  | .rparen => "')'"
  | .lbracket => "'['"
  | .rbracket => "']'"
  | .comma => "','"
  | .colon => "':'"
  | .eq => "'='"
  | .question => "'?'"
  | .lt => "'<'"
  | .gt => "'>'"
  | .ltEq => "'<='"
  | .gtEq => "'>='"
  | .eqEq => "'=='"
  | .notEq => "'!='"
  | .bang => "'!'"
  | .plus => "'+'"
  | .minus => "'-'"
  | .star => "'*'"
  | .percent => "'%'"
  | .amp => "'&'"
  | .pipe => "'|'"
  | .slash => "'/'"
  | .dot => "'.'"
  | .tilde => "'~'"
  | .dollar => "'$'"
  | .word _ (.keyword _) => "keyword"
  | .word .. => "identifier"
  | .number .. => "number"
  | .string .. => "string"
  | .guidBody _ => "guid body"
  | .comment _ => "comment"
  | .eof => "end of input"
  | .error _ => "invalid token"

/-- The class of a word token. -/
def wordClass? : TokenKind → Option WordClass
  | .word _ c => some c
  | _ => none

/-- The keyword that a word token spells. -/
def keyword? (kind : TokenKind) : Option Keyword := kind.wordClass?.bind WordClass.keyword?

/-- Whether the token is a word, of any class. -/
def isWord (kind : TokenKind) : Bool := kind.wordClass?.isSome

end TokenKind

/-- A token of a source text. -/
structure Token where
  kind : TokenKind
  span : Span
  /-- Neither white space nor a comment stands between this token and the one before. -/
  joined : Bool
deriving DecidableEq, Repr

end Ndf
