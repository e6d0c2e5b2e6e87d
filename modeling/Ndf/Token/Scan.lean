/-
# Cutting one token off a text

`SPEC_FULL.md` §4.1, "Scanner", with the strings, comments and payloads of E5.

`scan` cuts the token at the front of a text that starts with no white space: it returns the kind
of the token, the text it covers, the text left and, if the token is broken, the cause.  Each form
has a small function of its own, and each of these splits its input: what it covers followed by
what it leaves is what it was given (`scan_split`).

| front | form |
| --- | --- |
| `(*` `/*` | comment up to the first `*)` or `*/` |
| `//` | comment up to the end of the line |
| an opening brace | comment, or guid payload behind `guid :`, up to the matching brace |
| a quote mark | string up to the same mark, on one line |
| a digit, or a point and a digit | number |
| an ASCII letter or underscore | word |
| any other character | operator, delimiter or error |
-/

import Ndf.Token
import Ndf.Diagnostic

namespace Ndf

open Diagnostic (Cause)

/-- A token cut off the front of a text. -/
structure Lexeme where
  kind : TokenKind
  /-- The text that the token covers. -/
  text : List Char
  /-- The text behind the token. -/
  rest : List Char
  /-- What is wrong with the token. -/
  problem : Option Cause := none

namespace Lexeme

/-- Puts a character in front of the first part of a split. -/
def push (c : Char) (split : List Char × List Char) : List Char × List Char :=
  (c :: split.1, split.2)

/-- Splits a text behind the first place where `a` and `b` follow each other. -/
def cutBehind (a b : Char) : List Char → Option (List Char × List Char)
  | x :: y :: rest =>
    if x = a ∧ y = b then some ([x, y], rest) else (cutBehind a b (y :: rest)).map (push x)
  | _ => none

/-- Splits a text that follows an opening brace at the brace that matches it, which belongs to
neither part.  Inner braces are balanced, `depth` of them being open, and a backslash takes the
character behind it along, whatever it is. -/
def braceBody (depth : Nat) : List Char → Option (List Char × List Char)
  | [] => none
  | '\\' :: c :: rest => (braceBody depth rest).map fun s => push '\\' (push c s)
  | '\x7b' :: rest => (braceBody (depth + 1) rest).map (push '\x7b')
  | '\x7d' :: rest =>
    match depth with
    | 0 => some ([], rest)
    | depth + 1 => (braceBody depth rest).map (push '\x7d')
  | c :: rest => (braceBody depth rest).map (push c)

/-- Splits a text that follows an opening quote in front of the closing quote, the end of the
line or the end of the text, whichever comes first.  A backslash takes the character behind it
along, whatever it is. -/
def stringBody (mark : Char) : List Char → List Char × List Char
  | [] => ([], [])
  | '\\' :: c :: rest => push '\\' (push c (stringBody mark rest))
  | c :: rest =>
    if c = mark ∨ c = '\n' ∨ c = '\r' then ([], c :: rest)
    else push c (stringBody mark rest)

/-- Whether a character is a hexadecimal digit. -/
def isHexDigit (c : Char) : Bool :=
  c.isDigit || ('a' ≤ c && c ≤ 'f') || ('A' ≤ c && c ≤ 'F')

/-- A comment up to the end of the line. -/
def lineComment (text : List Char) : Lexeme :=
  let stays (c : Char) : Bool := c != '\n' && c != '\r'
  { kind := .comment .line, text := text.takeWhile stays, rest := text.dropWhile stays }

/-- A comment that starts with `c` and `d` and goes on to the first `a b`. -/
def delimitedComment (kind : CommentKind) (a b c d : Char) (body : List Char) : Lexeme :=
  match cutBehind a b body with
  | some (inside, rest) => { kind := .comment kind, text := c :: d :: inside, rest := rest }
  | none =>
    { kind := .comment kind, text := c :: d :: body, rest := []
      problem := some (.unclosedComment (String.ofList [a, b])) }

/-- A comment in braces, from what follows its opening brace. -/
def braceComment (body : List Char) : Lexeme :=
  match braceBody 0 body with
  | some (inside, rest) =>
    { kind := .comment .brace, text := '\x7b' :: inside ++ ['\x7d'], rest := rest }
  | none =>
    { kind := .comment .brace, text := '\x7b' :: body, rest := [], problem := some .unclosedBrace }

/-- A guid payload, from what follows its opening brace. -/
def guidBody (body : List Char) : Lexeme :=
  match braceBody 0 body with
  | some (inside, rest) =>
    { kind := .guidBody (String.ofList inside), text := '\x7b' :: inside ++ ['\x7d'], rest := rest }
  | none =>
    { kind := .error .unterminatedBrace, text := '\x7b' :: body, rest := []
      problem := some .unclosedPayload }

/-- A string, from what follows its opening quote. -/
def string (quote : Quote) (body : List Char) : Lexeme :=
  match stringBody quote.char body with
  | (inside, c :: rest) =>
    if c = quote.char then
      { kind := .string quote (String.ofList inside), text := quote.char :: inside ++ [c],
        rest := rest }
    else
      { kind := .error .unterminatedString, text := quote.char :: inside, rest := c :: rest
        problem := some (.unclosedString quote.char) }
  | (inside, []) =>
    { kind := .error .unterminatedString, text := quote.char :: inside, rest := []
      problem := some (.unclosedString quote.char) }

/-- A number in hexadecimal notation, from what follows `0` and the letter `x`. -/
def hexNumber (x : Char) (rest : List Char) : Lexeme :=
  let digits := rest.takeWhile isHexDigit
  let text := '0' :: x :: digits
  if digits.isEmpty then
    { kind := .error .missingHexDigits, text := text, rest := rest
      problem := some .missingHexDigits }
  else
    { kind := .number .hex (String.ofList text), text := text, rest := rest.dropWhile isHexDigit }

/-- A number in decimal notation, with or without a point. -/
def plainNumber (text : List Char) : Lexeme :=
  let whole := text.takeWhile Char.isDigit
  match text.dropWhile Char.isDigit with
  | '.' :: rest =>
    let all := whole ++ '.' :: rest.takeWhile Char.isDigit
    { kind := .number .float (String.ofList all), text := all, rest := rest.dropWhile Char.isDigit }
  | rest => { kind := .number .decimal (String.ofList whole), text := whole, rest := rest }

/-- A number. -/
def number : List Char → Lexeme
  | '0' :: 'x' :: rest => hexNumber 'x' rest
  | '0' :: 'X' :: rest => hexNumber 'X' rest
  | text => plainNumber text

/-- A word with its class. -/
def word (text : List Char) : Lexeme :=
  let letters := String.ofList (text.takeWhile Word.isPart)
  { kind := .word letters (Word.classify letters), text := text.takeWhile Word.isPart,
    rest := text.dropWhile Word.isPart }

/-- The tokens of two characters, the second of which is an equals sign. -/
def withEquals : Char → Option TokenKind
  | '=' => some .eqEq
  | '!' => some .notEq
  | '<' => some .ltEq
  | '>' => some .gtEq
  | _ => none

/-- The tokens of one character; a character that starts no token is an error. -/
def single : Char → TokenKind
  | '(' => .lparen
  | ')' => .rparen
  | '[' => .lbracket
  | ']' => .rbracket
  | ',' => .comma
  | ':' => .colon
  | '?' => .question
  | '+' => .plus
  | '-' => .minus
  | '*' => .star
  | '%' => .percent
  | '&' => .amp
  | '|' => .pipe
  | '/' => .slash
  | '.' => .dot
  | '~' => .tilde
  | '$' => .dollar
  | '=' => .eq
  | '!' => .bang
  | '<' => .lt
  | '>' => .gt
  | c => .error (.unexpectedChar c)

/-- An operator, a delimiter or a stray character. -/
def symbol (c : Char) (rest : List Char) : Lexeme :=
  match rest, withEquals c with
  | '=' :: rest, some kind => { kind := kind, text := [c, '='], rest := rest }
  | rest, _ => { kind := single c, text := [c], rest := rest }

/-- The token at the front of a text, which is given as its first character and the rest.
`payload` says that `guid :` stands before, so that braces hold a payload and no comment. -/
def scan (payload : Bool) (c : Char) (rest : List Char) : Lexeme :=
  match c, rest with
  | '(', '*' :: body => delimitedComment .round '*' ')' '(' '*' body
  | '/', '*' :: body => delimitedComment .block '*' '/' '/' '*' body
  | '/', '/' :: body => lineComment ('/' :: '/' :: body)
  | '\x7b', body => if payload then guidBody body else braceComment body
  | '"', body => string .double body
  | '\'', body => string .single body
  | c, rest =>
    if c.isDigit || (c == '.' && rest.head?.any Char.isDigit) then number (c :: rest)
    else if Word.isStart c then word (c :: rest)
    else symbol c rest

/-! ### Every form splits its input -/

/-- The mark and what stands in front of it make the text. -/
theorem cutBehind_split {a b : Char} {text inside rest : List Char}
    (h : cutBehind a b text = some (inside, rest)) : inside ++ rest = text := by
  fun_induction cutBehind a b text generalizing inside rest with
  | case1 x y tail hxy =>
    obtain ⟨rfl, rfl⟩ := Prod.mk.inj (Option.some.inj h)
    rfl
  | case2 x y tail _ ih =>
    obtain ⟨⟨u, v⟩, hu, he⟩ := Option.map_eq_some_iff.1 h
    obtain ⟨rfl, rfl⟩ := Prod.mk.inj he
    simp [ih hu]
  | case3 => cases h

/-- So do a body, its brace and the rest. -/
theorem braceBody_split {depth : Nat} {text inside rest : List Char}
    (h : braceBody depth text = some (inside, rest)) : inside ++ '\x7d' :: rest = text := by
  fun_induction braceBody depth text generalizing inside rest with
  | case1 => cases h
  | case2 depth c tail ih =>
    obtain ⟨⟨u, v⟩, hu, he⟩ := Option.map_eq_some_iff.1 h
    obtain ⟨rfl, rfl⟩ := Prod.mk.inj he
    simp [push, ih hu]
  | case3 depth tail ih =>
    obtain ⟨⟨u, v⟩, hu, he⟩ := Option.map_eq_some_iff.1 h
    obtain ⟨rfl, rfl⟩ := Prod.mk.inj he
    simp [ih hu]
  | case4 tail =>
    obtain ⟨rfl, rfl⟩ := Prod.mk.inj (Option.some.inj h)
    rfl
  | case5 tail depth ih =>
    obtain ⟨⟨u, v⟩, hu, he⟩ := Option.map_eq_some_iff.1 h
    obtain ⟨rfl, rfl⟩ := Prod.mk.inj he
    simp [ih hu]
  | case6 depth c tail _ _ _ ih =>
    obtain ⟨⟨u, v⟩, hu, he⟩ := Option.map_eq_some_iff.1 h
    obtain ⟨rfl, rfl⟩ := Prod.mk.inj he
    simp [ih hu]

/-- So do the body of a string and the rest. -/
theorem stringBody_split (mark : Char) (text : List Char) :
    (stringBody mark text).1 ++ (stringBody mark text).2 = text := by
  fun_induction stringBody mark text <;> simp_all [push]

/-- So do a comment up to the end of the line and the rest. -/
theorem lineComment_split (text : List Char) :
    (lineComment text).text ++ (lineComment text).rest = text :=
  List.takeWhile_append_dropWhile

/-- So do a comment between two marks and the rest. -/
theorem delimitedComment_split (kind : CommentKind) (a b c d : Char) (body : List Char) :
    (delimitedComment kind a b c d body).text ++ (delimitedComment kind a b c d body).rest =
      c :: d :: body := by
  unfold delimitedComment
  split
  · rename_i h
    simp [cutBehind_split h]
  · simp

/-- So do one in braces and the rest. -/
theorem braceComment_split (body : List Char) :
    (braceComment body).text ++ (braceComment body).rest = '\x7b' :: body := by
  unfold braceComment
  split
  · rename_i h
    simp [braceBody_split h]
  · simp

/-- So do a payload and the rest. -/
theorem guidBody_split (body : List Char) :
    (guidBody body).text ++ (guidBody body).rest = '\x7b' :: body := by
  unfold guidBody
  split
  · rename_i h
    simp [braceBody_split h]
  · simp

/-- So do a string and the rest. -/
theorem string_split (quote : Quote) (body : List Char) :
    (string quote body).text ++ (string quote body).rest = quote.char :: body := by
  have split := stringBody_split quote.char body
  unfold string
  split
  · rename_i h
    rw [h] at split
    split <;> simp_all
  · rename_i h
    rw [h] at split
    simp_all

/-- So do a number to the base 16 and the rest. -/
theorem hexNumber_split (x : Char) (rest : List Char) :
    (hexNumber x rest).text ++ (hexNumber x rest).rest = '0' :: x :: rest := by
  unfold hexNumber
  simp only
  split
  · rename_i h
    simp [List.isEmpty_iff.1 h]
  · simp [List.takeWhile_append_dropWhile]

/-- So do another number and the rest. -/
theorem plainNumber_split (text : List Char) :
    (plainNumber text).text ++ (plainNumber text).rest = text := by
  have split := List.takeWhile_append_dropWhile (p := Char.isDigit) (l := text)
  unfold plainNumber
  simp only
  split
  · rename_i h
    rw [h] at split
    simpa [List.takeWhile_append_dropWhile] using split
  · exact split

/-- So do any number and the rest. -/
theorem number_split (text : List Char) : (number text).text ++ (number text).rest = text := by
  unfold number
  split
  · exact hexNumber_split ..
  · exact hexNumber_split ..
  · exact plainNumber_split _

/-- So do a word and the rest. -/
theorem word_split (text : List Char) : (word text).text ++ (word text).rest = text :=
  List.takeWhile_append_dropWhile

/-- So do a sign and the rest. -/
theorem symbol_split (c : Char) (rest : List Char) :
    (symbol c rest).text ++ (symbol c rest).rest = c :: rest := by
  unfold symbol
  split <;> rfl

/-- **Nothing is lost:** what a token covers and what it leaves make up the text. -/
theorem scan_split (payload : Bool) (c : Char) (rest : List Char) :
    (scan payload c rest).text ++ (scan payload c rest).rest = c :: rest := by
  unfold scan
  split
  · exact delimitedComment_split ..
  · exact delimitedComment_split ..
  · exact lineComment_split _
  · split
    · exact guidBody_split _
    · exact braceComment_split _
  · exact string_split .double _
  · exact string_split .single _
  · split
    · exact number_split _
    · split
      · exact word_split _
      · exact symbol_split ..

/-- **Every token covers something.** -/
theorem scan_text_ne_nil (payload : Bool) (c : Char) (rest : List Char) :
    (scan payload c rest).text ≠ [] := by
  unfold scan
  split
  · unfold delimitedComment; split <;> simp
  · unfold delimitedComment; split <;> simp
  · simp [lineComment]
  · split
    · unfold guidBody; split <;> simp
    · unfold braceComment; split <;> simp
  · unfold string; repeat' split
    all_goals simp
  · unfold string; repeat' split
    all_goals simp
  · split
    · rename_i h
      unfold number
      split
      · simp only [hexNumber]; split <;> simp
      · simp only [hexNumber]; split <;> simp
      · simp only [Bool.or_eq_true, Bool.and_eq_true, beq_iff_eq] at h
        simp only [plainNumber]
        split
        · simp
        · rename_i hdot
          rcases h with h | ⟨rfl, _⟩
          · simp [h]
          · exact absurd rfl (hdot _)
    · split
      · rename_i h
        simp [word, Word.isPart_of_isStart h]
      · unfold symbol; split <;> simp

/-- No character is the final token. -/
theorem single_ne_eof (c : Char) : single c ≠ .eof := by
  unfold single
  split <;> simp

/-- Nor is a sign. -/
theorem symbol_kind_ne_eof (c : Char) (rest : List Char) : (symbol c rest).kind ≠ .eof := by
  unfold symbol
  split
  · rename_i kind h
    rintro rfl
    unfold withEquals at h
    split at h <;> cases h
  · exact single_ne_eof c

/-- Nor is a number. -/
theorem number_kind_ne_eof (text : List Char) : (number text).kind ≠ .eof := by
  have hex (x : Char) (rest : List Char) : (hexNumber x rest).kind ≠ .eof := by
    simp only [hexNumber]
    split <;> exact TokenKind.noConfusion
  have plain : (plainNumber text).kind ≠ .eof := by
    simp only [plainNumber]
    split <;> exact TokenKind.noConfusion
  unfold number
  split
  · exact hex _ _
  · exact hex _ _
  · exact plain

/-- **No text is cut off as the end of the source.** -/
theorem scan_kind_ne_eof (payload : Bool) (c : Char) (rest : List Char) :
    (scan payload c rest).kind ≠ .eof := by
  unfold scan
  split
  · unfold delimitedComment; split <;> simp
  · unfold delimitedComment; split <;> simp
  · simp [lineComment]
  · split
    · unfold guidBody; split <;> simp
    · unfold braceComment; split <;> simp
  · unfold string; repeat' split
    all_goals simp
  · unfold string; repeat' split
    all_goals simp
  · split
    · exact number_kind_ne_eof _
    · split
      · exact TokenKind.noConfusion
      · exact symbol_kind_ne_eof _ _

/-- The text behind a token is shorter than the text it was cut from. -/
theorem scan_rest_length_lt (payload : Bool) (c : Char) (rest : List Char) :
    (scan payload c rest).rest.length < (c :: rest).length := by
  have h := congrArg List.length (scan_split payload c rest)
  have := List.length_pos_iff.2 (scan_text_ne_nil payload c rest)
  simp only [List.length_append] at h
  omega

end Lexeme

end Ndf
