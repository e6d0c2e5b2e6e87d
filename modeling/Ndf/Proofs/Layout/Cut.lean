/-
# Canonical text is cut into its tokens

The pieces of a canonical text are cut off as they are: each of them fits in front of what the
layout writes behind it.  A tree has to be writable for that (`Part.Writable`), as the tree of every
source without problems is: its names are words, its numbers have the digits of their notation, and
its strings and payloads end where they are closed.

A payload is only cut off as one behind `guid :`, so pieces are said to be cut wherever they stand
(`Piece.Cut`) and not each for itself.
-/

import Ndf.Proofs.Form.Document
import Ndf.Proofs.Layout.Pieces
import Ndf.Proofs.Tree.Met

namespace Ndf

open Text (isBlank)

/-! ### What can be written -/

/-- The text of a part has the form that goes with it, and the part is no fragment. -/
structure Part.Writable (p : Part) : Prop where
  wellFormed : p.WellFormed
  closed : p.Closed
  error?_eq : p.error? = none

/-- All of these parts can be written. -/
def Parts.Writable (parts : List Part) : Prop := ∀ p ∈ parts, p.Writable

namespace Parts

variable {p : Part} {ps qs : List Part}

@[simp] theorem writable_cons : Writable (p :: ps) ↔ p.Writable ∧ Writable ps :=
  List.forall_mem_cons

@[simp] theorem writable_append : Writable (ps ++ qs) ↔ Writable ps ∧ Writable qs :=
  List.forall_mem_append

/-- A fragment cannot be written. -/
theorem not_writable_error {e : ErrorNode} : ¬ Writable [.error e] := fun h =>
  nomatch (h _ (List.mem_singleton_self _)).error?_eq

end Parts

namespace Piece

variable {p : Piece} {ps qs : List Piece} {rest blank : List Char}

/-! ### Pieces wherever they stand -/

/-- Each of the pieces is cut off as it is, whatever stands before. -/
def Cut (ps : List Piece) (rest : List Char) : Prop := ∀ guid, CutFrom guid ps rest

/-- No pieces are cut off. -/
theorem Cut.nil : Cut [] rest := fun _ => trivial

/-- A piece in front is cut off if it fits in front of the rest. -/
theorem Cut.cons (hp : p.Fits (join ps ++ rest)) (h : Cut ps rest) : Cut (p :: ps) rest :=
  fun _ => ⟨hp.at _, h _⟩

/-- A single piece is cut off if it fits. -/
theorem Cut.one (hp : p.Fits rest) : Cut [p] rest := .cons hp .nil

/-- Pieces behind pieces are cut off one after another. -/
theorem Cut.append (h : Cut ps (join qs ++ rest)) (h' : Cut qs rest) : Cut (ps ++ qs) rest := by
  intro guid
  have hcut := h guid
  clear h
  induction ps generalizing guid with
  | nil => exact h' guid
  | cons p ps ih =>
    refine ⟨?_, ih _ hcut.2⟩
    have hp := hcut.1
    rwa [← List.append_assoc, ← join_append] at hp

/-! ### What a token fits in front of -/

/-- What ends every token of a tree: it is no part of a word or a number, and no equals sign. -/
def Shut (rest : List Char) : Prop :=
  ∀ d, rest.head? = some d → Word.isPart d = false ∧ d ≠ '.' ∧ d ≠ '='

/-- The end goes on with nothing. -/
theorem shut_nil : Shut [] := by
  rintro d ⟨⟩

/-- Neither does a character that goes on with no word, number or operator. -/
theorem shut_cons {c : Char} (h : Word.isPart c = false ∧ c ≠ '.' ∧ c ≠ '=') :
    Shut (c :: rest) := by
  rintro d ⟨⟩
  exact h

/-- White space is such a character. -/
theorem shut_of_isBlank {c : Char} (h : isBlank c = true) : Shut (c :: rest) := by
  refine shut_cons ⟨Word.isPart_of_isBlank h, ?_, ?_⟩ <;>
  · rintro rfl
    exact absurd h (by decide)

/-- In front of a sign, joined to it or not. -/
theorem shut_sign (hb : ∀ c ∈ blank, isBlank c = true) {c : Char}
    (hc : Word.isPart c = false ∧ c ≠ '.' ∧ c ≠ '=') :
    Shut (join (sign blank c :: ps) ++ rest) := by
  cases blank with
  | nil => exact shut_cons hc
  | cons b blank => exact shut_of_isBlank (hb b List.mem_cons_self)

/-- A number ends in front of it. -/
theorem Shut.number (h : Shut rest) : Lexeme.EndsNumber rest := fun d hd =>
  ⟨(h d hd).1, (h d hd).2.1⟩

/-- A word ends in front of it. -/
theorem Shut.word (h : Shut rest) : ∀ d, rest.head? = some d → Word.isPart d = false :=
  fun d hd => (h d hd).1

/-- A word fits in front of what is no part of it. -/
theorem fits_step {text : String} (hb : ∀ c ∈ blank, isBlank c = true)
    (hw : Word.IsWord text.toList) (hr : ∀ d, rest.head? = some d → Word.isPart d = false) :
    (word blank text).Fits rest := by
  have := fits_word hb hw hr
  rwa [String.ofList_toList] at this

/-- A name fits in front of what does not go on. -/
theorem fits_name {text : String} (hb : ∀ c ∈ blank, isBlank c = true)
    (hw : Word.IsWord text.toList) (hr : Shut rest) : (word blank text).Fits rest :=
  fits_step hb hw hr.word

/-- A number fits there. -/
theorem fits_digits {kind : NumberKind} {text : String} (hb : ∀ c ∈ blank, isBlank c = true)
    (hw : kind.Writes text.toList) (hr : Shut rest) :
    Fits ⟨blank, text.toList, .number kind text⟩ rest := by
  have := fits_number hb hw hr.number
  rwa [String.ofList_toList] at this

/-- A string ends with its mark, so it fits in front of anything. -/
theorem fits_quoted {quote : Quote} {raw : String} (hb : ∀ c ∈ blank, isBlank c = true)
    (hq : quote.Encloses raw.toList) :
    Fits ⟨blank, quote.char :: raw.toList ++ [quote.char], .string quote raw⟩ rest := by
  have : Fits _ rest := fits_string hb hq
  rwa [String.ofList_toList] at this

/-- A payload is cut off behind `guid :`. -/
theorem cut_guid {raw : String} (hb : ∀ c ∈ blank, isBlank c = true)
    (hraw : Lexeme.Balanced raw.toList) : Cut [word blank "GUID", sign [] ':',
      ⟨[], '\x7b' :: raw.toList ++ ['\x7d'], .guidBody raw⟩] rest := by
  have hcolon : (sign [] ':').Fits (join [⟨[], '\x7b' :: raw.toList ++ ['\x7d'], .guidBody raw⟩] ++
      rest) := fits_lone (by simp) rfl rfl ⟨by simp [Lexeme.Opens], rfl, rfl, fun h => absurd rfl h⟩
  have hword : Word.IsWord "GUID".toList := by decide
  refine fun guid => ⟨(fits_name hb hword (shut_cons (by decide))).at _, hcolon.at _, ⟨by simp, rfl,
    '\x7b', raw.toList ++ ['\x7d'], rfl, rfl, ?_⟩, trivial⟩
  have hclass : Word.classify "GUID" = .keyword .guid := by decide
  have hpayload : (guid.step (word blank "GUID").kind).step (sign [] ':').kind = .colon := by
    rw [word, hclass]
    rfl
  rw [hpayload, join_nil, List.nil_append]
  show Lexeme.guidBody _ = _
  rw [Lexeme.guidBody, List.append_assoc, List.singleton_append, hraw rest]
  dsimp only
  rw [String.ofList_toList]

/-- How the text of a node starts: with nothing that would belong to a sign in front of it, and with
no byte order mark. -/
def Open (rest : List Char) : Prop :=
  ∀ d, rest.head? = some d → d ∉ ['*', '/', '='] ∧ d.toNat < 128

/-- A character that starts no comment and no operator of two. -/
theorem open_cons {c : Char} (h : c ∉ ['*', '/', '='] ∧ c.toNat < 128) : Open (c :: rest) := by
  rintro d ⟨⟩
  exact h

/-- A letter, a digit or an underscore is such a character. -/
theorem open_of_isPart {c : Char} (h : Word.isPart c = true) : Open (c :: rest) := by
  have hle := Word.toNat_of_isPart h
  refine open_cons ⟨fun hc => ?_, by omega⟩
  have hall : ['*', '/', '='].all (fun c => !Word.isPart c) = true := by decide
  have hno := List.all_eq_true.1 hall c hc
  rw [h] at hno
  cases hno

/-- A word starts with one. -/
theorem open_word {text : List Char} (hw : Word.IsWord text) : Open (text ++ rest) := by
  cases text with
  | nil => cases hw
  | cons c inside => exact open_of_isPart (Word.isPart_of_isStart hw.1)

/-- So does a number. -/
theorem open_number {kind : NumberKind} {text : List Char} (hw : kind.Writes text) :
    Open (text ++ rest) := by
  cases text with
  | nil =>
    have : Fits ⟨[], _, _⟩ [] := fits_number nofun hw (by rintro d ⟨⟩)
    obtain ⟨c, inside, h, -⟩ := this.scan
    cases h
  | cons c inside =>
    have hfront := Lexeme.front_of_writes hw
    rw [Bool.or_eq_true, Bool.and_eq_true, beq_iff_eq] at hfront
    rcases hfront with hd | ⟨rfl, -⟩
    · exact open_of_isPart (Lexeme.isPart_of_isDigit hd)
    · exact open_cons (by decide)

/-- No word starts with a digit. -/
theorem digit_word {text : List Char} (hw : Word.IsWord text) :
    ∀ d, (text ++ rest).head? = some d → d.isDigit = false := by
  cases text with
  | nil => cases hw
  | cons c inside =>
    rintro d ⟨⟩
    exact Word.isDigit_of_isStart hw.1

/-- The signs of a tree that no longer token starts with. -/
def marks : List Char :=
  [')', '[', ']', ',', ':', '?', '~', '$', '+', '-', '*', '%', '&', '|']

/-- A sign of one character fits in front of what starts neither a comment nor an operator. -/
theorem fits_mark {c : Char} (hc : c ∈ marks) (hb : ∀ d ∈ blank, isBlank d = true) :
    (sign blank c).Fits rest := by
  have hall : marks.all (fun c => decide (isBlank c = false ∧ (Lexeme.single c).isTrivia = false ∧
      c.isDigit = false ∧ c ∉ ['.', '\x7b', '"', '\'', '(', '/'] ∧ Word.isStart c = false ∧
        Lexeme.withEquals c = none)) = true := by decide
  obtain ⟨hblank, htrivia, hdigit, hopens, hstart, hequals⟩ :=
    of_decide_eq_true (List.all_eq_true.1 hall c hc)
  simp only [List.mem_cons, List.not_mem_nil, or_false, not_or] at hopens
  refine fits_lone hb hblank htrivia
    ⟨?_, by simp [hdigit, hopens.1], hstart, fun h => absurd hequals h⟩
  simp [Lexeme.Opens, hopens]

/-- The signs that an equals sign would belong to. -/
theorem fits_equals {c : Char} (hc : c ∈ ['=', '!', '<', '>']) (hb : ∀ d ∈ blank, isBlank d = true)
    (hr : rest.head? ≠ some '=') : (sign blank c).Fits rest := by
  simp only [List.mem_cons, List.not_mem_nil, or_false] at hc
  rcases hc with rfl | rfl | rfl | rfl <;>
    exact fits_lone hb rfl rfl ⟨by simp [Lexeme.Opens], rfl, rfl, fun _ => hr⟩

/-- The signs that a comment starts with. -/
theorem fits_opening {c : Char} (hc : c ∈ ['(', '/']) (hb : ∀ d ∈ blank, isBlank d = true)
    (hr : Open rest) : (sign blank c).Fits rest := by
  simp only [List.mem_cons, List.not_mem_nil, or_false] at hc
  have hstar : rest.head? ≠ some '*' := fun h => (hr _ h).1 (by decide)
  have hslash : rest.head? ≠ some '/' := fun h => (hr _ h).1 (by decide)
  rcases hc with rfl | rfl <;>
    exact fits_lone hb rfl rfl
      ⟨by simp [Lexeme.Opens, hstar, hslash], rfl, rfl, fun h => absurd rfl h⟩

/-- No equals sign stands where nothing goes on. -/
theorem Shut.ne_equals (h : Shut rest) : rest.head? ≠ some '=' := fun he => (h _ he).2.2 rfl

/-- Nor where nothing is joined to a sign. -/
theorem Open.ne_equals (h : Open rest) : rest.head? ≠ some '=' := fun he => (h _ he).1 (by decide)

/-- A point in front of a name or a slash. -/
theorem fits_point (hb : ∀ d ∈ blank, isBlank d = true)
    (hr : ∀ d, rest.head? = some d → d.isDigit = false) : (sign blank '.').Fits rest := by
  refine fits_lone hb rfl rfl ⟨by simp [Lexeme.Opens], ?_, rfl, fun h => absurd rfl h⟩
  cases hd : rest.head? with
  | none => rfl
  | some d => simp [hr d hd]

/-- An operator fits in front of a space. -/
theorem fits_operator (op : BinaryOp) : (operator op).Fits (' ' :: rest) := by
  have hb : ∀ d ∈ [' '], isBlank d = true := List.forall_mem_singleton.2 rfl
  have hr : Open (' ' :: rest) := open_cons (by decide)
  cases op with
  | div =>
    exact show (word [' '] "div").Fits (' ' :: rest) from
      fits_name hb (by decide) (shut_of_isBlank rfl)
  | eq | notEq | ltEq | gtEq => exact fits_double hb rfl
  | lt | gt => exact fits_equals (by decide) hb hr.ne_equals
  | mul | rem | add | sub | and | or => exact fits_mark (by decide) hb

end Piece

namespace Layout

open Piece (Cut Shut Open sign word join shut_sign fits_name fits_mark fits_equals fits_opening)

/-- A space is white space. -/
theorem blank_space : ∀ c ∈ [' '], isBlank c = true := List.forall_mem_singleton.2 rfl

/-- So is nothing. -/
theorem blank_nil : ∀ c ∈ ([] : List Char), isBlank c = true := nofun

namespace Margin

variable (m : Margin)

/-- So is a line break with the margin behind it. -/
theorem blank_newline : ∀ c ∈ m.newline.toList, isBlank c = true := by
  intro c hc
  rw [newline, String.toList_ofList, List.mem_cons] at hc
  rcases hc with rfl | hc
  · rfl
  · rw [List.eq_of_mem_replicate hc]
    rfl

/-- It starts with the line break. -/
theorem newline_eq : ∃ blanks, m.newline.toList = '\n' :: blanks := ⟨_, String.toList_ofList⟩

/-- So is what stands in front of the first element of a list. -/
theorem blank_front (block : Bool) : ∀ c ∈ m.front block, isBlank c = true := by
  cases block
  · exact blank_nil
  · exact m.blank_newline

/-- And what stands between two of them. -/
theorem blank_gap (block : Bool) : ∀ c ∈ m.gap block, isBlank c = true := by
  cases block
  · exact blank_space
  · exact m.blank_newline

end Margin

/-! ### What a text starts with -/

namespace Pieces

variable {m : Margin} {rest blank : List Char}

/-- A name that can be written is a word. -/
theorem isWord_of_name {n : Name} {ps : List Part} (h : Parts.Writable (.name n :: ps)) :
    Word.IsWord n.text.toList := (Parts.writable_cons.1 h).1.wellFormed

/-- Nothing goes on into the next line. -/
theorem shut_newline (m : Margin) : Shut (m.newline.toList ++ rest) := by
  obtain ⟨blanks, h⟩ := m.newline_eq
  rw [h]
  exact Piece.shut_of_isBlank rfl

/-- A line break starts neither a comment nor an operator. -/
theorem open_newline (m : Margin) : Open (m.newline.toList ++ rest) := by
  obtain ⟨blanks, h⟩ := m.newline_eq
  rw [h]
  exact Piece.open_cons (by decide)

/-- In front of an expression a sign stands for itself. -/
theorem open_expr (m : Margin) (rest : List Char) :
    ∀ e, Parts.Writable (Parts.expr e) → Open ((Layout.expr m e).toList ++ rest)
  | .nil _, _ => by
    rw [Layout.expr]
    exact Piece.open_cons (by decide)
  | .guid .., _ => by
    simp only [Layout.expr, String.toList_append, List.append_assoc]
    exact Piece.open_cons (by decide)
  | .bool value _, _ => by
    rw [Layout.expr]
    cases value <;> exact Piece.open_cons (by decide)
  | .number kind text _, h => by
    rw [Layout.expr]
    exact Piece.open_number (Parts.writable_cons.1 h).1.wellFormed
  | .string quote _ _, _ => by
    rw [Layout.expr, String.toList_ofList]
    cases quote <;> exact Piece.open_cons (by decide)
  | .object ⟨n, es, s⟩, h => by
    have hw := isWord_of_name (Parts.writable_cons.1 (Parts.writable_cons.1 h).2).2
    rw [Layout.expr, Layout.object, String.toList_append, List.append_assoc]
    exact Piece.open_word hw
  | .vector _ _ items _ _, h | .map _ items _, h => by
    have hw := isWord_of_name (Parts.writable_cons.1 h).2
    rw [Layout.expr, String.toList_append, List.append_assoc]
    exact Piece.open_word hw
  | .list .., _ | .pair .., _ | .group .., _ | .generic .., _ => by
    simp only [Layout.expr, Layout.brackets, String.toList_append, List.append_assoc]
    exact Piece.open_cons (by decide)
  | .unary op _ _, _ => by
    rw [Layout.expr, String.toList_append, List.append_assoc]
    cases op <;> exact Piece.open_cons (by decide)
  | .binary _ l _ _, h => by
    rw [Parts.expr, Parts.writable_cons, Parts.writable_append] at h
    simp only [Layout.expr, String.toList_append, List.append_assoc]
    exact open_expr m _ l h.2.1
  | .ternary c _ _ _, h => by
    rw [Parts.expr, Parts.writable_cons, Parts.writable_append] at h
    simp only [Layout.expr, String.toList_append, List.append_assoc]
    exact open_expr m _ c h.2.1
  | .reference ⟨scope, segs, s⟩, h => by
    have hr := (Parts.writable_cons.1 (Parts.writable_cons.1 h).2)
    obtain ⟨n, kind, rest, rfl⟩ : ∃ n kind rest, segs = .name n kind :: rest := hr.1.wellFormed
    have hw := isWord_of_name hr.2
    simp only [Layout.expr, Layout.reference, Layout.segments, Reference.joiner,
      String.toList_append, List.append_assoc]
    cases scope with
    | none => simpa [Reference.scopeText, Scope.mark] using Piece.open_word hw
    | current | root | global => exact Piece.open_cons (by decide)
  | .assignment ⟨n, v, s⟩, h => by
    have hw := isWord_of_name (Parts.writable_cons.1 (Parts.writable_cons.1 h).2).2
    simp only [Layout.expr, Layout.assignment, String.toList_append, List.append_assoc]
    exact Piece.open_word hw
  | .visibility ⟨_, n, d, _⟩, h => by
    have hw := isWord_of_name (Parts.writable_cons.1 (Parts.writable_cons.1 h).2).2
    simp only [Layout.expr, Layout.visibility, String.toList_append, List.append_assoc]
    exact Piece.open_word hw
  | .error _, h => absurd (Parts.writable_cons.1 h).2 Parts.not_writable_error

/-! ### Every piece is cut off as it is -/

/-- More types start with a comma. -/
theorem shut_moreTypes (hr : Shut rest) (ts : List TypeRef) :
    Shut (join (moreTypes ts) ++ rest) := by
  cases ts with
  | nil => exact hr
  | cons _ _ =>
    rw [moreTypes]
    exact shut_sign blank_nil (by decide)

/-- A type starts with its name. -/
theorem open_type : ∀ t, Parts.Writable (Parts.type t) → Open (join (type [] t) ++ rest)
  | ⟨n, _, [], _⟩, h | ⟨n, _, _ :: _, _⟩, h => by
    rw [type, Piece.join_cons, List.append_assoc]
    exact Piece.open_word (isWord_of_name (Parts.writable_cons.1 h).2)

mutual

/-- A type is cut off as it is written. -/
theorem cut_type {blank rest : List Char} (hb : ∀ c ∈ blank, isBlank c = true) (hr : Shut rest) :
    ∀ t, Parts.Writable (Parts.type t) → Cut (type blank t) rest
  | ⟨n, _, [], _⟩, h => .one (fits_name hb (isWord_of_name (Parts.writable_cons.1 h).2) hr)
  | ⟨n, _, t :: ts, _⟩, h => by
    rw [Parts.type, Parts.writable_cons, Parts.writable_cons, Parts.types,
      Parts.writable_append] at h
    obtain ⟨-, hn, ht, hts⟩ := h
    have hgt : Shut (join [sign [] '>'] ++ rest) := shut_sign blank_nil (by decide)
    rw [type, List.append_assoc]
    refine .cons (fits_name hb hn.wellFormed (shut_sign blank_nil (by decide)))
      (.cons (fits_equals (by decide) blank_nil ?_) (.append (cut_type blank_nil ?_ t ht)
        (.append (cut_moreTypes hgt ts hts)
          (.one (fits_equals (by decide) blank_nil hr.ne_equals)))))
    · rw [Piece.join_append, List.append_assoc]
      exact (open_type t ht).ne_equals
    · rw [Piece.join_append, List.append_assoc]
      exact shut_moreTypes hgt ts

/-- So are further parameters of a type. -/
theorem cut_moreTypes {rest : List Char} (hr : Shut rest) :
    ∀ ts, Parts.Writable (Parts.types ts) → Cut (moreTypes ts) rest
  | [], _ => .nil
  | t :: ts, h => by
    rw [Parts.types, Parts.writable_append] at h
    exact .cons (fits_mark (by decide) blank_nil)
      (.append (cut_type blank_space (shut_moreTypes hr ts) t h.1) (cut_moreTypes hr ts h.2))

end

/-- So is what stands between the name of a member and its value. -/
theorem cut_memberSigns {type? : Option TypeRef} (hasValue legacyColon : Bool) (hr : Shut rest)
    (ht : ∀ t, type? = some t → Parts.Writable (Parts.type t)) :
    Cut (memberSigns type? hasValue legacyColon) rest := by
  have hequals {rest : List Char} (hr : Shut rest) : Cut [sign [' '] '='] rest :=
    .one (fits_equals (by decide) blank_space hr.ne_equals)
  have hcolon {rest : List Char} : (sign [' '] ':').Fits rest := fits_mark (by decide) blank_space
  have hvalue : Cut (if hasValue then [sign [' '] '='] else []) rest := by
    cases hasValue
    · exact .nil
    · exact hequals hr
  cases legacyColon with
  | true => exact .cons hcolon (hequals hr)
  | false =>
    cases type? with
    | none => exact hvalue
    | some t =>
      refine .cons hcolon (.append (cut_type blank_space ?_ t (ht t rfl)) hvalue)
      cases hasValue
      · exact hr
      · exact Piece.shut_of_isBlank rfl

/-- So is a step of a path. -/
theorem cut_joined (hb : ∀ c ∈ blank, isBlank c = true)
    (hr : ∀ d, rest.head? = some d → Word.isPart d = false) (before : Option SegmentKind) {n : Name}
    (hn : Word.IsWord n.text.toList) : Cut (joined blank before n) rest := by
  have hword : Cut [word [] n.text] rest := .one (Piece.fits_step blank_nil hn hr)
  have hslash : (sign blank '/').Fits (join [word [] n.text] ++ rest) :=
    fits_opening (by decide) hb (by
      rw [Piece.join_cons, List.append_assoc]
      exact Piece.open_word hn)
  rcases before with _ | _ | _ | _
  · exact .one (Piece.fits_step hb hn hr)
  · exact .cons hslash hword
  · exact .cons hslash hword
  · refine .cons (Piece.fits_point hb ?_) hword
    rw [Piece.join_cons, List.append_assoc]
    exact Piece.digit_word hn

/-- Brackets around what is cut off in front of the closing one. -/
theorem cut_brackets (m : Margin) (block : Bool) {ps : List Piece}
    (hb : ∀ c ∈ blank, isBlank c = true)
    (h : ∀ rest, Shut rest → Cut ps rest) : Cut (brackets m blank block ps) rest :=
  .cons (fits_mark (by decide) hb) (.append (h _ (shut_sign (m.blank_front block) (by decide)))
    (.one (fits_mark (by decide) (m.blank_front block))))

/-- So is a list of parameters, if what it holds is. -/
theorem cut_paramList (m : Margin) (empty : Bool) {ps : List Piece}
    (h : ∀ rest, Shut rest → Cut ps rest) : Cut (paramList m empty ps) rest := by
  cases empty with
  | true => exact .cons (fits_mark (by decide) blank_space) (.one (fits_mark (by decide) blank_nil))
  | false =>
    exact .cons (fits_mark (by decide) m.blank_newline)
      (.append (h _ (shut_sign m.blank_newline (by decide)))
        (.one (fits_mark (by decide) m.blank_newline)))

/-- So is a list of entries. -/
theorem cut_entryList (m : Margin) (empty : Bool) {ps : List Piece}
    (h : ∀ rest, Shut rest → Cut ps rest)
    (hopen : ∀ rest, empty = false → Open (join ps ++ rest)) : Cut (entryList m empty ps) rest := by
  cases empty with
  | true =>
    exact .cons (fits_opening (by decide) blank_nil (Piece.open_cons (by decide)))
      (.one (fits_mark (by decide) blank_nil))
  | false =>
    refine .cons (fits_opening (by decide) m.blank_newline ?_)
      (.append (h _ (shut_sign m.blank_newline (by decide)))
        (.one (fits_mark (by decide) m.blank_newline)))
    rw [Piece.join_append, List.append_assoc]
    exact hopen _ rfl

/-- More elements start with a comma. -/
theorem shut_more (m : Margin) (block : Bool) (hr : Shut rest) (es : List Expr) :
    Shut (join (more m block es) ++ rest) := by
  cases es with
  | nil => exact hr
  | cons _ _ =>
    rw [more]
    exact shut_sign blank_nil (by decide)

/-- No word goes on into further parameters. -/
theorem shut_moreParams (m : Margin) (hr : Shut rest) (ps : List Member) :
    Shut (join (moreParams m ps) ++ rest) := by
  cases ps with
  | nil => exact hr
  | cons _ _ =>
    rw [moreParams]
    exact shut_sign blank_nil (by decide)

/-- Nor into the value of a member. -/
theorem shut_memberValue (m : Margin) (hr : Shut rest) (value : Option Expr) :
    Shut (join (memberValue m value) ++ rest) := by
  cases value with
  | none => exact hr
  | some e =>
    rw [memberValue, join_expr]
    exact Piece.shut_of_isBlank rfl

/-- Nor into its type. -/
theorem shut_memberSigns (hr : Shut rest) (type? : Option TypeRef) (hasValue legacyColon : Bool) :
    Shut (join (memberSigns type? hasValue legacyColon) ++ rest) := by
  cases legacyColon
  · cases type?
    · cases hasValue
      · exact hr
      · exact Piece.shut_of_isBlank rfl
    · exact Piece.shut_of_isBlank rfl
  · exact Piece.shut_of_isBlank rfl

/-- Entries start on a new line. -/
theorem shut_entryLines (m : Margin) (hr : Shut rest) (es : List Entry) :
    Shut (join (entryLines m es) ++ rest) := by
  cases es with
  | nil => exact hr
  | cons e _ =>
    rw [entryLines, Piece.join_append, join_entry, List.append_assoc, List.append_assoc]
    exact shut_newline m

/-- A step behind the first one starts with a sign. -/
theorem segments_front (m : Margin) (before : SegmentKind) (hr : Shut rest) (segs : List Segment) :
    ∀ d, (join (segments m (some before) [] segs) ++ rest).head? = some d →
      Word.isPart d = false := by
  have hsign {c : Char} (hc : Word.isPart c = false) {more : List Char} :
      ∀ d, (c :: more).head? = some d → Word.isPart d = false := by
    rintro d ⟨⟩
    exact hc
  cases segs with
  | nil => exact hr.word
  | cons seg segs =>
    cases seg with
    | name n kind => cases before <;> exact hsign (by decide)
    | index e => exact hsign (by decide)

mutual

/-- An expression is cut off as it is written. -/
theorem cut_expr (m : Margin) {blank rest : List Char} (hb : ∀ c ∈ blank, isBlank c = true)
    (hr : Shut rest) : ∀ e, Parts.Writable (Parts.expr e) → Cut (expr m blank e) rest
  | .nil _, _ => .one (fits_name hb (by decide) hr)
  | .bool value _, _ => by
    cases value <;> exact .one (fits_name hb (by decide) hr)
  | .number kind text _, h => .one (Piece.fits_digits hb (Parts.writable_cons.1 h).1.wellFormed hr)
  | .string quote raw _, h => .one (Piece.fits_quoted hb (Parts.writable_cons.1 h).1.closed)
  | .object o, h => cut_object m hb o (Parts.writable_cons.1 h).2
  | .vector n _ items _ _, h => by
    rw [Parts.expr, Parts.writable_cons, Parts.writable_cons] at h
    exact .cons (fits_name hb h.2.1.wellFormed (shut_sign blank_nil (by decide)))
      (cut_brackets m _ blank_nil fun _ hr => cut_elements _ _ hr items h.2.2)
  | .list items _ _, h =>
    cut_brackets m _ hb fun _ hr => cut_elements _ _ hr items (Parts.writable_cons.1 h).2
  | .map n pairs _, h => by
    rw [Parts.expr, Parts.writable_cons, Parts.writable_cons] at h
    exact .cons (fits_name hb h.2.1.wellFormed (shut_sign blank_nil (by decide)))
      (cut_brackets m _ blank_nil fun _ hr => cut_elements _ _ hr pairs h.2.2)
  | .pair l r _, h => by
    rw [Parts.expr, Parts.writable_cons, Parts.writable_append] at h
    refine .cons (fits_opening (by decide) hb ?_)
      (.append (cut_expr m blank_nil (shut_sign blank_nil (by decide)) l h.2.1)
        (.cons (fits_mark (by decide) blank_nil)
          (.append (cut_expr m blank_space (shut_sign blank_nil (by decide)) r h.2.2)
            (.one (fits_mark (by decide) blank_nil)))))
    rw [Piece.join_append, join_expr, List.nil_append, List.append_assoc]
    exact open_expr m _ l h.2.1
  | .unary op e _, h => by
    rw [Parts.expr, Parts.writable_cons] at h
    have hopen := open_expr m rest e h.2
    have hfits : Piece.Fits ⟨blank, op.sign.toList, op.token⟩ (join (expr m [] e) ++ rest) := by
      rw [join_expr, List.nil_append]
      cases op with
      | neg => exact fits_mark (by decide) hb
      | not => exact fits_equals (by decide) hb hopen.ne_equals
    exact .cons hfits (cut_expr m blank_nil hr e h.2)
  | .binary op l r _, h => by
    rw [Parts.expr, Parts.writable_cons, Parts.writable_append] at h
    refine .append (cut_expr m hb (Piece.shut_of_isBlank rfl) l h.2.1)
      (.cons ?_ (cut_expr m blank_space hr r h.2.2))
    rw [join_expr]
    exact Piece.fits_operator op
  | .ternary c y n _, h => by
    rw [Parts.expr, Parts.writable_cons, Parts.writable_append, Parts.writable_append] at h
    exact .append (cut_expr m hb (shut_sign blank_space (by decide)) c h.2.1)
      (.cons (fits_mark (by decide) blank_space)
        (.append (cut_expr m blank_space (shut_sign blank_space (by decide)) y h.2.2.1)
          (.cons (fits_mark (by decide) blank_space) (cut_expr m blank_space hr n h.2.2.2))))
  | .group inner _, h => by
    rw [Parts.expr, Parts.writable_cons] at h
    cases inner with
    | none =>
      exact .cons (fits_opening (by decide) hb (Piece.open_cons (by decide)))
        (.one (fits_mark (by decide) blank_nil))
    | some e =>
      refine .cons (fits_opening (by decide) hb ?_)
        (.append (cut_expr m blank_nil (shut_sign blank_nil (by decide)) e h.2)
          (.one (fits_mark (by decide) blank_nil)))
      rw [Piece.join_append, expr?, join_expr, List.nil_append, List.append_assoc]
      exact open_expr m _ e h.2
  | .generic n index _, h => by
    rw [Parts.expr, Parts.writable_cons, Parts.writable_cons] at h
    have hw : Word.IsWord n.text.toList := h.2.1.wellFormed
    refine .cons (fits_equals (by decide) hb ?_) (.cons (fits_name blank_nil hw
      (shut_sign blank_nil (by decide))) (.cons (fits_equals (by decide) blank_nil ?_)
        (cut_index? m index h.2.2)))
    · rw [Piece.join_cons, List.append_assoc]
      exact (Piece.open_word hw).ne_equals
    · cases index with
      | none => exact hr.ne_equals
      | some e => rintro ⟨⟩
  | .guid raw _, h => Piece.cut_guid hb (Parts.writable_cons.1 h).1.closed
  | .reference r, h => cut_reference m hb hr r (Parts.writable_cons.1 h).2
  | .assignment a, h => cut_assignment m hb hr a (Parts.writable_cons.1 h).2
  | .visibility v, h => cut_visibility m hb hr v (Parts.writable_cons.1 h).2
  | .error _, h => absurd (Parts.writable_cons.1 h).2 Parts.not_writable_error

/-- So are the elements of a list. -/
theorem cut_elements (m : Margin) (block : Bool) {rest : List Char} (hr : Shut rest) :
    ∀ es, Parts.Writable (Parts.exprs es) → Cut (elements m block es) rest
  | [], _ => .nil
  | e :: es, h => by
    rw [Parts.exprs, Parts.writable_append] at h
    exact .append (cut_expr m (m.blank_front block) (shut_more m block hr es) e h.1)
      (cut_more m block hr es h.2)

/-- So are further elements. -/
theorem cut_more (m : Margin) (block : Bool) {rest : List Char} (hr : Shut rest) :
    ∀ es, Parts.Writable (Parts.exprs es) → Cut (more m block es) rest
  | [], _ => .nil
  | e :: es, h => by
    rw [Parts.exprs, Parts.writable_append] at h
    exact .cons (fits_mark (by decide) blank_nil)
      (.append (cut_expr m (m.blank_gap block) (shut_more m block hr es) e h.1)
        (cut_more m block hr es h.2))

/-- So is an index that may be missing. -/
theorem cut_index? (m : Margin) {rest : List Char} :
    ∀ e, Parts.Writable (Parts.expr? e) → Cut (index? m e) rest
  | none, _ => .nil
  | some e, h => .cons (fits_mark (by decide) blank_nil)
      (.append (cut_expr m blank_nil (shut_sign blank_nil (by decide)) e h)
        (.one (fits_mark (by decide) blank_nil)))

/-- So is a reference. -/
theorem cut_reference (m : Margin) {blank rest : List Char} (hb : ∀ c ∈ blank, isBlank c = true)
    (hr : Shut rest) : ∀ r, Parts.Writable (Parts.reference r) → Cut (reference m blank r) rest
  | ⟨_, [], _⟩, h | ⟨_, .index _ :: _, _⟩, h => by
    obtain ⟨_, _, _, hsegs⟩ := (Parts.writable_cons.1 h).1.wellFormed
    cases hsegs
  | ⟨scope, .name n kind :: more, _⟩, h => by
    obtain ⟨hn, hmore⟩ := Parts.writable_cons.1 (Parts.writable_cons.1 h).2
    have hsteps {blank : List Char} (hb : ∀ c ∈ blank, isBlank c = true) :
        Cut (segments m none blank (.name n kind :: more)) rest :=
      .append (cut_joined hb (segments_front m kind hr more) none hn.wellFormed)
        (cut_segments m hr kind more hmore)
    have hslash :
        (sign [] '/').Fits (join (segments m none [] (.name n kind :: more)) ++ rest) := by
      refine fits_opening (by decide) blank_nil ?_
      rw [join_segments m none [] _ (.inr rfl), Layout.segments, Reference.joiner]
      simpa using Piece.open_word hn.wellFormed
    cases scope with
    | none => exact hsteps hb
    | current =>
      refine .cons (Piece.fits_point hb ?_) (.cons hslash (hsteps blank_nil))
      rintro d ⟨⟩
      rfl
    | root | global => exact .cons (fits_mark (by decide) hb) (.cons hslash (hsteps blank_nil))

/-- So are its segments. -/
theorem cut_segments (m : Margin) {rest : List Char} (hr : Shut rest) (before : SegmentKind) :
    ∀ segs, Parts.Writable (Parts.segments segs) → Cut (segments m (some before) [] segs) rest
  | [], _ => .nil
  | .name n kind :: segs, h => by
    rw [Parts.segments, Parts.writable_cons] at h
    exact .append
      (cut_joined blank_nil (segments_front m kind hr segs) (some before) h.1.wellFormed)
      (cut_segments m hr kind segs h.2)
  | .index e :: segs, h => by
    rw [Parts.segments, Parts.writable_append] at h
    exact .cons (fits_mark (by decide) blank_nil)
      (.append (cut_expr m blank_nil (shut_sign blank_nil (by decide)) e h.1)
        (.cons (fits_mark (by decide) blank_nil) (cut_segments m hr before segs h.2)))

/-- So is an assignment. -/
theorem cut_assignment (m : Margin) {blank rest : List Char} (hb : ∀ c ∈ blank, isBlank c = true)
    (hr : Shut rest) : ∀ a, Parts.Writable (Parts.assignment a) → Cut (assignment m blank a) rest
  | ⟨n, v, _⟩, h => by
    rw [Parts.assignment, Parts.writable_cons, Parts.writable_cons] at h
    refine .cons (fits_name hb h.2.1.wellFormed (Piece.shut_of_isBlank rfl))
      (.cons (fits_name blank_space (by decide) ?_) (cut_expr m blank_space hr v h.2.2))
    rw [join_expr]
    exact Piece.shut_of_isBlank rfl

/-- So is a declaration. -/
theorem cut_declaration (m : Margin) {blank rest : List Char} (hb : ∀ c ∈ blank, isBlank c = true)
    (hr : Shut rest) : ∀ d, Parts.Writable (Parts.declaration d) → Cut (declaration m blank d) rest
  | .assignment a, h => cut_assignment m hb hr a h
  | .template t, h => cut_template m hb t h

/-- So is one behind a modifier. -/
theorem cut_visibility (m : Margin) {blank rest : List Char} (hb : ∀ c ∈ blank, isBlank c = true)
    (hr : Shut rest) : ∀ v, Parts.Writable (Parts.visibility v) → Cut (visibility m blank v) rest
  | ⟨_, n, d, _⟩, h => by
    rw [Parts.visibility, Parts.writable_cons, Parts.writable_cons] at h
    refine .cons (fits_name hb h.2.1.wellFormed ?_) (cut_declaration m blank_space hr d h.2.2)
    rw [join_declaration]
    exact Piece.shut_of_isBlank rfl

/-- So is a template. -/
theorem cut_template (m : Margin) {blank rest : List Char} (hb : ∀ c ∈ blank, isBlank c = true) :
    ∀ t, Parts.Writable (Parts.template t) → Cut (template m blank t) rest
  | ⟨n, params, body, _⟩, h => by
    rw [Parts.template, Parts.writable_cons, Parts.writable_cons, Parts.writable_append] at h
    obtain ⟨-, hn, hparams, hbody⟩ := h
    have hlist {rest : List Char} :
        Cut (paramList m params.isEmpty (paramLines m.deeper params)) rest :=
      cut_paramList m _ fun _ hr => cut_paramLines m.deeper hr params hparams
    refine .cons (fits_name hb (by decide) (Piece.shut_of_isBlank rfl))
      (.cons (fits_name blank_space hn.wellFormed ?_) (.append hlist
        (.cons (fits_name m.blank_newline (by decide) ?_) (cut_object m blank_space body hbody))))
    · cases params with
      | nil => exact Piece.shut_of_isBlank rfl
      | cons p ps => exact shut_sign m.blank_newline (by decide)
    · rw [join_object]
      exact Piece.shut_of_isBlank rfl

/-- So are its parameters, each on a line. -/
theorem cut_paramLines (m : Margin) {rest : List Char} (hr : Shut rest) :
    ∀ ps, Parts.Writable (Parts.members ps) → Cut (paramLines m ps) rest
  | [], _ => .nil
  | p :: ps, h => by
    rw [Parts.members, Parts.writable_append] at h
    exact .append (cut_member m m.blank_newline (shut_moreParams m hr ps) p h.1)
      (cut_moreParams m hr ps h.2)

/-- So are further parameters. -/
theorem cut_moreParams (m : Margin) {rest : List Char} (hr : Shut rest) :
    ∀ ps, Parts.Writable (Parts.members ps) → Cut (moreParams m ps) rest
  | [], _ => .nil
  | p :: ps, h => by
    rw [Parts.members, Parts.writable_append] at h
    exact .cons (fits_mark (by decide) blank_nil)
      (.append (cut_member m m.blank_newline (shut_moreParams m hr ps) p h.1)
        (cut_moreParams m hr ps h.2))

/-- So is a member. -/
theorem cut_member (m : Margin) {blank rest : List Char} (hb : ∀ c ∈ blank, isBlank c = true)
    (hr : Shut rest) : ∀ p, Parts.Writable (Parts.member p) → Cut (member m blank p) rest
  | ⟨n, type?, value, legacy, _⟩, h => by
    rw [Parts.member, Parts.writable_cons, Parts.writable_cons, Parts.writable_append] at h
    obtain ⟨-, hn, ht, hv⟩ := h
    have hvalue := shut_memberValue m hr value
    have hsigns :
        Cut (memberSigns type? value.isSome legacy) (join (memberValue m value) ++ rest) :=
      cut_memberSigns _ _ hvalue fun t hsome => by
        rw [hsome, Option.toList_some, Parts.types, Parts.writable_append] at ht
        exact ht.1
    refine .cons (fits_name hb hn.wellFormed ?_) (.append hsigns (cut_memberValue m hr value hv))
    rw [Piece.join_append, List.append_assoc]
    exact shut_memberSigns hvalue type? _ _

/-- So is its value. -/
theorem cut_memberValue (m : Margin) {rest : List Char} (hr : Shut rest) :
    ∀ value, Parts.Writable (Parts.expr? value) → Cut (memberValue m value) rest
  | none, _ => .nil
  | some e, h => cut_expr m blank_space hr e h

/-- So is an entry. -/
theorem cut_entry (m : Margin) {blank rest : List Char} (hb : ∀ c ∈ blank, isBlank c = true)
    (hr : Shut rest) : ∀ e, Parts.Writable (Parts.entry e) → Cut (entry m blank e) rest
  | .member p, h => cut_member m hb hr p (Parts.writable_cons.1 h).2
  | .assignment a, h => cut_assignment m hb hr a (Parts.writable_cons.1 h).2
  | .visibility v, h => cut_visibility m hb hr v (Parts.writable_cons.1 h).2
  | .reference r, h => cut_reference m hb hr r (Parts.writable_cons.1 h).2
  | .error _, h => absurd (Parts.writable_cons.1 h).2 Parts.not_writable_error

/-- So are entries, each on a line. -/
theorem cut_entryLines (m : Margin) {rest : List Char} (hr : Shut rest) :
    ∀ es, Parts.Writable (Parts.entries es) → Cut (entryLines m es) rest
  | [], _ => .nil
  | e :: es, h => by
    rw [Parts.entries, Parts.writable_append] at h
    exact .append (cut_entry m m.blank_newline (shut_entryLines m hr es) e h.1)
      (cut_entryLines m hr es h.2)

/-- So is an object. -/
theorem cut_object (m : Margin) {blank rest : List Char} (hb : ∀ c ∈ blank, isBlank c = true) :
    ∀ o, Parts.Writable (Parts.object o) → Cut (object m blank o) rest
  | ⟨n, es, _⟩, h => by
    rw [Parts.object, Parts.writable_cons, Parts.writable_cons] at h
    refine .cons (fits_name hb h.2.1.wellFormed ?_) (cut_entryList m _
      (fun _ hr => cut_entryLines m.deeper hr es h.2.2) fun rest hne => ?_)
    · cases es with
      | nil => exact shut_sign blank_nil (by decide)
      | cons e es => exact shut_sign m.blank_newline (by decide)
    · cases es with
      | nil => cases hne
      | cons e es =>
        rw [entryLines, Piece.join_append, join_entry, List.append_assoc, List.append_assoc]
        exact open_newline m.deeper

end

/-- So is an item. -/
theorem cut_item (m : Margin) (hb : ∀ c ∈ blank, isBlank c = true) (hr : Shut rest) :
    ∀ i, Parts.Writable (Parts.item i) → Cut (item m blank i) rest
  | .assignment a, h => cut_assignment m hb hr a (Parts.writable_cons.1 h).2
  | .visibility v, h => cut_visibility m hb hr v (Parts.writable_cons.1 h).2
  | .template t, h => cut_template m hb t (Parts.writable_cons.1 h).2
  | .unnamed u, h => by
    have ho := (Parts.writable_cons.1 (Parts.writable_cons.1 h).2).2
    refine .cons (fits_name hb (by decide) ?_) (cut_object m blank_space u.object ho)
    rw [join_object]
    exact Piece.shut_of_isBlank rfl
  | .member p, h => cut_member m hb hr p (Parts.writable_cons.1 h).2
  | .expr e, h => cut_expr m hb hr e (Parts.writable_cons.1 h).2
  | .error _, h => absurd (Parts.writable_cons.1 h).2 Parts.not_writable_error

/-- The text of an item starts as that of a node does. -/
theorem open_item (m : Margin) (rest : List Char) :
    ∀ i, Parts.Writable (Parts.item i) → Open ((Layout.item m i).toList ++ rest)
  | .template ⟨_, _, _, _⟩, _ => by
    simp only [Layout.item, Layout.template, String.toList_append, List.append_assoc]
    exact Piece.open_cons (by decide)
  | .unnamed u, _ => by
    simp only [Layout.item, String.toList_append, List.append_assoc]
    exact Piece.open_cons (by decide)
  | .assignment ⟨n, _, _⟩, h => by
    have hn := isWord_of_name (Parts.writable_cons.1 (Parts.writable_cons.1 h).2).2
    simp only [Layout.item, Layout.assignment, String.toList_append, List.append_assoc]
    exact Piece.open_word hn
  | .visibility ⟨_, n, _, _⟩, h => by
    have hn := isWord_of_name (Parts.writable_cons.1 (Parts.writable_cons.1 h).2).2
    simp only [Layout.item, Layout.visibility, String.toList_append, List.append_assoc]
    exact Piece.open_word hn
  | .member ⟨n, _, _, _, _⟩, h => by
    have hn := isWord_of_name (Parts.writable_cons.1 (Parts.writable_cons.1 h).2).2
    simp only [Layout.item, Layout.member, String.toList_append, List.append_assoc]
    exact Piece.open_word hn
  | .expr e, h => open_expr m rest e (Parts.writable_cons.1 h).2
  | .error _, h => absurd (Parts.writable_cons.1 h).2 Parts.not_writable_error

/-- An item behind another one starts on a new line. -/
theorem cut_items (m : Margin) {between : String} (hbetween : between = "\n\n" ∨ between = "\n")
    (hr : Shut rest) : ∀ (is : List Item) {blank : List Char}, (∀ c ∈ blank, isBlank c = true) →
      Parts.Writable (is.flatMap Parts.item) → Cut (items m between.toList blank is) rest
  | [], _, _, _ => .nil
  | i :: is, _, hb, h => by
    rw [List.flatMap_cons, Parts.writable_append] at h
    have hblank : ∀ c ∈ between.toList, isBlank c = true := by
      rcases hbetween with rfl | rfl <;> exact List.all_eq_true.1 (by decide)
    refine .append (cut_item m hb ?_ i h.1) (cut_items m hbetween hr is hblank h.2)
    cases is with
    | nil => exact hr
    | cons j is =>
      rw [items, Piece.join_append, join_item, List.append_assoc, List.append_assoc]
      rcases hbetween with rfl | rfl <;> exact Piece.shut_of_isBlank rfl

end Pieces

end Layout

namespace Document

variable {d : Document} {style : Style}

/-- The pieces of a document are cut off as they are. -/
theorem cut_pieces (style : Style) (h : Parts.Writable d.parts) {tail : List Char}
    (ht : Piece.Shut tail) : Piece.Cut (d.pieces style) tail :=
  Layout.Pieces.cut_items _ (by unfold Layout.between; split <;> simp) ht d.items
    Layout.blank_nil h

/-- No canonical text starts with a byte order mark. -/
theorem head_format (h : Parts.Writable d.parts) :
    (d.format style).toList.head? ≠ some '\uFEFF' := by
  rw [join_pieces, pieces]
  cases hitems : d.items with
  | nil => simp [Layout.Pieces.items]
  | cons i is =>
    rw [parts, hitems, List.flatMap_cons, Parts.writable_append] at h
    rw [Layout.Pieces.items, Piece.join_append, Layout.Pieces.join_item, List.nil_append,
      List.append_assoc]
    exact fun hhead => absurd (Layout.Pieces.open_item _ _ i h.1 _ hhead).2 (by decide)

/-- **The tokens of the canonical text of a document are its pieces.** -/
theorem ofText_format (style : Style) (h : Parts.Writable d.parts) : ∃ stop : Token,
    stop.kind = .eof ∧ TokenStream.ofText (d.format style) =
      ⟨Piece.tokensFrom .origin (d.pieces style), stop, []⟩ := by
  refine TokenStream.ofText_of_cutFrom (d.join_pieces style) (cut_pieces style h ?_ _) ?_
    (head_format h)
  · split
    · exact Piece.shut_nil
    · exact Piece.shut_of_isBlank rfl
  · split
    · exact Layout.blank_nil
    · exact List.forall_mem_singleton.2 rfl

end Document

/-- The document of a source without problems can be written. -/
theorem writable_of_clean {source : String} (clean : (parse source).diagnostics = []) :
    Parts.Writable (parse source).document.parts := by
  intro p hp
  have hlawful := parse_lawful source p hp
  refine ⟨hlawful.wellFormed, hlawful.closed, ?_⟩
  cases p with
  | error e => exact absurd hp (not_mem_error clean e)
  | _ => rfl

end Ndf
