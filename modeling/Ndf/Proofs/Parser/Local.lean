/-
# Errors stay local

`SPEC_FULL.md` §7: one malformed declaration does not prevent reading the rest.

Declarations `N is v` behind each other, or members `N = v` of one object, with a literal for each
value.  If the value of one of them is replaced by signs that start no expression, that one becomes
an error node with its whole text, one problem is reported, and all the others are read as if
nothing had happened (`errors_stay_local`).

A line that is broken is given up at the first of its signs, which is reported there, and recovery
passes over the others: none of them starts a declaration or an entry (`itemGap_signs`,
`entryGap_signs`), and what follows does.  So every line is read in one round of the loop around it,
up to its end and no further (`nextItem_rounds`, `entryStep_rounds`), and the rounds of all of them
follow by induction on the lines (`Line.Rounds.all`).
-/

import Ndf.Proofs.Parser.Forms

namespace Ndf

open Text (isBlank)

/-! ### Lines -/

/-- A word that is a plain name. -/
structure PlainName where
  text : List Char
  word : Word.IsWord text
  plain : Word.classify (String.ofList text) = .name

/-- A number or a string as it is written. -/
inductive Literal where
  | number (kind : NumberKind) (text : List Char) (writes : kind.Writes text)
  | string (quote : Quote) (raw : List Char) (encloses : quote.Encloses raw)

namespace Literal

/-- A number or a string as written. -/
def text : Literal → List Char
  | .number _ text _ => text
  | .string quote raw _ => quote.char :: raw ++ [quote.char]

/-- Its token. -/
def kind : Literal → TokenKind
  | .number kind text _ => .number kind (String.ofList text)
  | .string quote raw _ => .string quote (String.ofList raw)

/-- Its node. -/
def expr (s : Span) : Literal → Expr
  | .number kind text _ => .number kind (String.ofList text) s
  | .string quote raw _ => .string quote (String.ofList raw) s

/-- A literal is no keyword. -/
@[simp] theorem keyword?_kind (v : Literal) : v.kind.keyword? = none := by cases v <;> rfl

end Literal

/-- The signs that start no expression and open no bracket. -/
inductive Sign where
  | rbracket | comma | colon | eq | question | plus | star | percent | amp | pipe | slash
  | eqEq | notEq | ltEq | gtEq | gt
deriving DecidableEq, Repr

namespace Sign

/-- A sign as written. -/
def text : Sign → List Char
  | .rbracket => [']']
  | .comma => [',']
  | .colon => [':']
  | .eq => ['=']
  | .question => ['?']
  | .plus => ['+']
  | .star => ['*']
  | .percent => ['%']
  | .amp => ['&']
  | .pipe => ['|']
  | .slash => ['/']
  | .eqEq => ['=', '=']
  | .notEq => ['!', '=']
  | .ltEq => ['<', '=']
  | .gtEq => ['>', '=']
  | .gt => ['>']

/-- Its token. -/
def kind : Sign → TokenKind
  | .rbracket => .rbracket
  | .comma => .comma
  | .colon => .colon
  | .eq => .eq
  | .question => .question
  | .plus => .plus
  | .star => .star
  | .percent => .percent
  | .amp => .amp
  | .pipe => .pipe
  | .slash => .slash
  | .eqEq => .eqEq
  | .notEq => .notEq
  | .ltEq => .ltEq
  | .gtEq => .gtEq
  | .gt => .gt

/-- A sign is no keyword. -/
@[simp] theorem keyword?_kind (s : Sign) : s.kind.keyword? = none := by cases s <;> rfl

/-- Nor is it a word. -/
@[simp] theorem isWord_kind (s : Sign) : s.kind.isWord = false := by cases s <;> rfl

end Sign

/-- What binds a value to a name: the word `is` of a declaration, or the equals sign of a member. -/
inductive Binder where
  | is | eq

namespace Binder

/-- What binds a name to a value, as written. -/
def text : Binder → List Char
  | .is => ['i', 's']
  | .eq => ['=']

/-- Its token. -/
def kind : Binder → TokenKind
  | .is => .word "is" (.keyword .is)
  | .eq => .eq

end Binder

/-- A name with a literal for its value. -/
structure Binding where
  name : PlainName
  value : Literal

/-- A name with its value, or with signs in the place of one. -/
inductive Line where
  | whole (binding : Binding)
  | broken (name : PlainName) (first : Sign) (more : List Sign)

namespace Line

open Piece (join tokensFrom AllFit)

/-- What the line gives a value to. -/
def name : Line → PlainName
  | .whole p => p.name
  | .broken name _ _ => name

/-- The tokens of what stands in the place of the value. -/
def right (gap : Gap) : Line → List Piece
  | .whole p => [⟨gap.text, p.value.text, p.value.kind⟩]
  | .broken _ first more => (first :: more).map fun s => ⟨gap.text, s.text, s.kind⟩

/-- The tokens of a line. -/
def pieces (b : Binder) (gap : Gap) (blank : List Char) (l : Line) : List Piece :=
  ⟨blank, l.name.text, .word (String.ofList l.name.text) .name⟩ :: ⟨gap.text, b.text, b.kind⟩ ::
    l.right gap

/-- A line as text. -/
def text (b : Binder) (gap : Gap) (l : Line) : List Char := Piece.tight (l.pieces b gap [])

/-- The tokens of lines behind each other, with white space between any two. -/
def allPieces (b : Binder) (gap sep : Gap) (blank : List Char) : List Line → List Piece
  | [] => []
  | l :: ls => l.pieces b gap blank ++ allPieces b gap sep sep.text ls

variable {b : Binder} {gap sep : Gap} {blank rest : List Char} {l : Line} {ls : List Line}

/-- The tokens of a line as text. -/
theorem join_pieces (b : Binder) (gap : Gap) (blank : List Char) (l : Line) :
    join (l.pieces b gap blank) = blank ++ l.text b gap := by
  simp [pieces, text, Piece.tight, Piece.written]

/-- Lines with white space in front of each. -/
theorem join_allPieces (b : Binder) (gap sep : Gap) (ls : List Line) :
    join (allPieces b gap sep sep.text ls) = ls.flatMap fun l => sep.text ++ l.text b gap := by
  induction ls with
  | nil => rfl
  | cons l ls ih => rw [allPieces, Piece.join_append, join_pieces, ih, List.flatMap_cons]

/-- Lines with white space between any two. -/
theorem join_allPieces_nil (b : Binder) (gap sep : Gap) (ls : List Line) :
    join (allPieces b gap sep [] ls) = List.intercalate sep.text (ls.map (text b gap)) := by
  cases ls with
  | nil => rfl
  | cons l ls =>
    rw [allPieces, Piece.join_append, join_pieces, join_allPieces, List.nil_append, List.map_cons]
    induction ls generalizing l with
    | nil => simp
    | cons m ls ih =>
      rw [List.map_cons, List.intercalate_cons_cons, ← ih m, List.flatMap_cons, List.append_assoc,
        List.append_assoc]

/-! ### Tokens -/

/-- A literal is read as one token in front of white space. -/
theorem fits_literal (hb : ∀ c ∈ blank, isBlank c = true)
    (hr : ∀ d, rest.head? = some d → isBlank d = true) (v : Literal) :
    Piece.Fits ⟨blank, v.text, v.kind⟩ rest := by
  cases v with
  | number kind text writes =>
    refine Piece.fits_number hb writes fun d hd => ⟨Word.isPart_of_isBlank (hr d hd), ?_⟩
    rintro rfl
    exact absurd (hr _ hd) (by decide)
  | string quote raw encloses => exact Piece.fits_string hb encloses

/-- In front of white space every sign stands for itself. -/
theorem lone_of_blank {c : Char} (hr : ∀ d, rest.head? = some d → isBlank d = true)
    (hopens : c ≠ '\x7b' ∧ c ≠ '"' ∧ c ≠ '\'') (hdigit : c.isDigit = false ∧ c ≠ '.')
    (hword : Word.isStart c = false) : Lexeme.Lone c rest := by
  have hne (x : Char) (hx : isBlank x = false) : rest.head? ≠ some x := by
    intro hd
    rw [hr x hd] at hx
    cases hx
  refine ⟨?_, by simp [hdigit], hword, fun _ => hne '=' (by decide)⟩
  rintro (h | h | h | ⟨-, h⟩ | ⟨-, h⟩ | ⟨-, h⟩)
  · exact hopens.1 h
  · exact hopens.2.1 h
  · exact hopens.2.2 h
  · exact hne '*' (by decide) h
  · exact hne '*' (by decide) h
  · exact hne '/' (by decide) h

/-- So is a sign. -/
theorem fits_sign (hb : ∀ c ∈ blank, isBlank c = true)
    (hr : ∀ d, rest.head? = some d → isBlank d = true) (s : Sign) :
    Piece.Fits ⟨blank, s.text, s.kind⟩ rest := by
  cases s with
  | eqEq | notEq | ltEq | gtEq => exact Piece.fits_double hb rfl
  | _ => exact Piece.fits_lone hb rfl rfl (lone_of_blank hr (by decide) (by decide) rfl)

/-- So is what stands in the place of the value, token by token. -/
theorem fits_right (hr : ∀ d, rest.head? = some d → isBlank d = true) (l : Line) :
    AllFit (l.right gap) rest := by
  cases l with
  | whole p => exact ⟨fits_literal gap.blank hr p.value, trivial⟩
  | broken name first more =>
    rw [right]
    generalize first :: more = signs
    induction signs with
    | nil => trivial
    | cons s signs ih =>
      refine ⟨fits_sign gap.blank ?_ s, ih⟩
      cases signs with
      | nil => exact hr
      | cons s' signs =>
        rw [List.map_cons, Piece.join_cons, Piece.written, List.append_assoc, List.append_assoc]
        exact gap.head _

/-- So is a line. -/
theorem fits_pieces (hb : ∀ c ∈ blank, isBlank c = true)
    (hr : ∀ d, rest.head? = some d → isBlank d = true) (b : Binder) (l : Line) :
    AllFit (l.pieces b gap blank) rest := by
  have hright : ∀ d, (join (l.right gap) ++ rest).head? = some d → isBlank d = true := by
    cases l <;>
      simp only [right, List.map_cons, Piece.join_cons, Piece.written, List.append_assoc] <;>
      exact gap.head _
  refine ⟨?_, ?_, fits_right hr l⟩
  · rw [← l.name.plain]
    refine Piece.fits_word hb l.name.word fun d hd => Word.isPart_of_isBlank ?_
    rw [Piece.join_cons, Piece.written, List.append_assoc, List.append_assoc] at hd
    exact gap.head _ d hd
  · cases b with
    | is =>
      exact Piece.fits_word gap.blank ⟨rfl, List.forall_mem_singleton.2 rfl⟩ fun d hd =>
        Word.isPart_of_isBlank (hright d hd)
    | eq => exact fits_sign gap.blank hright .eq

/-- So are all lines. -/
theorem fits_allPieces (hb : ∀ c ∈ blank, isBlank c = true)
    (hr : ∀ d, rest.head? = some d → isBlank d = true) (b : Binder) (ls : List Line) :
    AllFit (allPieces b gap sep blank ls) rest := by
  induction ls generalizing blank with
  | nil => trivial
  | cons l ls ih =>
    refine Piece.allFit_append.2 ⟨fits_pieces hb ?_ b l, ih sep.blank⟩
    cases ls with
    | nil => exact hr
    | cons m ls =>
      rw [allPieces, Piece.join_append, join_pieces, List.append_assoc, List.append_assoc]
      exact sep.head _

end Line

/-! ### Runs -/

namespace Recovery

variable {us ts : List Token}

/-- No declaration starts at a sign. -/
theorem itemGap_signs (hu : ∀ u ∈ us, ∃ s : Sign, u.kind = s.kind) (ht : itemGap ts = 0) :
    itemGap (us ++ ts) = us.length := by
  induction us with
  | nil => exact ht
  | cons u us ih =>
    obtain ⟨s, hs⟩ := hu u (by simp)
    have hword : Lookahead.isWord (u :: (us ++ ts)) 0 = false := by
      rw [Lookahead.isWord, Lookahead.kind?_zero, hs]
      cases s <;> rfl
    have hkeyword := Lookahead.isKeyword_of_not_isWord hword
    have hmodifier : Lookahead.isModifier (u :: (us ++ ts)) 0 = false := by
      rw [Lookahead.isModifier, Lookahead.keyword?, Lookahead.kind?_zero, hs]
      cases s <;> rfl
    have hstarts : Lookahead.startsItem (u :: (us ++ ts)) = false := by
      simp [Lookahead.startsItem, Lookahead.startsAssignment, Lookahead.startsVisibility,
        Lookahead.startsTemplate, Lookahead.startsUnnamed, hword, hkeyword, hmodifier]
    rw [List.cons_append, itemGap, hstarts, if_neg (by simp),
      ih fun v hv => hu v (List.mem_cons_of_mem _ hv), List.length_cons]

/-- No entry starts at a sign, and one that closes a bracket is part of the breakage. -/
theorem entryGap_signs (hu : ∀ u ∈ us, ∃ s : Sign, u.kind = s.kind)
    (ht : entryGap 0 ts = ⟨0, true⟩) : entryGap 0 (us ++ ts) = ⟨us.length, true⟩ := by
  induction us with
  | nil => exact ht
  | cons u us ih =>
    obtain ⟨s, hs⟩ := hu u (by simp)
    have hword : Lookahead.isWord (u :: (us ++ ts)) 0 = false := by
      rw [Lookahead.isWord, Lookahead.kind?_zero, hs]
      cases s <;> rfl
    have hmodifier : Lookahead.isModifier (u :: (us ++ ts)) 0 = false := by
      rw [Lookahead.isModifier, Lookahead.keyword?, Lookahead.kind?_zero, hs]
      cases s <;> rfl
    have hstarts : Lookahead.startsEntry (u :: (us ++ ts)) = false := by
      rw [Lookahead.startsEntry, Lookahead.startsMember, Lookahead.startsAssignment,
        Lookahead.startsVisibility, hword, hmodifier]
      rfl
    have hshift : u.kind.shift 0 = 0 := by
      rw [hs]
      cases s <;> rfl
    have hparen : u.kind ≠ .rparen := by
      rw [hs]
      cases s <;> simp [Sign.kind]
    rw [List.cons_append, entryGap_cons, if_neg (by simp [hstarts, hparen]), hshift,
      ih fun v hv => hu v (List.mem_cons_of_mem _ hv)]
    rfl

end Recovery

namespace Parser

open Piece (join tokensFrom)

variable {src : Source} {n : Nat} {c : Cursor} {t u : Token} {us ts : List Token}

/-- A literal in front of what is no operator is a whole expression. -/
theorem Reads.literal (he : src.Ended) (v : Literal) (hr : c.rest = t :: ts) (ht : t.kind = v.kind)
    (hd : c.depth < maxNesting) (ho : operator? ts = none) :
    Reads src (Grammar.levels (n + 1)).expr c (v.expr t.span) (c.beyond [t]) [] := by
  have hunary : Reads src (unary (.levels n)) c.down (v.expr t.span) (c.down.beyond [t]) [] := by
    cases v with
    | number kind text writes => exact .number hr ht
    | string quote raw encloses => exact .string hr ht
  have hrest : (c.beyond [t]).rest = ts := Cursor.rest_beyond hr
  exact .above_expr (advancing_levels n) he hd hunary (hrest ▸ ho)

/-- No expression starts with a sign. -/
theorem Fails.sign (s : Sign) (hr : c.rest = t :: ts) (ht : t.kind = s.kind)
    (hd : c.depth < maxNesting) : Fails src (Grammar.levels (n + 1)).expr c c
      [.ofCause (.noExpression s.kind.name) t.span] := by
  have hk : (c.rest.headD src.stop).kind = s.kind := by rw [headD_of_rest hr, ht]
  have hscoped : Lookahead.startsScoped c.rest = false := by
    rw [hr, Lookahead.startsScoped, Lookahead.isKind, Lookahead.isKind, Lookahead.isKind,
      Lookahead.kind?_zero, ht]
    cases s <;> rfl
  have hprimary : primary (.levels n) src c.down = noExpression src c.down := by
    have hdown : (c.down.rest.headD src.stop).kind = s.kind := hk
    rw [primary, peek_bind]
    cases s <;>
      · simp only [hdown, Sign.kind]
        rw [ahead_bind, if_neg (by rw [Cursor.down_rest, hscoped]; simp)]
  have hnone : Fails src (noExpression : Parser Expr) c.down c.down
      [.ofCause (.noExpression s.kind.name) t.span] := by
    refine ⟨rfl, rfl, fun ended => ?_⟩
    show Note.diagnostics ended (notesAt (c.rest.headD src.stop)
      (.noExpression (c.rest.headD src.stop).kind.name) ++ []) = _
    rw [List.append_nil, headD_of_rest hr, notesAt, ht]
    cases s <;> rfl
  have hunary : Fails src (unary (.levels n)) c.down c.down
      [.ofCause (.noExpression s.kind.name) t.span] := by
    refine .congr (unary_other ?_ ?_) (.congr hprimary hnone) <;>
      · rw [Cursor.down_rest, hk]
        cases s <;> simp [Sign.kind]
  show Fails src _ c (c.beyond []) _
  exact .nested hd (.mark (hunary.bind _))

/-- Cutting out a broken item of which something has been read. -/
theorem Reads.recoverItem {m : Mark} {text : List Char} (hm : m.count < c.count)
    (hr : c.rest = us ++ ts) (hg : Recovery.itemGap (us ++ ts) = us.length)
    (hs : Text.slice? src.text (m.upTo (c.beyond us)).start (m.upTo (c.beyond us)).stop =
      some text) :
    Reads src (recoverItem m) c ⟨m.upTo (c.beyond us), String.ofList text⟩ (c.beyond us) [] := by
  refine .bind (a := ()) (.bind (.movedFrom hm) (.ite_pos rfl (.pure ()))) (.ahead ?_)
  rw [hr, hg]
  exact .bind (.skip hr) (.bind (.errorFrom hs) (.bind (.emit _) (.pure _)))

/-- Cutting out a broken entry of which something has been read. -/
theorem Reads.recoverEntry {m : Mark} {text : List Char} (hm : m.count < c.count)
    (hr : c.rest = us ++ ts) (hg : Recovery.entryGap 0 (us ++ ts) = ⟨us.length, true⟩)
    (hs : Text.slice? src.text (m.upTo (c.beyond us)).start (m.upTo (c.beyond us)).stop =
      some text) :
    Reads src (recoverEntry m) c ⟨m.upTo (c.beyond us), String.ofList text⟩ (c.beyond us) [] := by
  refine .bind (a := ()) (.bind (.movedFrom hm) (.ite_pos rfl (.pure ()))) (.ahead ?_)
  rw [hr, hg]
  exact .bind (.skip hr) (.ite_pos rfl (.bind (.errorFrom hs) (.bind (.emit _) (.pure _))))

end Parser

/-! ### Lines one by one -/

/-- The item is the declaration of a name and its value. -/
def Binding.Declares (p : Binding) (i : Item) : Prop :=
  ∃ s₁ s₂ s₃, i = .assignment ⟨⟨String.ofList p.name.text, s₁⟩, p.value.expr s₂, s₃⟩

/-- The entry is the member with a name and its value. -/
def Binding.Binds (p : Binding) (e : Entry) : Prop :=
  ∃ s₁ s₂ s₃, e = .member ⟨⟨String.ofList p.name.text, s₁⟩, none, some (p.value.expr s₂), false, s₃⟩

namespace Line

open Piece (join tokensFrom)

variable {A B : Type} {src : Source} {b : Binder} {gap sep : Gap} {blank : List Char}

/-- What a line is read as: one that is whole as `P` says, with no problem, and a broken one as an
error node with all of its text, with one problem. -/
inductive Shows (b : Binder) (gap : Gap) (P : Binding → A → Prop) (error : ErrorNode → A) :
    Line → A → List Diagnostic → Prop
  | whole {p : Binding} {a : A} : P p a → Shows b gap P error (.whole p) a []
  | broken (name : PlainName) (first : Sign) (more : List Sign) (s : Span) (d : Diagnostic) :
    Shows b gap P error (.broken name first more)
      (error ⟨s, String.ofList ((Line.broken name first more).text b gap)⟩) [d]

/-- What lines behind each other are read as. -/
inductive AllShow (b : Binder) (gap : Gap) (P : Binding → A → Prop) (error : ErrorNode → A) :
    List Line → List A → List Diagnostic → Prop
  | nil : AllShow b gap P error [] [] []
  | cons {l : Line} {ls : List Line} {a : A} {as : List A} {ds es : List Diagnostic} :
    Shows b gap P error l a ds → AllShow b gap P error ls as es →
      AllShow b gap P error (l :: ls) (a :: as) (ds ++ es)

/-- One round of a loop reads any line, in front of what `E` allows. -/
def Rounds (src : Source) (b : Binder) (gap : Gap) (P : Binding → A → Prop)
    (error : ErrorNode → A) (E : List Token → Prop) (step : List A → Parser (List A ⊕ B)) : Prop :=
  ∀ (l : Line) (read : List A) {c : Cursor} {ts : List Token} {here : Position}
    {before blank after : List Char},
    src.text = before ++ (join (l.pieces b gap blank) ++ after) →
    here.offset = Text.byteSize before →
    c.rest = tokensFrom here (l.pieces b gap blank) ++ ts → c.depth < Parser.maxNesting → E ts →
    ∃ a ds, l.Shows b gap P error a ds ∧ Parser.Reads src (step read) c (.inl (a :: read))
      (c.beyond (tokensFrom here (l.pieces b gap blank))) ds

/-- The tokens of a line start with its name and what binds the value. -/
theorem tokens_front (here : Position) (b : Binder) (gap : Gap) (blank : List Char) (l : Line) :
    ∃ (t u v : Token) (vs : List Token),
      tokensFrom here (l.pieces b gap blank) = t :: u :: v :: vs ∧
      t.kind = .word (String.ofList l.name.text) .name ∧ u.kind = b.kind ∧
      v.kind.keyword? ≠ some .is := by
  cases l with
  | whole p =>
    exact ⟨_, _, _, _, rfl, rfl, rfl, by simp [Piece.token]⟩
  | broken name first more =>
    exact ⟨_, _, _, _, rfl, rfl, rfl, by simp [Piece.token]⟩

/-- A whole line has three tokens. -/
theorem tokens_whole (here : Position) (b : Binder) (gap : Gap) (blank : List Char) (p : Binding) :
    ∃ t u v : Token, tokensFrom here ((whole p).pieces b gap blank) = [t, u, v] ∧
      v.kind = p.value.kind :=
  ⟨_, _, _, rfl, rfl⟩

/-- A broken one has as many signs as are given. -/
theorem tokens_broken (here : Position) (b : Binder) (gap : Gap) (blank : List Char)
    (name : PlainName) (first : Sign) (more : List Sign) : ∃ (t u v : Token) (vs : List Token),
      tokensFrom here ((broken name first more).pieces b gap blank) = t :: u :: v :: vs ∧
      v.kind = first.kind ∧ ∀ x ∈ v :: vs, ∃ s : Sign, x.kind = s.kind := by
  refine ⟨_, _, _, _, rfl, rfl, fun x hx => ?_⟩
  have hmem := List.mem_map_of_mem (f := Token.kind) hx
  change x.kind ∈ (tokensFrom _ ((first :: more).map fun s => ⟨gap.text, s.text, s.kind⟩)).map _
    at hmem
  rw [Piece.kind_tokensFrom, List.map_map] at hmem
  obtain ⟨s, -, hs⟩ := List.mem_map.1 hmem
  exact ⟨s, hs.symm⟩

/-- No operator is at the start of a line. -/
theorem operator?_tokens (here : Position) (b : Binder) (gap : Gap) (blank : List Char) (l : Line)
    (ts : List Token) :
    Parser.operator? (tokensFrom here (l.pieces b gap blank) ++ ts) = none := by
  obtain ⟨t, u, v, vs, hus, ht, -, -⟩ := tokens_front here b gap blank l
  rw [hus, Parser.operator?, List.cons_append, Lookahead.kind?_zero, ht]

/-- **Lines are read one by one**, each with what is found in it. -/
theorem Rounds.all {P : Binding → A → Prop} {error : ErrorNode → A} {E : List Token → Prop}
    {step : List A → Parser (List A ⊕ B)} (ha : Parser.Advances step) (he : src.Ended)
    (hround : Rounds src b gap P error E step)
    (hnext : ∀ (l : Line) (here : Position) (blank : List Char) (ts : List Token),
      E (tokensFrom here (l.pieces b gap blank) ++ ts))
    (ls : List Line) (read : List A) {c : Cursor} {ts : List Token} {here : Position}
    {before after : List Char}
    (htext : src.text = before ++ (join (allPieces b gap sep blank ls) ++ after))
    (hh : here.offset = Text.byteSize before)
    (hr : c.rest = tokensFrom here (allPieces b gap sep blank ls) ++ ts)
    (hd : c.depth < Parser.maxNesting) (hts : E ts) :
    ∃ as ds, AllShow b gap P error ls as ds ∧ ∀ {x : B} {d : Cursor},
      Parser.Reads src (Parser.loop step (as.reverse ++ read))
        (c.beyond (tokensFrom here (allPieces b gap sep blank ls))) x d [] →
      Parser.Reads src (Parser.loop step read) c x d ds := by
  -- One round for each line; what a round left behind is what the next one starts from.
  induction ls generalizing read c here before blank with
  | nil => exact ⟨[], [], .nil, fun h => h⟩
  | cons l ls ih =>
    rw [allPieces, Piece.join_append, List.append_assoc] at htext
    rw [allPieces, Piece.tokensFrom_append, List.append_assoc] at hr
    have hrest := Cursor.rest_beyond hr
    have hE : E (tokensFrom (here.after (join (l.pieces b gap blank)))
        (allPieces b gap sep sep.text ls) ++ ts) := by
      cases ls with
      | nil => exact hts
      | cons m ls =>
        rw [allPieces, Piece.tokensFrom_append, List.append_assoc]
        exact hnext m _ _ _
    obtain ⟨a, ds, hshow, hreads⟩ := hround l read htext hh hr hd hE
    rw [← List.append_assoc] at htext
    have hh' : (here.after (join (l.pieces b gap blank))).offset =
        Text.byteSize (before ++ join (l.pieces b gap blank)) := by
      rw [Position.offset_after, hh, Text.byteSize_append]
    obtain ⟨as, es, hall, hloop⟩ := ih (a :: read) htext hh' hrest hd
    refine ⟨a :: as, ds ++ es, .cons hshow hall, fun h => hreads.loop_next ha he (hloop ?_)⟩
    rwa [List.reverse_cons, List.append_assoc, List.singleton_append, allPieces,
      Piece.tokensFrom_append, Cursor.beyond_append] at h

end Line

namespace Parser

open Piece (join tokensFrom)

variable {src : Source} {n : Nat} {c : Cursor} {ts : List Token} {gap : Gap}

/-- The text of a line that is read. -/
theorem slice?_line {b : Binder} {here : Position} {before blank after : List Char} (l : Line)
    (htext : src.text = before ++ (join (l.pieces b gap blank) ++ after))
    (hh : here.offset = Text.byteSize before)
    (hr : c.rest = tokensFrom here (l.pieces b gap blank) ++ ts) :
    Text.slice? src.text
      ((Mark.here src c).upTo (c.beyond (tokensFrom here (l.pieces b gap blank)))).start
      ((Mark.here src c).upTo (c.beyond (tokensFrom here (l.pieces b gap blank)))).stop =
        some (l.text b gap) := by
  have hspan : (Mark.here src c).upTo (c.beyond (tokensFrom here (l.pieces b gap blank))) = _ :=
    upTo_across hr (List.cons_ne_nil _ _)
  rw [hspan, htext]
  exact Piece.slice?_across hh (List.cons_ne_nil _ _) after

/-- Each line of declarations is one item. -/
theorem nextItem_rounds (he : src.Ended) : Line.Rounds src .is gap Binding.Declares .error
    (fun ts => Recovery.itemGap ts = 0 ∧ operator? ts = none) (nextItem (.levels (n + 1))) := by
  rintro l read c ts here before blank after htext hh hr hd ⟨hg, ho⟩
  have hslice := slice?_line l htext hh hr
  obtain ⟨t, u, v, vs, hfront, ht, hu, hv⟩ := Line.tokens_front here .is gap blank l
  have hstarts : Lookahead.startsAssignment c.rest 0 = true := by
    rw [hr, hfront]
    exact Lookahead.startsAssignment_cons (by rw [ht]; rfl) (by rw [hu]; rfl)
      (by rintro x ⟨⟩; exact hv)
  have hnonempty : c.rest ≠ [] := by simp [hr, hfront]
  rw [hfront] at hr
  have hin : (c.beyond [t, u]).rest = v :: (vs ++ ts) := Cursor.rest_beyond hr
  cases l with
  | whole p =>
    obtain ⟨_, _, _, hus, hkind⟩ := Line.tokens_whole here .is gap blank p
    rw [hfront] at hus
    cases hus
    have hvalue := Reads.literal (n := n) he p.value hin hkind hd ho
    rw [← Cursor.beyond_append] at hvalue
    rw [hfront]
    exact ⟨_, _, .whole ⟨_, _, _, rfl⟩, .nextItem hnonempty
      (.itemOrError (.item_assignment hstarts (.assignment hr ht (by rw [hu]; rfl) hvalue)))⟩
  | broken name first more =>
    obtain ⟨_, _, _, _, hus, hkind, hsigns⟩ := Line.tokens_broken here .is gap blank name first more
    rw [hfront] at hus
    cases hus
    have hfails : Fails src (item (.levels (n + 1))) c (c.beyond [t, u])
        [.ofCause (.noExpression first.kind.name) v.span] :=
      .item_assignment hstarts (.assignment hr ht (by rw [hu]; rfl) (.sign first hin hkind hd))
    rw [hfront] at hslice ⊢
    have hcut : Reads src (recoverItem (Mark.here src c)) (c.beyond [t, u]) _ _ [] :=
      .recoverItem (Nat.lt_add_of_pos_right (by simp)) hin (Recovery.itemGap_signs hsigns hg)
        (by rw [← Cursor.beyond_append]; exact hslice)
    rw [← Cursor.beyond_append] at hcut
    exact ⟨_, _, .broken name first more _ _, .nextItem hnonempty
      (.mark ((Reads.recover hfails (hcut.map Item.error)).then (.bind (.emit _) (.pure _))))⟩

/-- Each line of members is one entry. -/
theorem entryStep_rounds (he : src.Ended) (body : Parser Object) :
    Line.Rounds src .eq gap Binding.Binds .error
      (fun ts => Recovery.entryGap 0 ts = ⟨0, true⟩ ∧ operator? ts = none)
      (entryStep (.levels (n + 1)) body) := by
  rintro l read c ts here before blank after htext hh hr hd ⟨hg, ho⟩
  have hslice := slice?_line l htext hh hr
  obtain ⟨t, u, v, vs, hfront, ht, hu, hv⟩ := Line.tokens_front here .eq gap blank l
  have hsigned : Lookahead.Signed c.rest := by
    rw [Lookahead.Signed, hr, hfront]
    exact congrArg TokenKind.isWord hu
  have hstarts : Lookahead.startsMember c.rest 0 = true := by
    rw [hr, hfront]
    exact Lookahead.startsMember_eq (by rw [ht]; rfl) hu
  rw [hfront] at hr
  have hin : (c.beyond [t, u]).rest = v :: (vs ++ ts) := Cursor.rest_beyond hr
  -- A whole line is read as a member; a broken one fails at its first sign and is cut out.
  cases l with
  | whole p =>
    obtain ⟨_, _, _, hus, hkind⟩ := Line.tokens_whole here .eq gap blank p
    rw [hfront] at hus
    cases hus
    have hvalue := Reads.literal (n := n) he p.value hin hkind hd ho
    rw [← Cursor.beyond_append] at hvalue
    rw [hfront]
    have hentry : Reads src (entry (.levels (n + 1)) body) c _ _ [] :=
      .entry_member hsigned hstarts (.member hr ht hu hvalue)
    exact ⟨_, _, .whole ⟨_, _, _, rfl⟩, .nextEntry hr ht read (hentry.orRecover _)⟩
  | broken name first more =>
    obtain ⟨_, _, _, _, hus, hkind, hsigns⟩ := Line.tokens_broken here .eq gap blank name first more
    rw [hfront] at hus
    cases hus
    have hfails : Fails src (entry (.levels (n + 1)) body) c (c.beyond [t, u])
        [.ofCause (.noExpression first.kind.name) v.span] :=
      .entry_member hsigned hstarts (.member hr ht hu (.sign first hin hkind hd))
    rw [hfront] at hslice ⊢
    have hcut : Reads src (recoverEntry (Mark.here src c)) (c.beyond [t, u]) _ _ [] :=
      .recoverEntry (Nat.lt_add_of_pos_right (by simp)) hin (Recovery.entryGap_signs hsigns hg)
        (by rw [← Cursor.beyond_append]; exact hslice)
    rw [← Cursor.beyond_append] at hcut
    exact ⟨_, _, .broken name first more _ _, 
      .nextEntry hr ht read (.recover hfails (hcut.map Entry.error))⟩

/-- A declaration may follow. -/
theorem itemGap_line {here : Position} {blank : List Char} (l : Line) :
    Recovery.itemGap (tokensFrom here (l.pieces .is gap blank) ++ ts) = 0 := by
  obtain ⟨t, u, v, vs, hfront, ht, hu, hv⟩ := Line.tokens_front here .is gap blank l
  have hstarts : Lookahead.startsAssignment (t :: u :: v :: (vs ++ ts)) 0 = true :=
    Lookahead.startsAssignment_cons (by rw [ht]; rfl) (by rw [hu]; rfl) (by rintro x ⟨⟩; exact hv)
  rw [hfront, List.cons_append, List.cons_append, List.cons_append, Recovery.itemGap,
    Lookahead.startsItem, hstarts]
  rfl

/-- A member may follow. -/
theorem entryGap_line {here : Position} {blank : List Char} (l : Line) :
    Recovery.entryGap 0 (tokensFrom here (l.pieces .eq gap blank) ++ ts) = ⟨0, true⟩ := by
  obtain ⟨t, u, v, vs, hfront, ht, hu, hv⟩ := Line.tokens_front here .eq gap blank l
  have hstarts : Lookahead.startsEntry (t :: u :: v :: (vs ++ ts)) = true := by
    rw [Lookahead.startsEntry, Lookahead.startsMember_eq (by rw [ht]; rfl) hu]
    rfl
  rw [hfront, List.cons_append, List.cons_append, List.cons_append, Recovery.entryGap_cons,
    if_pos ⟨rfl, .inr ⟨by simp [ht, TokenKind.opens], by simp [ht, TokenKind.closes], hstarts⟩⟩]

end Parser

/-! ### The whole source -/

namespace Line

open Piece (join tokensFrom)

/-- Declarations `N is v` behind each other. -/
def declarations (gap sep : Gap) (ls : List Line) : String :=
  String.ofList (List.intercalate sep.text (ls.map (text .is gap)))

/-- An object `T( … )` of members `N = v`. -/
def members (type : PlainName) (gap sep : Gap) (ls : List Line) : String :=
  String.ofList
    (type.text ++ '(' :: (ls.flatMap fun l => sep.text ++ l.text .eq gap) ++ (sep.text ++ [')']))

/-- Lines of which one is broken. -/
def oneBroken (before : List Binding) (name : PlainName) (first : Sign) (more : List Sign)
    (after : List Binding) : List Line :=
  before.map .whole ++ .broken name first more :: after.map .whole

variable {A : Type} {b : Binder} {gap : Gap} {P : Binding → A → Prop} {error : ErrorNode → A}

/-- Lines that are all whole. -/
theorem AllShow.all_whole {ps : List Binding} {as : List A} {ds : List Diagnostic}
    (h : AllShow b gap P error (ps.map .whole) as ds) : List.Forall₂ P ps as ∧ ds = [] := by
  induction ps generalizing as ds with
  | nil =>
    cases h
    exact ⟨.nil, rfl⟩
  | cons p ps ih =>
    obtain _ | ⟨⟨hp⟩, hrest⟩ := h
    obtain ⟨hps, rfl⟩ := ih hrest
    exact ⟨.cons hp hps, rfl⟩

/-- Lines of which one is broken. -/
theorem AllShow.one_broken {before after : List Binding} {name : PlainName} {first : Sign}
    {more : List Sign} {as : List A} {ds : List Diagnostic}
    (h : AllShow b gap P error (oneBroken before name first more after) as ds) :
    ∃ as₁ s as₂ d,
      as = as₁ ++ error ⟨s, String.ofList ((broken name first more).text b gap)⟩ :: as₂ ∧
      ds = [d] ∧ List.Forall₂ P before as₁ ∧ List.Forall₂ P after as₂ := by
  induction before generalizing as ds with
  | nil =>
    obtain _ | ⟨hline, hrest⟩ := h
    obtain _ | ⟨_, _, _, s, d⟩ := hline
    obtain ⟨hafter, rfl⟩ := hrest.all_whole
    exact ⟨[], s, _, d, rfl, rfl, .nil, hafter⟩
  | cons p before ih =>
    obtain _ | ⟨⟨hp⟩, hrest⟩ := h
    obtain ⟨as₁, s, as₂, d, rfl, rfl, hbefore, hafter⟩ := ih hrest
    exact ⟨_ :: as₁, s, as₂, d, rfl, rfl, .cons hp hbefore, hafter⟩

end Line

/-- No source that starts with a word starts with a byte order mark. -/
theorem PlainName.head?_append (name : PlainName) (rest : List Char) :
    (name.text ++ rest).head? ≠ some '\uFEFF' := by
  obtain ⟨text, word, plain⟩ := name
  cases text with
  | nil => cases word
  | cons c inside =>
    rintro ⟨⟩
    exact absurd word.1 (by decide)

namespace Parser

open Piece (join tokensFrom)

variable {gap sep : Gap} {ls : List Line}

/-- A source of declarations. -/
theorem parse_declarations (gap sep : Gap) (hne : ls ≠ []) : ∃ is ds,
    Line.AllShow .is gap Binding.Declares .error ls is ds ∧
      parse (Line.declarations gap sep ls) =
        ⟨Document.ofItems (Line.declarations gap sep ls) is, Diagnostic.sort ds⟩ := by
  have hs : (Line.declarations gap sep ls).toList =
      List.intercalate sep.text (ls.map (Line.text .is gap)) := String.toList_ofList
  generalize Line.declarations gap sep ls = source at hs ⊢
  have htext : source.toList = join (Line.allPieces .is gap sep [] ls) ++ [] := by
    rw [hs, Line.join_allPieces_nil, List.append_nil]
  have hfit : Piece.AllFit (Line.allPieces .is gap sep [] ls) [] :=
    Line.fits_allPieces (by simp) (by simp) .is ls
  have hfront : source.toList.head? ≠ some '\uFEFF' := by
    obtain ⟨l, ls, rfl⟩ := List.exists_cons_of_ne_nil hne
    have hl : l.text .is gap = l.name.text ++ _ := rfl
    rw [htext, Line.allPieces, Piece.join_append, Line.join_pieces, List.nil_append, hl,
      List.append_assoc, List.append_assoc]
    exact l.name.head?_append _
  obtain ⟨stop, hstop, hstream⟩ := TokenStream.ofText_of_allFit htext hfit (by simp) hfront
  have he : Source.Ended ⟨source.toList, stop⟩ := hstop
  let c : Cursor := .start (tokensFrom .origin (Line.allPieces .is gap sep [] ls))
  have hr : c.rest = tokensFrom .origin (Line.allPieces .is gap sep [] ls) ++ [] :=
    (List.append_nil _).symm
  have hd : c.depth < maxNesting := Nat.zero_lt_succ _
  have htext' : (⟨source.toList, stop⟩ : Source).text =
    [] ++ (join (Line.allPieces .is gap sep [] ls) ++ []) := htext
  obtain ⟨is, ds, hall, hloop⟩ := (nextItem_rounds he).all (nextItem_advances (advancing_levels _))
    he (fun l _ _ _ => ⟨itemGap_line l, Line.operator?_tokens _ _ _ _ l _⟩) ls []
    htext' rfl hr hd ⟨rfl, rfl⟩
  have hend : Reads ⟨source.toList, stop⟩ (loop (nextItem (.levels maxNesting)) (is.reverse ++ []))
      (c.beyond (tokensFrom .origin (Line.allPieces .is gap sep [] ls)))
      (some (is.reverse ++ []).reverse) _ [] :=
    .loop_end (nextItem_advances (advancing_levels _)) he (.lastItem (Cursor.rest_beyond hr))
  rw [List.append_nil is.reverse, List.reverse_reverse, ← List.append_nil is.reverse] at hend
  exact ⟨is, ds, hall, parse_of_reads hstream (hloop hend)⟩

/-- An object of members. -/
theorem Reads.object_lines {src : Source} {n : Nat} {c : Cursor} {t u v : Token}
    {ts us : List Token} {here : Position} {before after : List Char} {text : String}
    {wordClass : WordClass} (he : src.Ended)
    (htext : src.text = before ++ (join (Line.allPieces .eq gap sep sep.text ls) ++ after))
    (hh : here.offset = Text.byteSize before)
    (hus : tokensFrom here (Line.allPieces .eq gap sep sep.text ls) = us)
    (hr : c.rest = t :: u :: (us ++ v :: ts)) (hd : c.depth < maxNesting)
    (ht : t.kind = .word text wordClass) (hu : u.kind = .lparen) (hv : v.kind = .rparen) :
    ∃ es ds s, Line.AllShow .eq gap Binding.Binds .error ls es ds ∧
      Reads src (Parser.object (.levels (n + 1))) c ⟨⟨text, t.span⟩, es, s⟩
        (c.beyond (t :: u :: (us ++ [v]))) ds := by
  have hg := advancing_levels (n + 1)
  have ha := entryStep_advances hg (object_steady hg)
  have hin : (c.beyond [t, u]).rest = us ++ v :: ts := Cursor.rest_beyond hr
  have hout : ((c.beyond [t, u]).beyond us).rest = v :: ts := Cursor.rest_beyond hin
  subst hus
  obtain ⟨es, ds, hall, hloop⟩ := (entryStep_rounds he _).all ha he
    (fun l _ _ _ => ⟨entryGap_line l, Line.operator?_tokens _ _ _ _ l _⟩) ls [] htext hh hin hd
    ⟨by rw [Recovery.entryGap_cons, if_pos ⟨rfl, .inl hv⟩], by
      rw [operator?, Lookahead.kind?_zero, hv]⟩
  have hend := Reads.loop_end ha he (.lastEntry hout hv (es.reverse ++ []))
  rw [List.append_nil, List.reverse_reverse, ← Cursor.beyond_append, ← Cursor.beyond_append] at hend
  have hr' : c.rest = t :: u ::
      ((tokensFrom here (Line.allPieces .eq gap sep sep.text ls) ++ [v]) ++ ts) := by
    rw [hr, List.append_assoc, List.singleton_append]
  refine ⟨es, ds, _, hall, .object hg he hr' ht hu (hloop ?_)⟩
  rw [List.append_nil, ← Cursor.beyond_append]
  exact hend

/-- A source that is an object of members. -/
theorem parse_members (type : PlainName) (gap sep : Gap) (ls : List Line) : ∃ es ds s₁ s₂,
    Line.AllShow .eq gap Binding.Binds .error ls es ds ∧
      parse (Line.members type gap sep ls) = ⟨Document.ofItems (Line.members type gap sep ls)
        [.expr (.object ⟨⟨String.ofList type.text, s₁⟩, es, s₂⟩)], Diagnostic.sort ds⟩ := by
  have hs : (Line.members type gap sep ls).toList = type.text ++ '(' ::
      (ls.flatMap fun l => sep.text ++ l.text .eq gap) ++ (sep.text ++ [')']) :=
    String.toList_ofList
  generalize Line.members type gap sep ls = source at hs ⊢
  -- The source as pieces: the word and its bracket, the lines, the closing bracket.
  let front : List Piece :=
    [⟨[], type.text, .word (String.ofList type.text) .name⟩, ⟨[], ['('], .lparen⟩]
  let back : List Piece := [⟨sep.text, [')'], .rparen⟩]
  have htext : source.toList =
      join (front ++ (Line.allPieces .eq gap sep sep.text ls ++ back)) ++ [] := by
    rw [Piece.join_append, Piece.join_append, Line.join_allPieces, hs]
    simp [front, back, Piece.written]
  have hgap : ∀ d, (join (Line.allPieces .eq gap sep sep.text ls ++ back) ++ []).head? = some d →
      isBlank d = true := by
    rw [Piece.join_append, Line.join_allPieces]
    cases ls with
    | nil => simpa [back, Piece.written] using sep.head [')']
    | cons l ls =>
      rw [List.flatMap_cons, List.append_assoc, List.append_assoc, List.append_assoc]
      exact sep.head _
  have hclose : ∀ d, (join back ++ []).head? = some d → isBlank d = true := by
    simpa [back, Piece.written] using sep.head [')']
  have hfit : Piece.AllFit (front ++ (Line.allPieces .eq gap sep sep.text ls ++ back)) [] := by
    refine Piece.allFit_append.2 ⟨⟨?_, ?_, trivial⟩, Piece.allFit_append.2
      ⟨Line.fits_allPieces sep.blank hclose .eq ls, ?_, trivial⟩⟩
    · rw [← type.plain]
      exact Piece.fits_word (by simp) type.word (by rintro d ⟨⟩; decide)
    · exact Piece.fits_lone (by simp) rfl rfl
        (Line.lone_of_blank hgap (by decide) (by decide) rfl)
    · exact Piece.fits_lone sep.blank rfl rfl
        (Line.lone_of_blank (by simp) (by decide) (by decide) rfl)
  have hfront : source.toList.head? ≠ some '\uFEFF' := by
    rw [hs, List.append_assoc]
    exact type.head?_append _
  obtain ⟨stop, hstop, hstream⟩ := TokenStream.ofText_of_allFit htext hfit (by simp) hfront
  have he : Source.Ended ⟨source.toList, stop⟩ := hstop
  rw [Piece.tokensFrom_append, Piece.tokensFrom_append] at hstream
  -- Their tokens, and the entries that the lines give behind the first two of them.
  obtain ⟨t, u, hfront, ht, hu⟩ : ∃ t u : Token, tokensFrom .origin front = [t, u] ∧
      t.kind = .word (String.ofList type.text) .name ∧ u.kind = .lparen := ⟨_, _, rfl, rfl, rfl⟩
  let us := tokensFrom (Position.origin.after (join front)) (Line.allPieces .eq gap sep sep.text ls)
  obtain ⟨v, hback, hv⟩ : ∃ v : Token, tokensFrom ((Position.origin.after (join front)).after
      (join (Line.allPieces .eq gap sep sep.text ls))) back = [v] ∧ v.kind = .rparen :=
    ⟨_, rfl, rfl⟩
  rw [hfront, hback] at hstream
  let c : Cursor := .start ([t, u] ++ (us ++ [v]))
  have hlines : (⟨source.toList, stop⟩ : Source).text =
      join front ++ (join (Line.allPieces .eq gap sep sep.text ls) ++ (join back ++ [])) := by
    rw [htext, Piece.join_append, Piece.join_append, List.append_assoc, List.append_assoc]
  have hr : c.rest = t :: u :: (us ++ v :: []) := rfl
  have hd : c.depth < maxNesting := Nat.zero_lt_succ _
  have hd' : c.down.depth < maxNesting := Nat.succ_lt_succ (Nat.zero_lt_succ _)
  obtain ⟨es, ds, s, hall, hobject⟩ := Reads.object_lines (n := 30) he hlines
    ((Position.offset_after _ _).trans (Nat.zero_add _)) rfl (c := c.down) hr hd' ht hu hv
  have hrest : (c.beyond (t :: u :: (us ++ [v]))).rest = [] :=
    Cursor.rest_beyond (hr.trans (List.append_nil _).symm)
  -- A bracket behind a word starts no declaration, so the item is an expression.
  have hsigned : Lookahead.Signed c.rest := congrArg TokenKind.isWord hu
  have hmember : Lookahead.startsMember c.rest 0 = false :=
    Lookahead.startsMember_other (by rintro x ⟨⟩; simp [hu])
  have hvalue : Reads ⟨source.toList, stop⟩ (Grammar.levels (31 + 1)).expr c _ _ ds :=
    .above_expr (advancing_levels 31) he hd (.unary_object hr ht hu hobject)
      (by rw [hrest]; rfl)
  exact ⟨es, ds, _, s, hall, parse_of_item hstream hstop (List.cons_ne_nil _ _)
    (.itemOrError (.item_expr hsigned hmember hvalue)) hrest⟩

end Parser

namespace Line

/-- **Errors stay local.**  Of declarations behind each other, or of the members of an object, each
with a literal for its value, one has signs in the place of the value.  It is read as an error node
with its whole text, the others as they stand, and one problem is found. -/
theorem errors_stay_local (gap sep : Gap) (type name : PlainName) (first : Sign) (more : List Sign)
    (before after : List Binding) :
    (∃ is₁ s is₂ d,
      (parse (declarations gap sep (oneBroken before name first more after))).document.items =
        is₁ ++ .error ⟨s, String.ofList ((broken name first more).text .is gap)⟩ :: is₂ ∧
      List.Forall₂ Binding.Declares before is₁ ∧ List.Forall₂ Binding.Declares after is₂ ∧
      (parse (declarations gap sep (oneBroken before name first more after))).diagnostics = [d]) ∧
    (∃ s₁ es₁ s es₂ s₂ d,
      (parse (members type gap sep (oneBroken before name first more after))).document.items =
        [.expr (.object ⟨⟨String.ofList type.text, s₁⟩,
          es₁ ++ .error ⟨s, String.ofList ((broken name first more).text .eq gap)⟩ :: es₂, s₂⟩)] ∧
      List.Forall₂ Binding.Binds before es₁ ∧ List.Forall₂ Binding.Binds after es₂ ∧
      (parse (members type gap sep (oneBroken before name first more after))).diagnostics =
        [d]) := by
  constructor
  · have hne : oneBroken before name first more after ≠ [] := by simp [oneBroken]
    obtain ⟨is, ds, hall, hparse⟩ := Parser.parse_declarations gap sep hne
    obtain ⟨is₁, s, is₂, d, rfl, rfl, hbefore, hafter⟩ := hall.one_broken
    rw [hparse]
    exact ⟨is₁, s, is₂, d, rfl, hbefore, hafter, List.mergeSort_singleton _⟩
  · obtain ⟨es, ds, s₁, s₂, hall, hparse⟩ := Parser.parse_members type gap sep
      (oneBroken before name first more after)
    obtain ⟨es₁, s, es₂, d, rfl, rfl, hbefore, hafter⟩ := hall.one_broken
    rw [hparse]
    exact ⟨s₁, es₁, s, es₂, s₂, d, rfl, hbefore, hafter, List.mergeSort_singleton _⟩

end Line
end Ndf
