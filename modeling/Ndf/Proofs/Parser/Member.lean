/-
# Members as they are written

`SPEC_FULL.md` §8, the four member forms; §9, "Legacy lenient grammar forms".

A member has a type, a value or both of them, and an old form has a colon in front of the equals
sign (`MemberForm`).  For all words, types and values the text of a member is read as this member,
without a problem.

A member can be told from the other items by its second token, which is no word, so a keyword is a
name here like any other.  The value is what is read for its text alone (`Parser.Reads.elsewhere`).
-/

import Ndf.Proofs.Parser.Explained
import Ndf.Proofs.Parser.Types
import Ndf.Proofs.Spacing.Value

namespace Ndf

open Piece (join tokensFrom AllFit)
open Text (isBlank)

/-- The forms of members. -/
inductive MemberForm where
  /-- `name : type` -/
  | typed
  /-- `name = value` -/
  | valued
  /-- `name : type = value` -/
  | both
  /-- `name : type= value` -/
  | tight
  /-- `name : = value` -/
  | legacy

/-- A word as text. -/
def WordText.written (w : WordText) : String := String.ofList w.text

/-- A type as text. -/
def TypeText.written (t : TypeText) : String := String.ofList t.text

namespace MemberForm

variable (name : WordText) (type : TypeText) (form : MemberForm)

/-- A member as text. -/
def text (value : String) : MemberForm → String
  | .typed => name.written ++ " : " ++ type.written
  | .valued => name.written ++ " = " ++ value
  | .both => name.written ++ " : " ++ type.written ++ " = " ++ value
  | .tight => name.written ++ " : " ++ type.written ++ "= " ++ value
  | .legacy => name.written ++ " : = " ++ value

/-- The member that is written, without places. -/
def member (value : Expr) : MemberForm → Member
  | .typed => ⟨⟨name.written, .zero⟩, some type.ref, none, false, .zero⟩
  | .valued => ⟨⟨name.written, .zero⟩, none, some value, false, .zero⟩
  | .both => ⟨⟨name.written, .zero⟩, some type.ref, some value, false, .zero⟩
  | .tight => ⟨⟨name.written, .zero⟩, some type.ref, some value, false, .zero⟩
  | .legacy => ⟨⟨name.written, .zero⟩, none, some value, true, .zero⟩

/-- The colon or the equals sign behind a name or a type. -/
def colon : Piece := ⟨[' '], [':'], .colon⟩

/-- The sign of equality behind a blank. -/
def equals : Piece := ⟨[' '], ['='], .eq⟩

/-- The tokens in front of the value. -/
def pieces : MemberForm → List Piece
  | .typed => name.piece [] :: colon :: type.pieces [' ']
  | .valued => [name.piece [], equals]
  | .both => name.piece [] :: colon :: type.assigned [' '] false
  | .tight => name.piece [] :: colon :: type.assigned [' '] true
  | .legacy => [name.piece [], colon, equals]

/-- A member with a type alone, as text. -/
theorem join_typed (value : String) :
    (MemberForm.typed.text name type value).toList = join (MemberForm.typed.pieces name type) := by
  simp [text, pieces, WordText.written, TypeText.written, WordText.piece, colon, Piece.written,
    TypeText.join_pieces]

/-- One with a value, as text: the value stands behind a blank. -/
theorem join_pieces (value : String) (h : form ≠ .typed) : (form.text name type value).toList =
    join (form.pieces name type) ++ ' ' :: value.toList := by
  cases form with
  | typed => exact absurd rfl h
  | _ => simp [text, pieces, WordText.written, TypeText.written, WordText.piece, colon, equals,
      Piece.written, TypeText.join_assigned]

/-- No member starts with a byte order mark. -/
theorem head_ne_mark (value : String) :
    (form.text name type value).toList.head? ≠ some '\uFEFF' := by
  obtain ⟨c, inside, he, hc⟩ : ∃ c inside, (form.text name type value).toList = c :: inside ∧
      Word.isStart c = true := by
    cases form <;>
    · simp only [text, WordText.written, String.toList_append, String.toList_ofList,
        List.append_assoc]
      exact name.head _
  rw [he]
  rintro ⟨⟩
  exact absurd hc (by decide)

/-- What stands in front of the value is read as its tokens. -/
theorem fits {rest : List Char} (h : Apart rest) : AllFit (form.pieces name type) rest := by
  have hblank : ∀ c ∈ [' '], isBlank c = true := List.forall_mem_singleton.2 rfl
  have hname {more : List Char} : (name.piece []).Fits (' ' :: more) :=
    name.fits (by simp) (by rintro d ⟨⟩; decide)
  have hcolon {more : List Char} : colon.Fits more :=
    Piece.fits_lone hblank rfl rfl
      ⟨by simp [Lexeme.Opens], rfl, rfl, fun h => absurd rfl h⟩
  have hequals {more : List Char} (hne : more.head? ≠ some '=') : equals.Fits more :=
    Piece.fits_lone hblank rfl rfl (lone_of_ne_eq (by simp) hne)
  have hrest : rest.head? ≠ some '=' := fun he => (h '=' he).2 rfl
  cases form with
  | typed => exact ⟨hname, hcolon, type.fits hblank h⟩
  | valued => exact ⟨hname, hequals hrest, trivial⟩
  | both => exact ⟨hname, hcolon, type.fits_assigned false hblank hrest⟩
  | tight => exact ⟨hname, hcolon, type.fits_assigned true hblank hrest⟩
  | legacy => exact ⟨hname, hcolon, hequals hrest, trivial⟩

/-- In front of the value no guid is due. -/
theorem guid (h : form ≠ .typed) :
    (form.pieces name type).foldl (fun g p => g.step p.kind) GuidProgress.none = .none := by
  have assigned (tight : Bool) : ∃ qs p, name.piece [] :: colon :: type.assigned [' '] tight =
      qs ++ [p] ∧ (p.kind = .eq ∨ p.kind = .gtEq) := by
    obtain ⟨qs, p, hp, hk⟩ := type.assigned_closed [' '] tight
    exact ⟨name.piece [] :: colon :: qs, p, by rw [hp]; rfl, hk⟩
  obtain ⟨qs, p, hp, hk⟩ :
      ∃ qs p, form.pieces name type = qs ++ [p] ∧ (p.kind = .eq ∨ p.kind = .gtEq) := by
    cases form with
    | typed => exact absurd rfl h
    | valued => exact ⟨[name.piece []], equals, rfl, .inl rfl⟩
    | both => exact assigned false
    | tight => exact assigned true
    | legacy => exact ⟨[name.piece [], colon], equals, rfl, .inl rfl⟩
  rw [hp, List.foldl_append, List.foldl_cons, List.foldl_nil]
  rcases hk with hk | hk
  · rw [hk]
    rfl
  · rw [hk]
    rfl

end MemberForm

/-- In front of a type or an equals sign, a colon behind a word makes a member. -/
theorem Lookahead.startsMember_colon {t u v : Token} {ts : List Token} (ht : t.kind.isWord = true)
    (hu : u.kind = .colon) (hv : (∃ text wordClass, v.kind = .word text wordClass) ∨ v.kind = .eq) :
    startsMember (t :: u :: v :: ts) 0 = true := by
  have h0 : isWord (t :: u :: v :: ts) 0 = true := ht
  have h1 : isKind (t :: u :: v :: ts) 1 .colon = true := beq_iff_eq.2 (congrArg some hu)
  have h2 : isPayload (t :: u :: v :: ts) 2 = false := by
    show isPayload (v :: ts) 0 = false
    rw [isPayload, kind?_zero]
    rcases hv with ⟨_, _, hv⟩ | hv
    · rw [hv]
    · rw [hv]
  rw [startsMember, h0, h1, h2]
  simp

/-- What is written as a member is taken for one. -/
theorem MemberForm.starts {name : WordText} {type : TypeText} {form : MemberForm} {here : Position}
    {us ts : List Token} (h : ts = tokensFrom here (form.pieces name type) ++ us) :
    Lookahead.Signed ts ∧ Lookahead.startsMember ts 0 = true := by
  have typed {ps : List Piece} (hps : ∀ here, ∃ x xs, tokensFrom here ps = x :: xs ∧
      ∃ text wordClass, x.kind = .word text wordClass)
      (h : ts = tokensFrom here (name.piece [] :: colon :: ps) ++ us) :
      Lookahead.Signed ts ∧ Lookahead.startsMember ts 0 = true := by
    obtain ⟨x, xs, hx, hk⟩ := hps ((here.after (name.piece []).written).after colon.written)
    rw [tokensFrom, tokensFrom, hx] at h
    subst h
    exact ⟨rfl, Lookahead.startsMember_colon rfl rfl (.inl hk)⟩
  cases form with
  | typed => exact typed (fun here => type.front here [' ']) h
  | both => exact typed (fun here => type.assigned_front false here [' ']) h
  | tight => exact typed (fun here => type.assigned_front true here [' ']) h
  | valued =>
    subst h
    exact ⟨rfl, Lookahead.startsMember_eq rfl rfl⟩
  | legacy =>
    subst h
    exact ⟨rfl, Lookahead.startsMember_colon rfl rfl (.inr rfl)⟩

/-! ### Runs -/

namespace Parser

variable {src : Source} {g : Grammar} {c d d' : Cursor} {e : Expr} {τ : TypeRef}
  {t u v w : Token} {ts us : List Token} {text : String} {wordClass : WordClass}

/-- A token of the kind looked for is taken. -/
theorem Reads.eat_kind {kind : TokenKind} (h : c.rest = t :: ts) (hk : t.kind = kind) :
    Reads src (Parser.eat kind) c true (c.beyond [t]) [] := hk ▸ .eat h

/-- A type alone. -/
theorem Reads.member_typed (h : c.rest = t :: u :: v :: ts) (ht : t.kind = .word text wordClass)
    (hu : u.kind = .colon) (hv : v.kind ≠ .eq)
    (hτ : Reads src (typeRef g) (c.beyond [t, u]) τ d [])
    (hd : (d.rest.headD src.stop).kind ≠ .eq) :
    Reads src (Parser.member g) c
      ⟨⟨text, t.span⟩, some τ, none, false, (Mark.here src c).upTo d⟩ d [] := by
  have hrest : ((c.beyond [t]).beyond [u]).rest = v :: ts :=
    Cursor.rest_beyond (Cursor.rest_beyond h)
  rw [Cursor.beyond_cons] at hτ
  refine .mark (.bind (.name h ht _) (.bind (.eat_kind (Cursor.rest_beyond h) hu) (.ite_pos rfl
    (.bind (.eat_other ?_) (.ite_neg (by simp) (.bind hτ (.bind (.eat_other hd)
      (.ite_neg (by simp) (.close rfl _)))))))))
  rwa [headD_of_rest hrest]

/-- A type and a value. -/
theorem Reads.member_both (h : c.rest = t :: u :: v :: ts) (ht : t.kind = .word text wordClass)
    (hu : u.kind = .colon) (hv : v.kind ≠ .eq)
    (hτ : Reads src (typeRef g) (c.beyond [t, u]) τ d []) (hd : d.rest = w :: us)
    (hw : w.kind = .eq) (he : Reads src g.expr (d.beyond [w]) e d' []) :
    Reads src (Parser.member g) c
      ⟨⟨text, t.span⟩, some τ, some e, false, (Mark.here src c).upTo d'⟩ d' [] := by
  have hrest : ((c.beyond [t]).beyond [u]).rest = v :: ts :=
    Cursor.rest_beyond (Cursor.rest_beyond h)
  rw [Cursor.beyond_cons] at hτ
  refine .mark (.bind (.name h ht _) (.bind (.eat_kind (Cursor.rest_beyond h) hu) (.ite_pos rfl
    (.bind (.eat_other ?_) (.ite_neg (by simp) (.bind hτ (.bind (.eat_kind hd hw)
      (.ite_pos rfl (.bind he (.close rfl _))))))))))
  rwa [headD_of_rest hrest]

/-- The old form of a value. -/
theorem Reads.member_legacy (h : c.rest = t :: u :: v :: ts) (ht : t.kind = .word text wordClass)
    (hu : u.kind = .colon) (hv : v.kind = .eq)
    (he : Reads src g.expr (c.beyond [t, u, v]) e d []) :
    Reads src (Parser.member g) c
      ⟨⟨text, t.span⟩, none, some e, true, (Mark.here src c).upTo d⟩ d [] := by
  rw [Cursor.beyond_cons, Cursor.beyond_cons] at he
  exact .mark (.bind (.name h ht _) (.bind (.eat_kind (Cursor.rest_beyond h) hu) (.ite_pos rfl
    (.bind (.eat_kind (Cursor.rest_beyond (Cursor.rest_beyond h)) hv) (.ite_pos rfl
      (.bind he (.close rfl _)))))))

/-- Wherever these tokens come next, the value is read, up to the end. -/
def Awaits (src : Source) (n : Nat) (c : Cursor) (us : List Token) (e : Expr) : Prop :=
  ∀ c' : Cursor, c'.depth = c.depth → c'.rest = us →
    ∃ e' d, Reads src (Grammar.levels n).expr c' e' d [] ∧ d.rest = [] ∧ Bare.expr e' = e

/-- This member is read, up to the end. -/
def ReadsMember (src : Source) (n : Nat) (c : Cursor) (m : Member) : Prop :=
  ∃ m' d, Reads src (Parser.member (.levels n)) c m' d [] ∧ d.rest = [] ∧ Bare.member m' = m

variable {n : Nat} {name : WordText} {type : TypeText} {here : Position}

/-- A member with a colon starts with its name and the colon. -/
theorem tokens_colon (ps : List Piece) : ∃ (t u : Token) (here' : Position),
    tokensFrom here (name.piece [] :: MemberForm.colon :: ps) = t :: u :: tokensFrom here' ps ∧
    t.kind = .word name.written (Word.classify name.written) ∧ u.kind = .colon :=
  ⟨_, _, _, rfl, rfl, rfl⟩

/-- A member with a type alone. -/
theorem ReadsMember.typed (he : src.Ended) (hn : type.nesting ≤ n)
    (hd : c.depth + type.nesting ≤ maxNesting)
    (h : c.rest = tokensFrom here (MemberForm.typed.pieces name type)) :
    ReadsMember src n c (MemberForm.typed.member name type e) := by
  obtain ⟨t, u, here', htokens, ht, hu⟩ := tokens_colon (type.pieces [' '])
  obtain ⟨v, vs, hv, _, _, hk⟩ := type.front here' [' ']
  rw [MemberForm.pieces, htokens, ← List.append_nil (tokensFrom here' _)] at h
  obtain ⟨τ, d, hτ, hrest, -, hbare⟩ :
      ∃ τ d, Reads src (typeRef (.levels n)) (c.beyond [t, u]) τ d [] ∧ d.rest = [] ∧
        d.depth = (c.beyond [t, u]).depth ∧ Bare.type τ = type.ref :=
    Reads.type type he hn hd (Cursor.rest_beyond h) (by simp)
  rw [hv] at h
  refine ⟨_, d, .member_typed h ht hu (by rw [hk]; nofun) hτ ?_, hrest, ?_⟩
  · rw [hrest, List.headD_nil, he]
    nofun
  · rw [Bare.member, Option.map_some, hbare]
    rfl

/-- One with a type and a value, with or without a blank between `>` and `=`. -/
theorem ReadsMember.both (tight : Bool) (he : src.Ended) (hn : type.nesting ≤ n)
    (hd : c.depth + type.nesting ≤ maxNesting) (hv : Awaits src n c us e)
    (h : c.rest = tokensFrom here
      (name.piece [] :: MemberForm.colon :: type.assigned [' '] tight) ++ us) :
    ReadsMember src n c (MemberForm.both.member name type e) := by
  obtain ⟨t, u, here', htokens, ht, hu⟩ := tokens_colon (type.assigned [' '] tight)
  obtain ⟨x, xs, hx, _, _, hk⟩ := type.assigned_front tight here' [' ']
  rw [htokens] at h
  obtain ⟨τ, d, w, hτ, hrest, hw, hdepth, hbare⟩ :=
    Reads.type_assigned type tight (c := c.beyond [t, u]) he hn hd (Cursor.rest_beyond h)
  obtain ⟨e', d', hread, hend, hexpr⟩ := hv (d.beyond [w]) hdepth (Cursor.rest_beyond hrest)
  rw [hx] at h
  refine ⟨_, d', .member_both h ht hu (by rw [hk]; nofun) hτ hrest hw hread, hend, ?_⟩
  rw [Bare.member, Option.map_some, hbare, Bare.expr?, hexpr]
  rfl

/-- One with a value alone. -/
theorem ReadsMember.valued (hv : Awaits src n c us e)
    (h : c.rest = tokensFrom here (MemberForm.valued.pieces name type) ++ us) :
    ReadsMember src n c (MemberForm.valued.member name type e) := by
  obtain ⟨t, u, htokens, ht, hu⟩ : ∃ t u,
      tokensFrom here (MemberForm.valued.pieces name type) = [t, u] ∧
      t.kind = .word name.written (Word.classify name.written) ∧ u.kind = .eq :=
    ⟨_, _, rfl, rfl, rfl⟩
  rw [htokens] at h
  obtain ⟨e', d, hread, hend, hexpr⟩ := hv (c.beyond [t, u]) rfl (Cursor.rest_beyond h)
  refine ⟨_, d, .member_valued h ht hu hread, hend, ?_⟩
  rw [Bare.member, Bare.expr?, hexpr]
  rfl

/-- One with a value behind a colon. -/
theorem ReadsMember.legacy (hv : Awaits src n c us e)
    (h : c.rest = tokensFrom here (MemberForm.legacy.pieces name type) ++ us) :
    ReadsMember src n c (MemberForm.legacy.member name type e) := by
  obtain ⟨t, u, w, htokens, ht, hu, hw⟩ : ∃ t u w,
      tokensFrom here (MemberForm.legacy.pieces name type) = [t, u, w] ∧
      t.kind = .word name.written (Word.classify name.written) ∧ u.kind = .colon ∧ w.kind = .eq :=
    ⟨_, _, _, rfl, rfl, rfl, rfl⟩
  rw [htokens] at h
  obtain ⟨e', d, hread, hend, hexpr⟩ := hv (c.beyond [t, u, w]) rfl (Cursor.rest_beyond h)
  refine ⟨_, d, .member_legacy h ht hu hw hread, hend, ?_⟩
  rw [Bare.member, Bare.expr?, hexpr]
  rfl

/-- **A written member is read as the member that it shows**, given what is read for its value. -/
theorem ReadsMember.form (he : src.Ended) (hn : type.nesting ≤ n)
    (hd : c.depth + type.nesting ≤ maxNesting) {form : MemberForm} (hf : form ≠ .typed)
    (hv : Awaits src n c us e) (h : c.rest = tokensFrom here (form.pieces name type) ++ us) :
    ReadsMember src n c (form.member name type e) := by
  cases form with
  | typed => exact absurd rfl hf
  | valued => exact .valued hv h
  | both => exact .both false he hn hd hv h
  | tight => exact .both true he hn hd hv h
  | legacy => exact .legacy hv h

/-- A member at the start of the items. -/
theorem Reads.item_member {m : Member} (hs : Lookahead.Signed c.rest)
    (h : Lookahead.startsMember c.rest 0 = true) (hm : Reads src (Parser.member g) c m d []) :
    Reads src (item g) c (.member m) d [] :=
  .ahead (.ite_neg (by simp [hs.assignment]) (.ite_neg (by simp [hs.modifier])
    (.ite_neg (by simp [hs.template]) (.ite_neg (by simp [hs.unnamed]) (.ite_pos h (hm.map _))))))

end Parser

/-- A source whose tokens are read as a member. -/
theorem parse_of_member {source : String} {ts : List Token} {stop : Token} {m : Member}
    (hs : TokenStream.ofText source = ⟨ts, stop, []⟩) (he : stop.kind = .eof)
    (hstarts : Lookahead.Signed ts ∧ Lookahead.startsMember ts 0 = true)
    (hm : Parser.ReadsMember ⟨source.toList, stop⟩ Parser.maxNesting (.start ts) m) :
    (parse source).diagnostics = [] ∧
      ∃ m', (parse source).document.items = [.member m'] ∧ Bare.member m' = m := by
  obtain ⟨m', d, hread, hend, hbare⟩ := hm
  have hne : ts ≠ [] := by
    rintro rfl
    cases hstarts.2
  have hitem := Parser.Reads.item_member (c := .start ts) hstarts.1 hstarts.2 hread
  rw [Parser.parse_of_item hs he hne hitem.itemOrError hend]
  exact ⟨List.mergeSort_nil, m', rfl, hbare⟩

/-- **Every form of members is read exactly.**  A member with any name, any type that is not nested
too deep and any value that is an expression on its own is read, without a problem, as one member
with this name, with the type and the value that are written and with no others, and only the old
form is marked as such.  The value is the same up to places, since there are no unreadable
fragments. -/
theorem parse_member (name : WordText) (type : TypeText) (value : String) (e : Expr)
    (depth : type.nesting ≤ Parser.maxNesting) (front : value.toList.head? ≠ some '\uFEFF')
    (clean : (parse value).diagnostics = []) (items : (parse value).document.items = [.expr e])
    (form : MemberForm) :
    (parse (form.text name type value)).diagnostics = [] ∧
      (∃ m, (parse (form.text name type value)).document.items = [.member m] ∧
        Bare.member m = form.member name type (Bare.expr e)) ∧
      (parse (form.text name type value)).document.errorCount = 0 ∧
      (parse value).document.errorCount = 0 := by
  have hmember : (parse (form.text name type value)).diagnostics = [] ∧
      ∃ m, (parse (form.text name type value)).document.items = [.member m] ∧
        Bare.member m = form.member name type (Bare.expr e) := by
    have hmark := form.head_ne_mark name type value
    have hdepth (ts : List Token) :
        (Cursor.start ts).depth + type.nesting ≤ Parser.maxNesting := by
      rwa [show (Cursor.start ts).depth = 0 from rfl, Nat.zero_add]
    -- Only the first form has no value; the others end with the tokens of one.
    by_cases hf : form = .typed
    · subst hf
      have htext : (MemberForm.typed.text name type value).toList =
          join (MemberForm.typed.pieces name type) ++ [] := by
        rw [List.append_nil, MemberForm.join_typed]
      obtain ⟨stop, he, hs⟩ := TokenStream.ofText_of_allFit htext
        (MemberForm.typed.fits name type apart_nil) (by simp) hmark
      have ended : Source.Ended ⟨(MemberForm.typed.text name type value).toList, stop⟩ := he
      exact parse_of_member hs he (MemberForm.starts (List.append_nil _).symm)
        (.typed ended depth (hdepth _) rfl)
    · obtain ⟨t, ts, d, htokens, hlex, hread, hd⟩ := parse_expr clean items
      obtain ⟨us, stop, joined, he, hs, hshapes⟩ := TokenStream.ofText_behind
        (form.join_pieces name type value hf) rfl
        (form.fits name type (apart_cons (by decide))) (form.guid name type hf) hmark front hlex
        htokens
      have ended : Source.Ended ⟨(form.text name type value).toList, stop⟩ := he
      refine parse_of_member hs he (MemberForm.starts rfl) (.form ended depth (hdepth _) hf ?_ rfl)
      intro c' hc hrest
      have ended' : Source.Ended ⟨value.toList, (TokenStream.ofText value).stop⟩ :=
        (ofText_eq value).2
      exact hread.elsewhere ended' ended hd hc (hrest ▸ hshapes)
  exact ⟨hmember.1, hmember.2, errorCount_eq_zero hmember.1, errorCount_eq_zero clean⟩

/-- A keyword for a name, and a type whose last sign is cut together with the equals sign. -/
theorem parse_member_private :
    (parse "private : A<B, C<D>>= -1").diagnostics = [] ∧
      ∃ m, (parse "private : A<B, C<D>>= -1").document.items = [.member m] ∧
        Bare.member m = ⟨⟨"private", .zero⟩,
          some ⟨⟨"A", .zero⟩, .name, [⟨⟨"B", .zero⟩, .name, [], .zero⟩,
            ⟨⟨"C", .zero⟩, .name, [⟨⟨"D", .zero⟩, .name, [], .zero⟩], .zero⟩], .zero⟩,
          some (.unary .neg (.number .decimal "1" .zero) .zero), false, .zero⟩ := by
  let word (c : Char) (h : Word.isStart c = true) : WordText := ⟨[c], h, by simp⟩
  let empty : Blank := ⟨[], by simp⟩
  let space : Blank := ⟨[' '], List.forall_mem_singleton.2 rfl⟩
  let inner : TypeText := .applied (word 'C' rfl) empty (.last (.name (word 'D' rfl)) empty)
  let type : TypeText := .applied (word 'A' rfl) empty
    (.more (.name (word 'B' rfl)) (.comma empty space) (.last inner empty))
  have clean : (parse "-1").diagnostics = [] := by cbv
  have items : (parse "-1").document.items =
      [.expr (.unary .neg (.number .decimal "1" ⟨1, 2, 1, 2⟩) ⟨0, 2, 1, 1⟩)] := by cbv
  obtain ⟨hd, ⟨m, hm, hbare⟩, -⟩ := parse_member ⟨"private".toList, by decide⟩ type "-1" _
    (by decide) (by decide) clean items .tight
  exact ⟨hd, m, hm, hbare.trans (by cbv)⟩

end Ndf
