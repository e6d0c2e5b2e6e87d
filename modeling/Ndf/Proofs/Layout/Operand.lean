/-
# Operands read again

What starts with a word is told by the word and by what stands behind it, so of such an operand it
matters whether its text is that word alone (`Signed`): then what follows has a say.
-/

import Ndf.Proofs.Form.Law
import Ndf.Proofs.Layout.Declaration
import Ndf.Proofs.Parser.Levels

namespace Ndf

attribute [local simp] Layout.Script.expr Layout.Script.reference Layout.Script.object
  Layout.Script.assignment Layout.Script.visibility Relabel.expr

namespace Layout.Script

/-- An index that may be missing ends where no bracket is joined. -/
def index : Script (Option Expr) :=
  ⟨fun m _ => Pieces.index? m, Relabel.tidy.expr?, Parts.expr?, fun _ _ => Lookahead.Detached⟩

end Layout.Script

attribute [local simp] Layout.Script.index

namespace Parser

open Layout (Margin Script)
open Lookahead (Resembles Done Mirrors Follow Detached isKind isJoined isWord isPayload)
open Piece (tokensFrom sign word)

variable {S : Scene} {g : Grammar} {src : Source} {n : Nat} {ts us us' : List Token} {t : Token}

/-- In front of a sign that goes on with nothing. -/
theorem follow_sign {p : Piece} {ps : List Piece} {here : Position} (hk : t.kind = p.kind)
    (hw : p.kind.isWord = false) (hp : p.kind ≠ .colon ∧ p.kind ≠ .lbracket ∧ p.kind ≠ .slash ∧
      p.kind ≠ .dot ∧ p.kind ≠ .lt) (b : Bool) :
    Follow b (t :: ts) (tokensFrom here (p :: ps) ++ us) :=
  .sign hk (by rwa [hk]) (fun h => absurd (hk.symm.trans h) hp.1) (fun _ => hp.2) b

/-- A sign that is not next is not next again. -/
theorem Copies.headD_ne {α : Type} {F : Script α} {q : Parser α} {a : α}
    (h : Copies n F q ts a us) (he : src.Ended) {m : Margin} {blank : List Char} {qs : List Piece}
    {here : Position} (hq : Mirrors false us qs us') {kind : TokenKind} {stop : Token}
    (hw : kind.isWord = false) (hc : kind ≠ .comma ∧ kind ≠ .rbracket ∧ kind ≠ .eof)
    (hne : (ts.headD stop).kind ≠ kind) :
    ((tokensFrom here (F.pieces m blank a ++ qs) ++ us').headD src.stop).kind ≠ kind :=
  Parser.headD_ne (h.mirrors_append hq here) he hw hc hne

/-- What was read from a word on: it is read again, and behind its first word stands a sign if
anything does. -/
structure Headed (n : Nat) (q : Parser Expr) (ts : List Token) (e : Expr) (us : List Token) :
    Prop where
  copies : Copies n .expr q ts e us
  signed : ∀ m blank, Signed ts us (Layout.Pieces.expr m blank e)

/-! ### Brackets -/

/-- A list is read again. -/
theorem list_finds (hg : Copying S g) : Finds S n (list g) ts (Copies n .expr (list g) ts) := by
  refine .mark fun start => .bind (bracketed_finds hg) fun e us ⟨⟨t, vs, hts, ht⟩, hitems⟩ => ?_
  refine .spanFrom fun s => .pure ⟨fun m blank _ => hts ▸ .sign ht rfl nofun,
    fun m blank here he hs _ => ?_⟩
  show Takes _ n _ (tokensFrom here (Layout.Pieces.expr m blank _) ++ _) _
  have hs : Parts.Separable (Parts.expr _) := hs
  rw [Parts.expr, Parts.separable_cons, Parts.separable_exprs] at hs
  rw [Layout.Pieces.expr, Layout.Pieces.brackets, Layout.Pieces.elements_eq]
  refine .mark fun _ => (bracketed_again hg he rfl rfl hitems hs.2).bind ?_
  rintro e' _ ⟨⟨here, rfl⟩, hstrays, hi⟩
  exact .spanFrom fun _ => .pure ⟨rfl, by simp [hi]⟩

/-- What stands behind a name is read between brackets. -/
theorem vector_finds (hg : Copying S g) (type : VectorType) :
    Finds S n (vector g type) (t :: ts) (Headed n (vector g type) (t :: ts)) := by
  refine .mark fun start => .name hg.spelled fun text u us s hts ht => ?_
  refine .bind (bracketed_finds hg) fun e vs ⟨⟨v, ws, hus, hv⟩, hitems⟩ => ?_
  refine .spanFrom fun s' => .pure ⟨⟨fun m blank _ => ?_, fun m blank here he hs _ => ?_⟩,
    fun m blank => .inr ⟨_, _, _, rfl, rfl⟩⟩
  · rw [hts, hus]
    exact .name ht (.sign hv rfl nofun)
  · show Takes _ n _ (tokensFrom here (Layout.Pieces.expr m blank _) ++ _) _
    have hs : Parts.Separable (Parts.expr _) := hs
    rw [Parts.expr, Parts.separable_cons, Parts.separable_cons, Parts.separable_exprs] at hs
    rw [Layout.Pieces.expr, Layout.Pieces.brackets, Layout.Pieces.elements_eq]
    refine .mark fun _ => .name fun here s => (bracketed_again hg he rfl rfl hitems hs.2.2).bind ?_
    rintro e' _ ⟨⟨here, rfl⟩, hstrays, hi⟩
    exact .spanFrom fun _ => .pure ⟨rfl, by simp [hi]⟩

/-- Without problems, all elements of a map are entries. -/
theorem pairs_finds (items : List Expr) : Finds S n (pairs items) ts fun ps us =>
    us = ts ∧ ps = items ∧ ∀ i ∈ items, i.isMapEntry = true := by
  induction items with
  | nil => exact .pure ⟨rfl, rfl, nofun⟩
  | cons item items ih =>
    have entry (h : item.isMapEntry = true) : Finds S n (do return item :: (← pairs items)) ts
        fun ps us => us = ts ∧ ps = item :: items ∧ ∀ i ∈ item :: items, i.isMapEntry = true :=
      .bind ih fun ps us ⟨hu, hp, hitems⟩ =>
        .pure ⟨hu, by rw [hp], List.forall_mem_cons.2 ⟨h, hitems⟩⟩
    unfold pairs
    split
    · exact .pure_bind (entry rfl)
    · exact .pure_bind (entry rfl)
    · exact .report

/-- What were pairs are pairs again. -/
theorem pairs_again {items : List Expr} (h : ∀ i ∈ items, i.isMapEntry = true) :
    Takes src n (pairs items) ts fun ps us => us = ts ∧ ps = items := by
  induction items with
  | nil => exact .pure ⟨rfl, rfl⟩
  | cons item items ih =>
    rw [List.forall_mem_cons] at h
    have entry : Takes src n (do return item :: (← pairs items)) ts
        fun ps us => us = ts ∧ ps = item :: items :=
      .bind (ih h.2) fun ps us ⟨hu, hp⟩ => .pure ⟨hu, by rw [hp]⟩
    unfold pairs
    cases item <;> first | exact .pure_bind entry | cases h.1

/-- Tidying a tree keeps pairs. -/
theorem isMapEntry_tidy (e : Expr) : (Relabel.tidy.expr e).isMapEntry = e.isMapEntry := by
  cases e <;> rfl

/-- A map is read again. -/
theorem map_finds (hg : Copying S g) :
    Finds S n (map g) (t :: ts) (Headed n (map g) (t :: ts)) := by
  refine .mark fun start => .name hg.spelled fun text u us s hts ht => ?_
  refine .bind (bracketed_finds hg) fun e vs hlist => ?_
  refine .bind (pairs_finds e.items) fun ps xs hpairs => .spanFrom fun s' => ?_
  refine .pure ⟨⟨fun m blank _ => ?_, fun m blank here he hs _ => ?_⟩,
    fun m blank => .inr ⟨_, _, _, rfl, rfl⟩⟩
  · obtain ⟨⟨v, ws, hus, hv⟩, -⟩ := hlist
    rw [hts, hus]
    exact .name ht (.sign hv rfl (by rintro ⟨⟩))
  · obtain ⟨-, rfl, hentries⟩ := hpairs
    show Takes _ n _ (tokensFrom here (Layout.Pieces.expr m blank _) ++ _) _
    have hs : Parts.Separable (Parts.expr _) := hs
    rw [Parts.expr, Parts.separable_cons, Parts.separable_cons, Parts.separable_exprs] at hs
    rw [Layout.Pieces.expr, Layout.Pieces.brackets, Layout.Pieces.elements_eq]
    refine .mark fun _ => .name fun here s => (bracketed_again hg he rfl rfl hlist.2 hs.2.2).bind ?_
    rintro e' _ ⟨⟨here, rfl⟩, hstrays, hi⟩
    refine (pairs_again fun i hi' => ?_).bind fun ps _ hps =>
      .spanFrom fun _ => .pure ⟨hps.1, by simp [hps.2, hi]⟩
    have hmem : Relabel.tidy.expr i ∈ e.items.map Relabel.tidy.expr :=
      hi ▸ List.mem_map_of_mem hi'
    obtain ⟨j, hj, heq⟩ := List.mem_map.1 hmem
    rw [← isMapEntry_tidy, ← heq, isMapEntry_tidy]
    exact hentries j hj

/-- The parts of a pair are those of its sides. -/
theorem separable_pair {left right : Expr} {s : Span}
    (h : Parts.Separable (Parts.expr (.pair left right s))) :
    (Part.expr (.pair left right s)).Separable ∧ Parts.Separable (Parts.expr left) ∧
      Parts.Separable (Parts.expr right) := by
  rwa [Parts.expr, Parts.separable_cons, Parts.separable_append] at h

/-- So are a pair and a group. -/
theorem parenthesised_finds (hg : Copying S g) :
    Finds S n (parenthesised g) ts (Copies n .expr (parenthesised g) ts) := by
  refine .mark fun start => .expect (by simp) fun t us hts ht => ?_
  refine .eat (by simp) (fun u vs hus hu => .ite (fun _ => ?empty) fun h => absurd rfl h)
    fun hclose => .ite (fun h => absurd h Bool.false_ne_true) fun _ => ?_
  case empty =>
    refine .spanFrom fun s => .pure ⟨fun m blank _ => hts ▸ .sign ht rfl (by rintro ⟨⟩),
      fun m blank here he hs _ => .mark fun start' => ?_⟩
    refine .expect rfl fun here => .eat rfl fun here => .ite_pos rfl ?_
    exact .spanFrom fun _ => .pure ⟨rfl, rfl⟩
  refine .bind hg.expr fun first vs hfirst => ?_
  refine .eat (by simp) (fun v ws hvs hv => .ite (fun _ => ?pair) fun h => absurd rfl h)
    fun hcomma => .ite (fun h => absurd h Bool.false_ne_true) fun _ => ?group
  case pair =>
    refine .bind hg.expr fun second xs hsecond => .expect (by simp) fun w ys hxs hw => ?_
    refine .spanFrom fun s => .pure ⟨fun m blank _ => hts ▸ .sign ht rfl (by rintro ⟨⟩),
      fun m blank here he hs _ => ?_⟩
    subst hvs hxs
    obtain ⟨-, hleft, hright⟩ := separable_pair hs
    show Takes _ n _ (tokensFrom here (Layout.Pieces.expr m blank _) ++ _) _
    rw [Layout.Pieces.expr]
    refine .mark fun start' => .expect rfl fun here => .eat_other ?_ (.ite_neg (by simp) ?_)
    · refine hfirst.1.headD_ne he ?_ rfl (by simp) hclose
      exact .sign hv rfl (by rintro ⟨⟩)
    refine hfirst.1.next (m := m) he hleft (fun here => ?_) fun here first' hf' => ?_
    · exact .done (by rintro u ⟨⟩; exact .inl hv) (by rintro u ⟨⟩; exact .inl rfl) _
    refine .eat rfl fun here => .ite_pos rfl ?_
    refine hsecond.1.next (m := m) he hright (fun here => ?_) fun here second' hs' => ?_
    · exact follow_sign hw rfl (by simp [sign, Lexeme.single]) _
    refine .expect rfl fun here => .spanFrom fun s' => .pure ⟨rfl, ?_⟩
    have hf' : Relabel.tidy.expr first' = Relabel.tidy.expr first := hf'
    simpa [hf'] using hs'
  case group =>
    refine .expect (by simp) fun v ws hvs hv => .spanFrom fun s => ?_
    refine .pure ⟨fun m blank _ => hts ▸ .sign ht rfl (by rintro ⟨⟩),
      fun m blank here he hs _ => ?_⟩
    subst hvs
    have hs : Parts.Separable (Parts.expr _) := hs
    rw [Parts.expr, Parts.separable_cons] at hs
    show Takes _ n _ (tokensFrom here (Layout.Pieces.expr m blank _) ++ _) _
    rw [Layout.Pieces.expr, Layout.Pieces.expr?]
    refine .mark fun start' => .expect rfl fun here => .eat_other ?_ (.ite_neg (by simp) ?_)
    · refine hfirst.1.headD_ne he ?_ rfl (by simp) hclose
      exact .sign hv rfl (by rintro ⟨⟩)
    refine hfirst.1.next (m := m) he hs.2 (fun here => ?_) fun here first' hf' => ?_
    · exact follow_sign hv rfl (by simp [sign, Lexeme.single]) _
    refine .eat_other (by rintro ⟨⟩) (.ite_neg (by simp) ?_)
    refine .expect rfl fun here => .spanFrom fun s' => .pure ⟨rfl, ?_⟩
    simpa using hf'

/-! ### Names in angles, guids and constants -/

/-- So is the index of a generic type, or its lack. -/
theorem index?_finds (hg : Copying S g) :
    Finds S n (index? g) ts (Copies n .index (index? g) ts) := by
  refine .ahead (.ite (fun h => ?_) fun h => .pure ⟨fun m blank h => .nil h,
    fun m blank here he hs hf => .ahead (.ite_neg ?_ (.pure ⟨rfl, rfl⟩))⟩)
  · cases ts with
    | nil => cases h
    | cons t ts =>
      have ht : t.kind = .lbracket := by simp [isKind] at h; exact h.1
      refine .bump (.bind hg.expr fun e us hi => .expect (by simp) fun u vs hus hu => ?_)
      refine .pure ⟨fun m blank _ => .sign ht rfl (by rintro ⟨⟩),
        fun m blank here he hs hf => .ahead (.ite_pos rfl (.bump fun here => ?_))⟩
      refine hi.1.next he hs (fun here => ?_) fun here e' h => ?_
      · subst hus
        exact .done (by rintro v ⟨⟩; exact .inr hu) (by rintro v ⟨⟩; exact .inr rfl) _
      · exact .expect rfl fun here => .pure ⟨rfl, congrArg some h⟩
  · exact Bool.eq_false_iff.1 hf.ends_name

/-- So is a generic type. -/
theorem generic_finds (hg : Copying S g) :
    Finds S n (generic g) ts (Copies n .expr (generic g) ts) := by
  refine .mark fun _ => .expect (by simp) fun t us hts ht => .ahead (.ite (fun _ => ?_)
    fun _ => .unexpected _)
  refine .name hg.spelled fun text u vs s hus hu => .ahead (.ite (fun hgt => ?_)
    fun _ => .unexpected _)
  cases vs with
  | nil => cases hgt
  | cons v vs =>
    refine .bump (.bind (index?_finds hg) fun index ws hi => .spanFrom fun s => .pure
      ⟨fun m blank _ => hts ▸ .sign ht rfl nofun, fun m blank here he hs hf => ?_⟩)
    have hs : Parts.Separable (Parts.expr _) := hs
    rw [Parts.expr, Parts.separable_cons, Parts.separable_cons] at hs
    refine .mark fun start' => .expect rfl fun here => .ahead (.ite_pos rfl ?_)
    refine .name fun here s => .ahead (.ite_pos rfl (.bump fun here => ?_))
    refine .bind (hi.again m [] here he hs.2.2 hf.detached) fun index' _ ⟨hv, h⟩ => ?_
    refine hv ▸ .spanFrom fun s' => .pure ⟨rfl, ?_⟩
    have h : Relabel.tidy.expr? index' = Relabel.tidy.expr? index := h
    simpa using h

/-- A payload that was read is a whole one, since tokenizing reports all others. -/
theorem guid_finds (hS : S.Fair) (ht : t.kind.wordClass? = some (.keyword .guid)) :
    Finds S n guid (t :: ts) (Headed n guid (t :: ts)) := by
  refine .mark fun _ => .bump (.expect (by simp) fun u us hts hu => .peek ?_)
  split
  · rename_i raw hraw
    obtain ⟨v, vs, rfl, hv⟩ := Finds.exists_cons hraw (by simp)
    refine .bump (.spanFrom fun s => .pure ⟨⟨fun m blank _ => ?_, fun m blank here he hs _ => ?_⟩,
      fun m blank => .inr ⟨_, _, _, rfl, rfl⟩⟩)
    · subst hts
      exact .word ht rfl (.colon hu rfl fun _ => by simp [isPayload, hv]; rfl)
    · refine .mark fun _ => .bump fun here => .expect rfl fun here => .peek_piece fun w hw => ?_
      rw [hw]
      exact .bump fun here => .spanFrom fun _ => .pure ⟨rfl, rfl⟩
  · rename_i hbroken
    obtain ⟨v, vs, rfl, hv⟩ := Finds.exists_cons hbroken (by simp)
    exact .here fun h => Bool.noConfusion
      (h.fair (c := .start (v :: vs)) hS v (List.mem_cons_self ..) _ hv)
  · exact .unexpected _

/-- A word that means itself. -/
theorem constant_finds {value : Span → Expr} {text : String}
    (hvalue : ∀ m blank s, Layout.Pieces.expr m blank (value s) = [word blank text])
    (htidy : ∀ s s', Relabel.tidy.expr (value s) = Relabel.tidy.expr (value s'))
    (ht : t.kind.wordClass? = some (Word.classify text)) :
    Finds S n (constant value) (t :: ts) (Headed n (constant value) (t :: ts)) := by
  refine .peek (.bump (.pure ⟨⟨fun m blank h => ?_, fun m blank here he hs hf => ?_⟩,
    fun m blank => .inl ⟨_, hvalue m blank _, rfl⟩⟩))
  · show Mirrors _ _ (Layout.Pieces.expr m blank _) _
    rw [hvalue]
    exact .word ht rfl (.nil h)
  · show Takes _ n _ (tokensFrom here (Layout.Pieces.expr m blank _) ++ _) _
    rw [hvalue]
    exact .peek (.bump fun here => .pure ⟨rfl, htidy _ _⟩)

/-! ### Operands that start with a word -/

/-- The first word stands first again. -/
theorem Copies.first {α : Type} {F : Script α} {q : Parser α} {a : α} {m : Margin}
    {blank : List Char} (h : Copies n F q (t :: ts) a us)
    (hs : Signed (t :: ts) us (F.pieces m blank a)) :
    ∃ p ps, F.pieces m blank a = p :: ps ∧ p.kind.wordClass? = t.kind.wordClass? := by
  have key {p : Piece} {ps : List Piece} (hp : F.pieces m blank a = p :: ps) :
      p.kind.wordClass? = t.kind.wordClass? := by
    have hsim := h.mirrors m blank (Resembles.refl false us) .origin
    rw [hp] at hsim
    exact hsim.wordClass?_eq.symm
  rcases hs with ⟨p, hp, -⟩ | ⟨p, q, ps, hp, -⟩
  · exact ⟨p, [], hp, key hp⟩
  · exact ⟨p, q :: ps, hp, key hp⟩

/-- In front of a copy that begins with the word that was read, all tests agree. -/
theorem Copies.startsWord {α : Type} {F : Script α} {q : Parser α} {a : α} {m : Margin}
    {blank : List Char} {here : Position} (h : Copies n F q (t :: ts) a us)
    (hs : Signed (t :: ts) us (F.pieces m blank a)) (ht : t.kind.isWord = true) :
    isWord (tokensFrom here (F.pieces m blank a) ++ us') 0 = true := by
  obtain ⟨p, ps, hp, hk⟩ := h.first hs
  rw [hp]
  show p.kind.isWord = true
  rwa [TokenKind.isWord, hk]

/-- A sign stands behind the first word if it stood there. -/
theorem Copies.second {α : Type} {F : Script α} {q : Parser α} {a : α} {m : Margin}
    {blank : List Char} (h : Copies n F q (t :: ts) a us) (here : Position)
    (hs : Signed (t :: ts) us (F.pieces m blank a)) (ht : t.kind.isWord = true) {cut : Bool}
    (hu : Resembles cut us us') (kind : TokenKind) (hw : kind.isWord = false)
    (hc : kind ≠ .comma) (hb : kind ≠ .rbracket) :
    isKind (tokensFrom here (F.pieces m blank a) ++ us') 1 kind = isKind (t :: ts) 1 kind := by
  have hsim := (h.mirrors m blank hu here).tail (h.startsWord hs ht)
  rw [Lookahead.isKind_tail, Lookahead.isKind_tail]
  refine Bool.eq_iff_iff.2 ⟨hsim.isKind_of hw hc hb, fun hk => ?_⟩
  cases ts with
  | nil => cases hk
  | cons u ts =>
    have hu : u.kind = kind := Option.some.inj (beq_iff_eq.1 hk)
    obtain ⟨v, vs, hv, hk⟩ := exists_sign hsim (hu ▸ hw) ⟨hu ▸ hc, hu ▸ hb⟩
    rw [hv]
    exact beq_iff_eq.2 (congrArg some (hk.trans hu))

/-- An object, a vector, a path or a reference. -/
theorem nameLed_finds (hg : Copying S g) (ht : t.kind.isWord = true) :
    Finds S n (nameLed g) (t :: ts) (Headed n (nameLed g) (t :: ts)) := by
  refine .ahead (.ite (fun hparen => ?object) fun hparen =>
    .ite (fun hbracket => ?bracket) fun hbracket => ?path)
  case object =>
    refine (object_finds hg).map fun o us ho => ?_
    obtain ⟨name, entries, s⟩ := o
    have hpieces (m : Margin) (blank : List Char) : ∃ p q ps,
        Layout.Pieces.object m blank ⟨name, entries, s⟩ = p :: q :: ps ∧ q.kind = .lparen := by
      obtain ⟨o, c, ho, -, h⟩ := entryList_eq m m.deeper entries
      exact ⟨_, o, _, by rw [Layout.Pieces.object, h], ho⟩
    refine ⟨⟨ho.mirrors, fun m blank here he hs hf => ?_⟩, fun m blank => ?_⟩
    · have hs : Parts.Separable (Parts.expr (.object ⟨name, entries, s⟩)) := hs
      rw [Parts.expr, Parts.separable_cons] at hs
      refine .ahead (.ite_pos ?_ ((ho.again m blank here he hs.2 trivial).map
        fun _ _ => And.imp_right (congrArg Expr.object)))
      obtain ⟨p, q, ps, h, hq⟩ := hpieces m blank
      show isKind (tokensFrom here (Layout.Pieces.object m blank _) ++ _) 1 .lparen = true
      rw [h]
      exact beq_iff_eq.2 (congrArg some hq)
    · obtain ⟨p, q, ps, h, hq⟩ := hpieces m blank
      exact .inr ⟨p, q, ps, h, by rw [hq]; rfl⟩
  case bracket =>
    refine (vectorOrPath_finds hg).mono fun e us he => ?_
    refine ⟨⟨he.1.mirrors, fun m blank here hsrc hs hf => ?_⟩, fun m blank => ?_⟩
    · obtain ⟨text, ps, h⟩ := he.2 m blank
      have hagain := he.1.again m blank here hsrc hs hf
      rw [show Script.expr.pieces m blank e = _ from h] at hagain ⊢
      exact .ahead (.ite_neg Bool.false_ne_true (.ite_pos rfl hagain))
    · obtain ⟨text, ps, h⟩ := he.2 m blank
      exact .inr ⟨_, _, _, h, rfl⟩
  case path =>
    refine (reference_finds hg).map fun r us hr => ?_
    refine ⟨⟨hr.copies.mirrors, fun m blank here he hs hf => ?_⟩, hr.signed⟩
    have hs : Parts.Separable (Parts.expr (.reference r)) := hs
    rw [Parts.expr, Parts.separable_cons] at hs
    refine .ahead (.ite_neg ?_ (.ite_neg ?_ ((hr.copies.again m blank here he hs.2 hf.detached).map
      fun _ _ => And.imp_right (congrArg Expr.reference))))
    · exact (hr.copies.second here (hr.signed m blank) ht hf.resembles .lparen rfl nofun
        nofun).symm ▸ hparen
    · intro (h : (isKind (tokensFrom here (Layout.Pieces.reference m blank r) ++ _) 1 .lbracket &&
        isJoined (tokensFrom here (Layout.Pieces.reference m blank r) ++ _) 1) = true)
      rcases hr.signed m blank with ⟨p, hp, -⟩ | ⟨p, q, ps, hp, -⟩
      · rw [hp] at h
        exact Bool.eq_false_iff.1 hf.detached.ends_name h
      · rw [hp, Bool.and_eq_true] at h
        exact hbracket (hr.opens m blank p q ps hp (Option.some.inj (beq_iff_eq.1 h.1)))

/-- A word that starts no declaration starts none again: alone because of what can follow, and
otherwise because of the sign behind it. -/
theorem Copies.startsNothing {q : Parser Expr} {e : Expr} {m : Margin} {blank : List Char}
    (h : Copies n .expr q (t :: ts) e us) (here : Position) (ht : t.kind.isWord = true)
    (hs : Signed (t :: ts) us (Layout.Pieces.expr m blank e)) {b : Bool} (hf : Follow b us us')
    (ha : Lookahead.startsAssignment (t :: ts) 0 = false)
    (hv : Lookahead.startsVisibility (t :: ts) 0 = false) :
    Lookahead.startsAssignment (tokensFrom here (Layout.Pieces.expr m blank e) ++ us') 0 = false ∧
      Lookahead.startsVisibility (tokensFrom here (Layout.Pieces.expr m blank e) ++ us') 0 =
        false := by
  obtain ⟨o, qs, ho, hk⟩ := h.first hs
  rcases hs with ⟨p, hp, rfl⟩ | ⟨p, q, ps, hp, hq⟩
  · rw [hp]
    obtain ⟨rfl, -⟩ := List.cons_eq_cons.1 (ho.symm.trans hp)
    exact ⟨hf.startsAssignment (u := o.token here) ht ha, hf.startsVisibility
      (u := o.token here) (congrArg (Option.bind · WordClass.keyword?) hk.symm) hv⟩
  · rw [hp]
    have hword : isWord (tokensFrom here (p :: q :: ps) ++ us') 1 = false := hq
    simp [Lookahead.startsAssignment, Lookahead.startsVisibility, Lookahead.startsTemplate, hword,
      Lookahead.isKeyword_of_not_isWord]

/-- What is read from a word on that starts no declaration. -/
def undeclared (g : Grammar) (k : WordClass) (ts : List Token) : Parser Expr :=
  match k with
  | .keyword .nil => constant .nil
  | .keyword .true => constant (.bool true)
  | .keyword .false => constant (.bool false)
  | .keyword .guid => if isKind ts 1 .colon then guid else nameLed g
  | .vector .map => if isKind ts 1 .lbracket then map g else nameLed g
  | .vector type => if isKind ts 1 .lbracket then vector g type else nameLed g
  | _ => nameLed g

/-- What a word starts that starts no declaration is read again. -/
theorem undeclared_finds (hg : Copying S g) {k : WordClass} (ht : t.kind.wordClass? = some k) :
    Finds S n (undeclared g k (t :: ts)) (t :: ts)
      (Headed n (undeclared g k (t :: ts)) (t :: ts)) := by
  have hword : t.kind.isWord = true := by rw [TokenKind.isWord, ht]; rfl
  generalize hp : undeclared g k (t :: ts) = p
  unfold undeclared at hp
  split at hp
  · exact hp ▸ constant_finds (fun _ _ _ => rfl) (fun _ _ => rfl) ht
  · exact hp ▸ constant_finds (fun _ _ _ => rfl) (fun _ _ => rfl) ht
  · exact hp ▸ constant_finds (fun _ _ _ => rfl) (fun _ _ => rfl) ht
  · split at hp
    · exact hp ▸ guid_finds hg.fair ht
    · exact hp ▸ nameLed_finds hg hword
  · split at hp
    · exact hp ▸ map_finds hg
    · exact hp ▸ nameLed_finds hg hword
  · split at hp
    · exact hp ▸ vector_finds hg _
    · exact hp ▸ nameLed_finds hg hword
  · exact hp ▸ nameLed_finds hg hword

/-- So is whatever a word starts. -/
theorem wordLed_finds (hg : Copying S g) {k : WordClass} (ht : t.kind.wordClass? = some k) :
    Finds S n (wordLed g k) (t :: ts) (Copies n .expr (wordLed g k) (t :: ts)) := by
  have hword : t.kind.isWord = true := by rw [TokenKind.isWord, ht]; rfl
  refine .ahead (.ite (fun hassignment => ?assignment) fun hassignment =>
    .ite (fun hvisibility => ?visibility) fun hvisibility => ?undeclared)
  case assignment =>
    refine (assignment_finds hg).map fun a us ha => ⟨ha.mirrors, fun m blank here he hs hf => ?_⟩
    have hs : Parts.Separable (Parts.expr (.assignment a)) := hs
    rw [Parts.expr, Parts.separable_cons] at hs
    refine .ahead (.ite_pos ?_ ((ha.again m blank here he hs.2 (hf.mono ?_)).map
      fun _ _ => And.imp_right (congrArg Expr.assignment)))
    · exact (startsAssignment_pieces (ha.mirrors m blank (.refl _ _))
        (assignment_long m blank a)).trans hassignment
    · obtain ⟨name, value, s⟩ := a
      exact id
  case visibility =>
    refine (visibility_finds hg (object_finds hg)).map fun v us hv => ⟨hv.mirrors,
      fun m blank here he hs hf => ?_⟩
    have hs : Parts.Separable (Parts.expr (.visibility v)) := hs
    rw [Parts.expr, Parts.separable_cons] at hs
    have hvis := hv.mirrors m blank (.refl false us)
    obtain ⟨o, p, q, r, rest, hlong⟩ := visibility_long m blank v
    refine .ahead (.ite_neg ?_ (.ite_pos ?_ ((hv.again m blank here he hs.2 (hf.mono ?_)).map
      fun _ _ => And.imp_right (congrArg Expr.visibility))))
    · exact (startsAssignment_pieces hvis ⟨o, p, q, r :: rest, hlong⟩).symm ▸ hassignment
    · exact (startsVisibility_pieces hvis ⟨o, p, q, r, rest, hlong⟩).trans hvisibility
    · obtain ⟨modifier, keyword, ⟨name, value, s⟩ | t, s'⟩ := v
      · exact id
      · exact fun _ => rfl
  case undeclared =>
    refine (undeclared_finds hg ht).mono fun e us hc => ⟨hc.copies.mirrors,
      fun {src us'} m blank here he hsep hf => ?_⟩
    obtain ⟨hc, hs⟩ := hc
    have hn := hc.startsNothing here hword (hs m blank) hf
      (Bool.eq_false_iff.2 hassignment) (Bool.eq_false_iff.2 hvisibility)
    have hsecond (kind : TokenKind) (hw : kind.isWord = false) (hc' : kind ≠ .comma)
        (hb : kind ≠ .rbracket) :
        isKind (tokensFrom here (Layout.Pieces.expr m blank e) ++ us') 1 kind =
          isKind (t :: ts) 1 kind := hc.second here (hs m blank) hword hf.resembles kind hw hc' hb
    have hsame : undeclared g k (tokensFrom here (Layout.Pieces.expr m blank e) ++ us') =
        undeclared g k (t :: ts) := by
      unfold undeclared
      rw [hsecond .colon rfl (by simp) (by simp), hsecond .lbracket rfl (by simp) (by simp)]
    have hagain := hc.again m blank here he hsep hf
    rw [← hsame] at hagain
    exact .ahead (.ite_neg (Bool.eq_false_iff.1 hn.1) (.ite_neg (Bool.eq_false_iff.1 hn.2) hagain))

/-! ### Operands -/

/-- A broken token is a problem. -/
theorem brokenToken_finds (hS : S.Fair) {e : LexError} (ht : t.kind = .error e)
    {Q : Expr → List Token → Prop} : Finds S n (brokenToken e) (t :: ts) Q := by
  refine .here fun h => .mark fun _ => .peek (.bump ?_)
  have hfair := h.fair (c := .start (t :: ts)) hS t (List.mem_cons_self ..) _ ht
  split
  · exact .report
  · rename_i hstray
    cases e with
    | unexpectedChar c => exact (hstray c rfl).elim
    | _ => exact Bool.noConfusion hfair

/-- What is read is told by the class of the first word. -/
theorem Copies.worded {q : Parser Expr} {f : Token → Parser Expr} {e : Expr} {k : WordClass}
    (h : Copies n .expr q (t :: ts) e us) (ht : t.kind.wordClass? = some k)
    (hf : ∀ u : Token, u.kind.wordClass? = some k → f u = q) :
    Copies n .expr (peek >>= f) (t :: ts) e us := by
  refine ⟨h.mirrors, fun m blank here he hs hfollow => ?_⟩
  have hagain := h.again m blank here he hs hfollow
  have hsim := h.mirrors m blank (Resembles.refl false us) .origin
  obtain ⟨p, ps, hp, -⟩ := Layout.Pieces.expr_behind m blank e
  rw [show Script.expr.pieces m blank e = p :: ps from hp] at hagain hsim ⊢
  exact .peek_piece fun u hu => hf u (hu ▸ hsim.wordClass?_eq.symm.trans ht) ▸ hagain

/-- What is read is told by the first sign. -/
theorem Copies.signed {q : Parser Expr} {f : Token → Parser Expr} {e : Expr} {kind : TokenKind}
    (h : Copies n .expr q (t :: ts) e us) (ht : t.kind = kind) (hw : kind.isWord = false)
    (hc : kind ≠ .comma) (hb : kind ≠ .rbracket) (hf : ∀ u : Token, u.kind = kind → f u = q) :
    Copies n .expr (peek >>= f) (t :: ts) e us := by
  subst ht
  refine ⟨h.mirrors, fun m blank here he hs hfollow => ?_⟩
  have hagain := h.again m blank here he hs hfollow
  obtain ⟨p, ps, hp, -⟩ := Layout.Pieces.expr_behind m blank e
  obtain ⟨u, us, hu, hk⟩ := exists_sign (h.mirrors m blank (Resembles.refl false us) .origin) hw
    ⟨hc, hb⟩
  rw [show Script.expr.pieces m blank e = p :: ps from hp] at hagain hu ⊢
  obtain ⟨rfl, -⟩ := List.cons_eq_cons.1 hu
  exact .peek_piece fun u hu => hf u (hu.trans hk) ▸ hagain

/-- An operand is read again. -/
theorem primary_finds (hg : Copying S g) :
    Finds S n (primary g) ts (Copies n .expr (primary g) ts) := by
  refine .peek ?_
  split
  · rename_i kind text hk
    obtain ⟨t, us, rfl, ht⟩ := Finds.exists_cons hk (by simp)
    exact .bump (.pure ⟨fun m blank h => .sign ht rfl nofun, fun m blank here he hs hf =>
      .peek_piece fun u hu => hu ▸ .bump fun here => .pure ⟨rfl, rfl⟩⟩)
  · rename_i quote raw hk
    obtain ⟨t, us, rfl, ht⟩ := Finds.exists_cons hk (by simp)
    exact .bump (.pure ⟨fun m blank h => .sign ht rfl nofun, fun m blank here he hs hf =>
      .peek_piece fun u hu => hu ▸ .bump fun here => .pure ⟨rfl, rfl⟩⟩)
  · rename_i hk
    obtain ⟨t, us, rfl, ht⟩ := Finds.exists_cons hk (by simp)
    exact (list_finds hg).mono fun e us h => h.signed ht rfl nofun nofun fun u hu => by rw [hu]
  · rename_i hk
    obtain ⟨t, us, rfl, ht⟩ := Finds.exists_cons hk (by simp)
    exact (parenthesised_finds hg).mono fun e us h =>
      h.signed ht rfl nofun nofun fun u hu => by rw [hu]
  · rename_i hk
    obtain ⟨t, us, rfl, ht⟩ := Finds.exists_cons hk (by simp)
    exact (generic_finds hg).mono fun e us h => h.signed ht rfl nofun nofun fun u hu => by rw [hu]
  · rename_i text k hk
    obtain ⟨t, us, rfl, ht⟩ := Finds.exists_cons hk (by simp)
    have hword : t.kind.wordClass? = some k := by rw [ht]; rfl
    refine (wordLed_finds hg hword).mono fun e us h => h.worded hword fun u hu => ?_
    cases hu' : u.kind with
    | word text' k' =>
      rw [hu'] at hu
      cases hu
      rfl
    | _ =>
      rw [hu'] at hu
      cases hu
  · rename_i e hk
    obtain ⟨t, us, rfl, ht⟩ := Finds.exists_cons hk (by simp)
    exact brokenToken_finds hg.fair ht
  · exact .unexpected _
  · refine .ahead (.ite (fun hscoped => (reference_finds hg).map fun r us hr => ⟨hr.copies.mirrors,
      fun m blank here he hs hf => ?_⟩) fun _ => .none fun _ => rfl)
    have hs : Parts.Separable (Parts.expr (.reference r)) := hs
    rw [Parts.expr, Parts.separable_cons] at hs
    have hagain := hr.copies.again m blank here he hs.2 hf.detached
    obtain ⟨scope, segs, s⟩ := r
    have hscope := hr.scope ▸ scopeOf_of_startsScoped hscoped
    cases scope with
    | none => exact absurd rfl hscope
    | current | root | global => exact .peek_piece fun u hu => hu ▸ .ahead (.ite_pos rfl
        (hagain.map fun _ _ => And.imp_right (congrArg Expr.reference)))

/-- An operand behind a sign is read again behind it. -/
theorem signed_again {op : UnaryOp} {e : Expr} (h : Copies n .expr g.operand ts e us)
    (he : src.Ended) {s : Span} (hs : Parts.Separable (Parts.expr (.unary op e s)))
    (hf : Follow e.endsInDivIs us us') {m : Margin} {p : Piece} {here : Position} {start : Mark} :
    Takes src n (do
      bump
      let operand ← g.operand
      pure (Expr.unary op operand (← spanFrom start)))
      (tokensFrom here (p :: Layout.Pieces.expr m [] e) ++ us') fun e' vs =>
        vs = us' ∧ Relabel.tidy.expr e' = Relabel.tidy.expr (.unary op e s) := by
  rw [Parts.expr, Parts.separable_cons] at hs
  exact .bump fun here => .bind (h.again m [] here he hs.2 hf) fun e' _ ⟨hv, h⟩ =>
    hv ▸ .spanFrom fun _ => .pure ⟨rfl, by simpa using h⟩

/-- So is one behind signs. -/
theorem unary_finds (hg : Copying S g) : Finds S n (unary g) ts (Copies n .expr (unary g) ts) := by
  refine .mark fun _ => .peek ?_
  split
  · rename_i hk
    obtain ⟨t, us, rfl, ht⟩ := Finds.exists_cons hk (by simp)
    refine .bump ?_
    refine .bind hg.operand fun e us h => ?_
    refine .spanFrom fun s => ?_
    exact .pure ⟨fun m blank _ => .sign ht rfl nofun, fun m blank here he hs hf => .mark fun _ =>
      .peek_piece fun u hu => hu ▸ signed_again h he hs hf⟩
  · rename_i hk
    obtain ⟨t, us, rfl, ht⟩ := Finds.exists_cons hk (by simp)
    refine .bump ?_
    refine .bind hg.operand fun e us h => ?_
    refine .spanFrom fun s => ?_
    exact .pure ⟨fun m blank _ => .sign ht rfl nofun, fun m blank here he hs hf => .mark fun _ =>
      .peek_piece fun u hu => hu ▸ signed_again h he hs hf⟩
  · rename_i hminus hbang
    refine (primary_finds hg).mono fun e us h => ⟨h.mirrors, fun m blank here he hs hf =>
      .mark fun _ => .peek ?_⟩
    have hsim := h.mirrors m blank hf.resembles here
    split
    · exact absurd ‹_› (headD_ne hsim he rfl (by simp) hminus)
    · exact absurd ‹_› (headD_ne hsim he rfl (by simp) hbang)
    · exact h.again m blank here he hs hf

end Parser
end Ndf
