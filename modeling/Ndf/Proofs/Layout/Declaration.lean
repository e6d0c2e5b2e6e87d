/-
# Declarations read again

Members, assignments, templates and objects.  Between two parameters of a template there may be no
comma in the source, so the value of the first one is followed by other tokens when it is read
again; between two entries there is none in either text, so what follows an entry looks the same.
-/

import Ndf.Proofs.Layout.Path

namespace Ndf

namespace Layout.Script

/-- What follows the name of a member. -/
def tail : Script Member :=
  ⟨fun m _ p => Pieces.memberSigns p.type p.value.isSome p.legacyColon ++
    Pieces.memberValue m p.value, Relabel.tidy.member, Parts.member, member.follow⟩

/-- An unnamed object is laid out as its object behind the word. -/
def unnamed : Script Unnamed :=
  ⟨fun m blank u => Piece.word blank "unnamed" :: Pieces.object m [' '] u.object,
    Relabel.tidy.unnamed, fun u => .unnamed u :: Parts.object u.object, fun _ _ _ => True⟩

end Layout.Script

attribute [local simp] Layout.Script.expr Layout.Script.type Layout.Script.assignment
  Layout.Script.tail Layout.Script.member Layout.Script.template Layout.Script.visibility
  Layout.Script.object Layout.Script.entry Layout.Script.unnamed Relabel.assignment Relabel.member
  Part.Separable

namespace Parser

open Layout (Margin Script)
open Lookahead (Resembles Done Mirrors Follow Detached isKind isJoined isWord isPayload)
open Piece (tokensFrom sign word)

variable {S : Scene} {g : Grammar} {src : Source} {n : Nat} {ts us us' : List Token}

/-- An assignment that was read is read again from its text. -/
theorem assignment_finds (hg : Copying S g) :
    Finds S n (assignment g) ts (Copies n .assignment (assignment g) ts) := by
  refine .mark fun start => .name hg.spelled fun text t us s hts ht => ?_
  refine .expectKeyword fun u vs hus hu => .bind hg.expr fun e ws ⟨he, _⟩ => ?_
  refine .spanFrom fun s' => .pure ?_
  subst hts hus
  refine ⟨fun m blank h => .name ht (.word hu rfl (he.mirrors m [' '] h)),
    fun m blank here hsrc hs hf => .mark fun start' => .name fun here s => ?_⟩
  have hs : Parts.Separable (Parts.expr e) := by simpa [Parts.assignment] using hs
  refine .expectKeyword rfl fun here => he.last hsrc hs hf fun e' h => ?_
  exact .spanFrom fun _ => .pure ⟨rfl, by simpa using h⟩

/-! ### Members -/

/-- A sign that does not come next did not come next before, and the other way round. -/
theorem headD_ne {cut : Bool} {stop : Token} (h : Resembles cut us us') (he : src.Ended)
    {kind : TokenKind} (hw : kind.isWord = false)
    (hc : kind ≠ .comma ∧ kind ≠ .rbracket ∧ kind ≠ .eof)
    (hne : (us.headD stop).kind ≠ kind) : (us'.headD src.stop).kind ≠ kind := by
  intro hk
  cases us' with
  | nil => exact hc.2.2 (hk.symm.trans he)
  | cons u us' =>
    have hu : isKind us 0 kind = true :=
      h.isKind_of hw hc.1 hc.2.1 (beq_iff_eq.2 (congrArg some hk))
    cases us with
    | nil => cases hu
    | cons t us => exact hne (Option.some.inj (beq_iff_eq.1 hu))

/-- What was read behind the name of a member. -/
structure Tailed (g : Grammar) (n : Nat) (text : String) (ts : List Token) (p : Member)
    (us : List Token) : Prop where
  named : p.name.text = text
  copies : ∀ start s, Copies n .tail (memberTail g start ⟨text, s⟩) ts p us
  operator : p.value.isSome = true → operator? us = none

/-- The parts of a member are those of its type and its value. -/
theorem separable_member {name : Name} {type? : Option TypeRef} {value : Option Expr}
    {legacy : Bool} {s : Span}
    (h : Parts.Separable (Parts.member ⟨name, type?, value, legacy, s⟩)) :
    (∀ t ∈ type?, Parts.Separable (Parts.type t)) ∧
      ∀ e ∈ value, Parts.Separable (Parts.expr e) := by
  rw [Parts.member, Parts.separable_cons, Parts.separable_cons, Parts.separable_append] at h
  refine ⟨?_, ?_⟩
  · rintro t rfl
    simpa [Parts.types] using h.2.2.1
  · rintro e rfl
    exact h.2.2.2

/-- Behind the name of a member stand its type and its value. -/
theorem tail_typed {m : Margin} {blank : List Char} {name : Name} {type : TypeRef} {e : Expr}
    {s : Span} : Script.tail.pieces m blank ⟨name, some type, some e, false, s⟩ =
      sign [' '] ':' :: (Layout.Pieces.type [' '] type ++
        sign [' '] '=' :: Layout.Pieces.expr m [' '] e) := by
  simp [Layout.Pieces.memberSigns, Layout.Pieces.memberValue]

/-- Or its type alone. -/
theorem tail_valueless {m : Margin} {blank : List Char} {name : Name} {type : TypeRef} {s : Span} :
    Script.tail.pieces m blank ⟨name, some type, none, false, s⟩ =
      sign [' '] ':' :: Layout.Pieces.type [' '] type := by
  simp [Layout.Pieces.memberSigns, Layout.Pieces.memberValue]

/-- A type is no sign. -/
theorem headD_type {blank : List Char} {type : TypeRef} {ps : List Piece} {here : Position} :
    ((tokensFrom here (Layout.Pieces.type blank type ++ ps) ++ us).headD src.stop).kind ≠ .eq := by
  obtain ⟨qs, hqs⟩ := type_eq blank type
  rw [hqs]
  nofun

/-- What follows the name of a member is read again in each of its forms. -/
theorem memberTail_finds (hg : Copying S g) (start : Mark) (text : String) (s : Span) :
    Finds S n (memberTail g start ⟨text, s⟩) ts (Tailed g n text ts) := by
  refine .eat (by simp) (fun t us hts ht => .ite (fun _ => ?_) fun h => absurd rfl h)
    fun hcolon => .ite (fun h => absurd h Bool.false_ne_true) fun _ => ?_
  · subst hts
    refine .eat (by simp) (fun u vs hus hu => .ite (fun _ => ?_) fun h => absurd rfl h)
      fun heq => .ite (fun h => absurd h Bool.false_ne_true) fun _ => ?_
    · subst hus
      refine .bind hg.expr fun e ws he => .spanFrom fun s' => .pure ⟨rfl, fun start s =>
        ⟨fun m blank h => ?_, fun m blank here hsrc hs hf => ?_⟩, fun _ => he.2⟩
      · exact .colon ht rfl fun _ => by simp [isPayload, hu]; rfl
      · refine .eat rfl fun _ => ?_
        refine .ite_pos rfl ?_
        refine .eat rfl fun _ => ?_
        refine .ite_pos rfl ?_
        refine he.1.last hsrc ((separable_member hs).2 e rfl) (hf.2.2 e rfl) fun e' h => ?_
        exact .spanFrom fun _ => .pure ⟨rfl, by simpa using h⟩
    · refine .bind (typeRef_finds hg) fun type vs htype => ?_
      refine .eat (by simp) (fun v ws hvs hv => .ite (fun _ => ?_) fun h => absurd rfl h)
        fun heq => .ite (fun h => absurd h Bool.false_ne_true) fun _ => ?_
      · refine .bind hg.expr fun e xs he => .spanFrom fun s' => .pure ⟨rfl, fun start s =>
          ⟨fun m blank h => ?_, fun m blank here hsrc hs hf => ?_⟩, fun _ => he.2⟩
        · rw [tail_typed]
          subst hvs
          refine .colon ht rfl fun here => Resembles.isPayload_eq (?_ : Resembles false _ _)
          exact htype.mirrors_append (m := m) (.sign hv rfl (by rintro ⟨⟩)) here
        · have hs := separable_member hs
          rw [tail_typed]
          refine .eat rfl fun here => .ite_pos rfl (.eat_other headD_type (.ite_neg (by simp) ?_))
          refine htype.next (m := m) hsrc (hs.1 type rfl) ?_ fun here type' htype' => ?_
          · rintro here u ⟨⟩ hj
            cases hj
          refine .eat rfl fun here => .ite_pos rfl ?_
          refine he.1.last hsrc (hs.2 e rfl) (hf.2.2 e rfl) fun e' h => ?_
          refine .spanFrom fun _ => .pure ⟨rfl, ?_⟩
          have htype' : Relabel.tidy.type type' = Relabel.tidy.type type := htype'
          simpa [htype'] using h
      · refine .spanFrom fun s' => .pure ⟨rfl, fun start s => ⟨fun m blank h => ?_,
          fun m blank here hsrc hs hf => ?_⟩, by rintro ⟨⟩⟩
        · rw [tail_valueless]
          exact .colon ht rfl fun here =>
            (htype.mirrors m [' '] h here).isPayload_eq
        · rw [tail_valueless]
          refine .eat rfl fun here => .ite_pos rfl (.eat_other ?_ (.ite_neg (by simp) ?_))
          · rw [← List.append_nil (Layout.Pieces.type [' '] type)]
            exact headD_type
          have hs := (separable_member hs).1 type rfl
          refine htype.last (m := m) hsrc hs hf.2.1 fun type' htype' => ?_
          refine .eat_other (headD_ne hf.1 hsrc rfl (by simp) heq) (.ite_neg (by simp) ?_)
          exact .spanFrom fun _ => .pure ⟨rfl, by simpa using htype'⟩
  · refine .expect (by simp) fun t us hts ht => .bind hg.expr fun e ws he =>
      .spanFrom fun s' => .pure ⟨rfl, fun start s => ⟨fun m blank h => ?_,
        fun m blank here hsrc hs hf => ?_⟩, fun _ => he.2⟩
    · rw [hts]
      exact .sign ht rfl (by rintro ⟨⟩)
    · refine .eat_other (by rintro ⟨⟩) ?_
      refine .ite_neg Bool.false_ne_true ?_
      refine .expect rfl fun _ => ?_
      refine he.1.last hsrc ((separable_member hs).2 e rfl) (hf.2.2 e rfl) fun e' h => ?_
      exact .spanFrom fun _ => .pure ⟨rfl, by simpa using h⟩

/-- A member is read again. -/
theorem member_finds (hg : Copying S g) :
    Finds S n (member g) ts (Copies n .member (member g) ts) := by
  refine .mark fun start => .name hg.spelled fun text t us s hts ht =>
    (memberTail_finds hg start text s).mono fun p vs hp => ?_
  subst hts
  obtain ⟨⟨_, s'⟩, type?, value, legacy, s''⟩ := p
  obtain rfl := hp.named
  refine ⟨fun m blank h => .name ht ((hp.copies start s').mirrors m blank h),
    fun m blank here he hs hf => ?_⟩
  exact .mark fun start => .name fun here s =>
    (hp.copies start s).again m blank here he hs hf

/-! ### Parameters -/

/-- A sign is the same in front of tokens that look the same. -/
theorem exists_sign {cut : Bool} {t : Token} (h : Resembles cut (t :: ts) us)
    (hw : t.kind.isWord = false) (hc : t.kind ≠ .comma ∧ t.kind ≠ .rbracket) :
    ∃ u us', us = u :: us' ∧ u.kind = t.kind := by
  cases h with
  | done h => exact ((h t rfl).elim hc.1 hc.2).elim
  | sign hk => exact ⟨_, _, rfl, hk.symm⟩
  | word ht =>
    rw [TokenKind.isWord, ht] at hw
    cases hw
  | cut _ ht =>
    rw [ht] at hw
    cases hw

/-- What was read of a parameter. -/
structure Given (g : Grammar) (n : Nat) (ts : List Token) (p : Member) (us : List Token) :
    Prop where
  copies : Copies n .member (param g) ts p us
  operator : p.value.isSome = true → operator? us = none

/-- Behind the name of a parameter a sign tells that more of it follows. -/
theorem Tailed.given {text : String} {t u : Token} {p : Member} {vs : List Token}
    (h : Tailed g n text (u :: ts) p vs) (ht : t.kind = .word text (Word.classify text))
    (hu : u.kind = .colon ∨ u.kind = .eq) : Given g n (t :: u :: ts) p vs := by
  obtain ⟨⟨name, s'⟩, type?, value, legacy, s''⟩ := p
  obtain rfl := h.named
  refine ⟨⟨fun m blank h' => .name ht ((h.copies ⟨0, .zero⟩ s').mirrors m blank h'),
    fun m blank here he hs hf => .mark fun start => .name fun here s => ?_⟩, h.operator⟩
  have hagain := (h.copies start s).again m blank here he hs hf
  obtain ⟨v, ws, hv, hk⟩ := exists_sign ((h.copies start s).mirrors m blank hf.1 here)
    (by rcases hu with hu | hu <;> rw [hu] <;> rfl) (by rcases hu with hu | hu <;> simp [hu])
  show Takes _ n _ (tokensFrom here (Script.tail.pieces m blank
    ⟨⟨name, s'⟩, type?, value, legacy, s''⟩) ++ _) _
  rw [hv] at hagain ⊢
  refine .peek ?_
  rw [List.headD_cons, hk]
  rcases hu with hu | hu <;> rw [hu] <;> exact hagain

/-- A parameter is read again in front of a comma or the closing bracket, also where it was read
without one. -/
theorem param_finds (hg : Copying S g) : Finds S n (param g) ts (Given g n ts) := by
  refine .mark fun start => .name hg.spelled fun text t us s hts ht => .peek ?_
  subst hts
  have htail {kind : TokenKind} (hk : (us.headD S.source.stop).kind = kind)
      (h : kind = .colon ∨ kind = .eq) :
      Finds S n (memberTail g start ⟨text, s⟩) us (Given g n (t :: us)) := by
    obtain ⟨u, us, rfl, hu⟩ := Finds.exists_cons hk (by rcases h with rfl | rfl <;> nofun)
    exact (memberTail_finds hg start text s).mono fun p vs hp => hp.given ht (hu ▸ h)
  split
  · exact htail ‹_› (.inl rfl)
  · exact htail ‹_› (.inr rfl)
  · rename_i hcolon heq
    refine .spanFrom fun s' => .pure ⟨⟨fun m blank h => .name ht (.nil h),
      fun {src us'} m blank here he hs hf => .mark fun _ => .name fun here s => ?_⟩, nofun⟩
    show Takes _ n _ us' _
    refine .peek ?_
    split
    · exact absurd ‹(us'.headD _).kind = .colon›
        (headD_ne hf.1 he rfl ⟨nofun, nofun, nofun⟩ hcolon)
    · exact absurd ‹(us'.headD _).kind = .eq›
        (headD_ne hf.1 he rfl ⟨nofun, nofun, nofun⟩ heq)
    · exact .spanFrom fun _ => .pure ⟨rfl, rfl⟩

/-- A parameter that was read in front of another one, a comma or the closing bracket. -/
def HeldParam (g : Grammar) (n : Nat) (p : Member) : Prop :=
  ∃ ts us, Given g n ts p us ∧ (isWord us 0 = true ∨ Done us)

/-- What a round adds to the parameters read before, in a list that is closed. -/
def ParamRound (g : Grammar) (n : Nat) (read : List Member) (ts : List Token) (b : List Member)
    (us : List Token) : Prop :=
  isKind us 0 .rbracket = true → (isWord ts 0 = true ∨ Done ts) ∧
    ((∀ p ∈ read, HeldParam g n p) → ∀ p ∈ b, HeldParam g n p)

/-- The last round returns the parameters in their order. -/
theorem ParamRound.stop (read : List Member) : ParamRound g n read ts read.reverse ts :=
  fun h => ⟨.inr (Done.of_isKind h (.inr rfl)), fun hread p hp => hread p (List.mem_reverse.1 hp)⟩

/-- Commas being optional, a parameter stands in front of the next one or of a sign that ends it. -/
theorem params_finds (hg : Copying S g) : Finds S n (params g) ts fun ps us =>
    isKind us 0 .rbracket = true → ∀ p ∈ ps, HeldParam g n p := by
  refine (Finds.loop (ParamRound g n) (fun read ts => .peek ?_) []).mono
    fun ps us h hk => (h hk).2 (by simp)
  split
  · exact .pure (.stop read)
  · exact .pure (.stop read)
  · rename_i hk
    obtain ⟨t, us, rfl, ht⟩ := Finds.exists_cons hk (by simp)
    exact .bump (.pure fun b vs h hk => ⟨.inr (by rintro u ⟨⟩; exact .inl ht), (h hk).2⟩)
  · rename_i hk
    obtain ⟨t, us, rfl, ht⟩ := Finds.exists_cons hk (by simp)
    refine .bind (param_finds hg) fun p vs hp => .pure fun b ws h hk => ⟨.inl ?_,
      fun hread => (h hk).2 (List.forall_mem_cons.2 ⟨⟨_, vs, hp, (h hk).1⟩, hread⟩)⟩
    simp [isWord, ht, TokenKind.isWord, TokenKind.wordClass?]
  · exact .unexpected _

/-- A parameter that is read again in front of a comma or the closing bracket. -/
def Restated (g : Grammar) (n : Nat) (p : Member) : Prop :=
  ∀ {src : Source} {us : List Token} {ps : List Piece} (m : Margin) (blank : List Char)
    (here : Position), src.Ended → (∀ here, Done (tokensFrom here ps ++ us)) →
    Takes src n (param g) (tokensFrom here (Layout.Pieces.member m blank p ++ ps) ++ us)
      fun p' vs => (∃ here, vs = tokensFrom here ps ++ us) ∧
        Relabel.tidy.member p' = Relabel.tidy.member p

/-- So is one with a value that a comma can stand behind. -/
theorem HeldParam.restated {p : Member} (h : HeldParam g n p)
    (hs : Parts.Separable (Parts.member p))
    (hvalue : ∀ e, p.value = some e → e.endsInDivIs = false) : Restated g n p := by
  intro src us ps m blank here he hps
  obtain ⟨ts, vs, hp, hvs⟩ := h
  have hfollow (here : Position) : Script.member.follow p vs (tokensFrom here ps ++ us) := by
    have hdone := hps here
    rcases hvs with hword | hvs
    -- No comma stood there, so the words of the next parameter are cut off.
    · refine ⟨?_, (Follow.done hdone hdone false).detached, fun e hpe => ?_⟩
      · cases vs with
        | nil => cases hword
        | cons v vs => exact .cut rfl hword hdone
      · rw [hvalue e hpe]
        exact .cutOff hword (hp.operator (by rw [hpe]; rfl)) hdone
    · exact ⟨.done hvs hdone, (Follow.done hvs hdone false).detached, fun e _ => .done hvs hdone _⟩
  rw [Piece.tokensFrom_append, List.append_assoc]
  exact (hp.copies.again m blank here he hs (hfollow _)).mono fun p' ws ⟨hv, h⟩ => ⟨⟨_, hv⟩, h⟩

/-- A member is written with its name in front. -/
theorem member_eq (m : Margin) (blank : List Char) (p : Member) :
    ∃ ps, Layout.Pieces.member m blank p = word blank p.name.text :: ps := by
  obtain ⟨name, type?, value, legacy, s⟩ := p
  exact ⟨_, rfl⟩

/-- One parameter is read again. -/
theorem paramStep_again (he : src.Ended) {p : Member} (hp : Restated g n p) {read : List Member}
    {m : Margin} {blank : List Char} {ps : List Piece}
    (hps : ∀ here, Done (tokensFrom here ps ++ us)) {here : Position} :
    Takes src n (paramStep g read)
      (tokensFrom here (Layout.Pieces.member m blank p ++ ps) ++ us) fun r vs => ∃ p' here,
        r = .inl (p' :: read) ∧ vs = tokensFrom here ps ++ us ∧
          Relabel.tidy.member p' = Relabel.tidy.member p := by
  have hagain := hp m blank here he hps
  obtain ⟨qs, hqs⟩ := member_eq m blank p
  rw [hqs] at hagain ⊢
  refine .peek_piece fun t ht => ?_
  rw [ht]
  exact hagain.bind fun p' _ ⟨⟨here, hv⟩, h⟩ => .pure ⟨p', here, rfl, hv, h⟩

/-- What follows a parameter is a comma or the closing bracket. -/
theorem moreParams_done {m : Margin} {c : Piece} (hc : c.kind = .rbracket) (qs : List Piece)
    (ps : List Member) (here : Position) :
    Done (tokensFrom here (Layout.Pieces.moreParams m ps ++ c :: qs) ++ us) := by
  cases ps with
  | nil => rintro t ⟨⟩; exact .inr hc
  | cons p ps => rintro t ⟨⟩; exact .inl rfl

/-- Parameters behind others are read again, each behind its comma. -/
theorem moreParams_again (hg : Copying S g) (he : src.Ended) {m : Margin} {c : Piece}
    {qs : List Piece} (hc : c.kind = .rbracket) {ps : List Member} :
    ∀ {read : List Member} {here : Position}, (∀ p ∈ ps, Restated g n p) →
      Takes src n (loop (paramStep g) read)
        (tokensFrom here (Layout.Pieces.moreParams m ps ++ c :: qs) ++ us) fun ps' vs =>
          (∃ here, vs = tokensFrom here (c :: qs) ++ us) ∧ ps'.map Relabel.tidy.member =
            (read.reverse ++ ps).map Relabel.tidy.member := by
  have ha := paramStep_advances hg.advancing
  induction ps with
  | nil =>
    intro read here _
    refine .loop_end ha he (.peek_piece fun t ht => ?_)
    rw [ht, hc]
    exact .pure ⟨_, rfl, ⟨here, rfl⟩, by simp⟩
  | cons p ps ih =>
    intro read here hps
    rw [List.forall_mem_cons] at hps
    rw [Layout.Pieces.moreParams, List.cons_append, List.append_assoc]
    refine .loop_next ha he (.peek_piece fun t ht => ?_)
    rw [ht]
    refine .bump fun here => .pure ⟨_, rfl, .loop_next ha he
      ((paramStep_again he hps.1 (moreParams_done hc qs ps)).mono ?_)⟩
    rintro _ _ ⟨p', here, rfl, rfl, hp⟩
    exact ⟨_, rfl, (ih hps.2).mono fun ps' vs ⟨hv, h⟩ => ⟨hv, by simp [h, hp]⟩⟩

/-- Parameters are read again one after another, with a comma between any two. -/
theorem params_again (hg : Copying S g) (he : src.Ended) {m : Margin} {c : Piece}
    {qs : List Piece} (hc : c.kind = .rbracket) {ps : List Member}
    (hps : ∀ p ∈ ps, Restated g n p) {here : Position} : Takes src n (params g)
      (tokensFrom here (Layout.Pieces.paramLines m ps ++ c :: qs) ++ us) fun ps' vs =>
        (∃ here, vs = tokensFrom here (c :: qs) ++ us) ∧
          ps'.map Relabel.tidy.member = ps.map Relabel.tidy.member := by
  have ha := paramStep_advances hg.advancing
  cases ps with
  | nil => exact moreParams_again hg he hc (m := m) hps
  | cons p ps =>
    rw [List.forall_mem_cons] at hps
    rw [Layout.Pieces.paramLines, List.append_assoc]
    refine .loop_next ha he ((paramStep_again he hps.1 (moreParams_done hc qs ps)).mono ?_)
    rintro _ _ ⟨p', here, rfl, rfl, hp⟩
    exact ⟨_, rfl, (moreParams_again hg he hc hps.2).mono fun ps' vs ⟨hv, h⟩ =>
      ⟨hv, by simp [h, hp]⟩⟩

/-! ### Templates -/

/-- Parameters stand between brackets. -/
theorem paramList_eq (m m' : Margin) (ps : List Member) : ∃ o c, o.kind = .lbracket ∧
    c.kind = .rbracket ∧ Layout.Pieces.paramList m ps.isEmpty (Layout.Pieces.paramLines m' ps) =
      o :: (Layout.Pieces.paramLines m' ps ++ [c]) := by
  cases ps with
  | nil => exact ⟨_, _, rfl, rfl, rfl⟩
  | cons p ps => exact ⟨_, _, rfl, rfl, rfl⟩

/-- What is read of an object: it is read again. -/
def Rebuilds (S : Scene) (g : Grammar) (n : Nat) (body : Parser Object) : Prop :=
  ∀ {ts}, Finds S n body ts (Copies n .object (object g) ts)

variable {body : Parser Object}

/-- A template is written with its parameters in brackets. -/
theorem template_eq (m : Margin) (blank : List Char) (t : Template) : ∃ o c,
    o.kind = .lbracket ∧ c.kind = .rbracket ∧ Layout.Pieces.template m blank t =
      word blank "template" :: word [' '] t.name.text :: o ::
        (Layout.Pieces.paramLines m.deeper t.params ++ c ::
          word m.newline.toList "is" :: Layout.Pieces.object m [' '] t.body) := by
  obtain ⟨name, params, body, s⟩ := t
  obtain ⟨o, c, ho, hc, h⟩ := paramList_eq m m.deeper params
  exact ⟨o, c, ho, hc, by simp [Layout.Pieces.template, h]⟩

/-- A template is read again if its body is. -/
theorem template_finds (hg : Copying S g) (hb : Rebuilds S g n body) :
    Finds S n (template g body) ts (Copies n .template (template g (object g)) ts) := by
  refine .mark fun start => .expectKeyword fun t us hts ht => ?_
  refine .name hg.spelled fun text u vs s hus hu => .expect (by simp) fun v ws hvs hv => ?_
  refine .bind (params_finds hg) fun params xs hparams => .expect (by simp) fun w ys hxs hw => ?_
  refine .expectKeyword fun x zs _ _ => .bind hb fun inside us hcopies => ?_
  refine .spanFrom fun s' => .pure ?_
  subst hts hus hvs hxs
  have hheld := hparams (by simp [isKind, hw])
  refine ⟨fun m blank _ => ?_, fun m blank here he hs _ => ?_⟩ <;>
    obtain ⟨o, c, ho, hc, hpieces⟩ := template_eq m blank ⟨⟨text, s⟩, params, inside, s'⟩
  · show Mirrors _ _ (Layout.Pieces.template m blank _) _
    rw [hpieces]
    exact .word ht rfl (.name hu (.sign (hv.trans ho.symm) (by rw [ho]; rfl) (by simp [ho])))
  · show Takes _ n _ (tokensFrom here (Layout.Pieces.template m blank _) ++ _) _
    have hs : Parts.Separable (Parts.template _) := hs
    rw [Parts.template, Parts.separable_cons, Parts.separable_cons, Parts.separable_append,
      Parts.members_eq_flatMap, Parts.separable_flatMap] at hs
    obtain ⟨htemplate, -, hmembers, hbody⟩ := hs
    rw [hpieces]
    refine .mark fun _ => .expectKeyword rfl fun here => .name fun here s => .expect ho fun here =>
      (params_again hg he hc fun p hp => (hheld p hp).restated (hmembers p hp)
        (htemplate p hp)).bind ?_
    rintro params' _ ⟨⟨here, rfl⟩, hp⟩
    refine .expect hc fun here => .expectKeyword rfl fun here => hcopies.last he hbody trivial
      fun inside' h => .spanFrom fun _ => .pure ⟨rfl, ?_⟩
    have h : Relabel.tidy.object inside' = Relabel.tidy.object inside := h
    simp [Relabel.template, hp, h]

/-! ### Visibilities -/

/-- What was read behind a modifier. -/
structure Exposed (g : Grammar) (n : Nat) (ts : List Token) (d : Declaration) (us : List Token) :
    Prop where
  mirrors : ∀ {cut us'} (m : Margin) (blank : List Char), Resembles cut us us' →
    Mirrors cut ts (Layout.Pieces.declaration m blank d) us'
  again : ∀ {β src us' vs} {f : Declaration → Parser β} {R : β → List Token → Prop} (m : Margin)
    (blank : List Char) (here : Position), src.Ended → Parts.Separable (Parts.declaration d) →
    Follow d.endsInDivIs us us' →
    vs = tokensFrom here (Layout.Pieces.declaration m blank d) ++ us' →
    (∀ d', Relabel.tidy.declaration d' = Relabel.tidy.declaration d →
      Takes src n (f d') us' R) → Takes src n (if Lookahead.startsTemplate vs 0
        then Declaration.template <$> template g (object g) >>= f
        else Declaration.assignment <$> assignment g >>= f) vs R

/-- Where three tokens are known, it is known whether a template starts. -/
theorem startsTemplate_pieces {ps : List Piece} (h : Mirrors false ts ps us) {here : Position}
    (hlong : ∃ p q r rest, ps = p :: q :: r :: rest) :
    Lookahead.startsTemplate (tokensFrom here ps ++ us') 0 = Lookahead.startsTemplate ts 0 := by
  rw [(h here).startsTemplate]
  obtain ⟨p, q, r, rest, rfl⟩ := hlong
  rfl

/-- Three pieces of a copy are enough to tell an assignment as before. -/
theorem startsAssignment_pieces {ps : List Piece} (h : Mirrors false ts ps us) {here : Position}
    (hlong : ∃ p q r rest, ps = p :: q :: r :: rest) :
    Lookahead.startsAssignment (tokensFrom here ps ++ us') 0 =
      Lookahead.startsAssignment ts 0 := by
  rw [(h here).startsAssignment]
  obtain ⟨p, q, r, rest, rfl⟩ := hlong
  rfl

/-- Four are enough to tell a declaration behind a modifier. -/
theorem startsVisibility_pieces {ps : List Piece} (h : Mirrors false ts ps us) {here : Position}
    (hlong : ∃ o p q r rest, ps = o :: p :: q :: r :: rest) :
    Lookahead.startsVisibility (tokensFrom here ps ++ us') 0 =
      Lookahead.startsVisibility ts 0 := by
  rw [(h here).startsVisibility]
  obtain ⟨o, p, q, r, rest, rfl⟩ := hlong
  rfl

/-- An assignment has three pieces at least. -/
theorem assignment_long (m : Margin) (blank : List Char) (a : Assignment) :
    ∃ p q r rest, Layout.Pieces.assignment m blank a = p :: q :: r :: rest := by
  obtain ⟨name, value, s⟩ := a
  obtain ⟨p, rest, h, -⟩ := Layout.Pieces.expr_behind m [' '] value
  exact ⟨_, _, p, rest, by rw [Layout.Pieces.assignment, h]⟩

/-- So has a template. -/
theorem template_long (m : Margin) (blank : List Char) (t : Template) :
    ∃ p q r rest, Layout.Pieces.template m blank t = p :: q :: r :: rest :=
  have ⟨_, _, _, _, h⟩ := template_eq m blank t
  ⟨_, _, _, _, h⟩

/-- So has a declaration. -/
theorem declaration_long (m : Margin) (blank : List Char) (d : Declaration) :
    ∃ p q r rest, Layout.Pieces.declaration m blank d = p :: q :: r :: rest := by
  cases d with
  | assignment a => exact assignment_long m blank a
  | template t => exact template_long m blank t

/-- With the modifier in front there are four. -/
theorem visibility_long (m : Margin) (blank : List Char) (v : Visibility) :
    ∃ o p q r rest, Layout.Pieces.visibility m blank v = o :: p :: q :: r :: rest := by
  obtain ⟨modifier, keyword, d, s⟩ := v
  obtain ⟨p, q, r, rest, h⟩ := declaration_long m [' '] d
  exact ⟨_, p, q, r, rest, by rw [Layout.Pieces.visibility, h]⟩

/-- A declaration is read again, and taken for the same one. -/
theorem declared_finds (hg : Copying S g) (hb : Rebuilds S g n body) {β : Type}
    {f : Declaration → Parser β} {R : β → List Token → Prop}
    (hf : ∀ d us, Exposed g n ts d us → Finds S n (f d) us R) : Finds S n
      (if Lookahead.startsTemplate ts 0 then Declaration.template <$> template g body >>= f
        else Declaration.assignment <$> assignment g >>= f) ts R := by
  refine .ite (fun htemplate => .bind ((template_finds hg hb).map (R := Exposed g n ts)
    fun t us h => ⟨h.mirrors, ?_⟩) hf) fun hassignment =>
      .bind ((assignment_finds hg).map (R := Exposed g n ts) fun a us h => ⟨h.mirrors, ?_⟩) hf
  · rintro β src us' vs f R m blank here he hs - rfl hnext
    refine .ite_pos ?_ (.bind (P := fun d vs => vs = us' ∧ Relabel.tidy.declaration d =
      Relabel.tidy.declaration (.template t)) ((h.again m blank here he hs trivial).map
        fun _ _ => And.imp_right (congrArg Declaration.template))
          fun d vs ⟨hv, hd⟩ => hv ▸ hnext d hd)
    exact (startsTemplate_pieces (h.mirrors m blank (.refl _ _)) (template_long m blank t)).trans
      htemplate
  · rintro β src us' vs f R m blank here he hs hf rfl hnext
    refine .ite_neg ?_ (.bind (P := fun d vs => vs = us' ∧ Relabel.tidy.declaration d =
      Relabel.tidy.declaration (.assignment a)) ((h.again m blank here he hs hf).map
        fun _ _ => And.imp_right (congrArg Declaration.assignment))
          fun d vs ⟨hv, hd⟩ => hv ▸ hnext d hd)
    exact (startsTemplate_pieces (h.mirrors m blank (.refl _ _))
      (assignment_long m blank a)).symm ▸ hassignment

/-- So is one behind a modifier. -/
theorem visibility_finds (hg : Copying S g) (hb : Rebuilds S g n body) :
    Finds S n (visibility g body) ts (Copies n .visibility (visibility g (object g)) ts) := by
  refine .mark fun _ => .peek ?_
  split
  · exact .unexpected _
  · rename_i modifier hmodifier
    refine .name hg.spelled fun text t us s hts ht => .ahead (declared_finds hg hb fun d vs hd =>
      .spanFrom fun s' => .pure ⟨fun m blank h => ?_, fun m blank here he hs hf => ?_⟩)
    · subst hts
      exact .name ht (hd.mirrors m [' '] h)
    · subst hts
      refine .mark fun _ => .peek_piece fun u hu => ?_
      rw [hu, show (word blank text).kind.keyword?.bind modifier? = some modifier by
        rw [← hmodifier, List.headD_cons, ht]; rfl]
      have hs : Parts.Separable (Parts.visibility _) := hs
      rw [Parts.visibility, Parts.separable_cons, Parts.separable_cons] at hs
      exact .name fun here s => .ahead (hd.again m [' '] here he hs.2.2 hf rfl
        fun d' h => .spanFrom fun _ => .pure ⟨rfl, by simp [Relabel.visibility, h]⟩)

/-! ### Entries -/

/-- A scope is neither a comma nor a closing bracket. -/
theorem not_done_of_startsScoped (h : Lookahead.startsScoped ts = true) : ¬ Done ts := fun hd => by
  simp [Lookahead.startsScoped, hd.isKind] at h

/-- The mark of a scope is one of three signs. -/
theorem scopeOf_of_startsScoped {stop : Token} (h : Lookahead.startsScoped ts = true) :
    scopeOf (ts.headD stop).kind ≠ .none := by
  cases ts with
  | nil => cases h
  | cons t ts =>
    simp only [Lookahead.startsScoped, isKind, Lookahead.kind?_zero, Bool.and_eq_true,
      Bool.or_eq_true, beq_iff_eq, Option.some.injEq] at h
    rcases h.1.1 with (hk | hk) | hk <;> rw [List.headD_cons, hk] <;> rintro ⟨⟩

/-- An entry starts with a word or with the mark of a scope, so with no sign between entries. -/
theorem exists_entry (h : (isWord ts 0 || Lookahead.startsScoped ts) = true)
    (hs : Resembles false ts us) : ∃ u us', us = u :: us' ∧ u.kind ≠ .rparen ∧ u.kind ≠ .eof ∧
      u.kind ≠ .comma := by
  have hdone : ¬ Done ts := by
    rcases Bool.or_eq_true_iff.1 h with h | h
    · intro hd
      rw [Lookahead.isWord_eq, hd.wordClass?] at h
      cases h
    · exact not_done_of_startsScoped h
  cases ts with
  | nil => exact absurd nofun hdone
  | cons t ts =>
    obtain ⟨u, us', hu, hk⟩ := hs.head hdone
    refine ⟨u, us', hu, ?_⟩
    rcases hk with hk | ⟨k, -, hk⟩
    · rw [← hk]
      refine ⟨?_, ?_, ?_⟩ <;> intro h' <;>
        simp [isWord, TokenKind.isWord, TokenKind.wordClass?, Lookahead.startsScoped, isKind,
          h'] at h
    · refine ⟨?_, ?_, ?_⟩ <;> intro h' <;> rw [h'] at hk <;> cases hk

/-- A reference starts with a word, or with the mark of its scope and a slash. -/
theorem reference_starts {r : Reference} {m : Margin} {blank : List Char} {here : Position}
    (hr : r.scope = scopeOf (ts.headD S.source.stop).kind)
    (hs : Resembles false ts (tokensFrom here (Layout.Pieces.reference m blank r) ++ us))
    (h : (isWord ts 0 || Lookahead.startsScoped ts) = true) :
    (isWord (tokensFrom here (Layout.Pieces.reference m blank r) ++ us) 0 ||
      Lookahead.startsScoped (tokensFrom here (Layout.Pieces.reference m blank r) ++ us)) =
        true := by
  rcases Bool.or_eq_true_iff.1 h with h | h
  · rw [← hs.isWord_eq, h, Bool.true_or]
  · obtain ⟨scope, segs, s⟩ := r
    rw [Bool.or_eq_true_iff]
    cases scope with
    | none => exact absurd hr.symm (scopeOf_of_startsScoped h)
    | current | root | global => exact .inr rfl

/-- An entry of an object is read again, whatever it is. -/
theorem entry_finds (hg : Copying S g) (hb : Rebuilds S g n body) :
    Finds S n (entry g body) ts fun e us => Copies n .entry (entry g (object g)) ts e us ∧
      (isWord ts 0 || Lookahead.startsScoped ts) = true := by
  refine .ahead (.ite (fun h => ?assignment) fun hassignment =>
    .ite (fun h => ?visibility) fun hvisibility => .ite (fun h => ?member) fun hmember =>
    .ite (fun h => ?reference) fun _ => .none fun _ => rfl)
  case assignment =>
    refine (assignment_finds hg).map fun a us ha => ⟨?_, ?_⟩
    · refine ha.within (fun _ _ => rfl) (fun _ => congrArg Entry.assignment)
        (fun hs => (Parts.separable_cons.1 hs).2) (fun _ hf => ⟨hf.1, .of_resembles hf.1 hf.2 _⟩)
        fun hsim hagain => ?_
      exact .ahead (.ite_pos (hsim.startsAssignment ▸ h) hagain)
    · simp [Lookahead.startsAssignment] at h
      simp [h]
  case visibility =>
    refine (visibility_finds hg hb).map fun v us hv => ⟨?_, ?_⟩
    · refine hv.within (fun _ _ => rfl) (fun _ => congrArg Entry.visibility)
        (fun hs => (Parts.separable_cons.1 hs).2) (fun _ hf => ⟨hf.1, .of_resembles hf.1 hf.2 _⟩)
        fun hsim hagain => ?_
      exact .ahead (.ite_neg (hsim.startsAssignment ▸ hassignment)
        (.ite_pos (hsim.startsVisibility ▸ h) hagain))
    · simp [Lookahead.startsVisibility] at h
      simp [Lookahead.isWord_of_isModifier h.1]
  case member =>
    refine (member_finds hg).map fun p us hp => ⟨?_, ?_⟩
    · refine hp.within (fun _ _ => rfl) (fun _ => congrArg Entry.member)
        (fun hs => (Parts.separable_cons.1 hs).2)
        (fun _ hf => ⟨hf.1, hf.1.weaken _, hf.2, fun e _ => .of_resembles hf.1 hf.2 _⟩)
        fun hsim hagain => ?_
      exact .ahead (.ite_neg (hsim.startsAssignment ▸ hassignment)
        (.ite_neg (hsim.startsVisibility ▸ hvisibility) (.ite_pos (hsim.startsMember ▸ h) hagain)))
    · simp [Lookahead.startsMember] at h
      simp [h]
  case reference =>
    refine (reference_finds hg).map fun r us hr => ⟨?_, h⟩
    refine hr.copies.within (fun _ _ => rfl) (fun _ => congrArg Entry.reference)
      (fun hs => (Parts.separable_cons.1 hs).2) (fun _ hf => ⟨hf.1, hf.2⟩) fun hsim hagain => ?_
    exact .ahead (.ite_neg (hsim.startsAssignment ▸ hassignment)
      (.ite_neg (hsim.startsVisibility ▸ hvisibility)
      (.ite_neg (hsim.startsMember ▸ hmember)
      (.ite_pos (reference_starts hr.scope hsim h) hagain))))

/-- Entries that were read up to the closing parenthesis. -/
inductive Entered (g : Grammar) (n : Nat) : List Token → List Entry → List Token → Prop where
  | close {t : Token} {us : List Token} : t.kind = .rparen → Entered g n (t :: us) [] us
  | next {ts us vs : List Token} {e : Entry} {es : List Entry} :
    Copies n .entry (entry g (object g)) ts e us →
    (isWord ts 0 || Lookahead.startsScoped ts) = true → Entered g n us es vs →
    Entered g n ts (e :: es) vs

/-- The text of all entries stands for the tokens that were read. -/
theorem Entered.mirrors {es : List Entry} (h : Entered g n ts es us) {m : Margin} {c : Piece}
    {qs : List Piece} (hc : c.kind = .rparen) {cut : Bool} :
    Mirrors cut ts (Layout.Pieces.entryLines m es ++ c :: qs) us' := by
  induction h with
  | close ht => exact .sign (ht.trans hc.symm) (by rw [hc]; rfl) (by simp [hc])
  | next he _ _ ih =>
    rw [Layout.Pieces.entryLines, List.append_assoc]
    exact he.mirrors_append ih

/-- What the rounds from here on add to the entries read before. -/
def EntryRound (g : Grammar) (n : Nat) (read : List Entry) (ts : List Token) (es : List Entry)
    (us : List Token) : Prop := ∃ more, es = read.reverse ++ more ∧ Entered g n ts more us

/-- The entries of an object are read one by one, up to the parenthesis. -/
theorem entries_finds (hg : Copying S g) (hs : Steady body) (hb : Rebuilds S g n body) :
    Finds S n (loop (entryStep g body) []) ts (Entered g n ts) := by
  refine (Finds.loop (EntryRound g n) (fun read ts => .peek ?_) []).mono
    fun es us ⟨more, hes, h⟩ => by simpa [hes] using h
  split
  · rename_i hk
    obtain ⟨t, us, rfl, ht⟩ := Finds.exists_cons hk (by simp)
    exact .bump (.pure ⟨[], by simp, .close ht⟩)
  · exact .unexpected _
  · exact .report
  · refine .mark fun _ => ?_
    refine .bind (.orRecover hg.fair (entry_steady hg.advancing hs).sound (entry_finds hg hb))
      fun e us ⟨he, hword⟩ => ?_
    refine .pure fun b vs ⟨more, hb, hmore⟩ => ?_
    exact ⟨e :: more, by simp [hb], .next he hword hmore⟩

/-- Nothing behind white space is joined. -/
theorem detached_of_behind {blank : List Char} {ps : List Piece} (h : Piece.Behind blank ps)
    (hb : blank ≠ []) (here : Position) : Detached (tokensFrom here ps ++ us) := by
  obtain ⟨p, ps, rfl, rfl⟩ := h
  rintro t ⟨⟩ hj
  exact absurd (List.isEmpty_iff.1 hj) hb

/-- Each entry stands behind a line break. -/
theorem newline_ne_nil (m : Margin) : m.newline.toList ≠ [] := by
  simp [Margin.newline]

/-- An entry is followed by another one on a new line, or by the closing parenthesis. -/
theorem entryLines_detached {m : Margin} {c : Piece} {qs : List Piece} (hc : c.kind = .rparen)
    (es : List Entry) (here : Position) :
    Detached (tokensFrom here (Layout.Pieces.entryLines m es ++ c :: qs) ++ us) := by
  cases es with
  | nil =>
    rintro t ⟨⟩ -
    simp [Piece.token, hc]
  | cons e es =>
    rw [Layout.Pieces.entryLines, List.append_assoc]
    exact detached_of_behind ((Layout.Pieces.entry_behind e).append _) (newline_ne_nil m) here

/-- Entries are read again one by one. -/
theorem Entered.again (hg : Copying S g) (he : src.Ended) {es : List Entry}
    (h : Entered g n ts es us) {m : Margin} {c : Piece} {qs : List Piece} (hc : c.kind = .rparen)
    (hs : Parts.Separable (Parts.entries es)) : ∀ {read : List Entry} {here : Position},
      Takes src n (loop (entryStep g (object g)) read)
        (tokensFrom here (Layout.Pieces.entryLines m es ++ c :: qs) ++ us') fun es' vs =>
          (∃ here, vs = tokensFrom here qs ++ us') ∧
            es'.map Relabel.tidy.entry = (read.reverse ++ es).map Relabel.tidy.entry := by
  have ha := entryStep_advances hg.advancing (object_steady hg.advancing)
  induction h with
  | close =>
    intro read here
    refine .loop_end ha he (.peek_piece fun t ht => ?_)
    rw [ht, hc]
    exact .bump fun here => .pure ⟨_, rfl, ⟨here, rfl⟩, by simp⟩
  | @next ts us vs e es hentry hword hrest ih =>
    intro read here
    rw [Parts.entries, Parts.separable_append] at hs
    rw [Layout.Pieces.entryLines, List.append_assoc,
      show Layout.Pieces.entry m _ e = Script.entry.pieces m m.newline.toList e from rfl]
    have hmore : Mirrors false us (Layout.Pieces.entryLines m es ++ c :: qs) us' :=
      hrest.mirrors hc
    obtain ⟨u, ws, hu, hparen, heof, hcomma⟩ :=
      exists_entry hword (hentry.mirrors_append hmore here)
    refine .loop_next ha he (.peek ?_)
    rw [hu, List.headD_cons]
    split
    · exact absurd ‹_› hparen
    · exact absurd ‹_› heof
    · exact absurd ‹_› hcomma
    · rw [← hu, Piece.tokensFrom_append, List.append_assoc]
      refine .mark fun _ => ?_
      refine .bind (.orRecover
        (hentry.again m m.newline.toList here he hs.1
        ⟨hrest.mirrors hc _, entryLines_detached hc es _⟩)) fun e' _ ⟨hv, h⟩ => ?_
      exact hv ▸ .pure ⟨_, rfl, (ih hs.2).mono fun es' _ ⟨hv, hes⟩ => ⟨hv, by simpa [hes] using h⟩⟩

/-! ### Objects -/

/-- Entries stand between parentheses. -/
theorem entryList_eq (m m' : Margin) (es : List Entry) : ∃ o c, o.kind = .lparen ∧
    c.kind = .rparen ∧ Layout.Pieces.entryList m es.isEmpty (Layout.Pieces.entryLines m' es) =
      o :: (Layout.Pieces.entryLines m' es ++ [c]) := by
  cases es with
  | nil => exact ⟨_, _, rfl, rfl, rfl⟩
  | cons e es => exact ⟨_, _, rfl, rfl, rfl⟩

/-- An object is read again if the bodies of its templates are. -/
theorem objectWith_finds (hg : Copying S g) (hs : Steady body) (hb : Rebuilds S g n body) :
    Rebuilds S g n (objectWith g body) := by
  intro ts
  refine .mark fun _ => .name hg.spelled fun text t us s hts ht => .expect (by simp)
    fun u vs hus hu => .bind (entries_finds hg hs hb) fun es ws hes => .spanFrom fun s' => .pure ?_
  subst hts hus
  refine ⟨fun m blank _ => ?_, fun m blank here he hsep _ => ?_⟩ <;>
    obtain ⟨o, c, ho, hc, hpieces⟩ := entryList_eq m m.deeper es
  · refine .name ht ?_
    rw [hpieces]
    exact .sign (hu.trans ho.symm) (by rw [ho]; rfl) (by simp [ho])
  · have hsep : Parts.Separable (Parts.object _) := hsep
    rw [Parts.object, Parts.separable_cons, Parts.separable_cons] at hsep
    show Takes _ n _ (tokensFrom here (Layout.Pieces.object m blank _) ++ _) _
    rw [Layout.Pieces.object, hpieces]
    refine .congr (fun c _ => object_eq hg.advancing he) (.mark fun _ => .name fun here s =>
      .expect ho fun here => (hes.again hg he hc hsep.2.2).bind ?_)
    rintro es' _ ⟨⟨here, rfl⟩, h⟩
    exact .spanFrom fun _ => .pure ⟨rfl, by simpa [Relabel.object] using h⟩

/-- An object is read again, with the templates in it. -/
theorem object_finds (hg : Copying S g) : Rebuilds S g n (object g) := by
  have hs := Steady.unexpected (α := Object) ""
  have nest (k : Nat) : Rebuilds S g n (objectNest g (unexpected "") k) := by
    induction k with
    | zero => exact objectWith_finds hg hs (.unexpected "")
    | succ k ih => exact objectWith_finds hg (objectNest_steady hg.advancing hs k) ih
  exact fun {ts} c hr hd => .congr (object_eq_nest hg.advancing hs S.ended (Nat.le_refl _))
    (nest c.rest.length c hr hd)

/-- An object called unnamed. -/
theorem unnamed_finds (hg : Copying S g) :
    Finds S n (unnamed g) ts (Copies n .unnamed (unnamed g) ts) := by
  refine .mark fun start => .expectKeyword fun t us hts ht => ?_
  refine .bind (object_finds hg) fun o vs ho => .spanFrom fun s => .pure ⟨?mirrors, ?again⟩
  case mirrors => exact fun m blank h => hts ▸ .word ht rfl (ho.mirrors m [' '] h)
  case again =>
    refine fun m blank here he hs _ => .mark fun start' => .expectKeyword rfl fun here => ?_
    refine ho.last he (Parts.separable_cons.1 hs).2 trivial fun o' h => ?_
    refine .spanFrom fun s' => .pure ⟨rfl, ?_⟩
    have h : Relabel.tidy.object o' = Relabel.tidy.object o := h
    simp [Relabel.unnamed, h]

end Parser
end Ndf
