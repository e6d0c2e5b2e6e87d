/-
# Types, lists and references read again

What a level reads without problems is read again from its canonical text, if that is so of the
level below (`Copying`).
-/

import Ndf.Proofs.Concat.Path
import Ndf.Proofs.Layout.Again
import Ndf.Proofs.Reference.Chain

namespace Ndf

attribute [local simp] Layout.Script.type Layout.Script.expr Layout.Script.reference

/-- Tidying a path tidies its name and its steps. -/
theorem Relabel.tidy_segmentsOf (name : Name) (kind : SegmentKind) (ss : List Suffix) :
    tidy.segments (Reference.segmentsOf name kind ss) =
      Reference.segmentsOf (tidy.name name) kind (ss.map tidy.suffix) := by
  rw [segments_eq_map, segmentsOf_suffixes]

namespace Layout.Pieces

open Piece (sign)

variable {m : Margin}

/-- Suffixes behind a name. -/
def suffixes (m : Margin) : List Suffix → List Piece
  | [] => []
  | .joined kind name :: rest => joined [] (some kind) name ++ suffixes m rest
  | .index e :: rest => sign [] '[' :: (expr m [] e ++ sign [] ']' :: suffixes m rest)

/-- A name has the kind of the sign behind it, so the signs are those that were read. -/
theorem segments_suffixes (ss : List Suffix) : ∀ kind,
    segments m (some ((Suffix.firstKind ss).getD kind)) [] (Suffix.segments ss) =
      suffixes m ss := by
  induction ss with
  | nil => exact fun _ => rfl
  | cons s ss ih =>
    intro kind
    cases s with
    | joined kind' name => simp [Suffix.segments, segments, suffixes, Suffix.firstKind, ih]
    | index e => simp [Suffix.segments, segments, suffixes, Suffix.firstKind, ih]

/-- A path is written as its name and its steps. -/
theorem segments_segmentsOf (blank : List Char) (name : Name) (kind : SegmentKind)
    (ss : List Suffix) : segments m none blank (Reference.segmentsOf name kind ss) =
      Piece.word blank name.text :: suffixes m ss := by
  rw [Reference.segmentsOf, segments, joined, segments_suffixes, List.cons_append, List.nil_append]

/-- So is a reference without a scope. -/
theorem reference_unscoped (blank : List Char) (name : Name) (kind : SegmentKind)
    (ss : List Suffix) (s : Span) :
    reference m blank ⟨.none, Reference.segmentsOf name kind ss, s⟩ =
      Piece.word blank name.text :: suffixes m ss :=
  segments_segmentsOf blank name kind ss

/-- With a scope its sign and a slash stand in front. -/
theorem reference_scoped {scope : Scope} {c : Char} (h : scope.mark = some c) (blank : List Char)
    (name : Name) (kind : SegmentKind) (ss : List Suffix) (s : Span) :
    reference m blank ⟨scope, Reference.segmentsOf name kind ss, s⟩ =
      sign blank c :: sign [] '/' :: Piece.word [] name.text :: suffixes m ss := by
  rw [reference, h]
  exact congrArg _ (congrArg _ (segments_segmentsOf [] name kind ss))

end Layout.Pieces

namespace Parser

open Layout (Margin Script)
open Lookahead (Resembles Done Mirrors Detached isKind isJoined)
open Piece (tokensFrom sign word)

variable {S : Scene} {g : Grammar} {src : Source} {n : Nat} {ts us us' : List Token}

/-- What the level below has to do so that a level is read again. -/
structure Copying (S : Scene) (g : Grammar) : Prop where
  fair : S.Fair
  spelled : S.Spelled
  advancing : Advancing g
  expr : ∀ {n ts}, Finds S n g.expr ts fun e us =>
    Copies n .expr g.expr ts e us ∧ operator? us = none
  operand : ∀ {n ts}, Finds S n g.operand ts (Copies n .expr g.operand ts)
  type : ∀ {n ts}, Finds S n g.type ts (Copies n .type g.type ts)

/-! ### Types -/

/-- A type parameter that was read. -/
def HeldType (g : Grammar) (n : Nat) (t : TypeRef) : Prop := ∃ ts us, Copies n .type g.type ts t us

/-- Behind a parameter of a type the list goes on, or it is what was read. -/
theorem typeParamEnd_finds (read : List TypeRef) : Finds S n (typeParamEnd read) ts fun r _ =>
    r = .inl read ∨ r = .inr read.reverse := by
  refine .bind (P := fun _ _ => True) (.steady (.eat _)) fun _ us _ => .peek ?_
  split
  · rename_i hk
    obtain ⟨t, vs, rfl, -⟩ := Finds.exists_cons hk (by simp)
    exact .bump (.pure (.inr rfl))
  · rename_i hk
    obtain ⟨t, vs, rfl, ht⟩ := Finds.exists_cons hk (by simp)
    exact .bumpHalf ht (.pure (.inr rfl))
  · exact .pure (.inl rfl)
  · exact .unexpected _

/-- There is a parameter at least, and each is read again. -/
theorem typeParams_finds (hg : Copying S g) : Finds S n (typeParams g) ts fun params _ =>
    params ≠ [] ∧ ∀ t ∈ params, HeldType g n t := by
  refine (Finds.loop (fun read _ params _ => (∀ t ∈ read, HeldType g n t) →
      params ≠ [] ∧ ∀ t ∈ params, HeldType g n t) (fun read ts => .bind hg.type fun t us ht =>
        (typeParamEnd_finds _).mono fun r vs hr => ?_) []).mono fun params us h => h (by simp)
  have hread (h : ∀ t ∈ read, HeldType g n t) : ∀ u ∈ t :: read, HeldType g n u :=
    List.forall_mem_cons.2 ⟨⟨ts, us, ht⟩, h⟩
  rcases hr with rfl | rfl
  · exact fun b vs hb h => hb (hread h)
  · exact fun h => ⟨by simp, fun u hu => hread h u (List.mem_reverse.1 hu)⟩

/-- A type is written with its name in front. -/
theorem type_eq (blank : List Char) (t : TypeRef) :
    ∃ ps, Layout.Pieces.type blank t = word blank t.name.text :: ps := by
  obtain ⟨name, c, params, s⟩ := t
  cases params <;> exact ⟨_, rfl⟩

/-- Parameters are read again one after another, with a comma between any two. -/
theorem typeParams_again (hg : Copying S g) (he : src.Ended) (rest : List TypeRef) :
    ∀ (t : TypeRef) (read : List TypeRef) (blank : List Char) (here : Position),
      (∀ u ∈ t :: rest, HeldType g n u) → (∀ u ∈ t :: rest, Parts.Separable (Parts.type u)) →
      Takes src n (loop (typeParamStep g) read) (tokensFrom here
        (Layout.Pieces.type blank t ++ Layout.Pieces.moreTypes rest ++ [sign [] '>']) ++ us')
          fun params vs => vs = us' ∧ params.map Relabel.tidy.type =
            read.reverse.map Relabel.tidy.type ++ (t :: rest).map Relabel.tidy.type := by
  have ha := Eats.advances (typeParamStep_eats hg.advancing)
  induction rest with
  | nil =>
    intro t read blank here hheld hs
    obtain ⟨ts, us, ht⟩ := hheld t (by simp)
    rw [Layout.Pieces.moreTypes, List.append_nil]
    refine .loop_end ha he (ht.next (m := ⟨0, 0⟩) he (hs t (by simp)) (fun _ => ?_)
      fun here t' h => ?_)
    · rintro u ⟨⟩ -
      simp [sign, Piece.token, Lexeme.single]
    · unfold typeParamEnd
      refine .eat_other (by rintro ⟨⟩) (.peek_piece fun u hu => ?_)
      rw [hu]
      exact .bump fun _ => .pure ⟨_, rfl, rfl, by simpa using h⟩
  | cons u rest ih =>
    intro t read blank here hheld hs
    obtain ⟨ts, us, ht⟩ := hheld t (by simp)
    refine .loop_next ha he ?_
    rw [Layout.Pieces.moreTypes, List.append_assoc, List.cons_append]
    refine ht.next (m := ⟨0, 0⟩) he (hs t (by simp)) (fun _ => ?_)
      fun here t' h => ?_
    · rintro u ⟨⟩ -
      simp [sign, Piece.token, Lexeme.single]
    · unfold typeParamEnd
      refine .eat rfl fun here => ?_
      have := ih u (t' :: read) [' '] here (fun v hv => hheld v (by simp [hv]))
        fun v hv => hs v (by simp [hv])
      obtain ⟨ps, hps⟩ := type_eq [' '] u
      rw [hps] at this ⊢
      refine .peek_piece fun w hw => ?_
      rw [hw]
      exact .pure ⟨_, rfl, this.mono fun params vs hp => ⟨hp.1, by simpa [hp.2] using h⟩⟩

/-- A type is read again. -/
theorem typeRef_finds (hg : Copying S g) :
    Finds S n (typeRef g) ts (Copies n .type (typeRef g) ts) := by
  refine .mark fun m => .peek (.name hg.spelled fun text t us s hts ht => .ahead ?_)
  subst hts
  rw [List.headD_cons, ht]
  refine .ite (fun hlt => ?_) fun _ => .pure_bind (.spanFrom fun s' => .pure ?_)
  · cases us with
    | nil => cases hlt
    | cons u us =>
      have hu : u.kind = .lt := by simp [isKind] at hlt; exact hlt.1
      refine .bump (.bind (typeParams_finds hg) fun params vs hparams =>
        .spanFrom fun s' => .pure ?_)
      obtain ⟨hne, hheld⟩ := hparams
      obtain ⟨p, params, rfl⟩ := List.exists_cons_of_ne_nil hne
      refine ⟨fun m blank h => .name ht (.sign hu rfl (by rintro ⟨⟩)),
        fun m blank here he hs hf => .mark fun _ => .peek_piece fun u hu => .name fun here s =>
          .ahead (.ite_pos rfl (.bump fun here => ?_))⟩
      rw [hu]
      refine (typeParams_again hg he params p [] [] here hheld ?_).bind
        fun params' vs hp => .spanFrom fun s => .pure ⟨hp.1, ?_⟩
      · simpa [Parts.type, Parts.types_eq_flatMap, Part.Separable] using hs
      · simpa [Relabel.type, word] using hp.2
  · refine ⟨fun m blank h => .name ht (.nil h), fun m blank here he hs hf =>
      .mark fun _ => .peek_piece fun u hu => .name fun here s => .ahead (.ite_neg ?_
        (.pure_bind (.spanFrom fun _ => .pure ⟨rfl, ?_⟩)))⟩
    · exact Bool.eq_false_iff.1 (Lookahead.Detached.ends_type hf)
    · rw [hu]
      rfl

/-! ### Elements -/

/-- An expression that was read in front of a comma or a closing bracket. -/
def Fenced (g : Grammar) (n : Nat) (e : Expr) : Prop :=
  ∃ ts us, Copies n .expr g.expr ts e us ∧ Done us

/-- An expression that was read as an element of a list. -/
def Listed (g : Grammar) (n : Nat) (e : Expr) : Prop := ∃ t ts us,
  Copies n .expr g.expr (t :: ts) e us ∧ Done us ∧ ¬ Done (t :: ts) ∧ t.kind ≠ .eof

/-- An element of a list is read again in front of a comma or the closing bracket. -/
theorem Listed.fenced {e : Expr} (h : Listed g n e) : Fenced g n e :=
  have ⟨t, ts, us, hcopies, hdone, _⟩ := h
  ⟨t :: ts, us, hcopies, hdone⟩

/-- What a round adds to the elements read before, in a list that is closed. -/
def ListRound (g : Grammar) (n : Nat) (e : Elements) (ts : List Token) (b : Elements)
    (us : List Token) : Prop :=
  isKind us 0 .rbracket = true → (e.commaDue = true → Done ts) ∧
    ((∀ item ∈ e.reversed, Listed g n item) → ∀ item ∈ b.reversed, Listed g n item)

/-- The last round leaves the elements as they are. -/
theorem ListRound.stop (e : Elements) : ListRound g n e ts e ts :=
  fun h => ⟨fun _ => Done.of_isKind h (.inr rfl), id⟩

/-- An element stands in front of a comma or the bracket that closes the list. -/
theorem elements_finds (hg : Copying S g) : Finds S n (elements g) ts fun e us =>
    isKind us 0 .rbracket = true → ∀ item ∈ e.items, Listed g n item := by
  refine (Finds.loop (ListRound g n) (fun e ts => .peek ?_) {}).mono
    fun e us h hk => by simpa [Elements.items] using (h hk).2
  split
  · exact .pure (.stop e)
  · exact .pure (.stop e)
  · rename_i hk
    obtain ⟨t, us, rfl, ht⟩ := Finds.exists_cons hk (by simp)
    exact .bump (.pure fun b vs h hk => ⟨fun _ => by rintro u ⟨⟩; exact .inl ht, (h hk).2⟩)
  · rename_i hbracket heof hcomma
    refine .ite (fun _ => .report) fun hdue => .mark fun m => .bind (.orRecover hg.fair
      hg.advancing.expr.sound hg.expr) fun item us hitem => .pure fun b vs h hk =>
        ⟨fun h => absurd h hdue, fun hread => (h hk).2 (List.forall_mem_cons.2 ⟨?_, hread⟩)⟩
    cases ts with
    | nil => exact absurd S.ended heof
    | cons t ts =>
      refine ⟨t, ts, us, hitem.1, (h hk).1 rfl, fun hdone => ?_, heof⟩
      exact (hdone t rfl).elim hcomma hbracket

/-- What stands in brackets is read again, element by element. -/
theorem bracketed_finds (hg : Copying S g) : Finds S n (bracketed g) ts fun e _ =>
    (∃ t us, ts = t :: us ∧ t.kind = .lbracket) ∧ ∀ item ∈ e.items, Listed g n item := by
  refine .expect (by simp) fun t us hts ht => ?_
  refine .bind (elements_finds hg) fun e vs he => ?_
  refine .expect (by simp) fun u ws hvs hu => ?_
  exact .pure ⟨⟨t, us, hts, ht⟩, he (by simp [hvs, isKind, hu])⟩

/-- An element starts with no sign that stands between elements. -/
theorem Listed.head {item : Expr} (h : Listed g n item) (m : Margin) (blank : List Char) :
    ∃ p ps, Layout.Pieces.expr m blank item = p :: ps ∧
      p.kind ≠ .rbracket ∧ p.kind ≠ .comma ∧ p.kind ≠ .eof := by
  obtain ⟨t, ts, us, hitem, -, hhead, heof⟩ := h
  obtain ⟨p, ps, hp, hk⟩ := hitem.head hhead m blank
  refine ⟨p, ps, hp, ?_⟩
  rcases hk with hk | ⟨k, -, hk⟩
  · rw [← hk]
    exact ⟨fun h => hhead (by rintro u ⟨⟩; exact .inr h),
      fun h => hhead (by rintro u ⟨⟩; exact .inl h), heof⟩
  · refine ⟨?_, ?_, ?_⟩ <;>
    · intro h
      rw [h] at hk
      cases hk

/-- One element is read again. -/
theorem element_again (he : src.Ended) {item : Expr} (h : Listed g n item)
    (hs : Parts.Separable (Parts.expr item)) {e : Elements} (hdue : e.commaDue = false)
    {m : Margin} {blank : List Char} {ps : List Piece}
    (hps : ∀ here, Done (tokensFrom here ps ++ us)) {here : Position} : Takes src n (element g e)
      (tokensFrom here (Layout.Pieces.expr m blank item ++ ps) ++ us) fun r vs => ∃ item' here,
        r = .inl { e with reversed := item' :: e.reversed, commaDue := true } ∧
          vs = tokensFrom here ps ++ us ∧ Relabel.tidy.expr item' = Relabel.tidy.expr item := by
  obtain ⟨p, qs, hp, hbracket, hcomma, heof⟩ := h.head m blank
  obtain ⟨ts, vs, hitem, hdone⟩ := h.fenced
  refine .peek_kind (show _ = p.kind by rw [hp]; rfl) fun t ht => ?_
  split
  · exact absurd (ht.symm.trans ‹_›) hbracket
  · exact absurd (ht.symm.trans ‹_›) heof
  · exact absurd (ht.symm.trans ‹_›) hcomma
  · rw [hdue, Piece.tokensFrom_append, List.append_assoc]
    refine .ite_neg Bool.false_ne_true (.mark fun _ => .bind (.orRecover (hitem.again m blank here
      he hs (.done hdone (hps _) _))) fun item' _ ⟨hv, hi⟩ => .pure ⟨item', _, rfl, hv, hi⟩)

/-- Behind an element comes the next comma, or the closing bracket. -/
theorem more_done {m : Margin} {block : Bool} {c : Piece} (hc : c.kind = .rbracket)
    (ps : List Piece) (items : List Expr) (here : Position) :
    Done (tokensFrom here (Layout.Pieces.more m block items ++ c :: ps) ++ us) := by
  cases items with
  | nil => rintro t ⟨⟩; exact .inr hc
  | cons item items => rintro t ⟨⟩; exact .inl rfl

/-- Elements behind others are read again, each behind its comma. -/
theorem more_again (hg : Copying S g) (he : src.Ended) {m : Margin} {block : Bool} {c : Piece}
    {ps : List Piece} (hc : c.kind = .rbracket) {items : List Expr} :
    ∀ {e : Elements} {here : Position}, e.commaDue = true → (∀ item ∈ items, Listed g n item) →
      (∀ item ∈ items, Parts.Separable (Parts.expr item)) → Takes src n (loop (element g) e)
        (tokensFrom here (Layout.Pieces.more m block items ++ c :: ps) ++ us) fun b vs =>
          (∃ here, vs = tokensFrom here (c :: ps) ++ us) ∧ b.commas = e.commas + items.length ∧
            b.reversed.map Relabel.tidy.expr =
              items.reverse.map Relabel.tidy.expr ++ e.reversed.map Relabel.tidy.expr := by
  have ha := element_advances hg.advancing
  induction items with
  | nil =>
    intro e here hdue _ _
    refine .loop_end ha he (.peek_piece fun t ht => ?_)
    rw [ht, hc]
    exact .pure ⟨e, rfl, ⟨here, rfl⟩, rfl, rfl⟩
  | cons item items ih =>
    intro e here hdue hitems hs
    rw [List.forall_mem_cons] at hitems hs
    rw [Layout.Pieces.more, List.cons_append, List.append_assoc]
    refine .loop_next ha he (.peek_piece fun t ht => ?_)
    rw [ht]
    refine .bump fun here => .pure ⟨_, rfl, .loop_next ha he
      ((element_again he hitems.1 hs.1 rfl (more_done hc ps items)).mono ?_)⟩
    rintro _ _ ⟨item', here, rfl, rfl, hi⟩
    refine ⟨_, rfl, (ih rfl hitems.2 hs.2).mono fun b vs ⟨hv, hcommas, hb⟩ => ⟨hv, ?_, ?_⟩⟩
    · simp only [hcommas, List.length_cons]
      omega
    · simp [hb, hi]

/-- Elements are read again one after another, with a comma between any two. -/
theorem elements_again (hg : Copying S g) (he : src.Ended) {m : Margin} {block : Bool} {c : Piece}
    {ps : List Piece} (hc : c.kind = .rbracket) {items : List Expr}
    (hitems : ∀ item ∈ items, Listed g n item)
    (hs : ∀ item ∈ items, Parts.Separable (Parts.expr item)) {blank : List Char}
    {here : Position} : Takes src n (elements g)
      (tokensFrom here (Layout.Pieces.laid m block blank items ++ c :: ps) ++ us) fun e vs =>
        (∃ here, vs = tokensFrom here (c :: ps) ++ us) ∧ e.commas = items.length - 1 ∧
          e.reversed.map Relabel.tidy.expr = items.reverse.map Relabel.tidy.expr := by
  have ha := element_advances hg.advancing
  cases items with
  | nil =>
    refine .loop_end ha he (.peek_piece fun t ht => ?_)
    rw [ht, hc]
    exact .pure ⟨_, rfl, ⟨here, rfl⟩, rfl, rfl⟩
  | cons item items =>
    rw [List.forall_mem_cons] at hitems hs
    rw [Layout.Pieces.laid, List.append_assoc]
    refine .loop_next ha he
      ((element_again he hitems.1 hs.1 rfl (more_done hc ps items)).mono ?_)
    rintro _ _ ⟨item', here, rfl, rfl, hi⟩
    refine ⟨_, rfl, (more_again hg he hc rfl hitems.2 hs.2).mono ?_⟩
    rintro b vs ⟨hv, hcommas, hb⟩
    exact ⟨hv, by simpa using hcommas, by simp [hb, hi]⟩

/-- Elements between brackets are read again, and no comma of them is stray. -/
theorem bracketed_again (hg : Copying S g) (he : src.Ended) {m : Margin} {block : Bool}
    {o c : Piece} {ps : List Piece} (ho : o.kind = .lbracket) (hc : c.kind = .rbracket)
    {items : List Expr} (hitems : ∀ item ∈ items, Listed g n item)
    (hs : ∀ item ∈ items, Parts.Separable (Parts.expr item)) {blank : List Char}
    {here : Position} : Takes src n (bracketed g) (tokensFrom here
      (o :: (Layout.Pieces.laid m block blank items ++ c :: ps)) ++ us) fun e vs =>
        (∃ here, vs = tokensFrom here ps ++ us) ∧ e.strayCommas = 0 ∧
          e.items.map Relabel.tidy.expr = items.map Relabel.tidy.expr := by
  refine .expect ho fun here => (elements_again hg he hc hitems hs).bind ?_
  rintro e _ ⟨⟨here, rfl⟩, hcommas, hi⟩
  have hlength := congrArg List.length hi
  simp only [List.length_map, List.length_reverse] at hlength
  refine .expect hc fun here => .pure ⟨⟨here, rfl⟩, ?_, ?_⟩
  · rw [Elements.strayCommas, hcommas, hlength, Nat.sub_self]
  · rw [Elements.items, List.map_reverse, hi, List.map_reverse, List.reverse_reverse]

/-! ### References -/

/-- A suffix that was read. -/
def HeldSuffix (g : Grammar) (n : Nat) : Suffix → Prop
  | .joined kind _ => kind ≠ .terminal
  | .index e => Fenced g n e

/-- Suffixes that were read between `ts` and `us`. -/
structure Suffixed (g : Grammar) (n : Nat) (ts : List Token) (ss : List Suffix)
    (us : List Token) : Prop where
  mirrors : ∀ {cut us'} (m : Margin), Resembles cut us us' →
    Mirrors cut ts (Layout.Pieces.suffixes m ss) us'
  held : ∀ s ∈ ss, HeldSuffix g n s
  stops : ss = [] → Lookahead.continuesPath ts = false ∧ us = ts
  opens : ∀ e more, ss = .index e :: more → (isKind ts 0 .lbracket && isJoined ts 0) = true

/-- What the rounds from here on add to the suffixes read before. -/
def PathRound (g : Grammar) (n : Nat) (read : List Suffix) (ts : List Token) (ss : List Suffix)
    (us : List Token) : Prop := ∃ more, ss = read.reverse ++ more ∧ Suffixed g n ts more us

/-- The last round returns the steps in their order. -/
theorem PathRound.stop (h : Lookahead.continuesPath ts = false) (read : List Suffix) :
    PathRound g n read ts read.reverse ts :=
  ⟨[], by simp, fun _ => .nil, by simp, fun _ => ⟨h, rfl⟩, nofun⟩

/-- A sign that continues the path starts a suffix. -/
theorem PathRound.next {t : Token} {s : Suffix} {read ss : List Suffix} {vs ws : List Token}
    (hs : HeldSuffix g n s)
    (ho : ∀ e, s = .index e → (isKind (t :: ws) 0 .lbracket && isJoined (t :: ws) 0) = true)
    (hk : ∀ m more, ∃ p ps,
      Layout.Pieces.suffixes m (s :: more) = p :: ps ∧ t.kind = p.kind ∧ p.kind.isWord = false ∧
        p.kind ≠ .colon) (h : PathRound g n (s :: read) us ss vs) :
    PathRound g n read (t :: ws) ss vs := by
  obtain ⟨more, rfl, hmore⟩ := h
  refine ⟨s :: more, by simp, fun m _ => ?_, List.forall_mem_cons.2 ⟨hs, hmore.held⟩, nofun,
    fun e rest h => ho e (List.cons_eq_cons.1 h).1⟩
  obtain ⟨p, ps, hp, hk, hw, hc⟩ := hk m more
  rw [hp]
  exact .sign hk hw hc

/-- All steps of a path are read again. -/
theorem suffixes_finds (hg : Copying S g) : Finds S n (suffixes g) ts (Suffixed g n ts) := by
  refine (Finds.loop (PathRound g n) (fun read ts => .ahead (.ite (fun hpath => .peek ?_)
    fun hpath => ?_)) []).mono ?_
  rotate_left
  · exact .pure (PathRound.stop (Bool.eq_false_iff.2 hpath) read)
  · rintro ss us ⟨more, hss, h⟩
    simpa [hss] using h
  obtain ⟨t, ts, rfl, hjoined, hk⟩ := Lookahead.exists_of_continuesPath hpath
  rw [List.headD_cons]
  split
  · rename_i hbracket
    refine .bump (.bind hg.expr fun e us he => .expect (by simp) fun u vs hu hclose =>
      .pure fun _ _ => .next ⟨ts, us, he.1, ?_⟩ (fun _ _ => by simp [isKind, hbracket, hjoined])
        fun m more => ⟨_, _, rfl, hbracket, rfl, by rintro ⟨⟩⟩)
    subst hu
    rintro v ⟨⟩
    exact .inr hclose
  · rename_i hslash
    refine .bump ?_
    refine .name hg.spelled fun text u us s hts hu => ?_
    refine .pure fun _ _ => ?_
    refine .next (s := .joined .nested _) (by rintro ⟨⟩) (by rintro _ ⟨⟩) fun m ss => ?_
    exact ⟨_, _, rfl, hslash, rfl, by rintro ⟨⟩⟩
  · rename_i hbracket hslash
    have hdot : t.kind = .dot := (hk.resolve_left hbracket).1.resolve_left hslash
    refine .bump ?_
    refine .name hg.spelled fun text u us s hts hu => ?_
    refine .pure fun _ _ => ?_
    refine .next (s := .joined .member _) (by rintro ⟨⟩) (by rintro _ ⟨⟩) fun m ss => ?_
    exact ⟨_, _, rfl, hdot, rfl, by rintro ⟨⟩⟩

/-- Suffixes are read again in front of what does not go on. -/
theorem suffixes_again (hg : Copying S g) (he : src.Ended) {m : Margin} (hu : Detached us)
    {ss : List Suffix} : ∀ {read : List Suffix} {here : Position}, (∀ s ∈ ss, HeldSuffix g n s) →
      Parts.Separable (Parts.segments (Suffix.segments ss)) → Takes src n (loop (suffix g) read)
        (tokensFrom here (Layout.Pieces.suffixes m ss) ++ us) fun ss' vs => vs = us ∧
          ss'.map Relabel.tidy.suffix = (read.reverse ++ ss).map Relabel.tidy.suffix := by
  have ha := suffix_advances hg.advancing
  induction ss with
  | nil =>
    intro read here _ _
    exact .loop_end ha he (.ahead (.ite_neg (Bool.eq_false_iff.1 hu.continuesPath)
      (.pure ⟨_, rfl, rfl, by simp⟩)))
  | cons s ss ih =>
    intro read here hheld hs
    rw [List.forall_mem_cons] at hheld
    cases s with
    | index e =>
      obtain ⟨ts, vs, hindex, hdone⟩ : Fenced g n e := hheld.1
      rw [Suffix.segments, Parts.segments, Parts.separable_append] at hs
      refine .loop_next ha he (.ahead (.ite_pos rfl (.peek_piece fun t ht => ?_)))
      rw [ht]
      refine .bump fun here => hindex.next he hs.1 (fun _ => .done hdone ?_ _) fun here e' he' =>
        .expect rfl fun here => .pure ⟨_, rfl, (ih hheld.2 hs.2).mono fun ss' ws hss =>
          ⟨hss.1, by simpa [hss.2, Relabel.suffix] using he'⟩⟩
      rintro t ⟨⟩
      exact .inr rfl
    | joined kind name =>
      have hkind : kind ≠ .terminal := hheld.1
      rw [Suffix.segments, Parts.segments, Parts.separable_cons] at hs
      cases kind with
      | terminal => exact absurd rfl hkind
      | nested | member =>
        refine .loop_next ha he (.ahead (.ite_pos rfl (.peek_piece fun t ht => ?_)))
        rw [ht]
        exact .bump fun here => .name fun here s => .pure ⟨_, rfl, (ih hheld.2 hs.2).mono
          fun ss' ws hss => ⟨hss.1, by simp [hss.2, Relabel.suffix]⟩⟩

/-- The parts of a reference are those of its name and its suffixes. -/
theorem separable_reference {scope : Scope} {name : Name} {kind : SegmentKind} {ss : List Suffix}
    {s : Span} (h : Parts.Separable
      (Parts.reference ⟨scope, Reference.segmentsOf name kind ss, s⟩)) :
    Parts.Separable (Parts.segments (Suffix.segments ss)) := by
  rw [Parts.reference, Reference.segmentsOf, Parts.segments, Parts.separable_cons,
    Parts.separable_cons] at h
  exact h.2.2

/-- A name with its suffixes, behind the mark of its scope. -/
theorem path_again (hg : Copying S g) (he : src.Ended) (hu : Detached us) {m : Margin}
    {text : String} {ss : List Suffix} (hheld : ∀ s ∈ ss, HeldSuffix g n s)
    (hs : Parts.Separable (Parts.segments (Suffix.segments ss))) (scope : Scope) (start : Mark)
    {blank : List Char} {here : Position} {s s' : Span} : Takes src n (do
      let name ← name "a reference name"
      let suffixes ← suffixes g
      let kind : SegmentKind := if scope = .none then .terminal else .nested
      pure ⟨scope, Reference.segmentsOf name kind suffixes, ← spanFrom start⟩)
      (tokensFrom here (word blank text :: Layout.Pieces.suffixes m ss) ++ us) fun r vs =>
        vs = us ∧ Relabel.tidy.reference r = Relabel.tidy.reference ⟨scope, Reference.segmentsOf
          ⟨text, s⟩ (if scope = .none then .terminal else .nested) ss, s'⟩ := by
  refine .name fun here s'' => (suffixes_again hg he hu hheld hs).bind fun ss' vs ⟨hv, hss⟩ =>
    .spanFrom fun _ => .pure ⟨hv, ?_⟩
  rw [List.reverse_nil, List.nil_append] at hss
  simp only [Relabel.reference, Relabel.tidy_segmentsOf, hss]
  rfl

/-- The token that marks a scope is the sign that is written for it. -/
theorem exists_mark {kind : TokenKind} (h : scopeOf kind ≠ .none) :
    ∃ c, (scopeOf kind).mark = some c ∧ kind = Lexeme.single c ∧ Lexeme.single c ≠ .colon ∧
      (Lexeme.single c).isWord = false := by
  cases kind <;> simp [scopeOf, Scope.mark, Lexeme.single, TokenKind.isWord, TokenKind.wordClass?]
    at h ⊢

/-- The sign of a scope is read again in front of a name. -/
theorem scopeMark_again {c : Char} {text : String} {blank : List Char} {ps : List Piece}
    {here : Position} : Takes src n scopeMark
      (tokensFrom here (sign blank c :: sign [] '/' :: word [] text :: ps) ++ us) fun _ vs =>
        ∃ here, vs = tokensFrom here (word [] text :: ps) ++ us :=
  .bump fun _ => .ahead (.ite_pos rfl (.bump fun here => .ahead (.ite_pos rfl
    (.pure ⟨here, rfl⟩))))

/-- What starts with a word: that word alone, or with a sign behind it. -/
def Signed (ts us : List Token) (ps : List Piece) : Prop :=
  (∃ p, ps = [p] ∧ us = ts.tail) ∨ ∃ p q qs, ps = p :: q :: qs ∧ q.kind.isWord = false

/-- What was read of a reference. -/
structure Referred (g : Grammar) (n : Nat) (stop : Token) (ts : List Token) (r : Reference)
    (us : List Token) : Prop where
  copies : Copies n .reference (reference g) ts r us
  scope : r.scope = scopeOf (ts.headD stop).kind
  signed : ∀ m blank, Signed ts us (Layout.Pieces.reference m blank r)
  opens : ∀ m blank p q ps, Layout.Pieces.reference m blank r = p :: q :: ps →
    q.kind = .lbracket → (isKind ts 1 .lbracket && isJoined ts 1) = true

/-- Suffixes are no words, and a bracket among them was joined. -/
theorem Suffixed.signed {t : Token} {ss : List Suffix} (h : Suffixed g n ts ss us) (p : Piece)
    (m : Margin) : Signed (t :: ts) us (p :: Layout.Pieces.suffixes m ss) := by
  cases ss with
  | nil => exact .inl ⟨p, rfl, (h.stops rfl).2⟩
  | cons s ss =>
    cases s with
    | joined kind name => cases kind <;> exact .inr ⟨_, _, _, rfl, rfl⟩
    | index e => exact .inr ⟨_, _, _, rfl, rfl⟩

/-- A bracket stands directly behind the name in the text just if one was read there. -/
theorem Suffixed.joined {t : Token} {ss : List Suffix} (h : Suffixed g n ts ss us) {m : Margin}
    {q : Piece} {ps : List Piece} (hp : Layout.Pieces.suffixes m ss = q :: ps)
    (hq : q.kind = .lbracket) : (isKind (t :: ts) 1 .lbracket && isJoined (t :: ts) 1) = true := by
  cases ss with
  | nil => cases hp
  | cons s ss =>
    cases s with
    | joined kind name =>
      cases kind <;> (obtain ⟨rfl, -⟩ := List.cons_eq_cons.1 hp; cases hq)
    | index e => exact h.opens e ss rfl

/-- A reference is read again. -/
theorem reference_finds (hg : Copying S g) :
    Finds S n (reference g) ts (Referred g n S.source.stop ts) := by
  refine .mark fun m => .peek (.ite (fun hscope => ?_) fun hscope => ?_)
  · obtain ⟨c, hmark, hkind, hcolon, hword⟩ := exists_mark hscope
    have hmore : (ts.headD S.source.stop).kind ≠ .eof := by
      intro h
      rw [h] at hscope
      exact hscope rfl
    obtain ⟨t, ts, rfl, -⟩ := Finds.exists_cons rfl hmore
    rw [List.headD_cons] at hscope hmark hkind ⊢
    refine .bind (.steady scopeMark_steady) fun _ us _ => .name hg.spelled fun text u vs s hts ht =>
      .bind (suffixes_finds hg) fun ss vs hss => .spanFrom fun s' => .pure ⟨⟨fun m blank h => ?_,
        fun m blank here he hs hf => ?_⟩, rfl, fun m blank => ?_, fun m blank p q ps h hq => ?_⟩
    · show Mirrors _ _ (Layout.Pieces.reference m blank _) _
      rw [Layout.Pieces.reference_scoped hmark]
      exact .sign hkind hword hcolon
    · show Takes _ n _ (tokensFrom here (Layout.Pieces.reference m blank _) ++ _) _
      rw [Layout.Pieces.reference_scoped hmark]
      refine .mark fun _ => .peek_piece fun u hu => ?_
      rw [hu, show (sign blank c).kind = t.kind from hkind.symm]
      exact .ite_pos hscope (scopeMark_again.bind fun _ _ ⟨here, hv⟩ =>
        hv ▸ path_again hg he hf hss.held (separable_reference hs) _ _)
    · rw [Layout.Pieces.reference_scoped hmark]
      exact .inr ⟨_, _, _, rfl, rfl⟩
    · rw [Layout.Pieces.reference_scoped hmark] at h
      obtain ⟨-, h⟩ := List.cons_eq_cons.1 h
      obtain ⟨rfl, -⟩ := List.cons_eq_cons.1 h
      cases hq
  · rw [not_not] at hscope
    refine .name hg.spelled fun text t us s hts ht => .bind (suffixes_finds hg) fun ss vs hss =>
      .spanFrom fun s' => .pure ?_
    rw [hscope]
    refine ⟨⟨fun m blank h => ?_, fun m blank here he hs hf => ?_⟩, hscope.symm, fun m blank => ?_,
      fun m blank p q ps h hq => ?_⟩
    · show Mirrors _ _ (Layout.Pieces.reference m blank _) _
      rw [Layout.Pieces.reference_unscoped, hts]
      exact .name ht (hss.mirrors m h)
    · show Takes _ n _ (tokensFrom here (Layout.Pieces.reference m blank _) ++ _) _
      rw [Layout.Pieces.reference_unscoped]
      refine .mark fun _ => .peek_piece fun t ht => ?_
      rw [ht]
      exact .ite_neg (by simp [word, scopeOf])
        (path_again hg he hf hss.held (separable_reference hs) _ _)
    · rw [Layout.Pieces.reference_unscoped, hts]
      exact hss.signed _ m
    · rw [Layout.Pieces.reference_unscoped] at h
      rw [hts]
      exact hss.joined (List.cons_eq_cons.1 h).2 hq

/-! ### Vectors -/

/-- The text of a step goes on with the path. -/
theorem continuesPath_suffixes {m : Margin} {ss : List Suffix} (h : ss ≠ []) (here : Position) :
    Lookahead.continuesPath (tokensFrom here (Layout.Pieces.suffixes m ss) ++ us) = true := by
  cases ss with
  | nil => exact absurd rfl h
  | cons s ss =>
    cases s with
    | joined kind name => cases kind <;> rfl
    | index e => rfl

/-- A vector is read again as one in front of what does not continue a path. -/
theorem vector_again (hg : Copying S g) (he : src.Ended) (hu : Detached us) {m m' : Margin}
    {block : Bool} {items : List Expr} (hitems : ∀ item ∈ items, Listed g n item)
    (hs : ∀ item ∈ items, Parts.Separable (Parts.expr item)) {text : String} {blank : List Char}
    {here : Position} {s s' : Span} {strays : Nat} : Takes src n (vectorOrPath g)
      (tokensFrom here (word blank text :: Layout.Pieces.brackets m [] block
        (Layout.Pieces.elements m' block items)) ++ us) fun e vs => vs = us ∧
          Relabel.tidy.expr e = Relabel.tidy.expr (.vector ⟨text, s⟩ none items strays s') := by
  rw [Layout.Pieces.brackets, Layout.Pieces.elements_eq]
  refine .mark fun _ => .name fun here s'' => (bracketed_again hg he rfl rfl hitems hs).bind ?_
  rintro e _ ⟨⟨here, rfl⟩, hstrays, hi⟩
  refine .spanFrom fun s2 => .ahead ?_
  have hvector (items' : List Expr) (h : e.items = items') : Relabel.tidy.expr
      (.vector ⟨text, s''⟩ none items' e.strayCommas s2) =
        Relabel.tidy.expr (.vector ⟨text, s⟩ none items strays s') := by
    simp [Relabel.expr, ← h, hi]
  split
  · rename_i index h
    exact .ite_neg (fun hpath => Bool.eq_false_iff.1 hu.continuesPath hpath.2)
      (.pure ⟨rfl, hvector _ h⟩)
  · exact .pure ⟨rfl, hvector _ rfl⟩

/-- A path that starts with an index is read again as one. -/
theorem indexed_again (hg : Copying S g) (he : src.Ended) (hu : Detached us) {m : Margin}
    {index : Expr} (hindex : Listed g n index) {ss : List Suffix} (hne : ss ≠ [])
    (hheld : ∀ s ∈ ss, HeldSuffix g n s)
    (hs : Parts.Separable (Parts.segments (Suffix.segments (.index index :: ss)))) {text : String}
    {blank : List Char} {here : Position} {s s' : Span} : Takes src n (vectorOrPath g)
      (tokensFrom here (word blank text :: Layout.Pieces.suffixes m (.index index :: ss)) ++ us)
        fun e vs => vs = us ∧ Relabel.tidy.expr e = Relabel.tidy.expr (.reference
          ⟨.none, Reference.segmentsOf ⟨text, s⟩ .terminal (.index index :: ss), s'⟩) := by
  have hpieces : Layout.Pieces.suffixes m (.index index :: ss) = sign [] '[' ::
      (Layout.Pieces.laid m false [] [index] ++ sign [] ']' :: Layout.Pieces.suffixes m ss) := by
    simp [Layout.Pieces.suffixes, Layout.Pieces.laid, Layout.Pieces.more]
  rw [Suffix.segments, Parts.segments, Parts.separable_append] at hs
  rw [hpieces]
  refine .mark fun _ => .name fun here s1 => (bracketed_again hg he rfl rfl
    (List.forall_mem_singleton.2 hindex) (List.forall_mem_singleton.2 hs.1)).bind ?_
  rintro e _ ⟨⟨here, rfl⟩, hstrays, hi⟩
  obtain ⟨index', hitems, hindex'⟩ : ∃ index', e.items = [index'] ∧
      Relabel.tidy.expr index' = Relabel.tidy.expr index := by
    simpa [List.map_eq_singleton_iff] using hi
  refine .spanFrom fun _ => .ahead ?_
  rw [hitems]
  refine .ite_pos ⟨hstrays, continuesPath_suffixes hne here⟩ ((suffixes_again hg he hu hheld
    hs.2).bind fun ss' vs hss => .spanFrom fun _ => .pure ⟨hss.1, ?_⟩)
  have hsame : ss'.map Relabel.tidy.suffix = ss.map Relabel.tidy.suffix := hss.2
  simp only [Relabel.expr, Relabel.reference, Relabel.tidy_segmentsOf, List.map_cons, hsame,
    Relabel.suffix, hindex']
  rfl

/-- A vector with a plain name is read again, and so is a path that starts like one. -/
theorem vectorOrPath_finds (hg : Copying S g) : Finds S n (vectorOrPath g) ts fun e us =>
    Copies n .expr (vectorOrPath g) ts e us ∧ ∀ m blank, ∃ text ps,
      Layout.Pieces.expr m blank e = word blank text :: sign [] '[' :: ps := by
  refine .mark fun m => .name hg.spelled fun text t us s hts ht => .bind (bracketed_finds hg)
    fun e vs ⟨⟨u, us', hus, hu⟩, hheld⟩ => .spanFrom fun s' => .ahead ?_
  subst hts hus
  have vector (items : List Expr) (h : e.items = items) : Finds S n
      (Pure.pure (.vector ⟨text, s⟩ none items e.strayCommas s')) vs fun e us =>
        Copies n .expr (vectorOrPath g) (t :: u :: us') e us ∧ ∀ m blank, ∃ text ps,
          Layout.Pieces.expr m blank e = word blank text :: sign [] '[' :: ps := by
    subst h
    refine .pure ⟨⟨fun m blank _ => .name ht (.sign hu rfl nofun), fun m blank here he hs hf =>
      vector_again hg he hf.detached hheld ?_⟩, fun m blank => ⟨_, _, rfl⟩⟩
    simpa [Parts.expr, Part.Separable] using hs
  split
  · rename_i index hi
    refine .ite (fun hpath => ?_) fun _ => vector _ hi
    refine .bind (suffixes_finds hg) fun ss ws hss => .spanFrom fun s'' => .pure ?_
    have hpieces (m : Margin) (blank : List Char) : Layout.Pieces.expr m blank (.reference
        ⟨.none, Reference.segmentsOf ⟨text, s⟩ .terminal (.index index :: ss), s''⟩) =
          word blank text :: Layout.Pieces.suffixes m (.index index :: ss) := by
      rw [Layout.Pieces.expr, Layout.Pieces.reference_unscoped]
    refine ⟨⟨fun m blank _ => ?_, fun m blank here he hs hf => ?_⟩, fun m blank =>
      ⟨_, _, hpieces m blank⟩⟩
    · show Mirrors _ _ (Layout.Pieces.expr m blank _) _
      rw [hpieces]
      exact .name ht (.sign hu rfl nofun)
    · show Takes _ n _ (tokensFrom here (Layout.Pieces.expr m blank _) ++ _) _
      rw [hpieces]
      refine indexed_again hg he hf.detached (hheld index (by simp [hi])) (fun h => ?_) hss.held ?_
      · rw [(hss.stops h).1] at hpath
        exact Bool.false_ne_true hpath.2
      · have hs : Parts.Separable (Parts.expr _) := hs
        rw [Parts.expr, Parts.separable_cons] at hs
        exact separable_reference hs.2
  · exact vector _ rfl

end Parser
end Ndf
