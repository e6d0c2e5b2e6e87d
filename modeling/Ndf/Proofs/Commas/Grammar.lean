/-
# The commas of a list

`SPEC_FULL.md` §8, "List leniency".

In a source without problems an element of a list stands behind a comma, unless it is the first one,
so the commas that were counted are those between the elements and the stray ones
(`elements_smooth`).  They are the commas between the two brackets that are in no further bracket,
because every other parser reads brackets in pairs and no comma outside of them, level by level
(`tallying_levels`).  Those that may read commas, as the parameters of a type, stand in brackets.

`parse_commas` says so of all lists and vectors of a document.
-/

import Ndf.Proofs.Commas.Smooth
import Ndf.Proofs.Concat.Document
import Ndf.Proofs.Reference.Chain

namespace Ndf

-- A walk is opened at each node that a parser builds.
attribute [local simp] Walk.expr Walk.expr.around Walk.expr? Walk.exprs_eq_flatMap Walk.member
  Walk.members_eq_flatMap Walk.assignment Walk.template Walk.visibility Walk.declaration Walk.entry
  Walk.entries_eq_flatMap Walk.object Walk.reference Walk.segments_eq_flatMap Walk.inItem Walk.item
  Visit.Counted Scene.Counted Expr.elements?

/-- An object at the top level is counted as it is inside an expression. -/
theorem Scene.tallied_ofExpr {S : Scene} {e : Expr} :
    S.Tallied (Walk.item (.ofExpr e)) ↔ S.Tallied (Walk.expr e) := by
  cases e <;> simp [Item.ofExpr]

namespace Parser

variable {S : Scene} {g : Grammar} {c d : Cursor} {free : Bool}

/-- What the level below has to do so that the commas of a level are counted. -/
structure Tallying (S : Scene) (g : Grammar) : Prop where
  fair : S.Fair
  advancing : Advancing g
  expr : ∀ {free : Bool} {c : Cursor}, Tallies S free c Walk.expr g.expr
  operand : ∀ {free : Bool} {c : Cursor}, Tallies S free c Walk.expr g.operand
  type : ∀ {c : Cursor}, Smooth S c (fun _ d => c.Level true d) g.type

/-! ### Types -/

/-- Behind a parameter of a type a comma may be read, or the sign that ends the list. -/
theorem typeParamEnd_smooth (read : List TypeRef) :
    Smooth S c (fun _ d => c.Level true d) (typeParamEnd read) := by
  have comma : Smooth S c (fun _ d => c.Level true d) (eat .comma) :=
    (Smooth.eat_fence rfl).mono fun b d h => by
      cases b with
      | true => exact Cursor.Tally.level (Cursor.Crosses.comma (by simpa using h))
      | false => exact .of_eq (by rw [show d = c by simpa using h])
  refine .bind comma fun _ d hd => .peek ?_
  split
  · rename_i hk
    exact .bind (.bump_plain (by rw [hk]; rfl)) fun _ _ he => .pure (hd.trans he)
  · rename_i hk
    exact .bind (.bumpHalf hk) fun _ _ he => .pure (hd.trans he)
  · exact .pure hd
  · exact .unexpected _

/-- The next token is of the kind that was seen ahead. -/
theorem kind_of_isKind {kind : TokenKind} (h : Lookahead.isKind c.rest 0 kind = true) :
    (c.rest.headD S.source.stop).kind = kind := by
  cases hr : c.rest with
  | nil =>
    rw [hr] at h
    cases h
  | cons t ts =>
    rw [hr, Lookahead.isKind, Lookahead.kind?_zero, beq_iff_eq, Option.some.injEq] at h
    rw [List.headD_cons, h]

/-- A type may read commas: those between its parameters stand in no brackets. -/
theorem typeRef_smooth (hg : Tallying S g) :
    Smooth S c (fun _ d => c.Level true d) (typeRef g) := by
  have params {c : Cursor} : Smooth S c (fun _ d => c.Level true d) (typeParams g) :=
    .loop (I := fun _ d => c.Level true d) (fun _ _ h => .bind hg.type fun _ _ h' =>
      (typeParamEnd_smooth _).mono fun r _ h'' => by
        cases r <;> exact h.trans (h'.trans h'')) (.refl c)
  refine .mark (.peek (.bind (.name_plain _) fun _ d hd => .ahead (.ite (fun hlt => ?_) fun _ =>
    .bind (P := fun _ e => d.Level true e) (.pure (.refl d)) fun _ _ he =>
      .spanFrom (.pure (hd.trans he)))))
  rw [Bool.and_eq_true] at hlt
  exact .bind (.bump_plain (by rw [kind_of_isKind hlt.1]; rfl)) fun _ _ he =>
    .bind params fun _ _ hf => .spanFrom (.pure (hd.trans (he.trans hf)))

/-! ### Declarations -/

/-- An assignment reads its brackets in pairs and counts the commas in its value. -/
theorem assignment_tallies (hg : Tallying S g) :
    Tallies S free c Walk.assignment (assignment g) := by
  refine .mark <| .after (.name_plain _) fun name _ => .after (.expectKeyword _) fun _ _ => ?_
  refine .bind hg.expr fun value _ he => ?_
  refine .spanFrom fun _ => ?_
  simp [he]

/-- What follows the name of a member may hold a type, and with it commas outside of brackets. -/
theorem memberTail_tallies (hg : Tallying S g) (m : Mark) (name : Name) :
    Tallies S true c Walk.member (memberTail g m name) := by
  have value {c : Cursor} (type : Option TypeRef) (legacy : Bool) :
      Tallies S true c Walk.member (do
        let value ← g.expr
        pure ⟨name, type, some value, legacy, ← spanFrom m⟩) :=
    .bind hg.expr fun _ _ he => .spanFrom fun _ => by simp [he]
  refine .after (.eat_plain rfl) fun _ _ => .ite (fun _ => ?_) fun _ => ?_
  · refine .after (.eat_plain rfl) fun _ _ => .ite (fun _ => value _ _) fun _ => ?_
    refine .after (typeRef_smooth hg) fun type _ => .after (.eat_plain rfl) fun _ _ => ?_
    refine .ite (fun _ => value _ _) fun _ => .spanFrom fun _ => ?_
    simp
  · exact .after (.expect_plain rfl _) fun _ _ => value _ _

/-- A member may read such commas as its type does. -/
theorem member_tallies (hg : Tallying S g) : Tallies S true c Walk.member (member g) :=
  .mark <| .after (.name_plain _) fun _ _ => memberTail_tallies hg _ _

/-- A parameter does so as a member does, or is a name alone. -/
theorem param_tallies (hg : Tallying S g) : Tallies S true c Walk.member (param g) := by
  refine .mark <| .after (.name_plain _) fun _ _ => .peek ?_
  split
  · exact memberTail_tallies hg _ _
  · exact memberTail_tallies hg _ _
  · exact .spanFrom fun _ => by simp

/-- Between the parameters of a template commas may stand, which are in no list. -/
theorem params_tallies (hg : Tallying S g) : Tallies S true c Walk.members (params g) := by
  refine .loop Walk.members (fun read d hread => .peek ?_) (by simp)
  split
  · exact .pure (by simpa using hread)
  · exact .pure (by simpa using hread)
  · rename_i hk
    exact .after ((Smooth.bump_fence hk rfl).mono fun _ _ h => h.comma.level) fun _ _ => .pure hread
  · exact .bind (param_tallies hg) fun _ _ hm => .pure (by simpa using ⟨hm, by simpa using hread⟩)
  · exact .unexpected _

variable {body : Parser Object}

/-- The parameters of a template stand in brackets. -/
theorem template_tallies (hg : Tallying S g)
    (hb : ∀ {free : Bool} {c : Cursor}, Tallies S free c Walk.object body) :
    Tallies S free c Walk.template (template g body) := by
  refine .mark <| .after (.expectKeyword _) fun _ _ => .after (.name_plain _) fun name _ => ?_
  refine Smooth.bind (.expect_fence rfl _) fun _ _ ho => ?_
  refine .inside ho.inside (params_tallies hg) fun _ _ ho hp => ?_
  refine .close (fun _ => ho.square) rfl fun _ => .after (.expectKeyword _) fun _ _ => ?_
  refine .bind hb fun object _ ho => ?_
  refine .spanFrom fun _ => ?_
  simpa using ⟨by simpa using hp, ho⟩

/-- A modifier adds no comma to those of the declaration behind it. -/
theorem visibility_tallies (hg : Tallying S g)
    (hb : ∀ {free : Bool} {c : Cursor}, Tallies S free c Walk.object body) :
    Tallies S free c Walk.visibility (visibility g body) := by
  refine .mark <| .peek ?_
  split
  · exact .unexpected _
  · refine .after (.name_plain _) fun keyword _ => .ahead ?_
    have declaration {q : Parser Declaration} {c : Cursor} (modifier : Modifier) (m : Mark)
        (hq : Tallies S free c Walk.declaration q) : Tallies S free c Walk.visibility (do
          let declaration ← q
          pure ⟨modifier, keyword, declaration, ← spanFrom m⟩) :=
      .bind hq fun _ _ hd => .spanFrom fun _ => by simpa using hd
    exact .ite (fun _ => declaration _ _ ((template_tallies hg hb).map fun _ h => by simpa using h))
      fun _ => declaration _ _ ((assignment_tallies hg).map fun _ h => by simpa using h)

/-- An expression in brackets. -/
theorem index_tallies {β : Type} {more : β → List Visit} {v : Expr → β} (hg : Tallying S g)
    (hc : (c.rest.headD S.source.stop).kind = .lbracket)
    (hv : ∀ e, S.Tallied (Walk.expr e) → S.Tallied (more (v e))) :
    Tallies S free c more (do
      bump
      let index ← g.expr
      expect .rbracket "']'"
      pure (v index)) := by
  refine Smooth.bind (.bump_fence hc rfl) fun _ _ ho => ?_
  refine .inside ho.inside hg.expr fun e _ ho he => ?_
  refine .close (fun _ => ho.square) rfl fun _ => ?_
  exact .pure (hv e he)

/-- What continues a path reads its brackets in pairs and counts the commas of an index. -/
theorem suffix_tallies (hg : Tallying S g) {read : List Suffix}
    (hread : S.Tallied (read.flatMap Suffix.visits)) :
    Tallies S free c (Sum.elim (List.flatMap Suffix.visits) (List.flatMap Suffix.visits))
      (suffix g read) := by
  have named {c : Cursor} (kind : SegmentKind) :
      Tallies S free c (Sum.elim (List.flatMap Suffix.visits) (List.flatMap Suffix.visits)) (do
        pure (.inl (.joined kind (← name "a name") :: read)) : Parser (_ ⊕ List Suffix)) :=
    .after (.name_plain _) fun _ _ => .pure (by simpa using hread)
  refine .ahead (.ite (fun hpath => .peek ?_) fun _ => .pure (by simpa using hread))
  split
  · exact index_tallies hg ‹_› fun _ he => by simpa using ⟨he, by simpa using hread⟩
  · rename_i hk
    exact .after (.bump_plain (by rw [hk]; rfl)) fun _ _ => named _
  · rename_i hbracket _
    -- What continues a path and is no bracket is a sign.
    obtain ⟨t, us, hr, -, hk⟩ := Lookahead.exists_of_continuesPath hpath
    rw [hr, List.headD_cons] at hbracket
    have hsign := hk.resolve_left hbracket
    refine .after (.bump_plain ?_) fun _ _ => named _
    rw [hr, List.headD_cons]
    rcases hsign.1 with hk | hk <;> rw [hk] <;> rfl

/-- So does the whole path. -/
theorem suffixes_tallies (hg : Tallying S g) :
    Tallies S free c (List.flatMap Suffix.visits) (suffixes g) :=
  .loop (List.flatMap Suffix.visits) (fun _ _ hread => suffix_tallies hg hread) (by simp)

/-- The sign of a scope is neither a comma nor a bracket. -/
theorem scopeMark_smooth (h : scopeOf (c.rest.headD S.source.stop).kind ≠ .none) :
    Smooth S c (fun _ d => c.Level free d) scopeMark := by
  have hmark : (c.rest.headD S.source.stop).kind.isFence = false := by
    cases hk : (c.rest.headD S.source.stop).kind <;> rw [hk] at h <;>
      first | rfl | exact absurd rfl h
  have name {d : Cursor} (hd : c.Level free d) : Smooth S d (fun _ e => c.Level free e) (do
      let ts ← ahead
      if Lookahead.isWord ts 0 && Lookahead.isJoined ts 0 then pure ()
      else unexpected "a name directly after the scope") :=
    .ahead (.ite (fun _ => .pure hd) fun _ => .unexpected _)
  refine .bind (P := fun _ d => c.Level free d) (.bump_plain hmark) fun _ d hd =>
    .ahead (.ite (fun hslash => ?_) fun _ =>
      .bind (P := fun _ e => c.Level free e) (.unexpected _) fun _ _ he => name he)
  rw [Bool.and_eq_true] at hslash
  exact .bind (.bump_plain (by rw [kind_of_isKind hslash.1]; rfl)) fun _ _ he => name (hd.trans he)

/-- A reference reads its brackets in pairs and counts the commas in its indexes. -/
theorem reference_tallies (hg : Tallying S g) :
    Tallies S free c Walk.reference (reference g) := by
  have path {c : Cursor} (scope : Scope) (m : Mark) : Tallies S free c Walk.reference (do
      let name ← name "a reference name"
      let suffixes ← suffixes g
      let kind : SegmentKind := if scope = .none then .terminal else .nested
      pure ⟨scope, Reference.segmentsOf name kind suffixes, ← spanFrom m⟩) :=
    .after (.name_plain _) fun _ _ => .bind (suffixes_tallies hg) fun _ _ hs =>
      .spanFrom fun _ => by simpa [Reference.segmentsOf, Walk.segments] using hs
  exact .mark <| .peek <| .ite (fun h => .after (scopeMark_smooth h) fun _ _ => path _ _)
    fun _ => path _ _

/-- An entry of an object may read a comma outside of brackets only as a member does. -/
theorem entry_tallies (hg : Tallying S g)
    (hb : ∀ {free : Bool} {c : Cursor}, Tallies S free c Walk.object body) :
    Tallies S true c Walk.entry (entry g body) := by
  refine .ahead <| .ite (fun _ => (assignment_tallies hg).map fun _ h => h) fun _ => ?_
  refine .ite (fun _ => (visibility_tallies hg hb).map fun _ h => h) fun _ => ?_
  refine .ite (fun _ => (member_tallies hg).map fun _ h => h) fun _ => ?_
  refine .ite (fun _ => (reference_tallies hg).map fun _ h => h) fun _ => ?_
  exact Smooth.none rfl

/-- Entries and the closing parenthesis, behind the opening one. -/
theorem entries_smooth (hg : Tallying S g) (hs : Steady body)
    (hb : ∀ {free : Bool} {c : Cursor}, Tallies S free c Walk.object body)
    (ho : c.Inside .lparen d) :
    Smooth S d (fun es e => c.Level free e ∧ S.Tallied (Walk.entries es))
      (loop (entryStep g body) []) := by
  refine .loop (I := fun es e => c.Inside .lparen e ∧ S.Tallied (Walk.entries es))
    (fun read d ⟨ho, hread⟩ => .peek ?_) ⟨ho, by simp⟩
  split
  · rename_i hk
    exact .bind (.bump_fence hk rfl) fun _ _ hclose =>
      .pure ⟨ho.round hclose, by simpa using hread⟩
  · exact .unexpected _
  · exact .report
  · have hentry : Tallies S true d Walk.entry
        (orRecover (entry g body) (Entry.error <$> recoverEntry (.here S.source d))) :=
      .orRecover hg.fair (entry_steady hg.advancing hs).sound (entry_tallies hg hb)
    exact .mark <| .inside ho hentry fun _ _ ho he =>
      .pure ⟨ho, by simpa using ⟨he, by simpa using hread⟩⟩

/-- The entries of an object stand in parentheses, so no comma of theirs is outside. -/
theorem objectWith_tallies (hg : Tallying S g) (hs : Steady body)
    (hb : ∀ {free : Bool} {c : Cursor}, Tallies S free c Walk.object body) :
    Tallies S free c Walk.object (objectWith g body) :=
  .mark <| .after (.name_plain _) fun _ _ => Smooth.bind (.expect_fence rfl _) fun _ _ ho =>
    .bind (entries_smooth hg hs hb ho.inside) fun _ _ ⟨hlevel, he⟩ =>
      .spanFrom (.pure ⟨hlevel, by simpa using he⟩)

/-- The same of an object, however deep its templates are nested. -/
theorem object_tallies (hg : Tallying S g) : Tallies S free c Walk.object (object g) := by
  have hs := Steady.unexpected (α := Object) ""
  have nest (n : Nat) : ∀ {free : Bool} {c : Cursor},
      Tallies S free c Walk.object (objectNest g (unexpected "") n) := by
    induction n with
    | zero => exact objectWith_tallies hg hs (.unexpected "")
    | succ n ih => exact objectWith_tallies hg (objectNest_steady hg.advancing hs n) ih
  exact .congr (object_eq_nest hg.advancing hs S.ended (Nat.le_refl _)) (nest _)

/-- An unnamed object counts the commas that its object counts. -/
theorem unnamed_tallies (hg : Tallying S g) :
    Tallies S free c (fun u => Walk.object u.object) (unnamed g) := by
  refine .mark <| .after (.expectKeyword _) fun _ _ => ?_
  refine .bind (object_tallies hg) fun object _ ho => ?_
  exact .spanFrom fun _ => ho

/-! ### Elements and their commas -/

/-- **Each element but the first stands behind a comma.**  Between two of them there is one at
least, or its absence is reported. -/
theorem elements_smooth (hg : Tallying S g) :
    Smooth S c (fun e d => c.Tally e.commas d ∧ e.reversed.length ≤ e.commas + 1 ∧
      S.Tallied (Walk.exprs e.items)) (elements g) := by
  refine .loop (I := fun e d => c.Tally e.commas d ∧
    e.reversed.length ≤ e.commas + (if e.commaDue then 1 else 0) ∧
    S.Tallied (Walk.exprs e.items)) (fun e d ⟨htally, hlength, he⟩ => .peek ?_)
    ⟨.refl c, Nat.zero_le _, by simp [Elements.items]⟩
  have hdone : e.reversed.length ≤ e.commas + 1 := by
    split at hlength <;> omega
  split
  · exact .pure ⟨htally, hdone, he⟩
  · exact .pure ⟨htally, hdone, he⟩
  · rename_i hk
    exact .bind (.bump_fence hk rfl) fun _ _ hcomma => .pure
      ⟨htally.trans hcomma.comma, by simpa using hdone, he⟩
  · refine .ite (fun _ => .report) fun hdue => .mark ?_
    rw [if_neg hdue] at hlength
    have helement : Tallies S false d Walk.expr
        (orRecover g.expr (Expr.error <$> recoverElement (.here S.source d))) :=
      .orRecover hg.fair hg.advancing.expr.sound hg.expr
    refine .bind helement fun item _ hread => .pure ⟨htally.trans hread.1.tally, ?_, ?_⟩
    · simpa using hlength
    · simp only [Elements.items, Walk.exprs_eq_flatMap, Scene.tallied_flatMap, List.mem_reverse]
        at he
      simpa [Elements.items] using ⟨he, hread.2⟩

/-- What is read between brackets and the two brackets. -/
structure Bracketed (S : Scene) (c : Cursor) (e : Elements) (d : Cursor) : Prop where
  read : ∃ opening inside closing, c.Passes (opening :: (inside ++ [closing])) d ∧
    opening.kind = .lbracket ∧ closing.kind = .rbracket ∧ Paired e.commas (fences inside)
  length_le : e.reversed.length ≤ e.commas + 1
  tallied : S.Tallied (Walk.exprs e.items)

/-- What stands in brackets is read with the commas that were counted for it. -/
theorem bracketed_smooth (hg : Tallying S g) :
    Smooth S c (fun e d => Bracketed S c e d) (bracketed g) := by
  refine .bind (.expect (by simp) _) fun _ d ⟨opening, ts, hr, hopening, hd⟩ =>
    .bind (.steady (elements_steady hg.advancing) (elements_smooth hg))
      fun e d' ⟨⟨htally, hlength, htold⟩, u, hu⟩ => .bind (.expect (by simp) _)
        fun _ _ ⟨closing, us, hr', hclosing, hd'⟩ => .pure ⟨?_, hlength, htold⟩
  have hone := Cursor.Passes.one hr
  have hlast := Cursor.Passes.one hr'
  rw [← hd] at hone
  rw [← hd'] at hlast
  exact ⟨opening, u, closing, hone.trans (hu.trans hlast), hopening, hclosing,
    htally.paired hu.rest⟩

/-- What is read from a place on as the elements of a node, with a name in front or not. -/
structure Enclosed (S : Scene) (c : Cursor) (e : Elements) (d : Cursor) : Prop where
  level : ∀ free, c.Level free d
  counted : ∃ inside, Brackets (S.within ((Mark.here S.source c).upTo d)) inside ∧
    Paired (e.strayCommas + max e.items.length 1 - 1) (fences inside)
  tallied : ∀ item ∈ e.items, S.Tallied (Walk.expr item)

/-- **The commas between the brackets are those between the elements and the stray ones.** -/
theorem Bracketed.enclosed {e : Elements} {b : Cursor} {us front : List Token}
    (h : Bracketed S c e d) (hb : S.tokens = us ++ b.rest) (hfront : b.Passes front c)
    (hplain : fences front = []) : Enclosed S b e d := by
  obtain ⟨opening, inside, closing, hpasses, hopening, hclosing, hpaired⟩ := h.read
  have hall := hfront.trans hpasses
  have hcommas : e.strayCommas + max e.items.length 1 - 1 = e.commas := by
    have hlength := h.length_le
    rw [Elements.strayCommas, Elements.items, List.length_reverse]
    omega
  have hfences : fences (front ++ opening :: (inside ++ [closing])) =
      .lbracket :: (fences inside ++ [.rbracket]) := by
    rw [fences_append, hplain, List.nil_append, fences_cons (by rw [hopening]; rfl), fences_append,
      hopening, fences_cons (by rw [hclosing]; rfl), hclosing, fences_nil]
  refine ⟨fun free => .of_tally ⟨_, ?_, .square hpaired .nil⟩, ⟨inside, ?_, hcommas ▸ hpaired⟩, ?_⟩
  · rw [hall.rest, fences_append, hfences]
  · rw [Scene.within_upTo hb hall (by simp)]
    exact ⟨⟨front, opening, closing, rfl, hplain, hopening, hclosing⟩, _, hpaired⟩
  · simpa using h.tallied

/-- Elements between brackets. -/
theorem bracketed_enclosed (hg : Tallying S g) :
    Smooth S c (fun e d => Enclosed S c e d) (bracketed g) :=
  .here fun hleft => (bracketed_smooth hg).mono fun e d he => by
    obtain ⟨opening, inside, closing, hpasses, hopening, -⟩ := he.read
    have hhead : (c.rest.headD S.source.stop).kind = .lbracket := by
      rw [hpasses.rest, List.cons_append, List.headD_cons, hopening]
    obtain ⟨us, hus⟩ := hleft.whole (by rw [hhead]; simp)
    exact he.enclosed hus (.refl c) rfl

/-- Elements between brackets behind a name. -/
theorem named_enclosed {β : Type} {R : β → Cursor → Prop} {f : Name → Elements → Parser β}
    (hg : Tallying S g) (due : String)
    (hf : ∀ n e d, Enclosed S c e d → Smooth S d R (f n e)) : Smooth S c R (do
      let n ← name due
      let e ← bracketed g
      f n e) := by
  refine .here fun hleft => .bind (.name due) fun n d ⟨t, ts, hr, hw, hd⟩ =>
    .bind (bracketed_smooth hg) fun e d' he => hf n e d' ?_
  have hone := Cursor.Passes.one hr
  rw [← hd] at hone
  have hword : t.kind.isFence = false ∧ t.kind ≠ .eq := by
    cases hk : t.kind with
    | word => exact ⟨rfl, by simp⟩
    | _ =>
      rw [hk] at hw
      cases hw
  obtain ⟨us, hus⟩ := hleft.whole (by rw [hr, List.headD_cons]; exact hword.2)
  exact he.enclosed hus hone (fences_cons_of_not hword.1)

/-! ### Expressions -/

/-- A list keeps the number of its stray commas. -/
theorem list_tallies (hg : Tallying S g) : Tallies S free c Walk.expr (list g) :=
  .mark (Smooth.bind (bracketed_enclosed hg) fun _ _ he => .spanFrom (.pure
    ⟨he.level free, by simpa [Expr.span] using ⟨he.counted, he.tallied⟩⟩))

/-- A vector does so behind its name. -/
theorem vector_tallies (hg : Tallying S g) (type : VectorType) :
    Tallies S free c Walk.expr (vector g type) :=
  .mark (named_enclosed hg _ fun _ _ _ he => .spanFrom (.pure
    ⟨he.level free, by simpa [Expr.span] using ⟨he.counted, he.tallied⟩⟩))

/-- A vector that is read again as a path is a reference, whose indexes are counted all the same. -/
theorem vectorOrPath_tallies (hg : Tallying S g) :
    Tallies S free c Walk.expr (vectorOrPath g) := by
  refine .mark (named_enclosed hg _ fun n e d he => .spanFrom (.ahead ?_))
  have vector (items : List Expr) (hi : e.items = items) : S.Tallied (Walk.expr
      (.vector n none items e.strayCommas ((Mark.here S.source c).upTo d))) := by
    subst hi
    simpa [Expr.span] using ⟨he.counted, he.tallied⟩
  split
  · rename_i index hi
    have hindex := he.tallied index (by simp [hi])
    have more : Tallies S free d (List.flatMap Suffix.visits) (suffixes g) := suffixes_tallies hg
    exact .ite (fun _ => .bind more fun _ _ hmore =>
        .spanFrom (.pure ⟨(he.level free).trans hmore.1, by
          simpa [Reference.segmentsOf, Walk.segments] using ⟨hindex, by simpa using hmore.2⟩⟩))
      fun _ => .pure ⟨he.level free, vector _ hi⟩
  · exact .pure ⟨he.level free, vector _ rfl⟩

/-- What is no pair is reported. -/
theorem pairs_tallies (items : List Expr) (h : ∀ e ∈ items, S.Tallied (Walk.expr e)) :
    Tallies S free c Walk.exprs (pairs items) := by
  induction items generalizing c with
  | nil => exact .pure (by simp)
  | cons item items ih =>
    obtain ⟨hitem, hitems⟩ := List.forall_mem_cons.1 h
    have kept : Tallies S free c Walk.exprs (do
        let entry ← pure item
        pure (entry :: (← pairs items))) :=
      .bind (.pure hitem) fun _ _ he => .bind (ih hitems) fun _ _ hes =>
        .pure (by simpa using ⟨he, by simpa using hes⟩)
    unfold pairs
    split
    · exact kept
    · exact kept
    · exact Smooth.report

/-- A map keeps no commas of its own, but its pairs hold lists. -/
theorem map_tallies (hg : Tallying S g) : Tallies S free c Walk.expr (map g) :=
  .mark (named_enclosed hg _ fun _ e d he =>
    have pairs : Tallies S free d Walk.exprs (pairs e.items) := pairs_tallies e.items he.tallied
    .bind pairs fun _ _ ⟨hlevel, hp⟩ => .spanFrom (.pure
      ⟨(he.level free).trans hlevel, by simpa using hp⟩))

/-- The comma of a pair stands in parentheses. -/
theorem parenthesised_tallies (hg : Tallying S g) :
    Tallies S free c Walk.expr (parenthesised g) := by
  refine .mark (Smooth.bind (.expect_fence rfl _) fun _ d ho =>
    .bind (.eat_fence rfl) fun b e h => ?_)
  replace ho := ho.inside
  refine .ite (fun hb => ?_) fun hb => ?_
  · rw [if_pos hb] at h
    exact .spanFrom (.pure ⟨ho.round h, by simp⟩)
  · rw [if_neg hb] at h
    subst h
    refine .inside ho hg.expr fun first d ho hfirst => .bind (.eat_fence rfl) fun b e h => ?_
    refine .ite (fun hb => ?_) fun hb => ?_
    · rw [if_pos hb] at h
      exact .inside (ho.trans h.comma.level) hg.expr fun _ _ ho hsecond =>
        .close (fun _ => ho.round) rfl fun _ => .spanFrom fun _ => by simp [hfirst, hsecond]
    · rw [if_neg hb] at h
      subst h
      exact .close (fun _ => ho.round) rfl fun _ => .spanFrom fun _ => by simp [hfirst]

/-- The index of a generic type stands in brackets. -/
theorem generic_tallies (hg : Tallying S g) : Tallies S free c Walk.expr (generic g) := by
  have index {c : Cursor} : Tallies S free c Walk.expr? (index? g) := by
    refine .ahead (.ite (fun h => ?_) fun _ => .pure (by simp))
    rw [Bool.and_eq_true] at h
    exact index_tallies hg (kind_of_isKind h.1) fun _ he => he
  refine .mark (.after (.expect_plain rfl _) fun _ _ => .ahead (.ite (fun _ =>
    .after (.name_plain _) fun _ _ => .ahead (.ite (fun h => ?_) fun _ => .unexpected _))
      fun _ => .unexpected _))
  rw [Bool.and_eq_true] at h
  exact .after (.bump_plain (by rw [kind_of_isKind h.1]; rfl)) fun _ _ => .bind index fun _ _ hi =>
    .spanFrom fun _ => by simp [hi]

/-- A payload is a token of its own, with no comma to count. -/
theorem guid_tallies (h : (c.rest.headD S.source.stop).kind.isFence = false) :
    Tallies S free c Walk.expr guid := by
  refine .mark (.after (.bump_plain h) fun _ _ => .after (.expect_plain rfl _) fun _ _ => .peek ?_)
  split
  · rename_i hk
    exact .after (.bump_plain (by rw [hk]; rfl)) fun _ _ => .spanFrom fun _ => by simp
  · rename_i hk
    refine .after (.bump_plain (by rw [hk]; rfl)) fun _ _ => ?_
    refine .after ((Smooth.still (.errorFrom _)).mono fun _ _ h => h ▸ .refl _) fun _ _ => ?_
    exact .pure (by simp)
  · exact .unexpected _

/-- A constant is one word. -/
theorem constant_tallies {value : Span → Expr}
    (h : (c.rest.headD S.source.stop).kind.isFence = false)
    (hv : ∀ s, S.Tallied (Walk.expr (value s))) : Tallies S free c Walk.expr (constant value) :=
  .peek (.after (.bump_plain h) fun _ _ => .pure (hv _))

/-- What a name starts, an object, a vector, a path or a reference, is counted. -/
theorem nameLed_tallies (hg : Tallying S g) : Tallies S free c Walk.expr (nameLed g) := by
  refine .ahead (.ite (fun _ => ?object) fun _ => .ite (fun _ => ?bracket) fun _ => ?path)
  case object => exact (object_tallies hg).map fun o h => by simpa using h
  case bracket => exact vectorOrPath_tallies hg
  case path => exact (reference_tallies hg).map fun r h => by simpa using h

/-- What a word starts is counted, whatever class the word is of. -/
theorem wordLed_tallies (hg : Tallying S g) (wordClass : WordClass)
    (h : (c.rest.headD S.source.stop).kind.isFence = false) :
    Tallies S free c Walk.expr (wordLed g wordClass) := by
  refine .ahead (.ite (fun _ => (assignment_tallies hg).map fun _ h => by simpa using h) fun _ =>
    .ite (fun _ => (visibility_tallies hg (object_tallies hg)).map fun _ h => by simpa using h)
      fun _ => ?_)
  split
  · exact constant_tallies h fun _ => by simp
  · exact constant_tallies h fun _ => by simp
  · exact constant_tallies h fun _ => by simp
  · exact .ite (fun _ => guid_tallies h) fun _ => nameLed_tallies hg
  · exact .ite (fun _ => map_tallies hg) fun _ => nameLed_tallies hg
  · exact .ite (fun _ => vector_tallies hg _) fun _ => nameLed_tallies hg
  · exact nameLed_tallies hg

/-- A broken token holds no list. -/
theorem brokenToken_tallies (e : LexError)
    (h : (c.rest.headD S.source.stop).kind.isFence = false) :
    Tallies S free c Walk.expr (brokenToken e) := by
  refine .mark (.peek (.after (.bump_plain h) fun _ _ => ?_))
  split
  · exact Smooth.report
  · exact .after ((Smooth.still (.errorFrom _)).mono fun _ _ h => h ▸ .refl _) fun _ _ =>
      .pure (by simp)

/-- An operand counts the commas of its lists. -/
theorem primary_tallies (hg : Tallying S g) : Tallies S free c Walk.expr (primary g) := by
  refine .peek ?_
  split
  · rename_i hk
    exact .after (.bump_plain (by rw [hk]; rfl)) fun _ _ => .pure (by simp)
  · rename_i hk
    exact .after (.bump_plain (by rw [hk]; rfl)) fun _ _ => .pure (by simp)
  · exact list_tallies hg
  · exact parenthesised_tallies hg
  · exact generic_tallies hg
  · rename_i hk
    exact wordLed_tallies hg _ (by rw [hk]; rfl)
  · rename_i hk
    exact brokenToken_tallies _ (by rw [hk]; rfl)
  · exact .unexpected _
  · exact .ahead (.ite (fun _ => (reference_tallies hg).map fun _ h => by simpa using h)
      fun _ => Smooth.none rfl)

/-- A sign in front of an operand adds none. -/
theorem unary_tallies (hg : Tallying S g) : Tallies S free c Walk.expr (unary g) := by
  have signed {c : Cursor} (op : UnaryOp) (m : Mark) : Tallies S free c Walk.expr (do
      let operand ← g.operand
      pure (.unary op operand (← spanFrom m))) :=
    .bind hg.operand fun _ _ he => .spanFrom fun _ => by simp [he]
  refine .mark (.peek ?_)
  split
  · rename_i hk
    exact .after (.bump_plain (by rw [hk]; rfl)) fun _ _ => signed _ _
  · rename_i hk
    exact .after (.bump_plain (by rw [hk]; rfl)) fun _ _ => signed _ _
  · exact primary_tallies hg

/-- An operator is no fence. -/
theorem isFence_of_operator? (h : operator? c.rest ≠ none) :
    (c.rest.headD S.source.stop).kind.isFence = false := by
  cases hr : c.rest with
  | nil =>
    rw [hr] at h
    exact absurd rfl h
  | cons t ts =>
    rw [hr, operator?, Lookahead.kind?_zero] at h
    rw [List.headD_cons]
    cases hk : t.kind <;> rw [hk] at h <;> first | rfl | exact absurd rfl h

/-- An operator behind an operand adds none either, nor do the colon and the question mark. -/
theorem operation_tallies (hg : Tallying S g) {right : Nat → Parser Expr}
    (hr : ∀ rank c, Tallies S free c Walk.expr (right rank)) (loosest : Nat) (m : Mark)
    {left : Expr} (hleft : S.Tallied (Walk.expr left)) :
    Tallies S free c (Sum.elim Walk.expr Walk.expr) (operation g right loosest m left) := by
  refine .ahead ?_
  have bump (h : operator? c.rest ≠ none) : Smooth S c (fun _ d => c.Level free d) bump :=
    .bump_plain (isFence_of_operator? h)
  split
  · exact .pure hleft
  · rename_i ho
    refine .ite (fun _ => ?_) fun _ => ?_
    · refine .after (bump (by simp [ho])) fun _ _ => .bind hg.expr fun value _ hyes => ?_
      refine .after (.expect_plain rfl _) fun _ _ => .bind hg.expr fun value _ hno => ?_
      refine .spanFrom fun _ => ?_
      simp [hleft, hyes, hno]
    · exact .pure hleft
  · rename_i ho
    exact .ite (fun _ => .after (bump (by simp [ho])) fun _ _ => .bind (hr _ _) fun _ _ hright =>
      .spanFrom fun _ => by simp [hleft, hright]) fun _ => .pure hleft

/-- Any run of operators counts what its operands count. -/
theorem climb_tallies (hg : Tallying S g) (steps loosest : Nat) :
    Tallies S free c Walk.expr (climb g steps loosest) := by
  induction steps generalizing loosest c with
  | zero => exact unary_tallies hg
  | succ steps ih =>
    exact .mark (.bind (unary_tallies hg) fun left _ hleft => .loop Walk.expr
      (fun _ _ hleft => operation_tallies hg (fun rank _ => ih rank) loosest _ hleft) hleft)

/-! ### Levels and items -/

/-- **The commas of a level are counted if those of the one below are.** -/
theorem Tallying.above (hg : Tallying S g) : Tallying S (.above g) where
  fair := hg.fair
  advancing := hg.advancing.above
  expr := .nested (expression_steady hg.advancing).sound (tooDeep_loud.bind) (climb_tallies hg _ _)
  operand := .nested (unary_steady hg.advancing).sound (tooDeep_loud.bind) (unary_tallies hg)
  type := .nested (typeRef_sound hg.advancing) tooDeep_loud.bind (typeRef_smooth hg)

/-- All levels of the grammar read their brackets in pairs and count commas. -/
theorem tallying_levels (hS : S.Fair) (n : Nat) : Tallying S (.levels n) := by
  induction n with
  | zero => exact ⟨hS, advancing_bottom, Smooth.loud tooDeep_loud.bind,
      Smooth.loud tooDeep_loud.bind, .loud tooDeep_loud.bind⟩
  | succ n ih => exact ih.above

/-- An item counts the commas of its lists. -/
theorem item_tallies (hg : Tallying S g) : Tallies S true c Walk.item (item g) := by
  refine .ahead (.ite (fun _ => ?assignment) fun _ => .ite (fun _ => ?visibility) fun _ =>
    .ite (fun _ => ?template) fun _ => .ite (fun _ => ?unnamed) fun _ =>
    .ite (fun _ => ?member) fun _ => ?expr)
  case assignment => exact (assignment_tallies hg).map fun a h => by simpa using h
  case visibility =>
    exact (visibility_tallies hg (object_tallies hg)).map fun v h => by simpa using h
  case template => exact (template_tallies hg (object_tallies hg)).map fun t h => by simpa using h
  case unnamed => exact (unnamed_tallies hg).map fun u h => by simpa using h
  case member => exact (member_tallies hg).map fun m h => by simpa using h
  case expr => exact hg.expr.map fun e h => Scene.tallied_ofExpr.2 h

/-- The items of a document count theirs one after another. -/
theorem items_tallies (hg : Tallying S g) (calledOff : Nat → Bool) :
    Tallies S true c (fun is => (is.getD []).flatMap Walk.item) (items g calledOff) := by
  have item {c : Cursor} : Tallies S true c Walk.item (itemOrError g) :=
    .mark (.bind (.orRecover hg.fair (item_steady hg.advancing).sound (item_tallies hg))
      fun _ _ h => .after ((Smooth.still (.emit _)).mono fun _ _ h => h ▸ .refl _) fun _ _ =>
        .pure h)
  refine .loop (List.flatMap Walk.item) (fun read d hread => .ahead (.ite (fun _ => .pure ?_)
    fun _ => .ite (fun _ => .pure (by simp)) fun _ => .bind item fun _ _ hi => .pure ?_)) (by simp)
  · simpa using hread
  · exact Scene.tallied_append.2 ⟨hi, hread⟩

end Parser

/-- **Commas are counted exactly.**  In a source without problems, every list and every vector ends
in a pair of square brackets.  Of the commas between the two, those that stand in no further bracket
or parenthesis are the stray ones and one between each two elements next to each other. -/
theorem parse_commas {source : String} (clean : (parse source).diagnostics = []) {e : Expr}
    (he : .expr e ∈ (parse source).document.parts) {items : List Expr} {stray : Nat}
    (h : e.elements? = some (items, stray)) : ∃ inside,
      Brackets ((visibleTokens source).filter fun t => e.span.encloses t.span) inside ∧
        bareCommas 0 (inside.map Token.kind) = stray + max items.length 1 - 1 := by
  obtain ⟨hlex, hquiet⟩ := problems_eq_nil clean
  have hrun := Parser.items_tallies (Parser.tallying_levels (S := .ofText source)
    (fair_of_diagnostics hlex) Parser.maxNesting) (fun _ => false)
    (c := .start (TokenStream.ofText source).tokens)
  obtain ⟨-, -, htallied⟩ := hrun (Scene.Left.all _) _ (readItems_value source) hquiet
  obtain ⟨inside, hbrackets, hpaired⟩ :=
    htallied _ ((Document.mem_enterExpr _).2 he) items stray h
  rw [← (ofText_eq source).1]
  exact ⟨inside, hbrackets, hpaired.bareCommas⟩

/-- Three stray commas around two elements, and a comma that stands in parentheses. -/
theorem parse_commas_stray : ∃ e, .expr e ∈ (parse "[,1,,(2,3),]").document.parts ∧
    ∃ items, e.elements? = some (items, 3) ∧ items.length = 2 ∧ ∃ inside,
      Brackets ((visibleTokens "[,1,,(2,3),]").filter fun t => e.span.encloses t.span) inside ∧
        bareCommas 0 (inside.map Token.kind) = 4 := by
  have hclean : (parse "[,1,,(2,3),]").diagnostics.isEmpty = true := by decide +kernel
  have hfound : ((parse "[,1,,(2,3),]").document.parts.filterMap Part.expr?).any (fun e =>
      e.elements?.any fun read => read.1.length == 2 && read.2 == 3) = true := by decide +kernel
  obtain ⟨e, he, hcheck⟩ := List.any_eq_true.1 hfound
  obtain ⟨p, hp, hpart⟩ := List.mem_filterMap.1 he
  rw [Part.expr?_eq_some.1 hpart] at hp
  cases helements : e.elements? with
  | none =>
    rw [helements] at hcheck
    cases hcheck
  | some read =>
    obtain ⟨items, stray⟩ := read
    rw [helements] at hcheck
    obtain ⟨hlength, rfl⟩ : items.length = 2 ∧ stray = 3 := by simpa using hcheck
    obtain ⟨inside, hbrackets, hcommas⟩ := parse_commas (List.isEmpty_iff.1 hclean) hp helements
    rw [hlength] at hcommas
    exact ⟨e, hp, items, helements, hlength, inside, hbrackets, hcommas⟩

end Ndf
