/-
# Every level moves forward

The invariants of `Ndf.Proofs.Parser.Sound` for expressions and, from the lowest level up, for all
levels of the grammar (`advancing_levels`), and for the items of a document.  Below the last level
a fragment is cut out, which reads a token as well or gives up.
-/

import Ndf.Proofs.Parser.Agree

namespace Ndf

namespace Parser

variable {α β σ : Type} {p : Parser α} {f : α → Parser β} {src : Source} {c : Cursor} {g : Grammar}

/-- An unnamed object ends between two tokens or leaves a problem. -/
theorem unnamed_steady (hg : Advancing g) : Steady (unnamed g) := by
  refine .bind Still.mark.steady fun m => ?_
  refine .bind (.expectKeyword _) fun _ => .bind (object_steady hg) fun object => ?_
  exact .bind (Still.spanFrom m).steady fun _ => .pure _

/-- It starts with its keyword. -/
theorem unnamed_eats (hg : Advancing g) : Eats (unnamed g) := by
  refine .bind_right Still.mark.sound fun m => ?_
  refine .bind (.expectKeyword _) fun _ => .bind (object_steady hg).sound fun object => ?_
  exact .bind (Still.spanFrom m).sound fun _ => (Steady.pure _).sound

/-! ### Expressions -/

/-- A list ends behind its bracket or leaves a problem. -/
theorem list_steady (hg : Advancing g) : Steady (list g) := by
  refine .bind Still.mark.steady fun m => ?_
  refine .bind (bracketed_steady hg) fun elements => .bind (Still.spanFrom m).steady fun _ => ?_
  exact .pure _

/-- So does a vector. -/
theorem vector_steady (hg : Advancing g) (type : VectorType) : Steady (vector g type) := by
  refine .bind Still.mark.steady fun m => ?_
  refine .bind (.name _) fun name => .bind (bracketed_steady hg) fun elements => ?_
  exact .bind (Still.spanFrom m).steady fun _ => .pure _

/-- What is made of a value moves nothing. -/
theorem Still.map (f : α → β) (hp : Still p) : Still (f <$> p) := hp.bind fun _ => .pure _

/-- Pairs are picked from elements that are read already. -/
theorem pairs_still (items : List Expr) : Still (pairs items) := by
  induction items with
  | nil => exact .pure _
  | cons item items ih =>
    unfold pairs
    split
    · exact ih.bind fun _ => .pure _
    · exact ih.bind fun _ => .pure _
    · refine .bind (.report _ _) fun _ => .bind (.map _ (.errorAt _)) fun _ => ?_
      exact ih.bind fun _ => .pure _

/-- A map ends behind its bracket or leaves a problem. -/
theorem map_steady (hg : Advancing g) : Steady (map g) := by
  refine .bind Still.mark.steady fun m => ?_
  refine .bind (.name _) fun name => .bind (bracketed_steady hg) fun e => ?_
  refine .bind (pairs_still e.items).steady fun pairs => .bind (Still.spanFrom m).steady fun _ => ?_
  exact .pure _

/-- A pair or a group ends behind its parenthesis or leaves a problem. -/
theorem parenthesised_steady (hg : Advancing g) : Steady (parenthesised g) := by
  refine .bind Still.mark.steady fun m => ?_
  refine .bind (.expect _ _) fun _ => .bind (.eat _) fun _ => ?_
  refine .ite (.bind (Still.spanFrom m).steady fun _ => .pure _) ?_
  refine .bind hg.expr fun value => .bind (.eat _) fun _ => ?_
  refine .ite ?_ (.bind (.expect _ _) fun _ => .bind (Still.spanFrom m).steady fun _ => .pure _)
  refine .bind hg.expr fun value => .bind (.expect _ _) fun _ => ?_
  exact .bind (Still.spanFrom m).steady fun _ => .pure _

/-- An index ends behind its bracket, or is missing. -/
theorem index?_steady (hg : Advancing g) : Steady (index? g) := by
  refine .bind Still.ahead.steady fun _ => ?_
  exact .ite (.bind .bump fun _ => .bind hg.expr fun _ => .bind (.expect _ _) fun _ => .pure _)
    (.pure _)

/-- A generic type ends behind its index. -/
theorem generic_steady (hg : Advancing g) : Steady (generic g) := by
  refine .bind Still.mark.steady fun m => ?_
  refine .bind (.expect _ _) fun _ => .bind Still.ahead.steady fun _ => ?_
  refine .ite ?_ (.unexpected _)
  refine .bind (.name _) fun name => .bind Still.ahead.steady fun _ => ?_
  refine .ite ?_ (.unexpected _)
  refine .bind .bump fun _ => .bind (index?_steady hg) fun _ => ?_
  exact .bind (Still.spanFrom m).steady fun _ => .pure _

/-- A payload ends behind its closing brace or leaves a problem. -/
theorem guid_steady : Steady guid := by
  refine .bind Still.mark.steady fun m => .bind .bump fun _ => .bind (.expect _ _) fun _ =>
    .bind Still.peek.steady fun token => ?_
  split
  · exact .bind .bump fun _ => .bind (Still.spanFrom m).steady fun _ => .pure _
  · exact .bind .bump fun _ => .bind (Still.errorFrom m).steady fun _ => .pure _
  · exact .unexpected _

/-- A constant ends behind its token. -/
theorem constant_steady (value : Span → Expr) : Steady (constant value) :=
  .bind Still.peek.steady fun _ => .bind .bump fun _ => .pure _

/-- What a name starts ends between two tokens or leaves a problem. -/
theorem nameLed_steady (hg : Advancing g) : Steady (nameLed g) :=
  .bind Still.ahead.steady fun _ => .ite (.map _ (object_steady hg))
    (.ite (vectorOrPath_steady hg) (.map _ (reference_steady hg)))

/-- So does what any word starts. -/
theorem wordLed_steady (hg : Advancing g) (wordClass : WordClass) :
    Steady (wordLed g wordClass) := by
  refine .bind Still.ahead.steady fun _ => .ite (.map _ (assignment_steady hg))
    (.ite (.map _ (visibility_steady hg (object_steady hg))) ?_)
  split
  · exact constant_steady _
  · exact constant_steady _
  · exact constant_steady _
  · exact .ite guid_steady (nameLed_steady hg)
  · exact .ite (map_steady hg) (nameLed_steady hg)
  · exact .ite (vector_steady hg _) (nameLed_steady hg)
  · exact nameLed_steady hg

/-- A token of the lexer that is no token is an expression by itself. -/
theorem brokenToken_steady (e : LexError) : Steady (brokenToken e) := by
  refine .bind Still.mark.steady fun m => .bind Still.peek.steady fun _ => .bind .bump fun _ => ?_
  split
  · exact .bind (Still.report _ _).steady fun _ => .bind (Still.errorFrom m).steady fun _ => .pure _
  · exact .bind (Still.errorFrom m).steady fun _ => .pure _

/-- An operand ends between two tokens or leaves a problem. -/
theorem primary_steady (hg : Advancing g) : Steady (primary g) := by
  refine .bind Still.peek.steady fun token => ?_
  split
  · exact .bind .bump fun _ => .pure _
  · exact .bind .bump fun _ => .pure _
  · exact list_steady hg
  · exact parenthesised_steady hg
  · exact generic_steady hg
  · exact wordLed_steady hg _
  · exact brokenToken_steady _
  · exact .unexpected _
  · exact .bind Still.ahead.steady fun _ => .ite (.map _ (reference_steady hg))
      (.abortHere fun t => .noExpression t.kind.name)

/-- So it does with signs in front. -/
theorem unary_steady (hg : Advancing g) : Steady (unary g) := by
  refine .bind Still.mark.steady fun m => .bind Still.peek.steady fun token => ?_
  split
  · exact .bind .bump fun _ => .bind hg.operand fun _ => .bind (Still.spanFrom m).steady fun _ =>
      .pure _
  · exact .bind .bump fun _ => .bind hg.operand fun _ => .bind (Still.spanFrom m).steady fun _ =>
      .pure _
  · exact primary_steady hg

/-- A list starts with a bracket. -/
theorem list_eats (hg : Advancing g) : Eats (list g) := by
  refine .bind_right Still.mark.sound fun m => ?_
  refine .bind (bracketed_eats hg) fun elements => .bind (Still.spanFrom m).sound fun _ => ?_
  exact (Steady.pure _).sound

/-- A vector starts with its name. -/
theorem vector_eats (hg : Advancing g) (type : VectorType) : Eats (vector g type) := by
  refine .bind_right Still.mark.sound fun m => ?_
  refine .bind (.name _) fun name => .bind (bracketed_steady hg).sound fun elements => ?_
  exact .bind (Still.spanFrom m).sound fun _ => (Steady.pure _).sound

/-- A map starts with its name. -/
theorem map_eats (hg : Advancing g) : Eats (map g) := by
  refine .bind_right Still.mark.sound fun m => ?_
  refine .bind (.name _) fun name => .bind (bracketed_steady hg).sound fun e => ?_
  refine .bind (pairs_still e.items).sound fun pairs => .bind (Still.spanFrom m).sound fun _ => ?_
  exact (Steady.pure _).sound

/-- A pair or a group starts with a parenthesis. -/
theorem parenthesised_eats (hg : Advancing g) : Eats (parenthesised g) := by
  refine .bind_right Still.mark.sound fun m => ?_
  refine .bind (.expect (by simp) _) fun _ => ?_
  refine Steady.sound ?_
  refine .bind (.eat _) fun _ => ?_
  refine .ite (.bind (Still.spanFrom m).steady fun _ => .pure _) ?_
  refine .bind hg.expr fun value => .bind (.eat _) fun _ => ?_
  refine .ite ?_ (.bind (.expect _ _) fun _ => .bind (Still.spanFrom m).steady fun _ => .pure _)
  refine .bind hg.expr fun value => .bind (.expect _ _) fun _ => ?_
  exact .bind (Still.spanFrom m).steady fun _ => .pure _

/-- A generic type starts with its name. -/
theorem generic_eats (hg : Advancing g) : Eats (generic g) := by
  refine .bind_right Still.mark.sound fun m => ?_
  refine .bind (.expect (by simp) _) fun _ => ?_
  refine Steady.sound ?_
  refine .bind Still.ahead.steady fun _ => ?_
  refine .ite ?_ (.unexpected _)
  refine .bind (.name _) fun name => .bind Still.ahead.steady fun _ => ?_
  refine .ite ?_ (.unexpected _)
  refine .bind .bump fun _ => .bind (index?_steady hg) fun _ => ?_
  exact .bind (Still.spanFrom m).steady fun _ => .pure _

/-- A payload starts with the word in front of its brace. -/
theorem guid_eats : Eats guid := by
  refine .bind_right Still.mark.sound fun m => .bind_right Steady.bump.sound fun _ =>
    .bind (.expect (by simp) _) fun _ => .bind Still.peek.sound fun token => Steady.sound ?_
  split
  · exact .bind .bump fun _ => .bind (Still.spanFrom m).steady fun _ => .pure _
  · exact .bind .bump fun _ => .bind (Still.errorFrom m).steady fun _ => .pure _
  · exact .unexpected _

/-- A vector or a path starts with its name. -/
theorem vectorOrPath_eats (hg : Advancing g) : Eats (vectorOrPath g) := by
  refine .bind_right Still.mark.sound fun m => .bind (.name _) fun _ =>
    .bind (bracketed_steady hg).sound fun e => .bind (Still.spanFrom m).sound fun _ =>
      .bind Still.ahead.sound fun _ => Steady.sound ?_
  split
  · refine .ite ?_ (.pure _)
    refine .bind (suffixes_steady hg) fun _ => .bind (Still.spanFrom m).steady fun _ => ?_
    exact .pure _
  · exact .pure _

/-- What a name starts takes the name. -/
theorem nameLed_eats (hg : Advancing g) : Eats (nameLed g) :=
  .bind_right Still.ahead.sound fun _ => .ite (.map _ (object_eats hg))
    (.ite (vectorOrPath_eats hg) (.map _ (reference_eats hg)))

/-- A constant takes its token, where one is left. -/
theorem constant_eatsAt (value : Span → Expr) (h : c.rest ≠ []) (he : src.Ended) :
    EatsAt src c (constant value) := EatsAt.bump h he (Steady.pure _).sound

/-- What a word starts takes the word, where one is left. -/
theorem wordLed_eatsAt (hg : Advancing g) (wordClass : WordClass) (h : c.rest ≠ [])
    (he : src.Ended) : EatsAt src c (wordLed g wordClass) := by
  have named := nameLed_eats hg he c
  refine EatsAt.ite ((assignment_eats hg).map _ he c)
    (.ite ((visibility_eats hg (object_steady hg)).map _ he c) ?_)
  split
  · exact constant_eatsAt _ h he
  · exact constant_eatsAt _ h he
  · exact constant_eatsAt _ h he
  · exact .ite (guid_eats he c) named
  · exact .ite (map_eats hg he c) named
  · exact .ite (vector_eats hg _ he c) named
  · exact named

/-- A broken token is taken, where one is left. -/
theorem brokenToken_eatsAt (e : LexError) (h : c.rest ≠ []) (he : src.Ended) :
    EatsAt src c (brokenToken e) := by
  refine EatsAt.bump h he (Steady.sound ?_)
  split
  · exact .bind (Still.report _ _).steady fun _ => .bind (Still.errorFrom _).steady fun _ => .pure _
  · exact .bind (Still.errorFrom _).steady fun _ => .pure _

/-- An operand takes a token at least. -/
theorem primary_eats (hg : Advancing g) : Eats (primary g) := by
  refine .peek fun src he c => ?_
  have rest {k : TokenKind} (h : (c.rest.headD src.stop).kind = k) (hk : k ≠ .eof) : c.rest ≠ [] :=
    rest_ne_nil he (h ▸ hk)
  split
  · rename_i h
    exact .bump (rest h (by simp)) he (Steady.pure _).sound
  · rename_i h
    exact .bump (rest h (by simp)) he (Steady.pure _).sound
  · exact list_eats hg he c
  · exact parenthesised_eats hg he c
  · exact generic_eats hg he c
  · rename_i h
    exact wordLed_eatsAt hg _ (rest h (by simp)) he
  · rename_i h
    exact brokenToken_eatsAt _ (rest h (by simp)) he
  · exact Eats.unexpected _ he c
  · exact EatsAt.ite ((reference_eats hg).map _ he c) fun h => absurd rfl h

/-- So it does with signs in front. -/
theorem unary_eats (hg : Advancing g) : Eats (unary g) := by
  refine .bind_right Still.mark.sound fun m => .peek fun src he c => ?_
  have behind (k : Expr → Span → Expr) : Eats (do
      let operand ← g.operand
      pure (k operand (← spanFrom m))) :=
    hg.operand_eats.bind fun _ => .bind (Still.spanFrom m).sound fun _ => (Steady.pure _).sound
  split
  · exact Eats.bind_right Steady.bump.sound (fun _ => behind _) he c
  · exact Eats.bind_right Steady.bump.sound (fun _ => behind _) he c
  · exact primary_eats hg he c

/-- One round of the operators ends between two tokens or leaves a problem. -/
theorem operation_steady (hg : Advancing g) {right : Nat → Parser Expr}
    (hr : ∀ rank, Steady (right rank)) (loosest : Nat) (m : Mark) (left : Expr) :
    Steady (operation g right loosest m left) := by
  refine .bind Still.ahead.steady fun ts => ?_
  split
  · exact .pure _
  · exact .ite (.bind .bump fun _ => .bind hg.expr fun _ => .bind (.expect _ _) fun _ =>
      .bind hg.expr fun _ => .bind (Still.spanFrom m).steady fun _ => .pure _) (.pure _)
  · exact .ite (.bind .bump fun _ => .bind (hr _) fun _ => .bind (Still.spanFrom m).steady
      fun _ => .pure _) (.pure _)

/-- A round that goes on has taken an operator and an operand. -/
theorem operation_advances (hg : Advancing g) {right : Nat → Parser Expr}
    (hr : ∀ rank, Steady (right rank)) (loosest : Nat) (m : Mark) :
    Advances (operation g right loosest m) := by
  intro src he left left' c h
  unfold operation at h ⊢
  rw [ahead_bind] at h ⊢
  have rest (ho : operator? c.rest ≠ none) : c.rest ≠ [] := by
    rintro hr
    rw [hr] at ho
    exact ho rfl
  cases ho : operator? c.rest with
  | none =>
    rw [ho] at h
    cases h
  | some op =>
    rw [ho] at h
    have hne := rest (ho ▸ Option.some_ne_none op)
    cases op with
    | question =>
      dsimp only at h ⊢
      by_cases hl : loosest = 0
      · rw [if_pos hl]
        exact bump_then_lt (Steady.sound (.bind hg.expr fun _ => .bind (.expect _ _) fun _ =>
          .bind hg.expr fun _ => .bind (Still.spanFrom m).steady fun _ => .pure _)) he hne
      · rw [if_neg hl] at h
        cases h
    | binary op =>
      dsimp only at h ⊢
      by_cases hl : loosest ≤ op.rank
      · rw [if_pos hl]
        exact bump_then_lt (Steady.sound (.bind (hr _) fun _ => .bind (Still.spanFrom m).steady
          fun _ => .pure _)) he hne
      · rw [if_neg hl] at h
        cases h

/-- So an expression ends between two tokens, whatever number of operators it has. -/
theorem climb_steady (hg : Advancing g) (steps loosest : Nat) : Steady (climb g steps loosest) := by
  induction steps generalizing loosest with
  | zero => exact unary_steady hg
  | succ steps ih =>
    exact .bind Still.mark.steady fun m => .bind (unary_steady hg) fun left =>
      .loop (operation_advances hg ih loosest m) (operation_steady hg ih loosest m) left

/-- It takes its first operand at least. -/
theorem climb_eats (hg : Advancing g) (steps loosest : Nat) : Eats (climb g steps loosest) := by
  cases steps with
  | zero => exact unary_eats hg
  | succ steps =>
    have ih := climb_steady hg steps
    refine .bind_right Still.mark.sound fun m => .bind (unary_eats hg) fun left => ?_
    have advances := operation_advances hg ih loosest m
    exact (Steady.loop advances (operation_steady hg ih loosest m) left).sound

/-- An expression from the loosest rank on. -/
theorem expression_steady (hg : Advancing g) : Steady (expression g) := climb_steady hg _ _

/-- It takes a token at least. -/
theorem expression_eats (hg : Advancing g) : Eats (expression g) := climb_eats hg _ _

/-! ### Levels and items -/

/-- A value is always returned. -/
def Returns (p : Parser α) : Prop := ∀ (src : Source) (c : Cursor), (p src c).value ≠ none

/-- A problem is always noted. -/
def Loud (p : Parser α) : Prop := ∀ (src : Source) (c : Cursor), ¬ Quiet (p src c).notes

/-- Who stands still returns a value. -/
theorem Still.returns (h : Still p) : Returns p := fun src c => (h src c).2

/-- Taking a token always succeeds. -/
theorem Returns.bump : Returns bump := fun _ _ => bump_value ▸ Option.some_ne_none ()

/-- So does skipping some. -/
theorem Returns.skip (n : Nat) : Returns (skip n) := fun src c =>
  skip_value n src c ▸ Option.some_ne_none ()

/-- Two parsers that always return do so in sequence. -/
theorem Returns.bind (hp : Returns p) (hf : ∀ a, Returns (f a)) : Returns (p >>= f) := by
  intro src c
  obtain ⟨a, ha⟩ := Option.ne_none_iff_exists'.1 (hp src c)
  rw [bind_of_some ha]
  exact hf a src _

/-- Of two branches only the one taken counts. -/
theorem Returns.ite {P : Prop} [Decidable P] {p q : Parser α} (hp : Returns p) (hq : Returns q) :
    Returns (if P then p else q) := by
  split
  · exact hp
  · exact hq

/-- Where recovery always returns, so does what falls back on it. -/
theorem Returns.orRecover {q : Parser α} (hq : Returns q) : Returns (orRecover p q) := by
  intro src c
  cases hv : (p src c).value with
  | none =>
    rw [orRecover_of_none hv]
    exact hq src _
  | some a =>
    rw [orRecover_of_some hv, hv]
    exact Option.some_ne_none a

/-- A problem noted stays noted, whatever follows. -/
theorem Loud.bind (hp : Loud p) : Loud (p >>= f) := by
  intro src c
  cases hv : (p src c).value with
  | none =>
    rw [bind_of_none hv]
    exact hp src c
  | some a =>
    rw [bind_of_some hv, quiet_append]
    exact fun hq => hp src c hq.1

/-- Behind what always returns a problem is noted as well. -/
theorem Loud.bind_right (hp : Returns p) (hf : ∀ a, Loud (f a)) : Loud (p >>= f) := by
  intro src c
  obtain ⟨a, ha⟩ := Option.ne_none_iff_exists'.1 (hp src c)
  rw [bind_of_some ha, quiet_append]
  exact fun hq => hf a src _ hq.2

/-- Whole tokens and a problem in any case make a parser steady. -/
theorem Plain.steady (hp : Plain p) (hl : Loud p) : Steady p where
  moves _ c := (hp _ c).elim fun _ hu => hu.reaches
  loud _ c _ _ := hl _ c
  lands _ c _ := hp _ c

/-- The cut below the last level is always reported. -/
theorem tooDeep_loud : Loud tooDeep := by
  refine .bind_right Still.mark.returns fun m => ?_
  refine .bind_right Still.ahead.returns fun _ => .bind_right (.skip _) fun _ => ?_
  refine .bind_right (Still.errorFrom m).returns fun _ => ?_
  refine .bind_right (Still.emit _).returns fun _ => .bind fun _ _ => ?_
  exact not_quiet_problem _ _

/-- It takes whole tokens. -/
theorem tooDeep_plain : Plain tooDeep := by
  refine .bind Still.mark.plain fun m => ?_
  refine .bind Still.ahead.plain fun _ => .bind (.skip _) fun _ => ?_
  refine .bind (Still.errorFrom m).plain fun _ => .bind (Still.emit _).plain fun _ => ?_
  refine .bind (Still.report _ _).plain fun _ => .bind (Still.movedFrom m).plain fun _ => ?_
  exact .ite (Still.pure _).plain .abort

/-- So it is steady. -/
theorem tooDeep_steady : Steady tooDeep := tooDeep_plain.steady tooDeep_loud

/-- Going on only if something has been read. -/
theorem movedFrom_run (m : Mark) (a : α) (src : Source) (c : Cursor) :
    (movedFrom m >>= fun b => if b then pure a else abort) src c =
      ⟨if m.count < c.count then some a else none, c, []⟩ := by
  have hrun : (movedFrom m >>= fun b => if b then pure a else abort) src c =
      (if decide (m.count < c.count) then pure a else abort : Parser α) src c := rfl
  rw [hrun]
  by_cases h : m.count < c.count
  · rw [if_pos h, if_pos (decide_eq_true h)]
    rfl
  · rw [if_neg h, if_neg (by simpa using h)]
    rfl

/-- Only where a token was taken does the cut go on. -/
theorem count_lt_of_movedFrom {m : Mark} {a : α}
    (h : ((movedFrom m >>= fun b => if b then pure a else abort) src c).value ≠ none) :
    m.count < c.count := by
  rw [movedFrom_run] at h
  exact Decidable.byContradiction fun hm => h (if_neg hm)

/-- A fragment that is cut out has a token at least. -/
theorem tooDeep_eats : Eats tooDeep := by
  intro src he c h
  have hskip := Plain.skip (Recovery.fragment 0 c.rest) src c
  have hq (m : Mark) : Plain (do
      let node ← errorFrom m
      emit (.skipped node.span)
      report (.tooDeep maxNesting) node.span
      if ← movedFrom m then pure node else abort) :=
    .bind (Still.errorFrom m).plain fun _ => .bind (Still.emit _).plain fun _ =>
      .bind (Still.report _ _).plain fun _ => .bind (Still.movedFrom m).plain fun _ =>
        .ite (Still.pure _).plain .abort
  replace h : ((skip (Recovery.fragment 0 c.rest) >>= _) src c).value ≠ none := h
  show ((skip (Recovery.fragment 0 c.rest) >>= _) src c).cursor.rest.length < _
  rw [bind_of_some (skip_value _ src c)] at h ⊢
  obtain ⟨u, hu⟩ := hskip
  have hm : c.count < (skip (Recovery.fragment 0 c.rest) src c).cursor.count :=
    count_lt_of_movedFrom h
  exact Nat.lt_of_le_of_lt ((hq _).length_le src _) (hu.reaches.count_lt_iff.1 hm)

/-- In place of an expression below the last level there is a fragment. -/
theorem deepExpr_steady : Steady Grammar.deepExpr := .map _ tooDeep_steady

/-- It has a token at least. -/
theorem deepExpr_eats : Eats Grammar.deepExpr := .map _ tooDeep_eats

/-- In place of a type there is nothing, and a problem. -/
theorem deepType_sound : Sound Grammar.deepType :=
  (Plain.steady (.bind tooDeep_plain fun _ => .abort) tooDeep_loud.bind).sound

/-- So no type is returned without a token. -/
theorem deepType_eats : Eats Grammar.deepType := .bind_right tooDeep_steady.sound fun _ => .abort

/-- The last level moves forward. -/
theorem advancing_bottom : Advancing .bottom where
  expr := deepExpr_steady
  expr_eats := deepExpr_eats
  operand := deepExpr_steady
  operand_eats := deepExpr_eats
  type := deepType_sound
  type_eats := deepType_eats

/-- A type starts with its name. -/
theorem typeRef_eats (hg : Advancing g) : Eats (typeRef g) := by
  refine .bind_right Still.mark.sound fun m => ?_
  refine .bind_right Still.peek.sound fun _ => .bind (.name _) fun name => ?_
  refine .bind Still.ahead.sound fun _ => ?_
  refine .ite ?_ ?_
  · refine .bind Steady.bump.sound fun _ => .bind (typeParams_sound hg) fun _ => ?_
    exact .bind (Still.spanFrom m).sound fun _ => (Steady.pure _).sound
  · refine .bind (Steady.pure _).sound fun _ => .bind (Still.spanFrom m).sound fun _ => ?_
    exact (Steady.pure _).sound

/-- A level moves forward if the one below does. -/
theorem Advancing.above (hg : Advancing g) : Advancing (.above g) where
  expr := .nested deepExpr_steady (expression_steady hg)
  expr_eats := .nested deepExpr_eats (expression_steady hg).sound (expression_eats hg)
  operand := .nested deepExpr_steady (unary_steady hg)
  operand_eats := .nested deepExpr_eats (unary_steady hg).sound (unary_eats hg)
  type := .nested deepType_sound (typeRef_sound hg)
  type_eats := .nested deepType_eats (typeRef_sound hg) (typeRef_eats hg)

/-- **Every level moves forward.** -/
theorem advancing_levels (n : Nat) : Advancing (.levels n) := by
  induction n with
  | zero => exact advancing_bottom
  | succ n ih => exact ih.above

/-- An item ends between two tokens or leaves a problem. -/
theorem item_steady (hg : Advancing g) : Steady (item g) :=
  .bind Still.ahead.steady fun _ => .ite (.map _ (assignment_steady hg))
    (.ite (.map _ (visibility_steady hg (object_steady hg)))
      (.ite (.map _ (template_steady hg (object_steady hg)))
        (.ite (.map _ (unnamed_steady hg))
          (.ite (.map _ (member_steady hg)) (.map _ hg.expr)))))

/-- It takes a token at least. -/
theorem item_eats (hg : Advancing g) : Eats (item g) :=
  .bind_right Still.ahead.sound fun _ => .ite (.map _ (assignment_eats hg))
    (.ite (.map _ (visibility_eats hg (object_steady hg)))
      (.ite (.map _ (template_eats hg (object_steady hg)))
        (.ite (.map _ (unnamed_eats hg))
          (.ite (.map _ (member_eats hg)) (.map _ hg.expr_eats)))))

/-- So it does if it is cut out. -/
theorem itemOrError_steady (hg : Advancing g) : Steady (itemOrError g) :=
  .orCut (item_steady hg) (cut_recoverItem.map _) fun _ => .bind (Still.emit _).steady fun _ =>
    .pure _

/-- One way or the other there is an item. -/
theorem itemOrError_returns : Returns (itemOrError g) := by
  have left (m : Mark) : Returns (leave m none) := by
    refine .bind (Still.movedFrom m).returns fun moved => .ite (Still.pure _).returns ?_
    exact .bind Still.peek.returns fun t => .ite (Still.pure _).returns .bump
  have cut (m : Mark) : Returns (recoverItem m) := by
    refine .bind (left m) fun _ => .bind Still.ahead.returns fun ts => .bind (.skip _) fun _ => ?_
    refine .bind (Still.errorFrom m).returns fun e => .bind (Still.emit _).returns fun _ => ?_
    exact (Still.pure _).returns
  refine .bind Still.mark.returns fun m => ?_
  refine .bind (.orRecover (.bind (cut m) fun e => (Still.pure _).returns)) fun i => ?_
  exact .bind (Still.emit _).returns fun _ => (Still.pure _).returns

/-- What is cut out of a document has a token at least. -/
theorem recoverItem_lt {m : Mark} (hm : m.count = c.count) (hc : c.rest ≠ []) :
    (recoverItem m src c).cursor.rest.length < c.rest.length := by
  have hq : Plain (do
      skip (Recovery.itemGap (← ahead))
      let node ← errorFrom m
      emit (.recoveredItem node.span)
      pure node) :=
    .bind Still.ahead.plain fun _ => .bind (.skip _) fun _ => .bind (Still.errorFrom m).plain
      fun _ => .bind (Still.emit _).plain fun _ => (Still.pure _).plain
  have hl : leave m none src c = bump src c := leave_still (hm ▸ Nat.lt_irrefl _) (by simp)
  show ((leave m none >>= fun _ => _) src c).cursor.rest.length < _
  rw [bind_of_some (a := ()) (by rw [hl, bump_value]), hl]
  exact Nat.lt_of_le_of_lt (hq.length_le src _) (bump_lt hc)

/-- An item, or what is cut out in its place, has a token at least. -/
theorem itemOrError_lt (hg : Advancing g) (he : src.Ended) (hc : c.rest ≠ []) :
    (itemOrError g src c).cursor.rest.length < c.rest.length := by
  refine orCut_lt (item_steady hg) (item_eats hg) (cut_recoverItem.map Item.error)
    (fun _ => .bind (Still.emit _).steady fun _ => .pure _) he (fun m hm _ => ?_)
    (itemOrError_returns src c)
  rw [map_run]
  exact recoverItem_lt hm hc

/-- One round of the items ends between two tokens. -/
theorem itemStep_steady (hg : Advancing g) (calledOff : Nat → Bool) (read : List Item) :
    Steady (itemStep g calledOff read) :=
  .bind Still.ahead.steady fun _ => .ite (.pure _) (.ite (.pure _)
    (.bind (itemOrError_steady hg) fun _ => .pure _))

/-- A round that goes on has taken a token. -/
theorem itemStep_advances (hg : Advancing g) (calledOff : Nat → Bool) :
    Advances (itemStep g calledOff) := by
  intro src he read read' c h
  unfold itemStep at h ⊢
  rw [ahead_bind] at h ⊢
  by_cases hr : c.rest.isEmpty = true
  · rw [if_pos hr] at h
    cases h
  · rw [if_neg hr] at h ⊢
    have hne : c.rest ≠ [] := by simpa using hr
    by_cases ho : calledOff read.length = true
    · rw [if_pos ho] at h
      cases h
    · rw [if_neg ho]
      obtain ⟨item, hi⟩ := Option.ne_none_iff_exists'.1 (itemOrError_returns (g := g) src c)
      rw [bind_of_some hi]
      exact itemOrError_lt hg he hne

/-- So the items end between two tokens, wherever they are called off. -/
theorem items_steady (hg : Advancing g) (calledOff : Nat → Bool) : Steady (items g calledOff) :=
  .loop (itemStep_advances hg calledOff) (itemStep_steady hg calledOff) []

/-- The step that reads all items of a document. -/
def nextItem (g : Grammar) : List Item → Parser (List Item ⊕ Option (List Item)) :=
  itemStep g fun _ => false

/-- At the end of the tokens the items read so far are all. -/
theorem nextItem_nil (hr : c.rest = []) (read : List Item) :
    nextItem g read src c = ⟨some (.inr (some read.reverse)), c, []⟩ := by
  rw [nextItem, itemStep, ahead_bind, hr]
  rfl

/-- Before it there is one more. -/
theorem nextItem_cons (hr : c.rest ≠ []) (read : List Item) :
    nextItem g read src c = (itemOrError g >>= fun item => pure (.inl (item :: read))) src c := by
  rw [nextItem, itemStep, ahead_bind, if_neg (by simpa using hr)]
  rfl

/-- With it a token is taken. -/
theorem nextItem_advances (hg : Advancing g) : Advances (nextItem g) :=
  itemStep_advances hg fun _ => false

/-- Reading ends where no token is left. -/
theorem items_ended (hg : Advancing g) (he : src.Ended) (read : List Item) (c : Cursor)
    {items : List Item} (hv : (loop (nextItem g) read src c).value = some (some items)) :
    (loop (nextItem g) read src c).cursor.rest = [] := by
  revert hv
  refine loop_rec (nextItem_advances hg) he
    (P := fun _ _ o => o.value = some (some items) → o.cursor.rest = []) (fun read c ih hv => ?_)
    read c
  by_cases hr : c.rest = []
  · rw [bind_of_some (by rw [nextItem_nil hr]), nextItem_nil hr]
    exact hr
  · obtain ⟨item, hitem⟩ := Option.ne_none_iff_exists'.1 (itemOrError_returns (g := g) src c)
    have hstep : (nextItem g read src c).value = some (.inl (item :: read)) := by
      rw [nextItem_cons hr, bind_of_some hitem, pure_run]
    rw [bind_of_some hstep] at hv ⊢
    exact ih _ hstep hv

end Parser
end Ndf
