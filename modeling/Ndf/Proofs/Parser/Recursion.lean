/-
# The recursion ends

What is read at a place depends on the level below only at places with fewer tokens left
(`above_agree`): every way from an expression, an operand or a type back to one reads a token.  Two
things follow.

* The number of levels in `Grammar.levels` is no bound of its own.  Where the cursor counts
  `maxNesting` open levels a fragment is cut out anyway, so that many levels read what one more
  would (`levels_agree_above`).
* The equations that the levels satisfy have no other solution: any parsers that call each other in
  this way read what the levels read, token by token (`levels_unique`).
-/

import Ndf.Proofs.Parser.Levels

namespace Ndf

/-- The places where at most `n` further levels are allowed. -/
def Zone.shallow (n : Nat) : Zone :=
  ⟨fun c => Parser.maxNesting ≤ c.depth + n, fun hc h => h.depth.symm ▸ hc⟩

namespace Parser

variable {α : Type} {src : Source} {c : Cursor} {g g' : Grammar} {X Y Z : Zone}

/-! ### Expressions -/

/-- Two levels below that agree behind the next token read one index. -/
theorem index?_agree (hg : Advancing g) (h : g.AgreeOn src Z g') :
    AgreeOn src Z (index? g) (index? g') := by
  refine .after Still.ahead.sound fun _ => ?_
  exact .ite (.after Steady.bump.sound fun _ => .bind hg.expr.sound h.expr fun _ => .refl _)
    (.refl _)

/-- What a name starts asks the level below behind the name only. -/
theorem nameLed_agree (hg : Advancing g) (hz : Y.Falls Z) (h : g.AgreeOn src Z g') :
    AgreeOn src Y (nameLed g) (nameLed g') :=
  .after Still.ahead.sound fun _ => .ite (.map _ (object_agree hg hz h))
    (.ite (vectorOrPath_agree hg hz h) (.map _ (reference_agree hg hz h)))

/-- A vector asks it behind its bracket. -/
theorem vector_agree (hg : Advancing g) (hz : Y.Falls Z) (h : g.AgreeOn src Z g')
    (type : VectorType) : AgreeOn src Y (vector g type) (vector g' type) := by
  refine .after Still.mark.sound fun _ => .read (Steady.name _).sound (.name _) hz fun _ => ?_
  refine .bind (bracketed_steady hg).sound (bracketed_agree hg Z.falls_self h) fun elements => ?_
  exact .refl _

/-- So does a map. -/
theorem map_agree (hg : Advancing g) (hz : Y.Falls Z) (h : g.AgreeOn src Z g') :
    AgreeOn src Y (map g) (map g') := by
  refine .after Still.mark.sound fun _ => .read (Steady.name _).sound (.name _) hz fun _ => ?_
  refine .bind (bracketed_steady hg).sound (bracketed_agree hg Z.falls_self h) fun elements => ?_
  exact .refl _

/-- What any word starts asks it behind the word. -/
theorem wordLed_agree (hg : Advancing g) (hz : Y.Falls Z) (h : g.AgreeOn src Z g')
    (wordClass : WordClass) : AgreeOn src Y (wordLed g wordClass) (wordLed g' wordClass) := by
  have named := nameLed_agree hg hz h
  refine .after Still.ahead.sound fun _ => .ite (.map _ (assignment_agree hg hz h))
    (.ite (.map _ (visibility_agree hg (object_steady hg) hz h (object_agree hg Z.falls_self h)))
      ?_)
  split
  · exact .refl _
  · exact .refl _
  · exact .refl _
  · exact .ite (.refl _) named
  · exact .ite (map_agree hg hz h) named
  · exact .ite (vector_agree hg hz h _) named
  · exact named

/-- A pair or a group asks it behind the parenthesis. -/
theorem parenthesised_agree (hg : Advancing g) (hz : Y.Falls Z) (h : g.AgreeOn src Z g') :
    AgreeOn src Y (parenthesised g) (parenthesised g') := by
  refine .after Still.mark.sound fun _ => ?_
  refine .read (Steady.expect _ _).sound (.expect (by simp) _) hz fun _ => ?_
  refine .after (Steady.eat _).sound fun _ => ?_
  exact .ite (.refl _) (.bind hg.expr.sound h.expr fun _ => .after (Steady.eat _).sound fun _ =>
    .ite (.bind hg.expr.sound h.expr fun _ => .refl _) (.refl _))

/-- A generic type asks it behind its bracket. -/
theorem generic_agree (hg : Advancing g) (hz : Y.Falls Z) (h : g.AgreeOn src Z g') :
    AgreeOn src Y (generic g) (generic g') := by
  refine .after Still.mark.sound fun _ => ?_
  refine .read (Steady.expect _ _).sound (.expect (by simp) _) hz fun _ => ?_
  refine .after Still.ahead.sound fun _ => ?_
  refine .ite ?_ (.refl _)
  refine .after (Steady.name _).sound fun _ => .after Still.ahead.sound fun _ => ?_
  refine .ite ?_ (.refl _)
  refine .after Steady.bump.sound fun _ => ?_
  exact .bind (index?_steady hg).sound (index?_agree hg h) fun _ => .refl _

/-- So an operand asks it behind a token at least. -/
theorem primary_agree (hg : Advancing g) (hz : Y.Falls Z) (h : g.AgreeOn src Z g') :
    AgreeOn src Y (primary g) (primary g') := by
  refine .after Still.peek.sound fun token => ?_
  split
  · exact .refl _
  · exact .refl _
  · exact .after Still.mark.sound fun _ =>
      .bind (bracketed_steady hg).sound (bracketed_agree hg hz h) fun _ => .refl _
  · exact parenthesised_agree hg hz h
  · exact generic_agree hg hz h
  · exact wordLed_agree hg hz h _
  · exact .refl _
  · exact .refl _
  · exact .after Still.ahead.sound fun _ => .ite (.map _ (reference_agree hg hz h)) (.refl _)

/-- So it does with a sign in front. -/
theorem unary_agree (hg : Advancing g) (hz : Y.Falls Z) (h : g.AgreeOn src Z g') :
    AgreeOn src Y (unary g) (unary g') := by
  refine .after Still.mark.sound fun m => .peek fun c hc he => ?_
  have operand (op : UnaryOp) : AgreeOn src Z (do
      let operand ← g.operand
      pure (.unary op operand (← spanFrom m)) : Parser Expr) (do
      let operand ← g'.operand
      pure (.unary op operand (← spanFrom m))) :=
    .bind hg.operand.sound h.operand fun _ => .refl _
  have sign (op : UnaryOp) (hk : (c.rest.headD src.stop).kind ≠ .eof) :=
    AgreeOn.bump hz hc (rest_ne_nil he hk) (operand op) he
  cases hk : (c.rest.headD src.stop).kind with
  | minus => exact sign .neg (by rw [hk]; simp)
  | bang => exact sign .not (by rw [hk]; simp)
  | _ => exact primary_agree hg hz h he c hc

/-- The right side of an operator stands behind it. -/
theorem operation_agree (hg : Advancing g) {right right' : Nat → Parser Expr} (hz : Y.Falls Z)
    (hs : ∀ rank, Steady (right rank)) (h : g.AgreeOn src Z g')
    (hr : ∀ rank, AgreeOn src Z (right rank) (right' rank)) (loosest : Nat) (m : Mark)
    (left : Expr) :
    AgreeOn src Y (operation g right loosest m left) (operation g' right' loosest m left) := by
  refine .ahead fun c hc he => ?_
  have rest {op : Operator} (ho : operator? c.rest = some op) : c.rest ≠ [] := by
    rintro hr
    rw [hr] at ho
    cases ho
  cases ho : operator? c.rest with
  | none => rfl
  | some op =>
    have ternary : AgreeOn src Z (do
        let yes ← g.expr
        expect .colon "':' in conditional expression"
        let no ← g.expr
        pure (.inl (.ternary left yes no (← spanFrom m))) : Parser (Expr ⊕ Expr)) (do
        let yes ← g'.expr
        expect .colon "':' in conditional expression"
        let no ← g'.expr
        pure (.inl (.ternary left yes no (← spanFrom m)))) :=
      .bind hg.expr.sound h.expr fun _ => .after (Steady.expect _ _).sound fun _ =>
        .bind hg.expr.sound h.expr fun _ => .refl _
    cases op with
    | question =>
      dsimp only
      split
      · exact AgreeOn.bump hz hc (rest ho) ternary he
      · rfl
    | binary op =>
      dsimp only
      split
      · exact AgreeOn.bump hz hc (rest ho) (.bind (hs _).sound (hr _) fun _ => .refl _) he
      · rfl

/-- So do the operands of an expression, the first of which starts it. -/
theorem climb_agree (hg : Advancing g) (hz : Y.Falls Z) (h : g.AgreeOn src Z g')
    (steps loosest : Nat) : AgreeOn src Y (climb g steps loosest) (climb g' steps loosest) := by
  induction steps generalizing Y loosest with
  | zero => exact unary_agree hg hz h
  | succ steps ih =>
    have hs (rank : Nat) := climb_steady hg steps rank
    refine .after Still.mark.sound fun m => ?_
    refine .bind (unary_steady hg).sound (unary_agree hg hz h) fun left => ?_
    exact .loop (fun left => (operation_steady hg hs loosest m left).sound)
      (operation_agree hg hz hs h (fun rank => ih Z.falls_self rank) loosest m) left

/-! ### Levels -/

/-- One level deeper two parsers agree where they agree below. -/
theorem AgreeOn.nested {deep p p' : Parser α}
    (hd : ∀ c, Y.mem c → c.depth < maxNesting → X.mem c.down) (h : AgreeOn src X p p') :
    AgreeOn src Y (nested deep p) (nested deep p') := by
  intro he c hc
  rcases Nat.lt_or_ge c.depth maxNesting with hlt | hge
  · show (if c.depth < maxNesting then (p src c.down).up else deep src c) =
      if c.depth < maxNesting then (p' src c.down).up else deep src c
    rw [if_pos hlt, if_pos hlt, h he c.down (hd c hc hlt)]
  · rw [nested_of_le hge, nested_of_le hge]

/-- **A level turns to the one below only behind a token.** -/
theorem above_agree (hg : Advancing g) (hd : ∀ c, Y.mem c → c.depth < maxNesting → X.mem c.down)
    (hz : X.Falls Z) (h : g.AgreeOn src Z g') : (Grammar.above g).AgreeOn src Y (.above g') where
  expr := .nested hd (climb_agree hg hz h _ _)
  operand := .nested hd (unary_agree hg hz h)
  type := .nested hd (typeRef_agree hg hz h)

/-- **With `n` tokens left at most, a level depends on the one below with fewer than `n`.** -/
theorem above_agree_fewer (hg : Advancing g) {n : Nat} (h : g.AgreeOn src (.fewer n) g') :
    (Grammar.above g).AgreeOn src (.fewer (n + 1)) (.above g') :=
  above_agree hg (X := .fewer (n + 1)) (fun _ hc _ => hc) (Zone.falls_fewer n) h

/-- Where no more than `n` further levels are allowed, `n` levels read what one more would. -/
theorem levels_agree_succ (n : Nat) :
    (Grammar.levels n).AgreeOn src (.shallow n) (.levels (n + 1)) := by
  induction n with
  | zero =>
    have deep {α : Type} {deep p : Parser α} : AgreeOn src (.shallow 0) deep (nested deep p) :=
      fun _ c hc => (nested_of_le (show maxNesting ≤ c.depth from hc)).symm
    exact ⟨deep, deep, deep⟩
  | succ n ih =>
    refine above_agree (advancing_levels n) (X := .shallow n) (fun c hc _ => ?_)
      (Zone.shallow n).falls_self ih
    show maxNesting ≤ c.depth + 1 + n
    have : maxNesting ≤ c.depth + (n + 1) := hc
    omega

/-- **The number of levels is no bound of its own.** -/
theorem levels_agree_above :
    (Grammar.levels maxNesting).AgreeOn src .all (.above (.levels maxNesting)) :=
  (levels_agree_succ maxNesting).mono fun _ _ => Nat.le_add_left ..

/-- **The recursion has one solution.**  Parsers that call each other as one level calls the next
read what the levels read. -/
theorem levels_unique (h : g.AgreeOn src .all (.above g)) :
    g.AgreeOn src .all (.levels maxNesting) := by
  have hlevels := advancing_levels maxNesting
  have key (n : Nat) : (Grammar.levels maxNesting).AgreeOn src (.fewer n) g := by
    induction n with
    | zero =>
      have none {α : Type} {p q : Parser α} : AgreeOn src (.fewer 0) p q :=
        fun _ c hc => absurd hc (Nat.not_lt_zero _)
      exact ⟨none, none, none⟩
    | succ n ih =>
      exact (levels_agree_above.mono fun _ _ => trivial).trans <|
        (above_agree_fewer hlevels ih).trans (h.symm.mono fun _ _ => trivial)
  exact
    { expr := fun he c _ => ((key _).expr he c (Nat.lt_succ_self _)).symm
      operand := fun he c _ => ((key _).operand he c (Nat.lt_succ_self _)).symm
      type := fun he c _ => ((key _).type he c (Nat.lt_succ_self _)).symm }

end Parser
end Ndf
