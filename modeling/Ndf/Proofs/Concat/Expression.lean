/-
# Expressions behind each other

Operands, operators and items, in a source and in its twin, and all levels of the grammar at last
(`twinned_levels`).  A chain of operators that is the last thing before the end ends there in the
twin, since the name that follows is no operator.  Broken tokens and fragments that are nested too
deep are no clean runs, so they matter only if nothing follows.
-/

import Ndf.Proofs.Concat.Declaration

namespace Ndf
namespace Parser

variable {w : Twin} {src src' : Source} {c c' : Cursor} {g : Grammar}

/-! ### Brackets -/

/-- A list is read alike in both sources. -/
theorem list_alike (hg : Twinned w g) : Alike w w.relabel.expr (list g) (list g) :=
  .mark (list_eats hg.advancing) fun m => .bind (bracketed_alike hg) fun e => .spanFrom fun s => by
    rw [Relabel.items_elements, Relabel.strayCommas_elements, Relabel.expr, Relabel.exprs_eq_map]
    rfl

/-- A vector is read alike. -/
theorem vector_alike (hg : Twinned w g) (type : VectorType) :
    Alike w w.relabel.expr (vector g type) (vector g type) := by
  refine .mark (vector_eats hg.advancing type) fun m => .bind (.name _) fun name => ?_
  refine .bind (bracketed_alike hg) fun e => .spanFrom fun s => ?_
  rw [Relabel.items_elements, Relabel.strayCommas_elements, Relabel.expr, Relabel.exprs_eq_map]
  rfl

/-- What is no pair is reported, so it matters only if nothing follows. -/
theorem noPair_alike (item : Expr) {k k' : Expr → Parser (List Expr)}
    (hk : ∀ e, Alike w (List.map w.relabel.expr) (k e) (k' (w.relabel.expr e))) :
    Alike w (List.map w.relabel.expr)
      (do
        report (.noPair item.typeName) item.span
        let entry ← Expr.error <$> errorAt item.span
        k entry)
      (do
        report (.noPair (w.relabel.expr item).typeName) (w.relabel.expr item).span
        let entry ← Expr.error <$> errorAt (w.relabel.expr item).span
        k' entry) := by
  intro src src' hs c c' hl
  rw [Relabel.typeName_expr, Relabel.span_expr]
  refine .of_not_clean (fun hc => not_quiet_problem _ _ hc.2) fun hm => ?_
  have error : Alike w w.relabel.expr (Expr.error <$> errorAt item.span)
      (Expr.error <$> errorAt (w.span item.span)) :=
    .map (errorAt_alike hm item.span) fun e => by rw [Relabel.expr]
  exact Alike.bind .report (fun _ => .bind error hk) hs hl (.inl hm)

/-- The entries of a map are pairs in both sources or in none. -/
theorem pairs_alike (items : List Expr) :
    Alike w (List.map w.relabel.expr) (pairs items) (pairs (items.map w.relabel.expr)) := by
  induction items with
  | nil => exact .pure rfl
  | cons item rest ih =>
    have tail (entry : Expr) : Alike w (List.map w.relabel.expr)
        (do return entry :: (← pairs rest))
        (do return w.relabel.expr entry :: (← pairs (rest.map w.relabel.expr))) :=
      .bind ih fun _ => .pure rfl
    cases item with
    | pair a b s => exact tail _
    | error e => exact tail _
    | _ => exact noPair_alike _ tail

/-- A map is read alike. -/
theorem map_alike (hg : Twinned w g) : Alike w w.relabel.expr (map g) (map g) := by
  refine .mark (map_eats hg.advancing) fun m => .bind (.name _) fun keyword =>
    .bind (bracketed_alike hg) fun e => ?_
  rw [Relabel.items_elements]
  refine .bind (pairs_alike e.items) fun pairs => .spanFrom fun s => ?_
  rw [Relabel.expr, Relabel.exprs_eq_map]
  rfl

/-- Pairs and groups are read alike. -/
theorem parenthesised_alike (hg : Twinned w g) :
    Alike w w.relabel.expr (parenthesised g) (parenthesised g) := by
  refine .mark (parenthesised_eats hg.advancing) fun m => .bind (.expect rfl (by simp) _) fun _ =>
    .bind (.eat rfl (by simp)) fun _ => .ite Iff.rfl (.spanFrom fun s => ?_) ?_
  · rw [Relabel.expr, Relabel.expr?]
    rfl
  refine .bind hg.expr fun first => .bind (.eat rfl (by simp)) fun _ => .ite Iff.rfl ?_ ?_
  · refine .bind hg.expr fun second => .bind (.expect rfl (by simp) _) fun _ => ?_
    refine .spanFrom fun s => ?_
    rw [Relabel.expr]
    rfl
  · refine .bind (.expect rfl (by simp) _) fun _ => .spanFrom fun s => ?_
    rw [Relabel.expr, Relabel.expr?]
    rfl

/-- The index of a generic type, which may be missing, is read alike. -/
theorem index?_alike (hg : Twinned w g) :
    Alike w (Option.map w.relabel.expr) (index? g) (index? g) := by
  have index : Alike w (Option.map w.relabel.expr)
      (do
        let index ← g.expr
        expect .rbracket "']'"
        pure (some index))
      (do
        let index ← g.expr
        expect .rbracket "']'"
        pure (some index)) :=
    .bind hg.expr fun _ => .bind (.expect rfl (by simp) _) fun _ => .pure rfl
  intro src src' hs c c' hl
  refine AlikeAt.ite (by rw [(hl.near hs).sign_eq rfl]) (fun hsign => ?_) fun _ =>
    Alike.pure rfl hs hl
  rw [Bool.and_eq_true] at hsign
  exact (bump_sign_alike hl hsign.1).bind fun _ _ _ hl' => index hs hl'

/-- A generic type is read alike. -/
theorem generic_alike (hg : Twinned w g) : Alike w w.relabel.expr (generic g) (generic g) := by
  refine .mark (generic_eats hg.advancing) fun m => ?_
  intro src src' hs c c' hl
  refine AlikeAt.bind_run (Alike.expect rfl (by simp) _ hs hl) fun _ hv hl' => ?_
  refine .ite (by rw [expect_behind hs hl rfl (by simp) hv]) (fun _ => ?_) fun _ =>
    Alike.unexpected _ hs hl'
  refine (Alike.name _ hs hl').bind fun name _ d' hl'' => ?_
  generalize (Parser.name _ src _).cursor = d at hl''
  refine AlikeAt.ite (by rw [(hl''.near hs).sign_eq rfl]) (fun hsign => ?_) fun _ =>
    Alike.unexpected _ hs hl''
  rw [Bool.and_eq_true] at hsign
  refine (bump_sign_alike hl'' hsign.1).bind fun _ _ _ hl3 => ?_
  refine Alike.bind (index?_alike hg) (fun index => .spanFrom fun s => ?_) hs hl3
  rw [Relabel.expr, Relabel.expr?_eq_map]
  rfl

/-! ### Words and broken tokens -/

/-- A payload is read alike. -/
theorem guid_alike : Alike w w.relabel.expr guid guid := by
  refine .inside guid_eats fun src src' hs c c' hl hne => .mark hs hl hne fun m _ => ?_
  refine (AlikeAt.bump hl hne).bind fun _ _ d' hl' => ?_
  refine (Alike.expect rfl (by simp) _ hs hl').bind fun _ _ e' hl'' => ?_
  generalize (expect _ _ src _).cursor = e at hl''
  have payload (raw : String) : Alike w w.relabel.expr (do return .guid raw (← spanFrom m))
      (do return .guid raw (← spanFrom (w.mark m))) :=
    .spanFrom fun s => by
      rw [Relabel.expr]
      rfl
  refine .peekEnd hs hl'' (fun t t' ht hk _ hne => ?_) fun hm t t' text hk _ => ?_
  · rw [hk]
    split
    · exact (AlikeAt.bump hl'' hne).bind fun _ _ _ hl3 =>
        payload _ hs hl3
    · rename_i herror
      by_cases hm : w.more = []
      · exact (AlikeAt.bump hl'' hne).bind fun _ _ _ hl3 =>
          Alike.map (errorFrom_alike hm m) (fun e => by rw [Relabel.expr]) hs hl3
      · obtain ⟨x, xs, hr⟩ := List.exists_cons_of_ne_nil (hne hm)
        rw [hr, List.headD_cons] at ht
        have := (hl''.safe hm).1 x (by rw [hr]; exact List.mem_cons_self) _ (ht ▸ herror)
        cases this
    · exact Alike.unexpected _ hs hl''
  · rw [hk]
    exact .of_none hm rfl

/-- A constant is read alike. -/
theorem constant_alike {value : Span → Expr} (hv : ∀ s, value (w.span s) = w.relabel.expr (value s))
    (hs : w.Sees src src') (hl : w.Linked c c') (hne : w.Inside c) :
    AlikeAt w src src' c c' w.relabel.expr (constant value) (constant value) := by
  refine .peek hs hl hne fun t t' _ _ hspan => ?_
  rw [hspan]
  exact (AlikeAt.bump hl hne).bind fun _ _ _ hl' => Alike.pure (hv _) hs hl'

/-- What a name starts is read alike: what follows the name directly is the same. -/
theorem nameLed_alike (hg : Twinned w g) : Alike w w.relabel.expr (nameLed g) (nameLed g) := by
  refine .inside (nameLed_eats hg.advancing) fun src src' hs c c' hl hne => ?_
  refine .ahead hs hl hne fun ts us near hn => ?_
  refine .ite (by rw [near.isKind_eq (n := 1) hn rfl])
    (fun _ => Alike.map (object_alike hg) (fun _ => by rw [Relabel.expr]) hs hl) fun _ => ?_
  refine .ite (by rw [near.isKind_eq (n := 1) hn rfl, near.isJoined_eq hn (by simp)])
    (fun _ => vectorOrPath_alike hg hs hl) fun _ => ?_
  exact Alike.map (reference_alike hg) (fun _ => by rw [Relabel.expr]) hs hl

/-- What a word starts is read alike, whatever class the word is of. -/
theorem wordLed_alike (hg : Twinned w g) (wordClass : WordClass) (hs : w.Sees src src')
    (hl : w.Linked c c') (hne : w.Inside c) :
    AlikeAt w src src' c c' w.relabel.expr (wordLed g wordClass) (wordLed g wordClass) := by
  refine .ahead hs hl hne fun ts us near hn => ?_
  refine .ite (by rw [near.startsAssignment_eq hn])
    (fun _ => Alike.map (assignment_alike hg) (fun _ => by rw [Relabel.expr]) hs hl) fun _ => ?_
  refine .ite (by rw [near.startsVisibility_eq hn]) (fun _ => ?_) fun _ => ?_
  · exact Alike.map (visibility_alike hg (object_steady hg.advancing) (object_alike hg))
      (fun _ => by rw [Relabel.expr]) hs hl
  have sign {kind : TokenKind} (hk : kind.isWord = false) {p q : Parser Expr}
      (hp : Alike w w.relabel.expr p p) (hq : Alike w w.relabel.expr q q) :
      AlikeAt w src src' c c' w.relabel.expr
        (if Lookahead.isKind ts 1 kind then p else q)
        (if Lookahead.isKind us 1 kind then p else q) :=
    .ite (by rw [near.isKind_eq (n := 1) hn hk]) (fun _ => hp hs hl) fun _ => hq hs hl
  split
  · exact constant_alike (fun _ => by rw [Relabel.expr]; rfl) hs hl hne
  · exact constant_alike (fun _ => by rw [Relabel.expr]; rfl) hs hl hne
  · exact constant_alike (fun _ => by rw [Relabel.expr]; rfl) hs hl hne
  · exact sign rfl guid_alike (nameLed_alike hg)
  · exact sign rfl (map_alike hg) (nameLed_alike hg)
  · exact sign rfl (vector_alike hg _) (nameLed_alike hg)
  · exact nameLed_alike hg hs hl

/-- A character that no token starts with is a problem. -/
theorem strayCharacter_loud (x : Char) : Loud (brokenToken (.unexpectedChar x)) := by
  refine .bind_right Still.mark.returns fun _ => .bind_right Still.peek.returns fun _ => ?_
  refine .bind_right .bump fun _ => .bind fun _ _ => ?_
  exact not_quiet_problem _ _

/-- A broken token that tokenizing did not report is reported here. -/
theorem brokenToken_alike {e : LexError} (hs : w.Sees src src') (hl : w.Linked c c')
    (hk : (c.rest.headD src.stop).kind = .error e) :
    AlikeAt w src src' c c' w.relabel.expr (brokenToken e) (brokenToken e) := by
  have hne : w.Inside c := inside_of_head hs (by rw [hk]; simp)
  by_cases hm : w.more = []
  · refine .mark hs hl hne fun m _ => .peek hs hl hne fun t t' _ _ hspan => ?_
    rw [hspan]
    refine (AlikeAt.bump hl hne).bind fun _ _ _ hl' => ?_
    have close : Alike w w.relabel.expr (do return .error (← errorFrom m))
        (do return .error (← errorFrom (w.mark m))) :=
      .bind (errorFrom_alike hm m) fun e => .pure (by rw [Relabel.expr])
    split
    · exact Alike.bind .report (fun _ => close) hs hl'
    · exact close hs hl'
  · obtain ⟨t, ts, hr⟩ := List.exists_cons_of_ne_nil (hne hm)
    rw [hr, List.headD_cons] at hk
    have hfair := (hl.safe hm).1 t (by rw [hr]; exact List.mem_cons_self) e hk
    refine .of_not_clean (fun hc => ?_) fun hmore => absurd hmore hm
    cases e with
    | unexpectedChar x => exact strayCharacter_loud x src c hc.2
    | _ => cases hfair

/-- An operand is read alike. -/
theorem primary_alike (hg : Twinned w g) : Alike w w.relabel.expr (primary g) (primary g) := by
  refine .inside (primary_eats hg.advancing) fun src src' hs c c' hl hne => ?_
  refine .peek hs hl hne fun t t' ht hk hspan => ?_
  rw [hk, hspan]
  split
  · exact (AlikeAt.bump hl hne).bind fun _ _ _ hl' =>
      Alike.pure (by rw [Relabel.expr]; rfl) hs hl'
  · exact (AlikeAt.bump hl hne).bind fun _ _ _ hl' =>
      Alike.pure (by rw [Relabel.expr]; rfl) hs hl'
  · exact list_alike hg hs hl
  · exact parenthesised_alike hg hs hl
  · exact generic_alike hg hs hl
  · exact wordLed_alike hg _ hs hl hne
  · rename_i herror
    exact brokenToken_alike hs hl (ht ▸ herror)
  · exact Alike.unexpected _ hs hl
  · refine .ahead hs hl hne fun ts us near hn => ?_
    refine .ite (by rw [near.startsScoped_eq hn])
      (fun _ => Alike.map (reference_alike hg) (fun _ => by rw [Relabel.expr]) hs hl) fun _ => ?_
    exact Alike.abortHere _ hs hl

/-- An operand behind signs is read alike. -/
theorem unary_alike (hg : Twinned w g) : Alike w w.relabel.expr (unary g) (unary g) := by
  refine .inside (unary_eats hg.advancing) fun src src' hs c c' hl hne => ?_
  refine .mark hs hl hne fun m _ => .peek hs hl hne fun t t' _ hk _ => ?_
  have signed (op : UnaryOp) : Alike w w.relabel.expr
      (do
        let operand ← g.operand
        pure (.unary op operand (← spanFrom m)))
      (do
        let operand ← g.operand
        pure (.unary op operand (← spanFrom (w.mark m)))) :=
    .bind hg.operand fun operand => .spanFrom fun s => by
      rw [Relabel.expr]
      rfl
  rw [hk]
  split
  · exact (AlikeAt.bump hl hne).bind fun _ _ _ hl' => signed .neg hs hl'
  · exact (AlikeAt.bump hl hne).bind fun _ _ _ hl' => signed .not hs hl'
  · exact primary_alike hg hs hl

/-! ### Operators -/

/-- An operator behind an operand is read alike, or in neither source. -/
theorem operation_alike (hg : Twinned w g) {right : Nat → Parser Expr}
    (hright : ∀ rank, Alike w w.relabel.expr (right rank) (right rank)) (loosest : Nat) (m : Mark)
    (left : Expr) :
    Alike w (Sum.map w.relabel.expr w.relabel.expr) (operation g right loosest m left)
      (operation g right loosest (w.mark m) (w.relabel.expr left)) := by
  intro src src' hs c c' hl
  have binary (op : BinaryOp) : Alike w (Sum.map w.relabel.expr w.relabel.expr)
      (do
        let right ← right (op.rank + 1)
        pure (.inl (.binary op left right (← spanFrom m))))
      (do
        let right ← right (op.rank + 1)
        pure (.inl (.binary op (w.relabel.expr left) right (← spanFrom (w.mark m))))) :=
    .bind (hright _) fun right => .spanFrom fun s => by
      rw [Sum.map_inl, Relabel.expr]
      rfl
  have ternary : Alike w (Sum.map w.relabel.expr w.relabel.expr)
      (do
        let yes ← g.expr
        expect .colon "':' in conditional expression"
        let no ← g.expr
        pure (.inl (.ternary left yes no (← spanFrom m))))
      (do
        let yes ← g.expr
        expect .colon "':' in conditional expression"
        let no ← g.expr
        pure (.inl (.ternary (w.relabel.expr left) yes no (← spanFrom (w.mark m))))) :=
    .bind hg.expr fun yes => .bind (.expect rfl (by simp) _) fun _ => .bind hg.expr fun no =>
      .spanFrom fun s => by
        rw [Sum.map_inl, Relabel.expr]
        rfl
  have done : Alike w (Sum.map w.relabel.expr w.relabel.expr)
      (pure (.inr left) : Parser (Expr ⊕ Expr)) (pure (.inr (w.relabel.expr left))) := .pure rfl
  -- Both sources show the same operator here, so both take the same of the three ways.
  have hop := operator?_eq (hl.near hs)
  rw [AlikeAt, operation, operation, ahead_bind, ahead_bind, hop]
  cases ho : operator? c.rest with
  | none => exact done hs hl
  | some op =>
    have hne : w.Inside c := fun _ hr => by
      rw [hr] at ho
      cases ho
    cases op with
    | question =>
      exact AlikeAt.ite Iff.rfl
        (fun _ => (AlikeAt.bump hl hne).bind fun _ _ _ hl' => ternary hs hl') fun _ => done hs hl
    | binary op =>
      exact AlikeAt.ite Iff.rfl
        (fun _ => (AlikeAt.bump hl hne).bind fun _ _ _ hl' => binary op hs hl') fun _ => done hs hl

/-- A run of operators is read alike, from the loosest on. -/
theorem climb_alike (hg : Twinned w g) (steps loosest : Nat) :
    Alike w w.relabel.expr (climb g steps loosest) (climb g steps loosest) := by
  induction steps generalizing loosest with
  | zero => exact unary_alike hg
  | succ steps ih =>
    refine .mark (climb_eats hg.advancing (steps + 1) loosest) fun m => .bind (unary_alike hg)
      fun left => ?_
    have hsteady := climb_steady hg.advancing steps
    exact .loop (operation_advances hg.advancing hsteady loosest m)
      (operation_advances hg.advancing hsteady loosest (w.mark m))
      (operation_alike hg ih loosest m) left

/-- An expression is read alike. -/
theorem expression_alike (hg : Twinned w g) :
    Alike w w.relabel.expr (expression g) (expression g) := climb_alike hg _ _

/-! ### Levels and items -/

/-- A fragment below the last level is cut out alike. -/
theorem tooDeep_alike : Alike w w.relabel.errorNode tooDeep tooDeep := by
  intro src src' hs c c' hl
  refine .of_not_clean (fun hc => tooDeep_loud src c hc.2) fun hm => ?_
  refine AlikeAt.mark hs hl (inside_of_nil hm c) (fun m _ => ?_) (.inl hm)
  have hkinds := linked_kinds hm hl
  show AlikeAt w src src' c c' _ (skip (Recovery.fragment 0 c.rest) >>= _)
    (skip (Recovery.fragment 0 c'.rest) >>= _)
  rw [fragment_congr hkinds]
  refine Alike.bind (skip_alike hm _) (fun _ => ?_) hs hl
  exact .bind (errorFrom_alike hm m) fun node => .bind .emit fun _ => .bind .report fun _ =>
    .bind .movedFrom fun _ => .ite Iff.rfl (.pure rfl) .abort

/-- The same as an expression. -/
theorem deepExpr_alike : Alike w w.relabel.expr Grammar.deepExpr Grammar.deepExpr :=
  .map tooDeep_alike fun _ => by rw [Relabel.expr]

/-- The same as a type. -/
theorem deepType_alike : Alike w w.relabel.type Grammar.deepType Grammar.deepType :=
  .bind tooDeep_alike fun _ => .abort

/-- The last level is read alike. -/
theorem twinned_bottom (w : Twin) : Twinned w .bottom :=
  ⟨advancing_bottom, deepExpr_alike, deepExpr_alike, deepType_alike⟩

end Parser

open Ndf.Parser

/-- If a level is read alike, so is the one above. -/
theorem Twinned.above {w : Twin} {g : Grammar} (hg : Twinned w g) : Twinned w (.above g) where
  advancing := hg.advancing.above
  expr :=
    have hs := (expression_steady hg.advancing).sound
    .nested hs hs deepExpr_alike (expression_alike hg)
  operand :=
    have hs := (unary_steady hg.advancing).sound
    .nested hs hs deepExpr_alike (unary_alike hg)
  type :=
    have hs := typeRef_sound hg.advancing
    .nested hs hs deepType_alike (typeRef_alike hg)

/-- **Every level reads a source and its twin alike.** -/
theorem twinned_levels (w : Twin) (n : Nat) : Twinned w (.levels n) := by
  induction n with
  | zero => exact twinned_bottom w
  | succ n ih => exact ih.above

namespace Parser

variable {w : Twin} {src src' : Source} {c c' : Cursor} {g : Grammar}

/-- An expression as an item is relabelled as an expression. -/
theorem ofExpr_relabel (r : Relabel) (e : Expr) : Item.ofExpr (r.expr e) = r.item (.ofExpr e) := by
  cases e with
  | error e => rfl
  | _ => rfl

/-- An item is read alike in front of the end. -/
theorem item_alike (hg : Twinned w g) (hs : w.Sees src src') (hl : w.Linked c c')
    (hne : w.Inside c) : AlikeAt w src src' c c' w.relabel.item (item g) (item g) := by
  refine .ahead hs hl hne fun ts us near hn => ?_
  refine .ite (by rw [near.startsAssignment_eq hn])
    (fun _ => (assignment_alike hg hs hl).map fun _ => rfl) fun _ => ?_
  refine .ite (by rw [near.modifies_eq]) (fun _ => ?_) fun _ => ?_
  · have hb := object_steady hg.advancing
    exact (visibility_alike hg hb (object_alike hg) hs hl).map fun _ => rfl
  refine .ite (by rw [near.startsTemplate_eq (by omega)]) (fun _ => ?_) fun _ => ?_
  · have hb := object_steady hg.advancing
    exact (template_alike hg hb (object_alike hg) hs hl).map fun _ => rfl
  refine .ite (by rw [near.startsUnnamed_eq hn])
    (fun _ => (unnamed_alike hg hs hl).map fun _ => rfl) fun _ => ?_
  refine .ite (by rw [near.startsMember_eq hn])
    (fun _ => (member_alike hg hs hl).map fun _ => rfl) fun _ => ?_
  exact (hg.expr hs hl).map (ofExpr_relabel w.relabel)

/-- **Items are alike**, and so is what is cut out in the place of one if nothing follows. -/
theorem itemOrError_alike (hg : Twinned w g) (hs : w.Sees src src') (hl : w.Linked c c')
    (hne : w.Inside c) :
    AlikeAt w src src' c c' w.relabel.item (itemOrError g) (itemOrError g) := by
  refine .mark hs hl hne fun m _ => ?_
  refine AlikeAt.bind (f := w.relabel.item) ?_ fun item _ _ hl' => ?_
  · refine .orRecover (item_steady hg.advancing).sound hs hl (item_alike hg hs hl hne)
      fun hm d' hl' => ?_
    exact (recoverItem_alike hm m hs hl').map fun _ => rfl
  · have hevent : ParseEvent.item (w.relabel.item item).span.line (w.relabel.item item).span.column
        (w.relabel.item item).isError =
          w.event (.item item.span.line item.span.column item.isError) := by
      rw [Relabel.span_item, Relabel.isError_item]
      rfl
    rw [hevent]
    exact (Alike.emit hs hl').bind fun _ _ _ hl'' => Alike.pure rfl hs hl''

end Parser
end Ndf
