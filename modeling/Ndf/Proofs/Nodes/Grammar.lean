/-
# Every parser lays its nodes in a row

`Ndf.Proofs.Nodes.Lays` for all parsers of the grammar, level by level (`laying_levels`), and for
the items of a document.  Most nodes are laid over what was read for them.  Three are built from
others: what is no pair in a map becomes a fragment in the same place (`pairs_adds`), an operator
takes what was read in front of it for its left operand (`operations_lay`), and a path goes on
behind what could have been a vector.
-/

import Ndf.Proofs.Nodes.Lays
import Ndf.Proofs.Parser.Explained

namespace Ndf

/-- The node of a suffix. -/
def Suffix.node : Suffix → Node
  | .joined _ name => Outline.name name
  | .index e => Outline.expr e

/-- The nodes of pieces that were read, the last one first. -/
def Node.backward {α : Type} (f : α → Node) (read : List α) : List Node := read.reverse.map f

@[simp] theorem Node.backward_cons {α : Type} (f : α → Node) (a : α) (read : List α) :
    backward f (a :: read) = backward f read ++ [f a] := by
  simp [backward]

namespace Outline

/-- A suffix has the same node whatever kind its name is settled to be of. -/
theorem segments_eq_map (suffixes : List Suffix) :
    segments (Suffix.segments suffixes) = suffixes.map Suffix.node := by
  induction suffixes with
  | nil => rfl
  | cons s suffixes ih =>
    cases s with
    | joined kind name => rw [Suffix.segments, segments, ih, List.map_cons, Suffix.node]
    | index e => rw [Suffix.segments, segments, ih, List.map_cons, Suffix.node]

/-- An expression has the same node as an item. -/
theorem item_ofExpr (e : Expr) : item (.ofExpr e) = expr e := by
  cases e <;> rfl

end Outline

namespace Parser

open Node (backward)

variable {α β σ : Type} {S : Scene} {g : Grammar} {c : Cursor} {m : Mark} {lo : Nat}
  {pre : List Node} {more : β → List Node}

/-- What the level below has to do so that a level lays its nodes in a row. -/
structure Laying (S : Scene) (g : Grammar) : Prop where
  advancing : Advancing g
  expr : Lays S (fun e => [Outline.expr e]) g.expr
  operand : Lays S (fun e => [Outline.expr e]) g.operand
  type : ∀ c, S.Whole c → Laid S (S.next c) (fun t => [Outline.type t]) (g.type S.source c)

/-! ### Types -/

/-- Behind a type parameter that stopped in the middle of a `>=` nothing can follow. -/
theorem typeParamEnd_half {t : Token} {ts : List Token} (hr : c.rest = t.secondHalf :: ts)
    (read : List TypeRef) :
    typeParamEnd read S.source c = unexpected "'>' or a type name" S.source c := by
  have heat : Parser.eat .comma S.source c = ⟨some false, c, []⟩ := by
    rw [eat_run, if_neg (by rw [hr]; simp [Token.secondHalf])]
    rfl
  have hkind : (c.rest.headD S.source.stop).kind = .eq := by
    rw [hr]
    rfl
  unfold typeParamEnd
  rw [bind_of_some (a := false) (by rw [heat]), heat]
  simp only [peek_bind, hkind, List.nil_append]

/-- The end of a parameter adds no node. -/
theorem typeParamEnd_adds (hc : c.On S.tokens) (read : List TypeRef) :
    AddsAt S c lo (backward Outline.type read)
      (Sum.elim (backward Outline.type) (List.map Outline.type)) (typeParamEnd read) := by
  rcases Scene.whole_or_half hc with hw | ⟨t, ts, -, -, hr, -⟩
  · refine .of hw (.after (.eat _) fun _ => .peek fun c hc => ?_)
    split
    · exact .of hc (.after .bump fun _ => .pure rfl)
    · rename_i hk
      obtain ⟨t, ts, hr, -⟩ := exists_rest S.ended (c := c) (by rw [hk]; simp)
      have hrun : (do bumpHalf; pure (.inr read.reverse) : Parser (List TypeRef ⊕ _)) S.source c =
          ⟨some (.inr read.reverse),
            ⟨t.secondHalf :: ts, c.count + 1, t.firstHalf.span, c.depth⟩, []⟩ := by
        rw [bind_of_some bumpHalf_value]
        simp only [bumpHalf, hr, pure_run, List.append_nil]
      intro _ hpre
      rw [hrun]
      refine ⟨.nil, fun a ha => ?_⟩
      obtain rfl : .inr read.reverse = a := by injection ha
      have hle := Scene.last_le_next hc.on
      rw [Scene.next_cons hr] at hle
      exact hpre.mono (Nat.le_refl _) (Nat.le_succ_of_le hle)
    · exact .pure rfl
    · exact .of hc (.unexpected _)
  · intro _ _
    rw [typeParamEnd_half hr]
    exact laid_unexpected hc _

/-- Where one more type parameter can follow no token is split. -/
theorem typeParamEnd_whole (hc : c.On S.tokens) (read read' : List TypeRef)
    (h : (typeParamEnd read S.source c).value = some (.inl read')) :
    S.Whole (typeParamEnd read S.source c).cursor := by
  rcases Scene.whole_or_half hc with hw | ⟨t, ts, -, -, hr, -⟩
  · obtain ⟨b, hb⟩ := eat_value S.source c .comma
    have hd := (Lays.eat (S := S) .comma).whole hw hb
    unfold typeParamEnd at h ⊢
    rw [bind_of_some hb] at h ⊢
    generalize (Parser.eat .comma S.source c).cursor = d at h hd
    simp only [peek_bind] at h ⊢
    cases hk : (d.rest.headD S.source.stop).kind with
    | word => exact hd
    | gt | gtEq =>
      simp only [hk, bind_of_some bump_value, bind_of_some bumpHalf_value, pure_run] at h
      cases h
    | _ =>
      rw [hk] at h
      cases h
  · rw [typeParamEnd_half hr] at h
    cases h

/-- The parameters of a type lie in a row. -/
theorem typeParams_laid (hg : Laying S g) (hc : S.Whole c) :
    Laid S (S.next c) (List.map Outline.type) (typeParams g S.source c) := by
  have moves (c : Cursor) : c.Reaches (g.type S.source c).cursor :=
    hg.advancing.type.moves S.ended c
  refine Adds.rounds (backward Outline.type)
    (Eats.advances (typeParamStep_eats hg.advancing)) (typeParamStep_sound hg.advancing)
    (fun read read' c hc h => ?_) (fun read c hc => ?_) [] c hc (Nat.le_refl _) .nil
  · unfold typeParamStep at h ⊢
    cases hv : (g.type S.source c).value with
    | none =>
      rw [bind_of_none hv] at h
      cases h
    | some param =>
      rw [bind_of_some hv] at h ⊢
      exact typeParamEnd_whole (hc.on.reaches (moves c)) _ _ h
  · refine .bind hc (moves c) (hg.type c hc) fun param _ => ?_
    rw [← Node.backward_cons]
    exact typeParamEnd_adds (hc.on.reaches (moves c)) _

/-- A type is given the span of what was read for it. -/
theorem typeRef_spans : Spans TypeRef.span (typeRef g) := by
  refine .mark fun _ => .bind fun _ => .bind fun _ => .bind fun _ => ?_
  exact .ite (.bind fun _ => .bind fun _ => .spanFrom fun _ => rfl)
    (.bind fun _ => .spanFrom fun _ => rfl)

/-- A type lies over its name and its parameters. -/
theorem typeRef_laid (hg : Laying S g) (hc : S.Whole c) :
    Laid S (S.next c) (fun t => [Outline.type t]) (typeRef g S.source c) := by
  have parts : Adds S (S.next c) [] (fun t => (Outline.type t).parts) (typeRef g) := by
    refine .after .mark fun m => .after .look fun _ => .bind (.name _) fun n => .after .see
      fun ts => .ite (.after .bump fun _ c hc => ?_) (.spanFrom fun _ => rfl)
    exact .bind hc ((typeParams_sound hg.advancing).moves S.ended c) (typeParams_laid hg hc)
      fun params _ => .spanFrom fun _ => by simp [Outline.type, Outline.types_eq_map]
  exact .node hc (typeRef_sound hg.advancing) (typeRef_eats hg.advancing S.ended c)
    (typeRef_spans S.ended c) Outline.span_type (fun t _ => .inr (by cases t; rfl))
    (parts c hc (Nat.le_refl _) .nil)

/-- What is left of a `>=` is read as an equals sign. -/
theorem AddsAt.overHalf {k : Bool → Parser β} (hc : c.On S.tokens)
    (hk : ∀ b, Adds S lo pre more (k b)) : AddsAt S c lo pre more (Parser.eat .eq >>= k) := by
  by_cases hw : S.Whole c
  · exact .of hw (.after (.eat _) hk)
  obtain ⟨t, ts, ht, -, hr, -⟩ := (Scene.whole_or_half hc).resolve_left hw
  have heat : Parser.eat .eq S.source c =
      ⟨some true, ⟨ts, c.count + 1, t.secondHalf.span, c.depth⟩, []⟩ := by
    rw [eat_run, if_pos (by rw [hr]; rfl), bind_of_some bump_value, bump_run hr]
    rfl
  intro hlo hpre
  have hle := Scene.last_le_next hc
  rw [Scene.next_cons hr] at hle
  have hend : t.span.start + 1 ≤ t.span.stop := S.nonempty t ht
  rw [bind_of_some (a := true) (by rw [heat]), heat]
  have h := hk true _ (Scene.half_bump hc hr hw)
    (Nat.le_trans hlo (Scene.next_le hc (.inl ⟨_, .one hr⟩)))
    (hpre.mono (Nat.le_refl _) (Nat.le_trans hle hend))
  exact ⟨Scene.Honest.nil.append h.honest, h.row⟩

/-! ### Lists -/

/-- The elements of a list lie in a row. -/
theorem elements_lays (hg : Laying S g) :
    Lays S (fun e => e.items.map Outline.expr) (elements g) := by
  have item (lo : Nat) (e : Elements) {c : Cursor} (hc : S.Whole c)
      (hk : (c.rest.headD S.source.stop).kind ≠ .eof) :
      AddsAt S c lo (e.items.map Outline.expr)
        (Sum.elim (fun e => e.items.map Outline.expr) fun e => e.items.map Outline.expr) (do
          let m ← mark
          let item ← orRecover g.expr (Expr.error <$> recoverElement m)
          pure (.inl { e with reversed := item :: e.reversed, commaDue := true }) :
            Parser (Elements ⊕ Elements)) :=
    .orCut hc hg.expr (cut_recoverElement.map _) recoverElement_patches
      (fun _ hm hv => recoverElement_lt hm S.ended hk hv) (fun _ => rfl)
      fun _ => .pure (by simp [Elements.items])
  refine .loop (fun e => e.items.map Outline.expr) rfl (element_advances hg.advancing)
    (element_steady hg.advancing) fun lo e => .peek fun c hc => ?_
  cases hk : (c.rest.headD S.source.stop).kind with
  | rbracket | eof => exact .pure rfl
  | comma => exact .of hc (.after .bump fun _ => .pure rfl)
  | _ =>
    have hne : (c.rest.headD S.source.stop).kind ≠ .eof := by rw [hk]; simp
    exact .ite (.report _ (Scene.placed_next hc.on hne) (item lo e hc hne)) (item lo e hc hne)

/-- So they do between the brackets. -/
theorem bracketed_lays (hg : Laying S g) :
    Lays S (fun e => e.items.map Outline.expr) (bracketed g) := by
  refine .of (bracketed_steady hg.advancing) fun _ => .after (.expect _ _) fun _ => ?_
  refine .bind (elements_lays hg) fun _ => .after (.expect _ _) fun _ => ?_
  exact .pure rfl

/-- The steps of a path lie in a row. -/
theorem suffixes_lays (hg : Laying S g) : Lays S (List.map Suffix.node) (suffixes g) := by
  refine .loop (backward Suffix.node) rfl (suffix_advances hg.advancing)
    (suffix_steady hg.advancing) fun lo read => ?_
  have joined (kind : SegmentKind) : Adds S lo (backward Suffix.node read)
      (Sum.elim (backward Suffix.node) (List.map Suffix.node))
      (do pure (.inl (.joined kind (← name "a name") :: read)) : Parser (_ ⊕ List Suffix)) :=
    .bind (.name _) fun _ => .pure (Node.backward_cons ..)
  refine .after .see fun _ => .ite (.after .look fun token => ?_) (.pure rfl)
  split
  · exact .after .bump fun _ => .bind hg.expr fun _ => .after (.expect _ _) fun _ =>
      .pure (Node.backward_cons ..)
  · exact .after .bump fun _ => joined _
  · exact .after .bump fun _ => joined _

/-- The sign of a scope is no node. -/
theorem scopeMark_lays : Lays S (fun _ => []) scopeMark := by
  refine .of scopeMark_steady fun _ => .after .bump fun _ => .after .see fun _ => ?_
  exact .ite (.after .bump fun _ => .after .see fun _ => .ite (.pure rfl) (.unexpected _))
    (.after (.unexpected _) fun _ => .after .see fun _ => .ite (.pure rfl) (.unexpected _))

/-- A reference lies over its name and its steps. -/
theorem reference_lays (hg : Laying S g) :
    Lays S (fun r => [Outline.reference r]) (reference g) := by
  have key (lo : Nat) (scope : Scope) (m : Mark) :
      Adds S lo [] (fun r => (Outline.reference r).parts) (do
        let name ← name "a reference name"
        let suffixes ← suffixes g
        let kind : SegmentKind := if scope = .none then .terminal else .nested
        pure ⟨scope, Reference.segmentsOf name kind suffixes, ← spanFrom m⟩) :=
    .bind (.name _) fun _ => .bind (suffixes_lays hg) fun _ => .spanFrom fun _ => by
      simp [Outline.reference, Reference.segmentsOf, Outline.segments, Outline.segments_eq_map]
  refine .node (reference_steady hg.advancing) (reference_eats hg.advancing) reference_spans
    Outline.span_reference fun lo => ?_
  refine .after .mark fun m => ?_
  exact .after .look fun _ => .ite (.after scopeMark_lays fun _ => key lo _ m) (key lo _ m)

/-- So does what a name and a bracket start. -/
theorem vectorOrPath_lays (hg : Laying S g) :
    Lays S (fun e => [Outline.expr e]) (vectorOrPath g) := by
  refine .node (vectorOrPath_steady hg.advancing) (vectorOrPath_eats hg.advancing)
    vectorOrPath_spans Outline.span_expr fun lo => .after .mark fun m => .bind (.name _) fun n =>
      .bind (bracketed_lays hg) fun e => .after (.spanFrom m) fun s => .after .see fun ts => ?_
  split
  · rename_i index he
    rw [he]
    refine .ite (.bind (suffixes_lays hg) fun _ => .spanFrom fun _ => ?_) (.pure ?_)
    · simp [Outline.expr, Outline.reference, Reference.segmentsOf, Outline.segments,
        Outline.segments_eq_map, Suffix.node]
    · simp [Outline.expr, Outline.exprs_eq_map]
  · exact .pure (by simp [Outline.expr, Outline.exprs_eq_map])

/-! ### Declarations -/

/-- An assignment lies over its name and its value. -/
theorem assignment_lays (hg : Laying S g) :
    Lays S (fun a => [Outline.assignment a]) (assignment g) := by
  refine .node (assignment_steady hg.advancing) (assignment_eats hg.advancing) assignment_spans
    Outline.span_assignment fun _ => ?_
  refine .after .mark fun _ => .bind (.name _) fun name => .after (.expectKeyword _) fun _ => ?_
  refine .bind hg.expr fun value => .spanFrom fun _ => ?_
  exact rfl

/-- Behind its name a member adds its type and its value. -/
theorem memberTail_adds (hg : Laying S g) (m : Mark) (name : Name) :
    Adds S lo [Outline.name name] (fun m => (Outline.member m).parts) (memberTail g m name) := by
  have value (type : Option TypeRef) (legacy : Bool) :
      Adds S lo (Outline.name name :: type.toList.map Outline.type)
        (fun m => (Outline.member m).parts) (do
          let value ← g.expr
          pure ⟨name, type, some value, legacy, ← spanFrom m⟩) :=
    .bind hg.expr fun _ => .spanFrom fun _ => rfl
  refine .after (.eat _) fun _ => .ite (.after (.eat _) fun _ => .ite (value none _) fun c hc => ?_)
    (.after (.expect _ _) fun _ => value none _)
  have moves := (typeRef_sound hg.advancing).moves S.ended c
  exact .bind hc moves (typeRef_laid hg hc) fun type _ => .overHalf (hc.on.reaches moves) fun _ =>
    .ite (value (some type) _) (.spanFrom fun _ => rfl)

/-- So a member lies over all three. -/
theorem member_lays (hg : Laying S g) : Lays S (fun m => [Outline.member m]) (member g) := by
  refine .node (member_steady hg.advancing) (member_eats hg.advancing) member_spans
    Outline.span_member fun _ => ?_
  refine .after .mark fun m => ?_
  refine .bind (.name _) fun name => ?_
  exact memberTail_adds hg m name

/-- A parameter is given the span of what was read for it. -/
theorem param_spans : Spans Member.span (param g) := by
  refine .mark fun m => .bind fun name => .bind fun token => ?_
  split
  · exact memberTail_ends name
  · exact memberTail_ends name
  · exact .spanFrom fun _ => rfl

/-- It lies over its parts as a member does. -/
theorem param_lays (hg : Laying S g) : Lays S (fun m => [Outline.member m]) (param g) := by
  refine .node (param_steady hg.advancing) (param_eats hg.advancing) param_spans
    Outline.span_member fun lo => .after .mark fun m => .bind (.name _) fun name =>
      .after .look fun token => ?_
  split
  · exact memberTail_adds hg m name
  · exact memberTail_adds hg m name
  · exact .spanFrom fun _ => rfl

/-- The parameters of a template lie in a row. -/
theorem params_lays (hg : Laying S g) : Lays S (List.map Outline.member) (params g) := by
  refine .loop (backward Outline.member) rfl (paramStep_advances hg.advancing)
    (paramStep_steady hg.advancing) fun lo read => .after .look fun token => ?_
  split
  · exact .pure rfl
  · exact .pure rfl
  · exact .after .bump fun _ => .pure rfl
  · exact .bind (param_lays hg) fun _ => .pure (Node.backward_cons ..)
  · exact .unexpected _

variable {body : Parser Object}

/-- A template lies over its name, its parameters and its body. -/
theorem template_lays (hg : Laying S g) (hb : Lays S (fun o => [Outline.object o]) body) :
    Lays S (fun t => [Outline.template t]) (template g body) := by
  refine .node (template_steady hg.advancing hb.steady) (template_eats hg.advancing hb.steady)
    (template_spans body) Outline.span_template fun before => .after .mark fun m => ?_
  refine .after (.expectKeyword _) fun _ => .bind (.name _) fun name => ?_
  refine .after (.expect _ _) fun _ => .bind (params_lays hg) fun params => ?_
  refine .after (.expect _ _) fun _ => .after (.expectKeyword _) fun _ => ?_
  refine .bind hb fun object => .spanFrom fun s => ?_
  simp [Outline.template, Outline.members_eq_map]

/-- A modifier lies in front of its declaration. -/
theorem visibility_lays (hg : Laying S g) (hb : Lays S (fun o => [Outline.object o]) body) :
    Lays S (fun v => [Outline.visibility v]) (visibility g body) := by
  refine .node (visibility_steady hg.advancing hb.steady) (visibility_eats hg.advancing hb.steady)
    (visibility_spans body) Outline.span_visibility fun lo => .after .mark fun m =>
      .after .look fun token => ?_
  have key {q : Parser Declaration} (hq : Lays S (fun d => [Outline.declaration d]) q)
      (modifier : Modifier) (keyword : Name) :
      Adds S lo [Outline.name keyword] (fun v => (Outline.visibility v).parts) (do
        let declaration ← q
        pure ⟨modifier, keyword, declaration, ← spanFrom m⟩) :=
    .bind hq fun _ => .spanFrom fun _ => rfl
  split
  · exact .unexpected _
  · refine .bind (.name _) fun name => .after .see fun _ => ?_
    exact .ite (key ((template_lays hg hb).map fun _ => rfl) _ _)
      (key ((assignment_lays hg).map fun _ => rfl) _ _)

/-- An entry is one node. -/
theorem entry_lays (hg : Laying S g) (hb : Lays S (fun o => [Outline.object o]) body) :
    Lays S (fun e => [Outline.entry e]) (entry g body) := by
  refine .ahead fun _ => ?_
  refine .ite ((assignment_lays hg).map fun _ => rfl) ?_
  refine .ite ((visibility_lays hg hb).map fun _ => rfl) ?_
  refine .ite ((member_lays hg).map fun _ => rfl) ?_
  exact .ite ((reference_lays hg).map fun _ => rfl) (.abortHere fun t => .noMember t.kind.name)

/-- An object lies over its name and its entries. -/
theorem objectWith_lays (hg : Laying S g) (hb : Lays S (fun o => [Outline.object o]) body) :
    Lays S (fun o => [Outline.object o]) (objectWith g body) := by
  have entries : Lays S (List.map Outline.entry) (loop (entryStep g body) []) := by
    refine .loop (backward Outline.entry) rfl (entryStep_advances hg.advancing hb.steady)
      (entryStep_steady hg.advancing hb.steady) fun lo read => .peek fun c hc => ?_
    have ended {kind : TokenKind} (hk : (c.rest.headD S.source.stop).kind = kind)
        (h : kind ≠ .eof) :
        (c.rest.headD S.source.stop).kind ≠ .eof := hk ▸ h
    cases hk : (c.rest.headD S.source.stop).kind with
    | rparen => exact .of hc (.after .bump fun _ => .pure rfl)
    | eof => exact .of hc (.unexpected _)
    | comma =>
      exact .report _ (Scene.placed_next hc.on (ended hk (by simp)))
        (.of hc (.after .bump fun _ => .pure rfl))
    | _ =>
      refine .orCut hc (entry_lays hg hb) (cut_recoverEntry.map _) recoverEntry_patches
        (fun _ hm _ => recoverEntry_lt hm S.ended (ended hk (by simp)) (by rw [hk]; simp))
        (fun _ => rfl) fun _ => ?_
      exact .pure (Node.backward_cons ..)
  exact .node (objectWith_steady hg.advancing hb.steady) (objectWith_eats hg.advancing hb.steady)
    (objectWith_spans body) Outline.span_object fun _ => .after .mark fun _ => .bind (.name _)
      fun _ => .after (.expect _ _) fun _ => .bind entries fun _ => .spanFrom fun _ => by
        simp [Outline.object, Outline.entries_eq_map]

/-- So it does however deep its templates are nested. -/
theorem object_lays (hg : Laying S g) : Lays S (fun o => [Outline.object o]) (object g) := by
  have hbase := Steady.unexpected (α := Object) ""
  have nest (n : Nat) : Lays S (fun o => [Outline.object o]) (objectNest g (unexpected "") n) := by
    induction n with
    | zero => exact objectWith_lays hg (.unexpected _)
    | succ n ih => exact objectWith_lays hg ih
  refine ⟨object_steady hg.advancing, fun c hc => ?_⟩
  rw [object_eq_nest hg.advancing hbase S.ended (Nat.le_refl _)]
  exact (nest _).rows c hc

/-- An unnamed object lies over its object. -/
theorem unnamed_lays (hg : Laying S g) : Lays S (fun u => [Outline.unnamed u]) (unnamed g) := by
  refine .node (unnamed_steady hg.advancing) (unnamed_eats hg.advancing) unnamed_spans
    (fun _ => rfl) fun _ => ?_
  refine .after .mark fun _ => .after (.expectKeyword _) fun _ => ?_
  refine .bind (object_lays hg) fun object => .spanFrom fun _ => ?_
  exact rfl

/-! ### Expressions -/

/-- A list lies over its elements. -/
theorem list_lays (hg : Laying S g) : Lays S (fun e => [Outline.expr e]) (list g) := by
  refine .node (list_steady hg.advancing) (list_eats hg.advancing) list_spans Outline.span_expr
    fun before => .after .mark fun m => .bind (bracketed_lays hg) fun elements => ?_
  refine .spanFrom fun s => ?_
  simp [Outline.expr, Outline.exprs_eq_map]

/-- A vector lies over its name and its elements. -/
theorem vector_lays (hg : Laying S g) (type : VectorType) :
    Lays S (fun e => [Outline.expr e]) (vector g type) := by
  refine .node (vector_steady hg.advancing type) (vector_eats hg.advancing type)
    (vector_spans type) Outline.span_expr fun before => .after .mark fun m => ?_
  refine .bind (.name _) fun name => .bind (bracketed_lays hg) fun elements => ?_
  refine .spanFrom fun s => ?_
  simp [Outline.expr, Outline.exprs_eq_map]

/-- What is no pair becomes a fragment in the same place, where it is reported. -/
theorem pairs_adds (items : List Expr) (pre : List Node) :
    Adds S lo (pre ++ items.map Outline.expr) (fun es => pre ++ es.map Outline.expr)
      (pairs items) := by
  induction items generalizing pre with
  | nil => exact .pure rfl
  | cons item items ih =>
    have behind (entry : Expr) : Adds S lo (pre ++ Outline.expr entry :: items.map Outline.expr)
        (fun es => pre ++ es.map Outline.expr)
        (pairs items >>= fun es => pure (entry :: es)) := by
      have h := ih (pre ++ [Outline.expr entry])
      rw [List.append_assoc, List.singleton_append] at h
      exact .seq (pairs_still items).steady h fun es => .pure (by simp)
    rw [List.map_cons]
    unfold pairs
    split
    · exact behind _
    · exact behind _
    · intro c hc hlo hpre
      have hproper := hpre.proper (Outline.expr item) (by simp)
      have hplaced := hproper.isPlaced
      rw [Outline.span_expr] at hplaced
      have h := behind (.error ⟨item.span, String.ofList (Text.covered S.source.text item.span)⟩)
        c hc hlo (hpre.replace (Outline.span_expr item).symm fun hn =>
          Outline.span_expr item ▸ hn.leaf (Outline.isType_expr item))
      have hcut : S.Honest (errorAt item.span S.source c).notes := by
        intro d hd
        rw [errorAt] at hd
        split at hd <;> simp at hd
      exact ⟨(Scene.Honest.problem hplaced).append ((hcut.append .nil).append h.honest), h.row⟩

/-- A map lies over its name and its pairs. -/
theorem map_lays (hg : Laying S g) : Lays S (fun e => [Outline.expr e]) (map g) := by
  refine .node (map_steady hg.advancing) (map_eats hg.advancing) map_spans Outline.span_expr
    fun before => .after .mark fun m => .bind (.name _) fun name => ?_
  refine .bind (bracketed_lays hg) fun elements => ?_
  refine .seq (pairs_still _).steady (pairs_adds _ _) fun pairs => .spanFrom fun s => ?_
  simp [Outline.expr, Outline.exprs_eq_map]

/-- A pair lies over two expressions, a group over one or none. -/
theorem parenthesised_lays (hg : Laying S g) :
    Lays S (fun e => [Outline.expr e]) (parenthesised g) := by
  refine .node (parenthesised_steady hg.advancing) (parenthesised_eats hg.advancing)
    parenthesised_spans Outline.span_expr fun _ => ?_
  refine .after .mark fun _ => .after (.expect _ _) fun _ => .after (.eat _) fun _ => ?_
  refine .ite (.spanFrom fun _ => rfl) ?_
  refine .bind hg.expr fun value => .after (.eat _) fun _ => ?_
  refine .ite ?_ (.after (.expect _ _) fun _ => .spanFrom fun _ => rfl)
  refine .bind hg.expr fun value => .after (.expect _ _) fun _ => .spanFrom fun _ => ?_
  exact rfl

/-- An index is one node, or none. -/
theorem index?_lays (hg : Laying S g) : Lays S Outline.expr? (index? g) := by
  refine .of (index?_steady hg.advancing) fun _ => .after .see fun _ => ?_
  exact .ite (.after .bump fun _ => .bind hg.expr fun _ => .after (.expect _ _) fun _ => .pure rfl)
    (.pure rfl)

/-- A generic type lies over its name and its index. -/
theorem generic_lays (hg : Laying S g) : Lays S (fun e => [Outline.expr e]) (generic g) := by
  refine .node (generic_steady hg.advancing) (generic_eats hg.advancing) generic_spans
    Outline.span_expr fun _ => ?_
  refine .after .mark fun _ => .after (.expect _ _) fun _ => .after .see fun _ => ?_
  refine .ite ?_ (.unexpected _)
  refine .bind (.name _) fun name => .after .see fun _ => ?_
  refine .ite ?_ (.unexpected _)
  refine .after .bump fun _ => .bind (index?_lays hg) fun _ => .spanFrom fun _ => ?_
  exact rfl

/-- A payload has no parts. -/
theorem guid_lays : Lays S (fun e => [Outline.expr e]) guid := by
  refine .node guid_steady guid_eats guid_spans Outline.span_expr fun _ => .after .mark fun m =>
    .after .bump fun _ => .after (.expect _ _) fun _ => .after .look fun token => ?_
  split
  · exact .after .bump fun _ => .spanFrom fun _ => rfl
  · exact .after .bump fun _ => .after (.errorFrom m) fun _ => .pure rfl
  · exact .unexpected _

/-- What a name starts is one node. -/
theorem nameLed_lays (hg : Laying S g) : Lays S (fun e => [Outline.expr e]) (nameLed g) := by
  refine .ahead fun _ => ?_
  exact .ite ((object_lays hg).map fun _ => rfl)
    (.ite (vectorOrPath_lays hg) ((reference_lays hg).map fun _ => rfl))

/-- A constant has no parts. -/
theorem constant_adds (hc : S.Whole c) (hr : c.rest ≠ []) {value : Span → Expr}
    (hv : ∀ s, Outline.expr (value s) = Node.leaf s) :
    AddsAt S c lo [] (fun e => [Outline.expr e]) (constant value) :=
  .token hc hr (by rw [hv])

/-- What a word starts is one node. -/
theorem wordLed_adds (hg : Laying S g) (wordClass : WordClass) (hc : S.Whole c) (hr : c.rest ≠ []) :
    AddsAt S c lo [] (fun e => [Outline.expr e]) (wordLed g wordClass) := by
  have here {p : Parser Expr} (hp : Lays S (fun e => [Outline.expr e]) p) :
      AddsAt S c lo [] (fun e => [Outline.expr e]) p := .of hc hp.adds
  have named := here (nameLed_lays hg)
  refine AddsAt.ite (here ((assignment_lays hg).map fun _ => rfl))
    (.ite (here ((visibility_lays hg (object_lays hg)).map fun _ => rfl)) ?_)
  split
  · exact constant_adds hc hr fun _ => rfl
  · exact constant_adds hc hr fun _ => rfl
  · exact constant_adds hc hr fun _ => rfl
  · exact .ite (here guid_lays) named
  · exact .ite (here (map_lays hg)) named
  · exact .ite (here (vector_lays hg _)) named
  · exact named

/-- A broken token is a fragment, which is reported where it is not yet. -/
theorem brokenToken_adds (e : LexError) (hc : S.Whole c)
    (hk : (c.rest.headD S.source.stop).kind ≠ .eof) :
    AddsAt S c lo [] (fun e => [Outline.expr e]) (brokenToken e) := by
  have hr := rest_ne_nil S.ended hk
  refine .node hc (brokenToken_steady e) (brokenToken_eatsAt e hr S.ended)
    (brokenToken_spans e S.ended c) Outline.span_expr ?_
  have hw := Lays.bump.whole hc bump_value
  show AddsAt S c (S.next c) [] _ (bump >>= fun _ => _)
  refine .bind hc (Steady.bump.moves S.ended c) (Lays.bump.rows c hc) fun _ _ => ?_
  have fragment : Adds S (S.next c) [] (fun e => (Outline.expr e).parts)
      (do pure (.error (← errorFrom (.here S.source c)))) :=
    .after (.errorFrom _) fun _ => .pure rfl
  split
  · exact .report _ (Scene.placed_next hc.on hk) (.of hw fragment)
  · exact .of hw fragment

/-- An operand is one node. -/
theorem primary_lays (hg : Laying S g) : Lays S (fun e => [Outline.expr e]) (primary g) := by
  refine .of (primary_steady hg.advancing) fun lo => .peek fun c hc => ?_
  have here {p : Parser Expr} (hp : Lays S (fun e => [Outline.expr e]) p) :
      AddsAt S c lo [] (fun e => [Outline.expr e]) p := .of hc hp.adds
  have rest {k : TokenKind} (h : (c.rest.headD S.source.stop).kind = k) (hk : k ≠ .eof) :
      (c.rest.headD S.source.stop).kind ≠ .eof := h ▸ hk
  split
  · rename_i h
    exact .token hc (rest_ne_nil S.ended (rest h (by simp))) rfl
  · rename_i h
    exact .token hc (rest_ne_nil S.ended (rest h (by simp))) rfl
  · exact here (list_lays hg)
  · exact here (parenthesised_lays hg)
  · exact here (generic_lays hg)
  · rename_i h
    exact wordLed_adds hg _ hc (rest_ne_nil S.ended (rest h (by simp)))
  · rename_i h
    exact brokenToken_adds _ hc (rest h (by simp))
  · exact .of hc (.unexpected _)
  · exact here (.ahead fun _ => .ite ((reference_lays hg).map fun _ => rfl)
      (.abortHere fun t => .noExpression t.kind.name))

/-- A sign lies in front of its operand. -/
theorem unary_lays (hg : Laying S g) : Lays S (fun e => [Outline.expr e]) (unary g) := by
  refine .of (unary_steady hg.advancing) fun lo c hc => ?_
  have signed (k : Expr → Span → Expr) (hspan : ∀ e s, (k e s).span = s)
      (hparts : ∀ e s, (Outline.expr (k e s)).parts = [Outline.expr e])
      (hr : c.rest ≠ []) : AddsAt S c lo [] (fun e => [Outline.expr e]) (do
        bump
        let operand ← g.operand
        pure (k operand (← spanFrom (.here S.source c)))) := by
    have behind : Steady (do
        let operand ← g.operand
        pure (k operand (← spanFrom (.here S.source c)))) :=
      .bind hg.advancing.operand fun _ => .bind (Still.spanFrom _).steady fun _ => .pure _
    refine .node hc (.bind .bump fun _ => behind) (.bump hr S.ended behind.sound)
      (Ends.here (.bind fun _ => .bind fun _ => .spanFrom fun _ => hspan _ _)) Outline.span_expr
      (.of hc (.after .bump fun _ => .bind hg.operand fun e => .spanFrom fun s => hparts e s))
  refine .markPeek ?_
  cases hk : (c.rest.headD S.source.stop).kind with
  | minus =>
    have hne : c.rest ≠ [] := rest_ne_nil S.ended (by rw [hk]; simp)
    exact signed _ (fun _ _ => rfl) (fun _ _ => rfl) hne
  | bang =>
    have hne : c.rest ≠ [] := rest_ne_nil S.ended (by rw [hk]; simp)
    exact signed _ (fun _ _ => rfl) (fun _ _ => rfl) hne
  | _ => exact .of hc (primary_lays hg).adds

/-! ### Operators -/

/-- An operator takes what was read in front of it for its left operand. -/
theorem operation_adds (hg : Laying S g) {right : Nat → Parser Expr}
    (hr : ∀ rank, Lays S (fun e => [Outline.expr e]) (right rank)) (loosest : Nat) (m : Mark)
    (left : Expr) : Adds S lo [Outline.expr left]
      (Sum.elim (fun e => (Outline.expr e).parts) fun e => [Outline.expr e])
      (operation g right loosest m left) := by
  refine .after .see fun ts => ?_
  split
  · exact .pure rfl
  · exact .ite (.after .bump fun _ => .bind hg.expr fun _ => .after (.expect _ _) fun _ =>
      .bind hg.expr fun _ => .spanFrom fun _ => rfl) (.pure rfl)
  · exact .ite (.after .bump fun _ => .bind (hr _) fun _ => .spanFrom fun _ => rfl) (.pure rfl)

/-- Each operator is laid over all that was read since the mark. -/
theorem operations_lay (hg : Laying S g) {right : Nat → Parser Expr}
    (hr : ∀ rank, Lays S (fun e => [Outline.expr e]) (right rank)) (loosest : Nat)
    (hc : S.Whole c) : ∀ left d, (∃ u, c.Passes u d) → c.count < d.count →
      left.span = (Mark.here S.source c).upTo d →
      S.Row (S.next c) d.last.stop [Outline.expr left] →
      Laid S (S.next c) (fun e => [Outline.expr e])
        (loop (operation g right loosest (.here S.source c)) left S.source d) := by
  have steady (rank : Nat) : Steady (right rank) := (hr rank).steady
  have advances := operation_advances hg.advancing steady loosest (.here S.source c)
  refine loop_rec advances S.ended (P := fun left d o => (∃ u, c.Passes u d) → c.count < d.count →
    left.span = (Mark.here S.source c).upTo d → S.Row (S.next c) d.last.stop [Outline.expr left] →
    Laid S (S.next c) (fun e => [Outline.expr e]) o) fun left d ih ⟨u, hu⟩ hm hspan hrow => ?_
  have hd := hc.passes hu
  have hlo := Scene.next_le hc.on hu.reaches
  obtain ⟨honest, row⟩ := operation_adds hg hr loosest (.here S.source c) left d hd hlo hrow
  cases hv : (operation g right loosest (.here S.source c) left S.source d).value with
  | none =>
    rw [bind_of_none hv]
    exact .abort honest
  | some r =>
    have hsteady := operation_steady hg.advancing steady loosest (.here S.source c) left
    obtain ⟨v, hv'⟩ := hsteady.lands S.ended d (hv ▸ Option.some_ne_none r)
    have hpass := hu.trans hv'
    have hr := operation_spans hspan r hv
    have hrow' := row r hv
    rw [bind_of_some hv]
    cases r with
    | inl left' =>
      have hcount := Nat.lt_of_lt_of_le hm (Nat.le_of_lt
        (hv'.reaches.count_lt_iff.2 (advances S.ended left left' d hv)))
      have h := ih left' hv ⟨_, hpass⟩ hcount hr
        (.node hc (.inl ⟨_, hpass⟩) hcount ((Outline.span_expr left').trans hr) hrow')
      exact ⟨honest.append h.honest, h.row⟩
    | inr e =>
      refine ⟨honest.append .nil, fun b hb => ?_⟩
      obtain rfl : e = b := by injection hb
      exact hrow'

/-- An operator lies over its operands. -/
theorem climb_lays (hg : Laying S g) (steps loosest : Nat) :
    Lays S (fun e => [Outline.expr e]) (climb g steps loosest) := by
  induction steps generalizing loosest with
  | zero => exact unary_lays hg
  | succ steps ih =>
    refine ⟨climb_steady hg.advancing _ _, fun c hc => ?_⟩
    show Laid S (S.next c) _
      ((unary g >>= loop (operation g (climb g steps) loosest (.here S.source c))) S.source c)
    obtain ⟨honest, row⟩ := (unary_lays hg).rows c hc
    cases hv : (unary g S.source c).value with
    | none =>
      rw [bind_of_none hv]
      exact .abort honest
    | some left =>
      have hne : (unary g S.source c).value ≠ none := hv ▸ Option.some_ne_none left
      obtain ⟨u, hu⟩ := (unary_steady hg.advancing).lands S.ended c hne
      have hm := hu.reaches.count_lt_iff.2 (unary_eats hg.advancing S.ended c hne)
      have h := operations_lay hg ih loosest hc left _ ⟨u, hu⟩ hm
        (unary_spans S.ended c left hv) (row left hv)
      rw [bind_of_some hv]
      exact ⟨honest.append h.honest, h.row⟩

/-! ### Levels and items -/

/-- A fragment below the last level, which is reported where it stands. -/
theorem tooDeep_lays : Lays S (fun e => [Node.leaf e.span]) tooDeep := by
  refine .node tooDeep_steady tooDeep_eats tooDeep_spans (fun _ => rfl) fun lo c hc _ _ => ?_
  obtain ⟨d, text, h, hrun⟩ := tooDeep_run (R := .whole S) hc.on
  rw [hrun]
  refine ⟨fun problem hp => ?_, fun _ _ => .nil⟩
  obtain rfl : problem = .ofCause _ _ := by simpa using hp
  exact ⟨c, d, hc.on, h, rfl⟩

/-- Below the last level a fragment is a node without parts. -/
theorem deepExpr_lays : Lays S (fun e => [Outline.expr e]) Grammar.deepExpr :=
  tooDeep_lays.map fun _ => rfl

/-- There a type is never read. -/
theorem deepType_adds : Adds S lo [] (fun t => [Outline.type t]) Grammar.deepType :=
  .bind tooDeep_lays fun _ => .abort

/-- The last level lays its fragments. -/
theorem laying_bottom : Laying S .bottom where
  advancing := advancing_bottom
  expr := deepExpr_lays
  operand := deepExpr_lays
  type c hc := deepType_adds c hc (Nat.le_refl _) .nil

/-- **A level lays its nodes in a row if the one below does.** -/
theorem Laying.above (hg : Laying S g) : Laying S (.above g) where
  advancing := hg.advancing.above
  expr := .nested deepExpr_lays (climb_lays hg _ _)
  operand := .nested deepExpr_lays (unary_lays hg)
  type c hc := .nested (deepType_adds c hc (Nat.le_refl _) .nil) (typeRef_sound hg.advancing)
    (typeRef_laid hg hc.down)

/-- **Every level lays its nodes in a row.** -/
theorem laying_levels (n : Nat) : Laying S (.levels n) := by
  induction n with
  | zero => exact laying_bottom
  | succ n ih => exact ih.above

/-- An item is one node. -/
theorem item_lays (hg : Laying S g) : Lays S (fun i => [Outline.item i]) (item g) := by
  refine .ahead fun _ => ?_
  refine .ite ((assignment_lays hg).map fun _ => rfl) ?_
  refine .ite ((visibility_lays hg (object_lays hg)).map fun _ => rfl) ?_
  refine .ite ((template_lays hg (object_lays hg)).map fun _ => rfl) ?_
  refine .ite ((unnamed_lays hg).map fun _ => rfl) ?_
  exact .ite ((member_lays hg).map fun _ => rfl) (hg.expr.map fun e => by rw [Outline.item_ofExpr])

/-- So it is if it was cut out. -/
theorem itemOrError_laid (hg : Laying S g) (hc : S.Whole c) (hr : c.rest ≠ []) :
    Laid S (S.next c) (fun i => [Outline.item i]) (itemOrError g S.source c) :=
  AddsAt.orCut hc (item_lays hg) (cut_recoverItem.map _) recoverItem_patches
    (fun _ hm _ => recoverItem_lt hm hr) (fun _ => rfl)
    (fun _ => .after (.emit _) fun _ => .pure rfl) (Nat.le_refl _) .nil

/-- **The items of a document stand in a row.** -/
theorem items_lays (hg : Laying S g) (calledOff : Nat → Bool) :
    Lays S (fun items => (items.getD []).map Outline.item) (items g calledOff) := by
  refine .loop (backward Outline.item) rfl (itemStep_advances hg.advancing calledOff)
    (itemStep_steady hg.advancing calledOff) fun lo read c hc => ?_
  show AddsAt S c lo _ _ (if c.rest.isEmpty then _ else if calledOff read.length then _ else _)
  by_cases hr : c.rest.isEmpty = true
  · rw [if_pos hr]
    exact .pure rfl
  rw [if_neg hr]
  by_cases ho : calledOff read.length = true
  · rw [if_pos ho]
    exact fun _ _ => ⟨.nil, fun a ha => by
      obtain rfl : .inr none = a := by injection ha
      exact .nil⟩
  · rw [if_neg ho]
    exact .bind hc ((itemOrError_steady hg.advancing).moves S.ended c)
      (itemOrError_laid hg hc (by simpa using hr)) fun _ _ => .pure (Node.backward_cons ..)

end Parser
end Ndf
