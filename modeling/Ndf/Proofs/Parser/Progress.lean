/-
# Declarations move forward

The invariants of `Ndf.Proofs.Parser.Sound` for types, lists, references and declarations, with any
parser for the bodies of templates.  Two places need more than composition.

* A list of type parameters may end in the middle of a `>=`; the equals sign that is left is always
  read before a value is returned, so types alone are not steady.
* Recovery starts where a parser gave up, which may be in the middle of a `>=`.  No cut ends in
  front of an equals sign, so it ends between two tokens (`Steady.orCut`).
-/

import Ndf.Proofs.Parser.Sound

namespace Ndf

namespace Parser

variable {α β σ : Type} {p : Parser α} {f : α → Parser β} {src : Source} {c : Cursor} {g : Grammar}

/-! ### Recovery -/

/-- Whole tokens are read, also when nothing comes of it. -/
def Plain (p : Parser α) : Prop := ∀ (src : Source) (c : Cursor), ∃ u, c.Passes u (p src c).cursor

/-- Who stands still takes whole tokens, none. -/
theorem Still.plain (h : Still p) : Plain p := fun src c =>
  ⟨[], by rw [(h src c).1]; exact .refl c⟩

/-- So does who gives up at once. -/
theorem Plain.abort : Plain (abort : Parser α) := fun _ c => ⟨[], .refl c⟩

/-- One token is taken whole. -/
theorem Plain.bump : Plain bump := by
  intro src c
  rcases hr : c.rest with _ | ⟨t, ts⟩
  · rw [bump_run_nil hr]
    exact ⟨[], .refl c⟩
  · rw [bump_run hr]
    exact ⟨[t], .one hr⟩

/-- A sequence takes the tokens of both parts. -/
theorem Plain.bind (hp : Plain p) (hf : ∀ a, Plain (f a)) : Plain (p >>= f) := by
  intro src c
  obtain ⟨u, hu⟩ := hp src c
  cases hv : (p src c).value with
  | none => exact ⟨u, (bind_of_none hv).symm ▸ hu⟩
  | some a =>
    obtain ⟨v, hv'⟩ := hf a src (p src c).cursor
    exact ⟨u ++ v, (bind_of_some hv).symm ▸ hu.trans hv'⟩

/-- Of two branches only the one taken counts. -/
theorem Plain.ite {P : Prop} [Decidable P] {p q : Parser α} (hp : Plain p) (hq : Plain q) :
    Plain (if P then p else q) := by
  split
  · exact hp
  · exact hq

/-- What is made of a value takes nothing. -/
theorem Plain.map (g : α → β) (hp : Plain p) : Plain (g <$> p) :=
  hp.bind fun a => (Still.pure (g a)).plain

/-- Skipping takes whole tokens. -/
theorem Plain.skip (n : Nat) : Plain (skip n) := by
  induction n with
  | zero => exact (Still.pure ()).plain
  | succ n ih => exact .bind .bump fun _ => ih

/-- So does leaving a place where nothing was read. -/
theorem Plain.leave (m : Mark) (keep : Option TokenKind) : Plain (leave m keep) :=
  .bind (Still.movedFrom m).plain fun _ => .ite (Still.pure ()).plain
    (.bind Still.peek.plain fun _ => .ite (Still.pure ()).plain .bump)

/-- The cut of an item takes whole tokens. -/
theorem Plain.recoverItem (m : Mark) : Plain (recoverItem m) := by
  refine .bind (.leave m none) fun _ => .bind Still.ahead.plain fun _ => .bind (.skip _) fun _ => ?_
  refine .bind (Still.errorFrom m).plain fun _ => .bind (Still.emit _).plain fun _ => ?_
  exact (Still.pure _).plain

/-- So does that of an element. -/
theorem Plain.recoverElement (m : Mark) : Plain (recoverElement m) := by
  refine .bind (.leave m _) fun _ => .bind Still.ahead.plain fun _ => .bind (.skip _) fun _ => ?_
  exact .ite (Still.errorFrom m).plain .abort

/-- So does that of an entry. -/
theorem Plain.recoverEntry (m : Mark) : Plain (recoverEntry m) := by
  refine .bind (.leave m _) fun _ => .bind Still.ahead.plain fun _ => .bind (.skip _) fun _ => ?_
  exact .ite (.bind (Still.errorFrom m).plain fun _ => .bind (Still.emit _).plain fun _ =>
    (Still.pure _).plain) .abort

/-- Skipping drops so many tokens. -/
theorem skip_rest (n : Nat) (src : Source) (c : Cursor) :
    (skip n src c).cursor.rest = c.rest.drop n := by
  induction n generalizing c with
  | zero => rfl
  | succ n ih =>
    show ((bump >>= fun _ => skip n) src c).cursor.rest = _
    rw [bind_of_some bump_value, ih, bump_rest, List.drop_tail]

/-- In the middle of a `>=` nothing of the kind that ends a cut comes next. -/
theorem startsItem_eq {t : Token} (h : t.kind = .eq) (ts : List Token) :
    Lookahead.startsItem (t :: ts) = false := by
  simp [Lookahead.startsItem, Lookahead.startsAssignment, Lookahead.startsVisibility,
    Lookahead.startsTemplate, Lookahead.startsUnnamed, Lookahead.isModifier, Lookahead.isKeyword,
    Lookahead.keyword?, Lookahead.isWord, TokenKind.isWord, TokenKind.keyword?,
    TokenKind.wordClass?, h]

/-- A sign of equality starts no entry. -/
theorem startsEntry_eq {t : Token} (h : t.kind = .eq) (ts : List Token) :
    Lookahead.startsEntry (t :: ts) = false := by
  simp [Lookahead.startsEntry, Lookahead.startsAssignment, Lookahead.startsVisibility,
    Lookahead.startsMember, Lookahead.isModifier, Lookahead.isKeyword,
    Lookahead.keyword?, Lookahead.isWord, TokenKind.isWord, TokenKind.keyword?,
    TokenKind.wordClass?, h]

/-- So the cut of an item is not empty there. -/
theorem itemGap_eq {t : Token} (h : t.kind = .eq) (ts : List Token) :
    0 < Recovery.itemGap (t :: ts) := by
  rw [Recovery.itemGap, startsItem_eq h]
  exact Nat.succ_pos _

/-- Nor is that of an element. -/
theorem elementGap_eq {t : Token} (h : t.kind = .eq) (ts : List Token) :
    0 < (Recovery.elementGap 0 (t :: ts)).length := by
  simp only [Recovery.elementGap, h]
  exact Nat.succ_pos _

/-- Nor is that of an entry. -/
theorem entryGap_eq {t : Token} (h : t.kind = .eq) (ts : List Token) :
    0 < (Recovery.entryGap 0 (t :: ts)).length := by
  simp only [Recovery.entryGap, h, startsEntry_eq h]
  exact Nat.succ_pos _

/-- Tokens are never given back. -/
theorem Plain.length_le (h : Plain p) (src : Source) (c : Cursor) :
    (p src c).cursor.rest.length ≤ c.rest.length := by
  obtain ⟨u, hu⟩ := h src c
  exact hu.reaches.length_le

/-- Skipping always succeeds. -/
theorem skip_value (n : Nat) (src : Source) (c : Cursor) : (skip n src c).value = some () := by
  induction n generalizing c with
  | zero => rfl
  | succ n ih =>
    show ((Parser.bump >>= fun _ => skip n) src c).value = _
    rw [bind_of_some bump_value]
    exact ih _

/-- A gap that is not empty takes a token. -/
theorem skip_then_lt {n : Nat} {q : Parser α} (hn : 0 < n) (hr : c.rest ≠ []) (hq : Plain q) :
    ((skip n >>= fun _ => q) src c).cursor.rest.length < c.rest.length := by
  rw [bind_of_some (skip_value n src c)]
  have h := hq.length_le src (skip n src c).cursor
  have hc := List.length_pos_iff.2 hr
  rw [skip_rest, List.length_drop] at h
  show (q src (skip n src c).cursor).cursor.rest.length < _
  omega

/-- Behind the mark nothing is read before a cut. -/
theorem leave_moved {m : Mark} (keep : Option TokenKind) (h : m.count < c.count) :
    leave m keep src c = ⟨some (), c, []⟩ := by
  show (if decide (m.count < c.count) then pure () else _ : Parser Unit) src c = _
  rw [if_pos (decide_eq_true h)]
  rfl

/-- At the mark the next token is read before a cut, unless it is to be kept. -/
theorem leave_still {m : Mark} {keep : Option TokenKind} (h : ¬ m.count < c.count)
    (hk : some (c.rest.headD src.stop).kind ≠ keep) : leave m keep src c = bump src c := by
  show (if decide (m.count < c.count) then pure () else peek >>= fun _ => _ : Parser Unit) src c = _
  rw [if_neg (by simpa using h)]
  show (if some (c.rest.headD src.stop).kind == keep then pure () else bump : Parser Unit) src c = _
  rw [if_neg (by simpa using hk)]

/-- At the mark nothing is read in front of a token that is to be kept. -/
theorem leave_kept {m : Mark} {keep : Option TokenKind} (h : ¬ m.count < c.count)
    (hk : some (c.rest.headD src.stop).kind = keep) : leave m keep src c = ⟨some (), c, []⟩ := by
  show (if decide (m.count < c.count) then pure () else peek >>= fun _ => _ : Parser Unit) src c = _
  rw [if_neg (by simpa using h)]
  show (if some (c.rest.headD src.stop).kind == keep then pure () else bump : Parser Unit) src c = _
  rw [if_pos (by simpa using hk)]
  rfl

/-- Where nothing was read a token is taken, unless it is one to keep. -/
theorem leave_then_lt {m : Mark} {keep : Option TokenKind} {q : Parser α} (he : src.Ended)
    (h : ¬ m.count < c.count) (hk : some (c.rest.headD src.stop).kind ≠ keep)
    (hc : (c.rest.headD src.stop).kind ≠ .eof) (hq : Plain q) :
    ((leave m keep >>= fun _ => q) src c).cursor.rest.length < c.rest.length := by
  have hl : leave m keep src c = bump src c := leave_still h hk
  rw [bind_of_some (a := ()) (by rw [hl, bump_value]), hl]
  exact Nat.lt_of_le_of_lt (hq.length_le src _) (bump_lt (rest_ne_nil he hc))

/-- A cut reads whole tokens, and at least one if it starts in the middle of a `>=`. -/
structure Cut (cut : Mark → Parser α) : Prop where
  plain : ∀ m, Plain (cut m)
  half : ∀ {src : Source} {c : Cursor} {t : Token} {ts : List Token} {m : Mark},
    m.count < c.count → c.rest = t :: ts → t.kind = .eq →
    (cut m src c).cursor.rest.length < c.rest.length

/-- A node made of the fragment. -/
theorem Cut.map (f : α → β) {cut : Mark → Parser α} (h : Cut cut) : Cut fun m => f <$> cut m where
  plain m := (h.plain m).map f
  half hm hr ht := by
    rw [map_run]
    exact h.half hm hr ht

/-- Cutting a number of tokens that depends on those ahead. -/
theorem Cut.of (keep : Option TokenKind) {gap : List Token → Nat}
    {q : Mark → List Token → Parser α} (hq : ∀ m ts, Plain (q m ts))
    (hgap : ∀ (t : Token) (ts : List Token), t.kind = .eq → 0 < gap (t :: ts)) :
    Cut fun m => leave m keep >>= fun _ =>
      ahead >>= fun ts => skip (gap ts) >>= fun _ => q m ts where
  plain m := .bind (.leave m keep) fun _ => .bind Still.ahead.plain fun ts =>
    .bind (.skip _) fun _ => hq m ts
  half {src c t ts m} hm hr ht := by
    rw [bind_of_some (by rw [leave_moved keep hm]), leave_moved keep hm]
    show ((skip (gap c.rest) >>= fun _ => q m c.rest) src c).cursor.rest.length < _
    refine skip_then_lt ?_ ?_ (hq m c.rest)
    · rw [hr]
      exact hgap t ts ht
    · rw [hr]
      exact List.cons_ne_nil _ _

/-- The cut of an item takes a token where nothing was read. -/
theorem cut_recoverItem : Cut recoverItem := by
  refine .of none (fun m _ => .bind (Still.errorFrom m).plain fun _ =>
    .bind (Still.emit _).plain fun _ => (Still.pure _).plain) fun _ ts h => ?_
  exact itemGap_eq h ts

/-- So does that of an element. -/
theorem cut_recoverElement : Cut recoverElement :=
  .of (some .rparen) (fun m _ => .ite (Still.errorFrom m).plain .abort)
    fun _ ts h => elementGap_eq h ts

/-- So does that of an entry. -/
theorem cut_recoverEntry : Cut recoverEntry := by
  refine .of (some .rparen) (fun m _ => ?_) fun _ ts h => ?_
  · exact .ite (.bind (Still.errorFrom m).plain fun _ => .bind (Still.emit _).plain fun _ =>
      (Still.pure _).plain) .abort
  · exact entryGap_eq h ts

/-- A cut behind what gave up ends between two tokens. -/
theorem Cut.lands {cut : Mark → Parser α} (hcut : Cut cut) (hp : Steady p) (he : src.Ended)
    {m : Mark} (hm : m.count = c.count) : ∃ u, c.Passes u (orRecover p (cut m) src c).cursor := by
  cases hv : (p src c).value with
  | some a =>
    rw [orRecover_of_some hv]
    exact hp.lands he c (by simp [hv])
  | none =>
    rw [orRecover_of_none hv]
    obtain ⟨v, hv'⟩ := hcut.plain m src (p src c).cursor
    rcases hp.moves he c with ⟨u, hu⟩ | hs
    · exact ⟨u ++ v, hu.trans hv'⟩
    · obtain ⟨t, ts, hr, ht⟩ := hs.head
      have hlt : (cut m src (p src c).cursor).cursor.rest.length < (p src c).cursor.rest.length :=
        hcut.half (hm ▸ hs.count_lt) hr ht
      refine hs.passes hv' fun hnil => ?_
      subst hnil
      rw [hv'.nil] at hlt
      exact absurd hlt (Nat.lt_irrefl _)

/-- What gave up before a cut left a problem in the notes. -/
theorem not_quiet_orRecover {q : Parser α} (hp : Sound p) (he : src.Ended) (hc : c.Fair)
    (h : (orRecover p q src c).value = none) : ¬ Quiet (orRecover p q src c).notes := by
  cases hv : (p src c).value with
  | some a =>
    rw [orRecover_of_some hv, hv] at h
    cases h
  | none =>
    rw [orRecover_of_none hv, quiet_append]
    exact fun hq => hp.loud he c hc hv hq.1

/-- **What gives up is cut out between two tokens.** -/
theorem Steady.orCut {cut : Mark → Parser α} (hp : Steady p) (hcut : Cut cut)
    (hf : ∀ a, Steady (f a)) : Steady (mark >>= fun m => orRecover p (cut m) >>= f) := by
  have h : Steady (mark >>= fun m => orRecover p (cut m)) :=
    { moves := fun he _ => (hcut.lands hp he rfl).elim fun _ hu => hu.reaches
      loud := fun he _ hc => not_quiet_orRecover hp.toSound he hc
      lands := fun he _ _ => hcut.lands hp he rfl }
  exact h.bind hf

/-- Reading and cutting read a token if the cut does where nothing was read before. -/
theorem orCut_lt {cut : Mark → Parser α} (hp : Steady p) (hpe : Eats p) (hcut : Cut cut)
    (hf : ∀ a, Steady (f a)) (he : src.Ended)
    (hstay : ∀ m : Mark, m.count = c.count → (cut m src c).value ≠ none →
      (cut m src c).cursor.rest.length < c.rest.length)
    (h : ((mark >>= fun m => orRecover p (cut m) >>= f) src c).value ≠ none) :
    ((mark >>= fun m => orRecover p (cut m) >>= f) src c).cursor.rest.length < c.rest.length := by
  revert h
  show ((orRecover p (cut ⟨c.count, (c.rest.headD src.stop).span⟩) >>= f) src c).value ≠ none →
    ((orRecover p (cut ⟨c.count, (c.rest.headD src.stop).span⟩) >>= f) src c).cursor.rest.length < _
  generalize hm : (⟨c.count, (c.rest.headD src.stop).span⟩ : Mark) = m
  replace hm : m.count = c.count := by rw [← hm]
  cases hv : (orRecover p (cut m) src c).value with
  | none =>
    rw [bind_of_none hv]
    exact fun h => absurd rfl h
  | some a =>
    rw [bind_of_some hv]
    refine fun _ => Nat.lt_of_le_of_lt ((hf a).moves he _).length_le ?_
    cases hv' : (p src c).value with
    | some b =>
      rw [orRecover_of_some hv']
      exact hpe he c (by simp [hv'])
    | none =>
      rw [orRecover_of_none hv'] at hv ⊢
      rcases (hp.moves he c).eq_or_lt with hd | hd
      · rw [hd] at hv ⊢
        exact hstay m hm (hv ▸ Option.some_ne_none a)
      · exact Nat.lt_of_le_of_lt ((hcut.plain m).length_le src _) hd.1

/-! ### Types -/

/-- What the level below has to do so that a level moves forward. -/
structure Advancing (g : Grammar) : Prop where
  expr : Steady g.expr
  expr_eats : Eats g.expr
  operand : Steady g.operand
  operand_eats : Eats g.operand
  type : Sound g.type
  type_eats : Eats g.type

/-- The first half of a `>=` leaves the second one behind. -/
theorem splits_bumpHalf {d : Cursor} (h : c.Reaches d)
    (hlt : d.rest.length < c.rest.length) (hk : (d.rest.headD src.stop).kind = .gtEq)
    (he : src.Ended) : c.Splits (bumpHalf src d).cursor := by
  rcases hr : d.rest with _ | ⟨t, ts⟩
  · rw [hr] at hk
    cases hk.symm.trans he
  · rw [hr, List.headD_cons] at hk
    have hd : (bumpHalf src d).cursor =
        ⟨t.secondHalf :: ts, d.count + 1, t.firstHalf.span, d.depth⟩ := by
      simp only [bumpHalf, hr]
    rw [hd]
    rcases h with ⟨u, hu⟩ | hs
    · have hne : u ≠ [] := by
        rintro rfl
        rw [hu.nil] at hlt
        exact absurd hlt (Nat.lt_irrefl _)
      obtain ⟨v, hv, hcount, -⟩ := hu.read
      exact ⟨u, t, ts, hne, hr ▸ hu.rest, rfl, hk, ⟨v, hv, congrArg (· + 1) hcount⟩, rfl, hu.depth⟩
    · obtain ⟨t', ts', hr', ht'⟩ := hs.head
      rw [hr, List.cons.injEq] at hr'
      rw [hr'.1, ht'] at hk
      cases hk

/-- Taking half a token always succeeds. -/
theorem bumpHalf_value : (bumpHalf src c).value = some () := by
  cases hr : c.rest <;> simp only [bumpHalf, hr]

/-- Behind a type parameter nothing else than the first half of a `>=` is read alone. -/
theorem typeParamEnd_moves (read : List TypeRef) {d : Cursor} (he : src.Ended)
    (hd : c.Reaches d) (hlt : d.rest.length < c.rest.length) :
    c.Reaches (typeParamEnd read src d).cursor ∧
      (typeParamEnd read src d).cursor.rest.length < c.rest.length := by
  obtain ⟨b, hb⟩ := eat_value src d .comma
  have hde := (Steady.eat .comma).moves he d
  have hlt' := Nat.lt_of_le_of_lt hde.length_le hlt
  unfold typeParamEnd
  rw [bind_of_some hb]
  dsimp only
  generalize (eat .comma src d).cursor = e at hde hlt'
  have hce := hd.trans hde
  have key {p : Parser (List TypeRef ⊕ List TypeRef)} (hp : Steady p) :
      c.Reaches (p src e).cursor ∧ (p src e).cursor.rest.length < c.rest.length :=
    ⟨hce.trans (hp.moves he e), Nat.lt_of_le_of_lt (hp.moves he e).length_le hlt'⟩
  rw [peek_bind]
  cases hk : (e.rest.headD src.stop).kind with
  | gt => exact key (.bind .bump fun _ => .pure _)
  | gtEq =>
    dsimp only
    rw [bind_of_some bumpHalf_value]
    have hs := splits_bumpHalf hce hlt' hk he
    exact ⟨.inr hs, hs.length_lt⟩
  | word => exact key (.pure _)
  | _ => exact key (.unexpected _)

/-- The parameters of a type are given up with a problem. -/
theorem typeParamEnd_loud (read : List TypeRef) (he : src.Ended) (hc : c.Fair)
    (h : (typeParamEnd read src c).value = none) : ¬ Quiet (typeParamEnd read src c).notes := by
  obtain ⟨b, hb⟩ := eat_value src c .comma
  have hf := ((Steady.eat .comma).moves he c).fair hc
  unfold typeParamEnd at h ⊢
  rw [bind_of_some hb] at h ⊢
  dsimp only at h ⊢
  rw [quiet_append]
  refine fun hq => ?_
  generalize (eat .comma src c).cursor = e at h hq hf
  replace hq := hq.2
  rw [peek_bind] at h hq
  cases hk : (e.rest.headD src.stop).kind with
  | gt =>
    rw [hk] at h hq
    exact (Steady.bump.bind fun _ => Steady.pure _).loud he e hf h hq
  | gtEq =>
    rw [hk] at h
    dsimp only at h
    rw [bind_of_some bumpHalf_value] at h
    cases h
  | word =>
    rw [hk] at h
    cases h
  | _ =>
    rw [hk] at h hq
    exact (Steady.unexpected _).loud he e hf h hq

/-- One round of them only moves forward. -/
theorem typeParamStep_sound (hg : Advancing g) (read : List TypeRef) :
    Sound (typeParamStep g read) where
  moves {src} he c := by
    unfold typeParamStep
    cases hv : (g.type src c).value with
    | none => exact (bind_of_none hv).symm ▸ hg.type.moves he c
    | some param =>
      rw [bind_of_some hv]
      exact typeParamEnd_moves _ he (hg.type.moves he c) (hg.type_eats he c (by simp [hv])) |>.1
  loud {src} he c hc := by
    unfold typeParamStep
    cases hv : (g.type src c).value with
    | none =>
      rw [bind_of_none hv]
      exact fun _ => hg.type.loud he c hc hv
    | some param =>
      rw [bind_of_some hv, quiet_append]
      exact fun hn hq => typeParamEnd_loud _ he ((hg.type.moves he c).fair hc) hn hq.2

/-- It takes a token at least. -/
theorem typeParamStep_eats (hg : Advancing g) (read : List TypeRef) :
    Eats (typeParamStep g read) := by
  intro src he c h
  cases hv : (g.type src c).value with
  | none =>
    rw [typeParamStep, bind_of_none hv] at h
    exact absurd rfl h
  | some param =>
    rw [typeParamStep, bind_of_some hv]
    exact typeParamEnd_moves _ he (hg.type.moves he c) (hg.type_eats he c (by simp [hv])) |>.2

/-- So the parameters only move forward. -/
theorem typeParams_sound (hg : Advancing g) : Sound (typeParams g) :=
  .loop (Eats.advances (typeParamStep_eats hg)) (typeParamStep_sound hg) []

/-- So does a type. -/
theorem typeRef_sound (hg : Advancing g) : Sound (typeRef g) := by
  refine .bind Still.mark.sound fun m => ?_
  refine .bind Still.peek.sound fun _ => .bind (Steady.name _).sound fun _ => ?_
  refine .bind Still.ahead.sound fun _ => ?_
  refine .ite ?_ ?_
  · refine .bind Steady.bump.sound fun _ => .bind (typeParams_sound hg) fun _ => ?_
    exact .bind (Still.spanFrom m).sound fun _ => (Steady.pure _).sound
  · refine .bind (Steady.pure _).sound fun _ => .bind (Still.spanFrom m).sound fun _ => ?_
    exact (Steady.pure _).sound

/-! ### Lists and references -/

/-- One round of the elements ends between two tokens. -/
theorem element_steady (hg : Advancing g) (e : Elements) : Steady (element g e) := by
  refine .bind Still.peek.steady fun token => ?_
  split
  · exact .pure _
  · exact .pure _
  · exact .bind .bump fun _ => .pure _
  · have item : Steady (do
        let m ← mark
        let item ← orRecover g.expr (Expr.error <$> recoverElement m)
        pure (.inl { e with reversed := item :: e.reversed, commaDue := true }) :
          Parser (Elements ⊕ Elements)) :=
      .orCut hg.expr (cut_recoverElement.map _) fun _ => .pure _
    exact .ite (.bind (Still.report _ _).steady fun _ => item) item

/-- A closing parenthesis that nothing was read before is not cut out of a list. -/
theorem recoverElement_lt {m : Mark} (hm : m.count = c.count) (he : src.Ended)
    (hk : (c.rest.headD src.stop).kind ≠ .eof) (h : (recoverElement m src c).value ≠ none) :
    (recoverElement m src c).cursor.rest.length < c.rest.length := by
  have hstill : ¬ m.count < c.count := hm ▸ Nat.lt_irrefl _
  by_cases hr : (c.rest.headD src.stop).kind = .rparen
  · obtain ⟨t, ts, hc, ht⟩ := exists_rest he hk
    have hl : leave m (some .rparen) src c = ⟨some (), c, []⟩ := leave_kept hstill (by rw [hr])
    have hgap : Recovery.elementGap 0 c.rest = ⟨0, false⟩ := by
      rw [hr] at ht
      simp only [hc, Recovery.elementGap, ← ht]
    rw [recoverElement, bind_of_some (by rw [hl]), hl] at h
    replace h : ((skip (Recovery.elementGap 0 c.rest).length >>= fun _ =>
        if (Recovery.elementGap 0 c.rest).closed then errorFrom m else abort) src c).value ≠
          none := h
    rw [hgap] at h
    exact absurd rfl h
  · have hq : Plain (do
        let gap := Recovery.elementGap 0 (← ahead)
        skip gap.length
        if gap.closed then errorFrom m else abort) :=
      .bind Still.ahead.plain fun _ => .bind (.skip _) fun _ =>
        .ite (Still.errorFrom m).plain .abort
    exact leave_then_lt he hstill (by simpa using hr) hk hq

/-- A round that goes on has taken a token. -/
theorem element_advances (hg : Advancing g) : Advances (element g) := by
  intro src he e e' c h
  unfold element at h ⊢
  rw [peek_bind] at h ⊢
  have item (hk : (c.rest.headD src.stop).kind ≠ .eof) :=
    orCut_lt (c := c) hg.expr hg.expr_eats (cut_recoverElement.map Expr.error)
      (fun item => Steady.pure (Sum.inl (β := Elements)
        { e with reversed := item :: e.reversed, commaDue := true })) he
      fun m hm hv => by
        rw [map_run] at hv ⊢
        exact recoverElement_lt hm he hk (by simpa using hv)
  cases hk : (c.rest.headD src.stop).kind with
  | rbracket | eof =>
    rw [hk] at h
    cases h
  | comma => exact bump_then_lt (Steady.pure _).sound he (rest_ne_nil he (by rw [hk]; simp))
  | _ =>
    rw [hk] at h
    dsimp only at h ⊢
    by_cases hd : e.commaDue = true
    · rw [if_pos hd] at h ⊢
      exact item (by rw [hk]; simp) (h ▸ Option.some_ne_none _)
    · rw [if_neg hd] at h ⊢
      exact item (by rw [hk]; simp) (h ▸ Option.some_ne_none _)

/-- So the elements end between two tokens. -/
theorem elements_steady (hg : Advancing g) : Steady (elements g) :=
  .loop (element_advances hg) (element_steady hg) {}

/-- So do the brackets around them. -/
theorem bracketed_steady (hg : Advancing g) : Steady (bracketed g) := by
  refine .bind (.expect _ _) fun _ => .bind (elements_steady hg) fun _ => ?_
  exact .bind (.expect _ _) fun _ => .pure _

/-- They start with a bracket. -/
theorem bracketed_eats (hg : Advancing g) : Eats (bracketed g) := by
  refine .bind (.expect (by simp) _) fun _ => .bind (elements_steady hg).sound fun _ => ?_
  exact .bind (Steady.expect _ _).sound fun _ => (Steady.pure _).sound

/-- One step of a path ends between two tokens. -/
theorem suffix_steady (hg : Advancing g) (read : List Suffix) : Steady (suffix g read) := by
  refine .bind Still.ahead.steady fun ts => .ite (.bind Still.peek.steady fun token => ?_) (.pure _)
  split
  · exact .bind .bump fun _ => .bind hg.expr fun _ => .bind (.expect _ _) fun _ => .pure _
  · exact .bind .bump fun _ => .bind (.name _) fun _ => .pure _
  · exact .bind .bump fun _ => .bind (.name _) fun _ => .pure _

/-- A step that goes on has taken a token. -/
theorem suffix_advances (hg : Advancing g) : Advances (suffix g) := by
  intro src he read read' c h
  unfold suffix at h ⊢
  rw [ahead_bind] at h ⊢
  by_cases hp : Lookahead.continuesPath c.rest = true
  · have hr : c.rest ≠ [] := by
      rintro hr
      rw [hr] at hp
      cases hp
    rw [if_pos hp, peek_bind]
    have name (s : Name → List Suffix ⊕ List Suffix) :
        Sound (Parser.name "a name" >>= fun name => pure (s name)) :=
      .bind (Steady.name _).sound fun _ => (Steady.pure _).sound
    cases hk : (c.rest.headD src.stop).kind with
    | lbracket => exact bump_then_lt (.bind hg.expr.sound fun _ =>
        .bind (Steady.expect _ _).sound fun _ => (Steady.pure _).sound) he hr
    | slash => exact bump_then_lt (name _) he hr
    | _ => exact bump_then_lt (name _) he hr
  · rw [if_neg hp] at h
    cases h

/-- So the steps end between two tokens. -/
theorem suffixes_steady (hg : Advancing g) : Steady (suffixes g) :=
  .loop (suffix_advances hg) (suffix_steady hg) []

/-- The sign of a scope is one token, or missing. -/
theorem scopeMark_steady : Steady scopeMark := by
  refine .bind .bump fun _ => .bind Still.ahead.steady fun _ => ?_
  refine .ite ?_ ?_
  · refine .bind .bump fun _ => .bind Still.ahead.steady fun _ => ?_
    exact .ite (.pure _) (.unexpected _)
  · refine .bind (.unexpected _) fun _ => .bind Still.ahead.steady fun _ => ?_
    exact .ite (.pure _) (.unexpected _)

/-- A path ends between two tokens. -/
theorem reference_steady (hg : Advancing g) : Steady (reference g) := by
  have key (scope : Scope) (m : Mark) : Steady (do
      let name ← name "a reference name"
      let suffixes ← suffixes g
      let kind : SegmentKind := if scope = .none then .terminal else .nested
      pure ⟨scope, Reference.segmentsOf name kind suffixes, ← spanFrom m⟩ : Parser Reference) :=
    .bind (.name _) fun _ => .bind (suffixes_steady hg) fun _ => .bind (Still.spanFrom m).steady
      fun _ => .pure _
  exact .bind Still.mark.steady fun m => .bind Still.peek.steady fun _ =>
    .ite (.bind scopeMark_steady fun _ => key _ m) (key _ m)

/-- So does whatever a name and a bracket start. -/
theorem vectorOrPath_steady (hg : Advancing g) : Steady (vectorOrPath g) := by
  refine .bind Still.mark.steady fun m => .bind (.name _) fun _ => .bind (bracketed_steady hg)
    fun e => .bind (Still.spanFrom m).steady fun _ => .bind Still.ahead.steady fun _ => ?_
  split
  · refine .ite ?_ (.pure _)
    refine .bind (suffixes_steady hg) fun _ => .bind (Still.spanFrom m).steady fun _ => ?_
    exact .pure _
  · exact .pure _

/-! ### Declarations -/

/-- An assignment ends between two tokens or leaves a problem. -/
theorem assignment_steady (hg : Advancing g) : Steady (assignment g) := by
  refine .bind Still.mark.steady fun m => ?_
  refine .bind (.name _) fun name => .bind (.expectKeyword _) fun _ => .bind hg.expr fun value => ?_
  exact .bind (Still.spanFrom m).steady fun _ => .pure _

/-- It starts with its name. -/
theorem assignment_eats (hg : Advancing g) : Eats (assignment g) := by
  refine .bind_right Still.mark.sound fun m => ?_
  refine .bind (.name _) fun name => .bind (Steady.expectKeyword _).sound fun _ => ?_
  refine .bind hg.expr.sound fun value => .bind (Still.spanFrom m).sound fun _ => ?_
  exact (Steady.pure _).sound

/-- The equals sign that a `>=` leaves behind is read before anything else. -/
theorem Steady.overHalf {k : α → Bool → Parser β} (hp : Sound p) (hk : ∀ a b, Steady (k a b)) :
    Steady (p >>= fun a => Parser.eat .eq >>= fun b => k a b) where
  toSound := hp.bind fun a => .bind (Steady.eat _).sound fun b => (hk a b).sound
  lands {src} he c := by
    cases hv : (p src c).value with
    | none =>
      rw [bind_of_none hv]
      exact fun h => absurd rfl h
    | some a =>
      rw [bind_of_some hv]
      dsimp only
      intro h
      rcases hp.moves he c with ⟨u, hu⟩ | hs
      · obtain ⟨v, hv⟩ := ((Steady.eat .eq).bind (hk a)).lands he _ h
        exact ⟨u ++ v, hu.trans hv⟩
      · obtain ⟨t, ts, hr, ht⟩ := hs.head
        obtain ⟨b, hb⟩ := eat_value src (p src c).cursor .eq
        rw [bind_of_some hb] at h ⊢
        dsimp only at h ⊢
        obtain ⟨v, hv⟩ := (Steady.eat .eq).lands he (p src c).cursor (by simp [hb])
        obtain ⟨w, hw⟩ := (hk a b).lands he _ h
        have hlt : (Parser.eat .eq src (p src c).cursor).cursor.rest.length <
            (p src c).cursor.rest.length := by
          rw [eat_run, if_pos (by rw [hr, List.headD_cons, ht]; rfl)]
          exact bump_then_lt (Steady.pure _).sound he (by rw [hr]; exact List.cons_ne_nil _ _)
        obtain ⟨x, hx⟩ := hs.passes hv fun hnil => by
          subst hnil
          rw [hv.nil] at hlt
          exact absurd hlt (Nat.lt_irrefl _)
        exact ⟨x ++ w, hx.trans hw⟩

/-- What follows the name of a member ends between two tokens or leaves a problem. -/
theorem memberTail_steady (hg : Advancing g) (m : Mark) (name : Name) :
    Steady (memberTail g m name) := by
  have value (k : Expr → Span → Member) : Steady (do
      let value ← g.expr
      pure (k value (← spanFrom m))) :=
    .bind hg.expr fun _ => .bind (Still.spanFrom m).steady fun _ => .pure _
  refine .bind (.eat _) fun _ => .ite (.bind (.eat _) fun _ => .ite (value _) ?_)
    (.bind (.expect _ _) fun _ => value _)
  refine .overHalf (typeRef_sound hg) fun type b => ?_
  exact .ite (value _) (.bind (Still.spanFrom m).steady fun _ => .pure _)

/-- So does a member. -/
theorem member_steady (hg : Advancing g) : Steady (member g) :=
  .bind Still.mark.steady fun m => .bind (.name _) fun name => memberTail_steady hg m name

/-- It starts with its name. -/
theorem member_eats (hg : Advancing g) : Eats (member g) :=
  .bind_right Still.mark.sound fun m => .bind (.name _) fun name =>
    (memberTail_steady hg m name).sound

/-- What follows the name of a parameter ends between two tokens, whatever it starts with. -/
theorem param_behind_name (hg : Advancing g) (m : Mark) (name : Name) : Steady (do
    match (← peek).kind with
    | .colon | .eq => memberTail g m name
    | _ => pure ⟨name, none, none, false, ← spanFrom m⟩) := by
  refine .bind Still.peek.steady fun token => ?_
  split
  · exact memberTail_steady hg m name
  · exact memberTail_steady hg m name
  · exact .bind (Still.spanFrom m).steady fun _ => .pure _

/-- So does a parameter. -/
theorem param_steady (hg : Advancing g) : Steady (param g) :=
  .bind Still.mark.steady fun m => .bind (.name _) fun name => param_behind_name hg m name

/-- It starts with its name. -/
theorem param_eats (hg : Advancing g) : Eats (param g) :=
  .bind_right Still.mark.sound fun m => .bind (.name _) fun name =>
    (param_behind_name hg m name).sound

/-- One round of the parameters ends between two tokens. -/
theorem paramStep_steady (hg : Advancing g) (read : List Member) : Steady (paramStep g read) := by
  refine .bind Still.peek.steady fun token => ?_
  split
  · exact .pure _
  · exact .pure _
  · exact .bind .bump fun _ => .pure _
  · exact .bind (param_steady hg) fun _ => .pure _
  · exact .unexpected _

/-- A round that goes on has taken a token. -/
theorem paramStep_advances (hg : Advancing g) : Advances (paramStep g) := by
  intro src he read read' c h
  unfold paramStep at h ⊢
  rw [peek_bind] at h ⊢
  cases hk : (c.rest.headD src.stop).kind with
  | rbracket | eof =>
    rw [hk] at h
    cases h
  | comma => exact bump_then_lt (Steady.pure _).sound he (rest_ne_nil he (by rw [hk]; simp))
  | word =>
    rw [hk] at h
    exact (param_eats hg).bind (fun _ => (Steady.pure _).sound) he c (h ▸ Option.some_ne_none _)
  | _ =>
    rw [hk] at h
    cases h

/-- So the parameters end between two tokens. -/
theorem params_steady (hg : Advancing g) : Steady (params g) :=
  .loop (paramStep_advances hg) (paramStep_steady hg) []

variable {body : Parser Object}

/-- A template ends between two tokens if its body does. -/
theorem template_steady (hg : Advancing g) (hb : Steady body) : Steady (template g body) := by
  refine .bind Still.mark.steady fun m => ?_
  refine .bind (.expectKeyword _) fun _ => .bind (.name _) fun name => ?_
  refine .bind (.expect _ _) fun _ => .bind (params_steady hg) fun params => ?_
  refine .bind (.expect _ _) fun _ => .bind (.expectKeyword _) fun _ => .bind hb fun object => ?_
  exact .bind (Still.spanFrom m).steady fun _ => .pure _

/-- It starts with its keyword. -/
theorem template_eats (hg : Advancing g) (hb : Steady body) : Eats (template g body) := by
  refine .bind_right Still.mark.sound fun m => ?_
  refine .bind (.expectKeyword _) fun _ => ?_
  refine ?_
  refine Steady.sound ?_
  refine .bind (.name _) fun name => .bind (.expect _ _) fun _ => ?_
  refine .bind (params_steady hg) fun params => .bind (.expect _ _) fun _ => ?_
  refine .bind (.expectKeyword _) fun _ => .bind hb fun object => ?_
  exact .bind (Still.spanFrom m).steady fun _ => .pure _

/-- A modifier with what follows ends between two tokens. -/
theorem visibility_steady (hg : Advancing g) (hb : Steady body) : Steady (visibility g body) := by
  refine .bind Still.mark.steady fun m => .bind Still.peek.steady fun token => ?_
  split
  · exact .unexpected _
  · refine .bind (.name _) fun name => .bind Still.ahead.steady fun _ => ?_
    refine .ite ?_ ?_
    · refine .bind (.map _ (template_steady hg hb)) fun _ => ?_
      exact .bind (Still.spanFrom m).steady fun _ => .pure _
    · refine .bind (.map _ (assignment_steady hg)) fun _ => ?_
      exact .bind (Still.spanFrom m).steady fun _ => .pure _

/-- It is a token by itself. -/
theorem visibility_eats (hg : Advancing g) (hb : Steady body) : Eats (visibility g body) := by
  refine .bind_right Still.mark.sound fun m => .bind_right Still.peek.sound fun token => ?_
  split
  · exact .unexpected _
  · refine .bind (.name _) fun name => .bind Still.ahead.sound fun _ => ?_
    refine .ite ?_ ?_
    · refine .bind (Steady.map _ (template_steady hg hb)).sound fun _ => ?_
      exact .bind (Still.spanFrom m).sound fun _ => (Steady.pure _).sound
    · refine .bind (Steady.map _ (assignment_steady hg)).sound fun _ => ?_
      exact .bind (Still.spanFrom m).sound fun _ => (Steady.pure _).sound

/-- A path has a name at least. -/
theorem reference_eats (hg : Advancing g) : Eats (reference g) := by
  have key (scope : Scope) (m : Mark) : Eats (do
      let name ← name "a reference name"
      let suffixes ← suffixes g
      let kind : SegmentKind := if scope = .none then .terminal else .nested
      pure ⟨scope, Reference.segmentsOf name kind suffixes, ← spanFrom m⟩ : Parser Reference) :=
    .bind (.name _) fun _ => .bind (suffixes_steady hg).sound fun _ =>
      .bind (Still.spanFrom m).sound fun _ => (Steady.pure _).sound
  exact .bind_right Still.mark.sound fun m => .bind_right Still.peek.sound fun _ =>
    .ite (.bind_right scopeMark_steady.sound fun _ => key _ m) (key _ m)

/-- An entry ends between two tokens or leaves a problem. -/
theorem entry_steady (hg : Advancing g) (hb : Steady body) : Steady (entry g body) :=
  .bind Still.ahead.steady fun _ => .ite (.map _ (assignment_steady hg))
    (.ite (.map _ (visibility_steady hg hb)) (.ite (.map _ (member_steady hg))
      (.ite (.map _ (reference_steady hg)) (.abortHere fun t => .noMember t.kind.name))))

/-- It takes a token at least. -/
theorem entry_eats (hg : Advancing g) (hb : Steady body) : Eats (entry g body) :=
  .bind_right Still.ahead.sound fun _ => .ite (.map _ (assignment_eats hg))
    (.ite (.map _ (visibility_eats hg hb)) (.ite (.map _ (member_eats hg))
      (.ite (.map _ (reference_eats hg)) fun _ _ _ h => absurd rfl h)))

/-- One round of the entries ends between two tokens. -/
theorem entryStep_steady (hg : Advancing g) (hb : Steady body) (read : List Entry) :
    Steady (entryStep g body read) := by
  refine .bind Still.peek.steady fun token => ?_
  split
  · exact .bind .bump fun _ => .pure _
  · exact .unexpected _
  · exact .bind (Still.report _ _).steady fun _ => .bind .bump fun _ => .pure _
  · exact .orCut (entry_steady hg hb) (cut_recoverEntry.map _) fun _ => .pure _

/-- What is cut out of an object has a token at least, except in front of its end. -/
theorem recoverEntry_lt {m : Mark} (hm : m.count = c.count) (he : src.Ended)
    (hk : (c.rest.headD src.stop).kind ≠ .eof) (hp : (c.rest.headD src.stop).kind ≠ .rparen) :
    (recoverEntry m src c).cursor.rest.length < c.rest.length := by
  have hq : Plain (do
      let gap := Recovery.entryGap 0 (← ahead)
      skip gap.length
      if gap.closed then
        let node ← errorFrom m
        emit (.recoveredEntry node.span)
        pure node
      else abort) :=
    .bind Still.ahead.plain fun _ => .bind (.skip _) fun _ =>
      .ite (.bind (Still.errorFrom m).plain fun _ => .bind (Still.emit _).plain fun _ =>
        (Still.pure _).plain) .abort
  exact leave_then_lt he (hm ▸ Nat.lt_irrefl _) (by simpa using hp) hk hq

/-- A round that goes on has taken a token. -/
theorem entryStep_advances (hg : Advancing g) (hb : Steady body) : Advances (entryStep g body) := by
  intro src he read read' c h
  unfold entryStep at h ⊢
  rw [peek_bind] at h ⊢
  have entry (hk : (c.rest.headD src.stop).kind ≠ .eof)
      (hp : (c.rest.headD src.stop).kind ≠ .rparen) :=
    orCut_lt (c := c) (entry_steady hg hb) (entry_eats hg hb) (cut_recoverEntry.map Entry.error)
      (fun entry => Steady.pure (Sum.inl (β := List Entry) (entry :: read))) he fun m hm _ => by
        rw [map_run]
        exact recoverEntry_lt hm he hk hp
  cases hk : (c.rest.headD src.stop).kind with
  | rparen =>
    refine bump_then_lt (Steady.pure _).sound he (rest_ne_nil he ?_)
    rw [hk]
    simp
  | eof =>
    rw [hk] at h
    cases h
  | comma =>
    have hr : c.rest ≠ [] := rest_ne_nil he (by rw [hk]; simp)
    exact bump_then_lt (Steady.pure (Sum.inl (β := List Entry) read)).sound he hr
  | _ =>
    rw [hk] at h
    exact entry (by rw [hk]; simp) (by rw [hk]; simp) (h ▸ Option.some_ne_none _)

/-- So an object ends between two tokens. -/
theorem objectWith_steady (hg : Advancing g) (hb : Steady body) : Steady (objectWith g body) := by
  refine .bind Still.mark.steady fun m => ?_
  refine .bind (.name _) fun name => .bind (.expect _ _) fun _ => ?_
  refine .bind (.loop (entryStep_advances hg hb) (entryStep_steady hg hb) []) fun _ => ?_
  exact .bind (Still.spanFrom m).steady fun _ => .pure _

/-- It starts with its name. -/
theorem objectWith_eats (hg : Advancing g) (hb : Steady body) : Eats (objectWith g body) := by
  refine .bind_right Still.mark.sound fun m => ?_
  refine .bind (.name _) fun name => ?_
  refine ?_
  refine Steady.sound ?_
  refine .bind (.expect _ _) fun _ => ?_
  refine .bind (.loop (entryStep_advances hg hb) (entryStep_steady hg hb) []) fun _ => ?_
  exact .bind (Still.spanFrom m).steady fun _ => .pure _

end Parser
end Ndf
