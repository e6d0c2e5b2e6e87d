/-
# No source without problems ends in a colon

What stands behind a colon belongs to it: a type, a value, the second branch of a conditional, a
guid payload.  So if the last token ahead is a colon, every clean run stops somewhere before it
(`Keeps`).  All other signs are read where they are known not to be colons, and what follows a
colon reads a token itself (`Keeps.bind_eats`).

For the tokens of a text this means that `guid :` is never left open at the end of a source without
problems, so a brace at the front of the next one is a comment.
-/

import Ndf.Proofs.Concat.Twin

namespace Ndf

/-- The last token ahead is a colon, and no broken token is ahead that was reported. -/
def Cursor.Dangling (c : Cursor) : Prop := c.Fair ∧ ∃ t ∈ c.rest.getLast?, t.kind = .colon

/-- Where the last token ahead is a colon, there is one ahead. -/
theorem Cursor.Dangling.rest_ne_nil {c : Cursor} (h : c.Dangling) : c.rest ≠ [] := by
  obtain ⟨-, t, ht, -⟩ := h
  intro hr
  rw [hr] at ht
  cases ht

namespace Parser

variable {α β σ : Type} {p : Parser α} {k : α → Parser β} {src : Source} {c : Cursor} {g : Grammar}

/-! ### Combinators -/

/-- From here a clean run stops in front of the last token if that is a colon. -/
def KeepsAt (src : Source) (c : Cursor) (p : Parser α) : Prop :=
  c.Dangling → Clean (p src c) → (p src c).cursor.Dangling

/-- A clean run stops in front of the last token if that is a colon. -/
def Keeps (p : Parser α) : Prop := ∀ ⦃src : Source⦄, src.Ended → ∀ (c : Cursor), KeepsAt src c p

/-- As `Keeps`, but the colon may be read if nothing else is. -/
def Nears (p : Parser α) : Prop := ∀ ⦃src : Source⦄, src.Ended → ∀ (c : Cursor), c.Dangling →
  (p src c).cursor.Dangling ∨ (p src c).cursor.rest = []

/-- Who stands still leaves the colon where it is. -/
theorem Still.keeps (h : Still p) : Keeps p := fun _ _ c hd _ => by rwa [(h _ c).1]

/-- Who finds a problem need not keep the colon. -/
theorem Loud.keeps (h : Loud p) : Keeps p := fun _ _ _ _ hc => absurd hc.2 (h _ _)

/-- Returning a value reads nothing. -/
theorem Keeps.pure (a : α) : Keeps (pure a : Parser α) := (Still.pure a).keeps

/-- Giving up finds a problem. -/
theorem Keeps.unexpected (due : String) : Keeps (unexpected due : Parser α) :=
  fun _ _ _ _ hc => absurd rfl hc.1

/-- In a sequence the second parser starts where the first one stopped, which is before the colon.
-/
theorem KeepsAt.bind (hp : KeepsAt src c p)
    (hk : ∀ a, KeepsAt src (p src c).cursor (k a)) : KeepsAt src c (p >>= k) := by
  intro hd hc
  obtain ⟨a, ha⟩ := Option.ne_none_iff_exists'.1 hc.of_bind_left.1
  have hfirst := hp hd hc.of_bind_left
  have hnext := hk a hfirst (hc.of_bind_right ha)
  rwa [bind_of_some ha]

/-- The same from all places. -/
theorem Keeps.bind (hp : Keeps p) (hk : ∀ a, Keeps (k a)) : Keeps (p >>= k) :=
  fun _ he c => (hp he c).bind fun a => hk a he _

/-- What reads a token has one in front of it, so the colon was not read before. -/
theorem Keeps.bind_eats (hp : Nears p) (hk : ∀ a, Keeps (k a)) (he : ∀ a, Eats (k a)) :
    Keeps (p >>= k) := by
  intro src hend c hd hc
  obtain ⟨a, ha⟩ := Option.ne_none_iff_exists'.1 hc.of_bind_left.1
  have hright := hc.of_bind_right ha
  rw [bind_of_some ha]
  rcases hp hend c hd with hfirst | hnil
  · exact hk a hend _ hfirst hright
  · have hlt := he a hend _ hright.1
    rw [hnil] at hlt
    exact absurd hlt (Nat.not_lt_zero _)

/-- A function of the value reads nothing. -/
theorem Keeps.map (f : α → β) (hp : Keeps p) : Keeps (f <$> p) := hp.bind fun a => .pure (f a)

/-- Of two branches only the one taken counts. -/
theorem KeepsAt.ite {P : Prop} [Decidable P] {p q : Parser α} (hp : P → KeepsAt src c p)
    (hq : ¬ P → KeepsAt src c q) : KeepsAt src c (if P then p else q) := by
  split
  · exact hp ‹_›
  · exact hq ‹_›

/-- The same from all places. -/
theorem Keeps.ite {P : Prop} [Decidable P] {p q : Parser α} (hp : Keeps p) (hq : Keeps q) :
    Keeps (if P then p else q) := fun _ he c => .ite (fun _ => hp he c) fun _ => hq he c

/-- What is read may depend on the next token. -/
theorem Keeps.peek {f : Token → Parser β} (h : ∀ ⦃src : Source⦄, src.Ended → ∀ (c : Cursor),
    KeepsAt src c (f (c.rest.headD src.stop))) : Keeps (peek >>= f) := h

/-- What is read may depend on the tokens ahead. -/
theorem Keeps.ahead {f : List Token → Parser β} (h : ∀ ⦃src : Source⦄, src.Ended →
    ∀ (c : Cursor), KeepsAt src c (f c.rest)) : Keeps (ahead >>= f) := h

/-- A run that recovers has found a problem. -/
theorem Keeps.orRecover {q : Parser α} (hp : Keeps p) (hsound : Sound p) :
    Keeps (orRecover p q) := by
  intro src he c hd hc
  cases hv : (p src c).value with
  | some a =>
    rw [orRecover_of_some hv] at hc ⊢
    exact hp he c hd hc
  | none =>
    rw [orRecover_of_none hv] at hc
    exact absurd ((quiet_append _ _).1 hc.2).1 (hsound.loud he c hd.1 hv)

/-- A level deeper the same colon is last. -/
theorem Keeps.nested {deep : Parser α} (hd : Keeps deep) (hs : Sound p) (hp : Keeps p) :
    Keeps (nested deep p) := by
  intro src he c
  rcases Nat.lt_or_ge c.depth maxNesting with h | h
  · rw [KeepsAt, nested_of_lt hs he h]
    exact hp he c.down
  · rw [KeepsAt, nested_of_le h]
    exact hd he c

/-- If each round keeps the colon, so does the loop. -/
theorem Keeps.loop {step : σ → Parser (σ ⊕ β)} (ha : Advances step) (h : ∀ s, Keeps (step s))
    (s : σ) : Keeps (loop step s) := by
  intro src he
  refine loop_rec ha he (P := fun _ c o => c.Dangling → Clean o → o.cursor.Dangling)
    (fun s c ih hd hc => ?_) s
  obtain ⟨r, hr⟩ := Option.ne_none_iff_exists'.1 hc.of_bind_left.1
  have hfirst := h s he c hd hc.of_bind_left
  have hright := hc.of_bind_right hr
  rw [bind_of_some hr]
  cases r with
  | inl s' => exact ih s' hr hfirst hright
  | inr b => exact hfirst

/-! ### Single tokens -/

/-- Behind one more token the colon is still last, unless it was that token. -/
theorem dangling_tail {t : Token} {ts : List Token} (hd : c.Dangling) (hr : c.rest = t :: ts)
    (d : Cursor) (hts : d.rest = ts) : d.Dangling ∨ d.rest = [] ∧ t.kind = .colon := by
  obtain ⟨hfair, u, hu, hk⟩ := hd
  subst hts
  cases hts : d.rest with
  | nil =>
    rw [hr, hts] at hu
    obtain rfl : t = u := by simpa using hu
    exact .inr ⟨rfl, hk⟩
  | cons v vs =>
    refine .inl ⟨fun x hx => hfair x (by rw [hr]; exact List.mem_cons_of_mem t hx), u, ?_, hk⟩
    rw [hr, hts, List.getLast?_cons_cons] at hu
    rwa [hts]

/-- One token read passes at most the colon itself. -/
theorem Nears.bump : Nears bump := by
  intro src _ c hd
  obtain ⟨t, ts, hr⟩ := List.exists_cons_of_ne_nil hd.rest_ne_nil
  rw [bump_run hr]
  exact (dangling_tail hd hr ⟨ts, c.count + 1, t.span, c.depth⟩ rfl).imp_right And.left

/-- Reading a token that is no colon keeps the last one. -/
theorem KeepsAt.bump (h : (c.rest.headD src.stop).kind ≠ .colon) : KeepsAt src c bump := by
  intro hd _
  obtain ⟨t, ts, hr⟩ := List.exists_cons_of_ne_nil hd.rest_ne_nil
  rw [hr, List.headD_cons] at h
  rw [bump_run hr]
  exact (dangling_tail hd hr ⟨ts, c.count + 1, t.span, c.depth⟩ rfl).resolve_right fun hn => h hn.2

/-- So does reading half of a token that is none. -/
theorem KeepsAt.bumpHalf (h : (c.rest.headD src.stop).kind ≠ .colon) :
    KeepsAt src c bumpHalf := by
  intro hd _
  obtain ⟨t, ts, hr⟩ := List.exists_cons_of_ne_nil hd.rest_ne_nil
  rw [hr, List.headD_cons] at h
  obtain ⟨hfair, u, hu, hk⟩ :=
    (dangling_tail hd hr ⟨ts, c.count + 1, t.span, c.depth⟩ rfl).resolve_right fun hn => h hn.2
  obtain ⟨v, vs, rfl⟩ := List.exists_cons_of_ne_nil (l := ts) (by rintro rfl; cases hu)
  simp only [Parser.bumpHalf, hr]
  refine ⟨fun x hx e he => ?_, u, by rwa [List.getLast?_cons_cons], hk⟩
  rcases List.mem_cons.1 hx with rfl | hx
  · cases he
  · exact hfair x hx e he

/-- Trying for a sign passes at most the colon. -/
theorem Nears.eat (kind : TokenKind) : Nears (eat kind) := by
  intro src he c hd
  rw [eat_run]
  split
  · rw [bind_of_some bump_value]
    exact Nears.bump he c hd
  · exact .inl hd

/-- Trying for another sign keeps it. -/
theorem Keeps.eat {kind : TokenKind} (h : kind ≠ .colon) : Keeps (eat kind) := by
  intro src he c
  rw [KeepsAt, eat_run]
  refine KeepsAt.ite (fun hk => ?_) fun _ => Keeps.pure _ he c
  exact KeepsAt.bind (.bump (beq_iff_eq.1 hk ▸ h)) fun _ => Keeps.pure _ he _

/-- So does a sign that is due. -/
theorem Keeps.expect {kind : TokenKind} (h : kind ≠ .colon) (due : String) :
    Keeps (expect kind due) := by
  intro src he c
  rw [KeepsAt, expect_run]
  exact KeepsAt.ite (fun hk => .bump (beq_iff_eq.1 hk ▸ h)) fun _ => Keeps.unexpected _ he c

/-- A sign that is due passes at most the colon. -/
theorem Nears.expect (kind : TokenKind) (due : String) : Nears (expect kind due) := by
  intro src he c hd
  rw [expect_run]
  split
  · exact Nears.bump he c hd
  · exact .inl hd

/-- A keyword is no colon. -/
theorem Keeps.expectKeyword (keyword : Keyword) : Keeps (expectKeyword keyword) := by
  intro src he c
  rw [KeepsAt, expectKeyword_run]
  refine KeepsAt.ite (fun hk => .bump fun hcolon => ?_) fun _ => Keeps.unexpected _ he c
  rw [hcolon] at hk
  cases hk

/-- Nor is a name. -/
theorem Keeps.name (due : String) : Keeps (name due) := by
  refine .peek fun src he c => ?_
  split
  · rename_i hk
    exact KeepsAt.bind (.bump (by rw [hk]; simp)) fun _ => Keeps.pure _ he _
  · exact Keeps.unexpected _ he c

end Parser

/-- The level below stops in front of a colon at the end. -/
structure Keeping (g : Grammar) : Prop where
  advancing : Parser.Advancing g
  expr : Parser.Keeps g.expr
  operand : Parser.Keeps g.operand
  type : Parser.Keeps g.type

namespace Parser

variable {src : Source} {c : Cursor} {g : Grammar} {body : Parser Object}

/-- A sign that was seen ahead is no colon. -/
theorem KeepsAt.bump_sign {kind : TokenKind} (hk : Lookahead.isKind c.rest 0 kind = true)
    (h : kind ≠ .colon) : KeepsAt src c Parser.bump := by
  refine .bump ?_
  rcases hr : c.rest with _ | ⟨t, ts⟩
  · rw [hr] at hk
    cases hk
  · rw [hr, Lookahead.isKind, Lookahead.kind?_zero, beq_iff_eq, Option.some.injEq] at hk
    rwa [List.headD_cons, hk]

/-! ### Types, lists and references -/

/-- Commas and the signs that end a list of parameters are no colons. -/
theorem typeParamEnd_keeps (read : List TypeRef) : Keeps (typeParamEnd read) := by
  refine .bind (.eat (by simp)) fun _ => .peek fun src he c => ?_
  split
  · rename_i hk
    exact KeepsAt.bind (.bump (by rw [hk]; simp)) fun _ => Keeps.pure _ he _
  · rename_i hk
    exact KeepsAt.bind (.bumpHalf (by rw [hk]; simp)) fun _ => Keeps.pure _ he _
  · exact Keeps.pure _ he c
  · exact Keeps.unexpected _ he c

/-- The parameters of a type stop before a last colon. -/
theorem typeParams_keeps (hg : Keeping g) : Keeps (typeParams g) :=
  .loop (Eats.advances (typeParamStep_eats hg.advancing))
    (fun read => .bind hg.type fun param => typeParamEnd_keeps (param :: read)) []

/-- So does a type. -/
theorem typeRef_keeps (hg : Keeping g) : Keeps (typeRef g) := by
  refine .bind Still.mark.keeps fun m => .bind Still.peek.keeps fun _ => .bind (.name _) fun _ =>
    .ahead fun src he c => ?_
  have close (k : Span → TypeRef) : Keeps (do return k (← spanFrom m)) :=
    .bind (Still.spanFrom m).keeps fun _ => .pure _
  refine KeepsAt.ite (fun hsign => ?_) fun _ => close _ he c
  rw [Bool.and_eq_true] at hsign
  refine KeepsAt.bind (.bump_sign hsign.1 (by simp)) fun _ => ?_
  exact Keeps.bind (typeParams_keeps hg) (fun _ => close _) he _

/-- An element between brackets stops before it, and a comma is none. -/
theorem element_keeps (hg : Keeping g) (e : Elements) : Keeps (element g e) := by
  refine .peek fun src he c => ?_
  split
  · exact Keeps.pure _ he c
  · exact Keeps.pure _ he c
  · rename_i hk
    exact KeepsAt.bind (.bump (by rw [hk]; simp)) fun _ => Keeps.pure _ he _
  · have item : Keeps (do
        let m ← mark
        let item ← orRecover g.expr (Expr.error <$> recoverElement m)
        pure (.inl { e with reversed := item :: e.reversed, commaDue := true }) :
          Parser (Elements ⊕ Elements)) :=
      .bind Still.mark.keeps fun _ => .bind (hg.expr.orRecover hg.advancing.expr.sound) fun _ =>
        .pure _
    exact KeepsAt.ite (fun _ => Keeps.bind (Still.report _ _).keeps (fun _ => item) he c)
      fun _ => item he c

/-- What stands in brackets ends in a bracket. -/
theorem bracketed_keeps (hg : Keeping g) : Keeps (bracketed g) := by
  refine .bind (.expect (by simp) _) fun _ => ?_
  refine .bind (.loop (element_advances hg.advancing) (element_keeps hg) {}) fun _ => ?_
  exact .bind (.expect (by simp) _) fun _ => .pure _

/-- What continues a path is no colon. -/
theorem continuesPath_ne_colon (h : Lookahead.continuesPath c.rest = true) :
    (c.rest.headD src.stop).kind ≠ .colon := by
  rcases hr : c.rest with _ | ⟨t, ts⟩
  · rw [hr] at h
    cases h
  · rw [hr, Lookahead.continuesPath, Bool.and_eq_true] at h
    rw [List.headD_cons]
    intro hk
    simp [Lookahead.isKind, hk] at h

/-- A step of a path is an index, which ends in a bracket, or a name behind a sign. -/
theorem suffix_keeps (hg : Keeping g) (read : List Suffix) : Keeps (suffix g read) := by
  refine .ahead fun src he c => .ite (fun hp => ?_) fun _ => Keeps.pure _ he c
  have bump : KeepsAt src c bump := .bump (continuesPath_ne_colon hp)
  refine KeepsAt.bind (Still.peek.keeps he c) fun t => ?_
  split
  · exact bump.bind fun _ => Keeps.bind hg.expr
      (fun _ => .bind (.expect (by simp) _) fun _ => .pure _) he _
  · exact bump.bind fun _ => Keeps.bind (.name _) (fun _ => .pure _) he _
  · exact bump.bind fun _ => Keeps.bind (.name _) (fun _ => .pure _) he _

/-- So no path ends in a colon. -/
theorem suffixes_keeps (hg : Keeping g) : Keeps (suffixes g) :=
  .loop (suffix_advances hg.advancing) (suffix_keeps hg) []

/-- A scope that starts with no colon is a sign and a slash. -/
theorem scopeMark_keepsAt (he : src.Ended) (h : (c.rest.headD src.stop).kind ≠ .colon) :
    KeepsAt src c scopeMark := by
  refine KeepsAt.bind (.bump h) fun _ => ?_
  have name : Keeps (do
      let ts ← ahead
      if Lookahead.isWord ts 0 && Lookahead.isJoined ts 0 then pure ()
      else unexpected "a name directly after the scope") :=
    .bind Still.ahead.keeps fun _ => .ite (.pure _) (.unexpected _)
  refine KeepsAt.ite (fun hsign => ?_) fun _ => Keeps.bind (.unexpected _) (fun _ => name) he _
  rw [Bool.and_eq_true] at hsign
  exact KeepsAt.bind (.bump_sign hsign.1 (by simp)) fun _ => name he _

/-- A reference ends in a name or a bracket. -/
theorem reference_keeps (hg : Keeping g) : Keeps (reference g) := by
  have key (scope : Scope) (m : Mark) : Keeps (do
      let name ← name "a reference name"
      let suffixes ← suffixes g
      let kind : SegmentKind := if scope = .none then .terminal else .nested
      pure ⟨scope, Reference.segmentsOf name kind suffixes, ← spanFrom m⟩ : Parser Reference) :=
    .bind (.name _) fun _ => .bind (suffixes_keeps hg) fun _ => .bind (Still.spanFrom m).keeps
      fun _ => .pure _
  refine .bind Still.mark.keeps fun m => .peek fun src he c => ?_
  refine KeepsAt.ite (fun hscope => ?_) fun _ => key _ m he c
  refine KeepsAt.bind (scopeMark_keepsAt he fun hk => ?_) fun _ => key _ m he _
  rw [hk] at hscope
  exact hscope rfl

/-- So does what a name and a bracket start. -/
theorem vectorOrPath_keeps (hg : Keeping g) : Keeps (vectorOrPath g) := by
  refine .bind Still.mark.keeps fun m => .bind (.name _) fun _ => .bind (bracketed_keeps hg)
    fun e => .bind (Still.spanFrom m).keeps fun _ => .bind Still.ahead.keeps fun _ => ?_
  split
  · exact .ite (.bind (suffixes_keeps hg) fun _ => .bind (Still.spanFrom m).keeps fun _ => .pure _)
      (.pure _)
  · exact .pure _

/-! ### Declarations -/

/-- A value ends where its expression does. -/
theorem value_keeps (hg : Keeping g) {α : Type} (m : Mark) (k : Expr → Span → α) :
    Keeps (do
      let value ← g.expr
      return k value (← spanFrom m)) :=
  .bind hg.expr fun _ => .bind (Still.spanFrom m).keeps fun _ => .pure _

/-- A value reads at least one token. -/
theorem value_eats (hg : Keeping g) {α : Type} (m : Mark) (k : Expr → Span → α) :
    Eats (do
      let value ← g.expr
      return k value (← spanFrom m)) :=
  .bind hg.advancing.expr_eats fun _ => .bind (Still.spanFrom m).sound fun _ =>
    (Steady.pure _).sound

/-- An assignment ends where its value does. -/
theorem assignment_keeps (hg : Keeping g) : Keeps (assignment g) := by
  refine .bind Still.mark.keeps fun m => ?_
  refine .bind (.name _) fun name => .bind (.expectKeyword _) fun _ => ?_
  exact value_keeps hg m _

/-- Behind the colon of a member stands an equals sign and a value, or a type. -/
theorem memberTail_keeps (hg : Keeping g) (m : Mark) (name : Name) :
    Keeps (memberTail g m name) := by
  have equals : Sound (eat .eq) := (Steady.eat _).sound
  refine .bind_eats (.eat _) (fun _ => .ite ?_ ?_) fun _ => .ite ?_ ?_
  · refine .bind (.eat (by simp)) fun _ => .ite (value_keeps hg m _) ?_
    refine .bind (typeRef_keeps hg) fun _ => .bind (.eat (by simp)) fun _ => ?_
    exact .ite (value_keeps hg m _) (.bind (Still.spanFrom m).keeps fun _ => .pure _)
  · exact .bind (.expect (by simp) _) fun _ => value_keeps hg m _
  · refine .bind_right equals fun _ => .ite (value_eats hg m _) ?_
    refine .bind (typeRef_eats hg.advancing) fun _ => .bind equals fun _ => ?_
    exact .ite (.bind hg.advancing.expr.sound fun _ => .bind (Still.spanFrom m).sound fun _ =>
      (Steady.pure _).sound) (.bind (Still.spanFrom m).sound fun _ => (Steady.pure _).sound)
  · exact .bind_right (Steady.expect _ _).sound fun _ => value_eats hg m _

/-- A member ends in its type or its value; behind the colon of it one of the two is read. -/
theorem member_keeps (hg : Keeping g) : Keeps (member g) :=
  .bind Still.mark.keeps fun m => .bind (.name _) fun name => memberTail_keeps hg m name

/-- A parameter does so as a member does, or is a name alone. -/
theorem param_keeps (hg : Keeping g) : Keeps (param g) := by
  refine .bind Still.mark.keeps fun m => .bind (.name _) fun name =>
    .bind Still.peek.keeps fun token => ?_
  split
  · exact memberTail_keeps hg m name
  · exact memberTail_keeps hg m name
  · exact .bind (Still.spanFrom m).keeps fun _ => .pure _

/-- A comma behind a parameter is no colon. -/
theorem paramStep_keeps (hg : Keeping g) (read : List Member) : Keeps (paramStep g read) := by
  refine .peek fun src he c => ?_
  split
  · exact Keeps.pure _ he c
  · exact Keeps.pure _ he c
  · rename_i hk
    exact KeepsAt.bind (.bump (by rw [hk]; simp)) fun _ => Keeps.pure _ he _
  · exact Keeps.bind (param_keeps hg) (fun _ => .pure _) he c
  · exact Keeps.unexpected _ he c

/-- A template ends where its body does. -/
theorem template_keeps (hg : Keeping g) (hb : Keeps body) : Keeps (template g body) := by
  refine .bind Still.mark.keeps fun m => ?_
  refine .bind (.expectKeyword _) fun _ => .bind (.name _) fun name => ?_
  refine .bind (.expect (by simp) _) fun _ => ?_
  refine .bind (.loop (paramStep_advances hg.advancing) (paramStep_keeps hg) []) fun _ => ?_
  refine .bind (.expect (by simp) _) fun _ => .bind (.expectKeyword _) fun _ => ?_
  refine .bind hb fun object => .bind (Still.spanFrom m).keeps fun _ => ?_
  exact .pure _

/-- A declaration behind a modifier ends where it would without. -/
theorem visibility_keeps (hg : Keeping g) (hb : Keeps body) : Keeps (visibility g body) := by
  refine .bind Still.mark.keeps fun m => .bind Still.peek.keeps fun token => ?_
  split
  · exact .unexpected _
  · refine .bind (.name _) fun name => .bind Still.ahead.keeps fun _ => ?_
    refine .ite ?_ ?_
    · refine .bind (.map _ (template_keeps hg hb)) fun _ => ?_
      exact .bind (Still.spanFrom m).keeps fun _ => .pure _
    · refine .bind (.map _ (assignment_keeps hg)) fun _ => ?_
      exact .bind (Still.spanFrom m).keeps fun _ => .pure _

/-- Every form of an entry stops before a last colon. -/
theorem entry_keeps (hg : Keeping g) (hb : Keeps body) : Keeps (entry g body) :=
  .bind Still.ahead.keeps fun _ => .ite (.map _ (assignment_keeps hg))
    (.ite (.map _ (visibility_keeps hg hb)) (.ite (.map _ (member_keeps hg))
      (.ite (.map _ (reference_keeps hg)) fun _ _ _ _ hc => absurd rfl hc.1)))

/-- An entry does so as a round of a loop, which may close the object. -/
theorem entryStep_keeps (hg : Keeping g) (hb : Keeps body) (hs : Steady body) (read : List Entry) :
    Keeps (entryStep g body read) := by
  refine .peek fun src he c => ?_
  split
  · rename_i hk
    exact KeepsAt.bind (.bump (by rw [hk]; simp)) fun _ => Keeps.pure _ he _
  · exact Keeps.unexpected _ he c
  · rename_i hk
    have bump : KeepsAt src c bump := .bump (by rw [hk]; simp)
    exact KeepsAt.bind ((Still.report _ _).keeps he c) fun _ => bump.bind fun _ => Keeps.pure _ he _
  · exact Keeps.bind Still.mark.keeps (fun _ =>
      .bind ((entry_keeps hg hb).orRecover (entry_steady hg.advancing hs).sound) fun _ =>
        .pure _) he c

/-- An object ends in a parenthesis. -/
theorem objectWith_keeps (hg : Keeping g) (hb : Keeps body) (hs : Steady body) :
    Keeps (objectWith g body) := by
  refine .bind Still.mark.keeps fun m => ?_
  refine .bind (.name _) fun name => .bind (.expect (by simp) _) fun _ => ?_
  refine .bind (.loop (entryStep_advances hg.advancing hs) (entryStep_keeps hg hb hs) []) fun _ =>
    ?_
  exact .bind (Still.spanFrom m).keeps fun _ => .pure _

/-- The same, however deep the templates in it are nested. -/
theorem object_keeps (hg : Keeping g) : Keeps (object g) := by
  have hb := Steady.unexpected (α := Object) ""
  have nest (n : Nat) : Keeps (objectNest g (unexpected "") n) := by
    induction n with
    | zero => exact objectWith_keeps hg (.unexpected "") hb
    | succ n ih => exact objectWith_keeps hg ih (objectNest_steady hg.advancing hb n)
  intro src he c
  rw [KeepsAt, object_eq_nest hg.advancing hb he (Nat.le_refl _)]
  exact nest _ he c

/-- An unnamed object ends where its object does. -/
theorem unnamed_keeps (hg : Keeping g) : Keeps (unnamed g) := by
  refine .bind Still.mark.keeps fun m => ?_
  refine .bind (.expectKeyword _) fun _ => .bind (object_keeps hg) fun object => ?_
  exact .bind (Still.spanFrom m).keeps fun _ => .pure _

/-! ### Expressions -/

/-- A list ends in a bracket. -/
theorem list_keeps (hg : Keeping g) : Keeps (list g) := by
  refine .bind Still.mark.keeps fun m => ?_
  refine .bind (bracketed_keeps hg) fun elements => .bind (Still.spanFrom m).keeps fun _ => ?_
  exact .pure _

/-- So does a vector. -/
theorem vector_keeps (hg : Keeping g) (type : VectorType) : Keeps (vector g type) := by
  refine .bind Still.mark.keeps fun m => ?_
  refine .bind (.name _) fun name => .bind (bracketed_keeps hg) fun elements => ?_
  exact .bind (Still.spanFrom m).keeps fun _ => .pure _

/-- So does a map. -/
theorem map_keeps (hg : Keeping g) : Keeps (map g) := by
  refine .bind Still.mark.keeps fun m => ?_
  refine .bind (.name _) fun name => .bind (bracketed_keeps hg) fun e => ?_
  refine .bind (pairs_still e.items).keeps fun pairs => .bind (Still.spanFrom m).keeps fun _ => ?_
  exact .pure _

/-- A pair and a group end in a parenthesis. -/
theorem parenthesised_keeps (hg : Keeping g) : Keeps (parenthesised g) := by
  refine .bind Still.mark.keeps fun m => .bind (.expect (by simp) _) fun _ =>
    .bind (.eat (by simp)) fun _ => .ite (.bind (Still.spanFrom m).keeps fun _ => .pure _) ?_
  refine .bind hg.expr fun _ => .bind (.eat (by simp)) fun _ => .ite ?_ ?_
  · exact .bind hg.expr fun _ => .bind (.expect (by simp) _) fun _ =>
      .bind (Still.spanFrom m).keeps fun _ => .pure _
  · exact .bind (.expect (by simp) _) fun _ => .bind (Still.spanFrom m).keeps fun _ => .pure _

/-- An index ends in a bracket. -/
theorem index?_keeps (hg : Keeping g) : Keeps (index? g) := by
  refine .ahead fun src he c => .ite (fun hsign => ?_) fun _ => Keeps.pure _ he c
  rw [Bool.and_eq_true] at hsign
  exact KeepsAt.bind (.bump_sign hsign.1 (by simp)) fun _ =>
    Keeps.bind hg.expr (fun _ => .bind (.expect (by simp) _) fun _ => .pure _) he _

/-- A generic type ends in its sign or its index. -/
theorem generic_keeps (hg : Keeping g) : Keeps (generic g) := by
  refine .bind Still.mark.keeps fun m => .bind (.expect (by simp) _) fun _ =>
    .bind Still.ahead.keeps fun _ => .ite (.bind (.name _) fun _ => ?_) (.unexpected _)
  refine .ahead fun src he c => .ite (fun hsign => ?_) fun _ => Keeps.unexpected _ he c
  rw [Bool.and_eq_true] at hsign
  exact KeepsAt.bind (.bump_sign hsign.1 (by simp)) fun _ =>
    Keeps.bind (index?_keeps hg) (fun _ => .bind (Still.spanFrom m).keeps fun _ => .pure _) he _

/-- Behind the colon of a guid stands its payload. -/
theorem payload_eats (m : Mark) : Eats (do
    match (← peek).kind with
    | .guidBody raw => do
      bump
      pure (.guid raw (← spanFrom m))
    | .error .unterminatedBrace => do
      bump
      pure (.error (← errorFrom m))
    | _ => unexpected "'\x7b' after 'guid:'" : Parser Expr) := by
  refine .peek fun src he c => ?_
  split
  · rename_i hk
    exact .bump (rest_ne_nil he (by rw [hk]; simp)) he
      (.bind (Still.spanFrom m).sound fun _ => (Steady.pure _).sound)
  · rename_i hk
    exact .bump (rest_ne_nil he (by rw [hk]; simp)) he
      (.bind (Still.errorFrom m).sound fun _ => (Steady.pure _).sound)
  · exact Eats.unexpected _ he c

/-- Behind the colon of a payload the payload is read. -/
theorem guid_keepsAt (he : src.Ended) (h : (c.rest.headD src.stop).kind ≠ .colon) :
    KeepsAt src c guid := by
  refine KeepsAt.bind (Still.mark.keeps he c) fun m => KeepsAt.bind (.bump h) fun _ => ?_
  refine Keeps.bind_eats (.expect _ _) (fun _ => .peek fun src he c => ?_)
    (fun _ => payload_eats m) he _
  split
  · rename_i hk
    exact KeepsAt.bind (.bump (by rw [hk]; simp)) fun _ =>
      Keeps.bind (Still.spanFrom m).keeps (fun _ => .pure _) he _
  · rename_i hk
    exact KeepsAt.bind (.bump (by rw [hk]; simp)) fun _ =>
      Keeps.bind (Still.errorFrom m).keeps (fun _ => .pure _) he _
  · exact Keeps.unexpected _ he c

/-- A constant is a word. -/
theorem constant_keepsAt (value : Span → Expr) (he : src.Ended)
    (h : (c.rest.headD src.stop).kind ≠ .colon) : KeepsAt src c (constant value) :=
  have bump : KeepsAt src c bump := .bump h
  KeepsAt.bind (Still.peek.keeps he c) fun _ => bump.bind fun _ => Keeps.pure _ he _

/-- What a name starts ends in no colon. -/
theorem nameLed_keeps (hg : Keeping g) : Keeps (nameLed g) :=
  .bind Still.ahead.keeps fun _ => .ite (.map _ (object_keeps hg))
    (.ite (vectorOrPath_keeps hg) (.map _ (reference_keeps hg)))

/-- What a word starts ends in no colon: that of a payload is read with the payload. -/
theorem wordLed_keepsAt (hg : Keeping g) (wordClass : WordClass) (he : src.Ended)
    (h : (c.rest.headD src.stop).kind ≠ .colon) : KeepsAt src c (wordLed g wordClass) := by
  have hb := object_steady hg.advancing
  have named := nameLed_keeps hg he c
  refine KeepsAt.ite (fun _ => (assignment_keeps hg).map _ he c) fun _ =>
    .ite (fun _ => (visibility_keeps hg (object_keeps hg)).map _ he c) fun _ => ?_
  split
  · exact constant_keepsAt _ he h
  · exact constant_keepsAt _ he h
  · exact constant_keepsAt _ he h
  · exact .ite (fun _ => guid_keepsAt he h) fun _ => named
  · exact .ite (fun _ => map_keeps hg he c) fun _ => named
  · exact .ite (fun _ => vector_keeps hg _ he c) fun _ => named
  · exact named

/-- A broken token is no colon. -/
theorem brokenToken_keepsAt (e : LexError) (he : src.Ended)
    (h : (c.rest.headD src.stop).kind ≠ .colon) : KeepsAt src c (brokenToken e) := by
  have bump : KeepsAt src c bump := .bump h
  refine KeepsAt.bind (Still.mark.keeps he c) fun m => KeepsAt.bind (Still.peek.keeps he c) fun _ =>
    bump.bind fun _ => ?_
  split
  · exact Keeps.bind (Still.report _ _).keeps
      (fun _ => .bind (Still.errorFrom _).keeps fun _ => .pure _) he _
  · exact Keeps.bind (Still.errorFrom _).keeps (fun _ => .pure _) he _

/-- No operand ends in a colon. -/
theorem primary_keeps (hg : Keeping g) : Keeps (primary g) := by
  refine .peek fun src he c => ?_
  split
  · rename_i hk
    exact KeepsAt.bind (.bump (by rw [hk]; simp)) fun _ => Keeps.pure _ he _
  · rename_i hk
    exact KeepsAt.bind (.bump (by rw [hk]; simp)) fun _ => Keeps.pure _ he _
  · exact list_keeps hg he c
  · exact parenthesised_keeps hg he c
  · exact generic_keeps hg he c
  · rename_i hk
    exact wordLed_keepsAt hg _ he (by rw [hk]; simp)
  · rename_i hk
    exact brokenToken_keepsAt _ he (by rw [hk]; simp)
  · exact Keeps.unexpected _ he c
  · exact KeepsAt.ite (fun _ => (reference_keeps hg).map _ he c) fun _ _ hc => absurd rfl hc.1

/-- Nor does one behind a sign. -/
theorem unary_keeps (hg : Keeping g) : Keeps (unary g) := by
  refine .bind Still.mark.keeps fun m => .peek fun src he c => ?_
  have signed (op : UnaryOp) : Keeps (do
      let operand ← g.operand
      pure (.unary op operand (← spanFrom m)) : Parser Expr) :=
    .bind hg.operand fun _ => .bind (Still.spanFrom m).keeps fun _ => .pure _
  split
  · rename_i hk
    exact KeepsAt.bind (.bump (by rw [hk]; simp)) fun _ => signed _ he _
  · rename_i hk
    exact KeepsAt.bind (.bump (by rw [hk]; simp)) fun _ => signed _ he _
  · exact primary_keeps hg he c

/-- A colon is no operator. -/
theorem operator?_ne_colon (h : operator? c.rest ≠ none) :
    (c.rest.headD src.stop).kind ≠ .colon := by
  rcases hr : c.rest with _ | ⟨t, ts⟩
  · rw [hr] at h
    exact absurd rfl h
  · rw [hr, operator?, Lookahead.kind?_zero] at h
    rw [List.headD_cons]
    intro hk
    rw [hk] at h
    exact absurd rfl h

/-- Behind the colon of a conditional stands its second branch. -/
theorem operation_keeps (hg : Keeping g) {right : Nat → Parser Expr}
    (hr : ∀ rank, Keeps (right rank)) (loosest : Nat) (m : Mark) (left : Expr) :
    Keeps (operation g right loosest m left) := by
  refine .ahead fun src he c => ?_
  have bump (h : operator? c.rest ≠ none) : KeepsAt src c bump := .bump (operator?_ne_colon h)
  split
  · exact Keeps.pure _ he c
  · rename_i ho
    refine KeepsAt.ite (fun _ => (bump (by simp [ho])).bind fun _ => ?_) fun _ => Keeps.pure _ he c
    exact Keeps.bind hg.expr (fun _ => .bind_eats (.expect _ _) (fun _ => value_keeps hg m _)
      fun _ => value_eats hg m _) he _
  · rename_i ho
    refine KeepsAt.ite (fun _ => (bump (by simp [ho])).bind fun _ => ?_) fun _ => Keeps.pure _ he c
    exact Keeps.bind (hr _) (fun _ => .bind (Still.spanFrom m).keeps fun _ => .pure _) he _

/-- A run of operators ends where its last operand does. -/
theorem climb_keeps (hg : Keeping g) (steps loosest : Nat) : Keeps (climb g steps loosest) := by
  induction steps generalizing loosest with
  | zero => exact unary_keeps hg
  | succ steps ih =>
    exact .bind Still.mark.keeps fun m => .bind (unary_keeps hg) fun left =>
      .loop (operation_advances hg.advancing (climb_steady hg.advancing steps) loosest m)
        (operation_keeps hg ih loosest m) left

end Parser

open Ndf.Parser

/-- Below the last level a problem is found. -/
theorem deepExpr_keeps : Keeps Grammar.deepExpr := .map _ tooDeep_loud.keeps

/-- Below the last level of types, too. -/
theorem deepType_keeps : Keeps Grammar.deepType := tooDeep_loud.bind.keeps

/-- One level up the same is kept. -/
theorem Keeping.above {g : Grammar} (hg : Keeping g) : Keeping (.above g) where
  advancing := hg.advancing.above
  expr := .nested deepExpr_keeps (expression_steady hg.advancing).sound (climb_keeps hg _ _)
  operand := .nested deepExpr_keeps (unary_steady hg.advancing).sound (unary_keeps hg)
  type := .nested deepType_keeps (typeRef_sound hg.advancing) (typeRef_keeps hg)

/-- **Every level stops in front of a colon at the end.** -/
theorem keeping_levels (n : Nat) : Keeping (.levels n) := by
  induction n with
  | zero => exact ⟨advancing_bottom, deepExpr_keeps, deepExpr_keeps, deepType_keeps⟩
  | succ n ih => exact ih.above

namespace Parser

variable {g : Grammar}

/-- No item without problems ends in a colon. -/
theorem item_keeps (hg : Keeping g) : Keeps (item g) :=
  have hb := object_keeps hg
  .bind Still.ahead.keeps fun _ => .ite (.map _ (assignment_keeps hg))
    (.ite (.map _ (visibility_keeps hg hb)) (.ite (.map _ (template_keeps hg hb))
      (.ite (.map _ (unnamed_keeps hg)) (.ite (.map _ (member_keeps hg)) (.map _ hg.expr)))))

/-- A round that reads an item stops before a last colon. -/
theorem itemStep_keeps (hg : Keeping g) (calledOff : Nat → Bool) (read : List Item) :
    Keeps (itemStep g calledOff read) := by
  have item : Keeps (itemOrError g) :=
    .bind Still.mark.keeps fun _ =>
      .bind ((item_keeps hg).orRecover (item_steady hg.advancing).sound) fun _ =>
        .bind (Still.emit _).keeps fun _ => .pure _
  refine .bind Still.ahead.keeps fun _ => .ite (.pure _) (.ite (.pure _) ?_)
  exact .bind item fun _ => .pure _

/-- **No items without problems end in a colon**, unless some of it is left. -/
theorem items_keeps (hg : Keeping g) (calledOff : Nat → Bool) : Keeps (items g calledOff) :=
  .loop (itemStep_advances hg.advancing calledOff) (itemStep_keeps hg calledOff) []

end Parser

end Ndf
