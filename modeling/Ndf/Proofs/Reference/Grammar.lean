/-
# References in what is read

`SPEC_FULL.md` §4.4, and §8, "Scoped reference" and "Reference immediacy".

Whatever a parser returns, the references in it are chains over what was read for them
(`chaining_levels`, level by level).  All but two of the parsers only pass on what others read: a
reference is a chain (`reference_leads`), and so is a vector with a single element, if the path goes
on behind it (`vectorOrPath_chains`).

`parse_references` says so of all references of a document.
-/

import Ndf.Proofs.Reference.Chain

namespace Ndf

-- A walk is opened at each node that a parser builds.
attribute [local simp] Walk.expr Walk.expr.around Walk.expr? Walk.exprs Walk.member Walk.members
  Walk.assignment Walk.template Walk.visibility Walk.declaration Walk.entry Walk.entries Walk.object
  Walk.inItem Walk.item Visit.reference?

namespace Scene

variable {S : Scene}

/-- It is shown of several expressions if it is of each. -/
theorem told_exprs {items : List Expr} :
    S.Told (Walk.exprs items) ↔ ∀ e ∈ items, S.Told (Walk.expr e) := by
  rw [Walk.exprs_eq_flatMap, told_flatMap]

/-- The same of members. -/
theorem told_members {members : List Member} :
    S.Told (Walk.members members) ↔ ∀ m ∈ members, S.Told (Walk.member m) := by
  rw [Walk.members_eq_flatMap, told_flatMap]

/-- The same of entries. -/
theorem told_entries {entries : List Entry} :
    S.Told (Walk.entries entries) ↔ ∀ e ∈ entries, S.Told (Walk.entry e) := by
  rw [Walk.entries_eq_flatMap, told_flatMap]

/-- The same of an expression that is an item. -/
theorem told_ofExpr {e : Expr} : S.Told (Walk.item (.ofExpr e)) ↔ S.Told (Walk.expr e) := by
  cases e <;> simp [Item.ofExpr]

end Scene

namespace Parser

variable {α β σ : Type} {S : Scene} {g : Grammar} {c : Cursor} {p q : Parser α} {f : α → Parser β}
  {out : α → List Visit} {more : β → List Visit}

namespace Chains

/-! ### Combinators -/

/-- A sequence, with what was shown of its first value. -/
theorem bind (hp : Chains S out p) (hf : ∀ a, S.Told (out a) → Chains S more (f a)) :
    Chains S more (p >>= f) := fun c => (hp c).bind fun a d ha => hf a ha d

/-- The first parser returns nothing with references in it. -/
theorem after (hp : Sound p) (hf : ∀ a, Chains S more (f a)) : Chains S more (p >>= f) :=
  fun _ => .after hp fun a d => hf a d

/-- A value of which it was shown. -/
theorem pure {a : α} (h : S.Told (out a)) : Chains S out (Pure.pure a) := fun _ => .pure h

/-- What is made of a value has to visit no more references. -/
theorem map {h : α → β} (hp : Chains S out p) (hh : ∀ a, S.Told (out a) → S.Told (more (h a))) :
    Chains S more (h <$> p) := fun c => (hp c).map fun a _ ha => hh a ha

/-- Of two branches only the one taken counts. -/
theorem ite {C : Prop} [Decidable C] (hp : Chains S out p) (hq : Chains S out q) :
    Chains S out (if C then p else q) := fun c => .ite (fun _ => hp c) fun _ => hq c

/-- A mark visits nothing. -/
theorem mark {f : Mark → Parser β} (hf : ∀ m, Chains S more (f m)) :
    Chains S more (mark >>= f) := .after Still.mark.sound hf

/-- Nor does looking at the next token. -/
theorem look {f : Token → Parser β} (hf : ∀ t, Chains S more (f t)) :
    Chains S more (peek >>= f) := .after Still.peek.sound hf

/-- Nor does looking further. -/
theorem ahead {f : List Token → Parser β} (hf : ∀ ts, Chains S more (f ts)) :
    Chains S more (ahead >>= f) := .after Still.ahead.sound hf

/-- The span is taken last. -/
theorem spanFrom {m : Mark} {v : Span → β} (h : ∀ s, S.Told (more (v s))) :
    Chains S more (spanFrom m >>= fun s => Pure.pure (v s)) := fun _ => .spanFrom (.pure (h _))

/-- A complaint returns nothing. -/
theorem unexpected (due : String) : Chains S out (unexpected due) := fun _ => .unexpected due

/-- Giving up at the next token. -/
theorem abortHere (cause : Token → Diagnostic.Cause) :
    Chains S out (do reportHere (cause (← peek)); (abort : Parser α)) := fun _ => .none rfl rfl

/-- A value is the parser's own or that of the recovery. -/
theorem orRecover (hp : Chains S out p) (hq : Chains S out q) : Chains S out (orRecover p q) :=
  fun c => .orRecover (hp c) fun d => hq d

/-- One level further down, or at the cut. -/
theorem nested {deep : Parser α} (hs : Sound p) (hd : Chains S out deep) (hp : Chains S out p) :
    Chains S out (nested deep p) := fun c => .nested hs (hd c) (hp c.down)

/-- A loop, with what was shown of the state behind each round. -/
theorem loop {step : σ → Parser (σ ⊕ β)} (st : σ → List Visit)
    (h : ∀ s, S.Told (st s) → Chains S (Sum.elim st more) (step s)) {s : σ}
    (hs : S.Told (st s)) : Chains S more (loop step s) := fun _ =>
  .loop (I := fun s _ => S.Told (st s)) (fun s d hs => (h s hs d).mono fun r _ hr => by
    cases r <;> exact hr) hs

/-- A fragment that is cut out has no references in it. -/
theorem cut {cut : Parser ErrorNode} {h : ErrorNode → β} (hp : Plain cut)
    (hh : ∀ e, S.Told (more (h e))) : Chains S more (h <$> cut) := fun c =>
  let ⟨_, hu⟩ := hp S.source c
  (Leads.of_moves hu.reaches).map fun e _ _ => hh e

end Chains

/-! ### Declarations -/

/-- All references in an assignment are spelled so. -/
theorem assignment_chains (ht : Chaining S g) : Chains S Walk.assignment (assignment g) := by
  refine .mark fun _ => .after (Steady.name _).sound fun _ => ?_
  refine .after (Steady.expectKeyword _).sound fun _ => .bind ht.expr fun _ he => ?_
  refine .spanFrom fun _ => ?_
  simp [he]

/-- So are those in the value of a member. -/
theorem memberTail_chains (ht : Chaining S g) (m : Mark) (name : Name) :
    Chains S Walk.member (memberTail g m name) := by
  have value (type : Option TypeRef) (legacy : Bool) : Chains S Walk.member (do
      let value ← g.expr
      pure ⟨name, type, some value, legacy, ← spanFrom m⟩) :=
    .bind ht.expr fun _ he => .spanFrom fun _ => by simp [he]
  refine .after (Steady.eat _).sound fun _ => ?_
  refine .ite ?_ (.after (Steady.expect _ _).sound fun _ => value _ _)
  refine .after (Steady.eat _).sound fun _ => ?_
  refine .ite (value _ _) ?_
  refine .after (typeRef_sound ht.laying.advancing) fun type => ?_
  exact .after (Steady.eat _).sound fun _ => .ite (value _ _) (.spanFrom fun _ => by simp)

/-- So are those in a member. -/
theorem member_chains (ht : Chaining S g) : Chains S Walk.member (member g) :=
  .mark fun m => .after (Steady.name _).sound fun n => memberTail_chains ht m n

/-- So are those in the default of a parameter. -/
theorem param_chains (ht : Chaining S g) : Chains S Walk.member (param g) := by
  refine .mark fun m => .after (Steady.name _).sound fun n => .look fun t => ?_
  split
  · exact memberTail_chains ht m n
  · exact memberTail_chains ht m n
  · exact .spanFrom fun _ => by simp

/-- So are those in several. -/
theorem params_chains (ht : Chaining S g) : Chains S Walk.members (params g) := by
  refine .loop Walk.members (fun read hread => .look fun t => ?_) (by simp)
  have hread' : S.Told (Walk.members read.reverse) := by
    simpa [Scene.told_members] using hread
  split
  · exact .pure hread'
  · exact .pure hread'
  · exact .after Steady.bump.sound fun _ => .pure hread
  · exact .bind (param_chains ht) fun m hm => .pure (by simp [hm, hread])
  · exact .unexpected _

variable {body : Parser Object}

/-- So are those in a template and its body. -/
theorem template_chains (ht : Chaining S g) (hb : Chains S Walk.object body) :
    Chains S Walk.template (template g body) := by
  refine .mark fun _ => .after (Steady.expectKeyword _).sound fun _ => ?_
  refine .after (Steady.name _).sound fun _ => .after (Steady.expect _ _).sound fun _ => ?_
  refine .bind (params_chains ht) fun params hp => ?_
  refine .after (Steady.expect _ _).sound fun _ => .after (Steady.expectKeyword _).sound fun _ => ?_
  refine .bind hb fun object ho => ?_
  refine .spanFrom fun _ => ?_
  simp [hp, ho]

/-- So are those behind a modifier. -/
theorem visibility_chains (ht : Chaining S g) (hb : Chains S Walk.object body) :
    Chains S Walk.visibility (visibility g body) := by
  refine .mark fun m => .look fun t => ?_
  have key {q : Parser Declaration} (hq : Chains S Walk.declaration q) (modifier : Modifier)
      (keyword : Name) : Chains S Walk.visibility (do
        let declaration ← q
        pure ⟨modifier, keyword, declaration, ← spanFrom m⟩) :=
    .bind hq fun _ hd => .spanFrom fun _ => by simp [hd]
  split
  · exact .unexpected _
  · refine .after (Steady.name _).sound fun _ => .ahead fun _ => ?_
    exact .ite (key ((template_chains ht hb).map fun _ h => by simpa using h) _ _)
      (key ((assignment_chains ht).map fun _ h => by simpa using h) _ _)

/-- So are those in an entry, which may be one itself. -/
theorem entry_chains (ht : Chaining S g) (hb : Chains S Walk.object body) :
    Chains S Walk.entry (entry g body) := by
  refine .ahead fun _ => ?_
  refine .ite ((assignment_chains ht).map fun _ h => h) ?_
  refine .ite ((visibility_chains ht hb).map fun _ h => h) ?_
  refine .ite ((member_chains ht).map fun _ h => h) ?_
  exact .ite ((reference_chains ht).map fun _ h => h) (.abortHere fun t => .noMember t.kind.name)

/-- So are those in an object, if they are in its templates. -/
theorem objectWith_chains (ht : Chaining S g) (hb : Chains S Walk.object body) :
    Chains S Walk.object (objectWith g body) := by
  have entries : Chains S Walk.entries (loop (entryStep g body) []) := by
    refine .loop Walk.entries (fun read hread => .look fun t => ?_) (by simp)
    split
    · exact .after Steady.bump.sound fun _ => .pure (by simpa [Scene.told_entries] using hread)
    · exact .unexpected _
    · exact .after (Still.report _ _).sound fun _ => .after Steady.bump.sound fun _ => .pure hread
    · refine .mark fun m => ?_
      refine .bind (.orRecover (entry_chains ht hb)
        (.cut (cut_recoverEntry.plain m) fun _ => by simp)) fun e he => ?_
      exact .pure (by simp [he, hread])
  refine .mark fun _ => .after (Steady.name _).sound fun _ => ?_
  refine .after (Steady.expect _ _).sound fun _ => .bind entries fun _ he => ?_
  refine .spanFrom fun _ => ?_
  simp [he]

/-- So they are however deep the templates lie. -/
theorem objectWithin_chains (ht : Chaining S g) (bound : List Token) :
    Chains S Walk.object (objectWithin g bound) := by
  induction bound with
  | nil => exact objectWith_chains ht fun _ => .breach _
  | cons t bound ih => exact objectWith_chains ht ih

/-- So are those in any object. -/
theorem object_chains (ht : Chaining S g) : Chains S Walk.object (object g) := fun c =>
  objectWithin_chains ht c.rest c

/-- So are those in an unnamed one. -/
theorem unnamed_chains (ht : Chaining S g) :
    Chains S (fun u => Walk.object u.object) (unnamed g) := by
  refine .mark fun _ => .after (Steady.expectKeyword _).sound fun _ => ?_
  refine .bind (object_chains ht) fun object ho => ?_
  exact .spanFrom fun _ => ho

/-! ### Expressions -/

/-- So are those in the elements of a list. -/
theorem elements_chains (ht : Chaining S g) :
    Chains S (fun e => Walk.exprs e.items) (elements g) := by
  refine .loop (fun e => Walk.exprs e.items) (fun read hread => .look fun t => ?_)
    (by simp [Elements.items])
  have item : Chains S (Sum.elim (fun e => Walk.exprs e.items) fun e => Walk.exprs e.items) (do
      let m ← mark
      let item ← orRecover g.expr (Expr.error <$> recoverElement m)
      pure (.inl { read with reversed := item :: read.reversed, commaDue := true }) :
        Parser (Elements ⊕ Elements)) := by
    refine .mark fun m => .bind (.orRecover ht.expr
      (.cut (cut_recoverElement.plain m) fun _ => by simp)) fun e he => .pure ?_
    simp only [Elements.items, Scene.told_exprs, List.mem_reverse] at hread
    simpa [Elements.items, Scene.told_exprs, or_imp, forall_and] using ⟨hread, he⟩
  split
  · exact .pure hread
  · exact .pure hread
  · exact .after Steady.bump.sound fun _ => .pure hread
  · exact .ite (.after (Still.report _ _).sound fun _ => item) item

/-- So are those between brackets. -/
theorem bracketed_chains (ht : Chaining S g) :
    Chains S (fun e => Walk.exprs e.items) (bracketed g) := by
  refine .after (Steady.expect _ _).sound fun _ => .bind (elements_chains ht) fun _ he => ?_
  exact .after (Steady.expect _ _).sound fun _ => .pure he

/-- A single element between joined brackets can be the index of a reference in front. -/
theorem bracketed_leads (ht : Chaining S g) (hc : S.Whole c) (h0 : 0 < c.count)
    (hj : Lookahead.isJoined c.rest 0 = true) :
    Leads S c (fun e d => S.Told (Walk.exprs e.items) ∧ ∀ index, e.items = [index] →
      ∃ inside, S.Follows c d (.index index inside)) (bracketed g) := by
  refine .bind (.expect (by simp) _) fun _ d ⟨t, ts, hr, hk, hd⟩ => ?_
  subst hd
  rw [hr] at hj
  refine (bracket_leads ht.legible hc h0 hr hj hk (elements_lays ht.laying)
    (elements_chains ht)).mono ?_
  rintro _ d ⟨e, rfl, htold, hindex⟩
  exact ⟨htold, fun index hi => hindex index (by simp [hi])⟩

/-- Among the pairs of a map there are no other references than in its elements. -/
theorem pairs_chains (items : List Expr) (h : S.Told (Walk.exprs items)) :
    Chains S Walk.exprs (pairs items) := by
  induction items with
  | nil => exact .pure (by simp)
  | cons item items ih =>
    obtain ⟨hitem, hitems⟩ := Scene.told_append.1 h
    have entry {p : Parser Expr} (hp : Chains S Walk.expr p) : Chains S Walk.exprs (do
        let entry ← p
        pure (entry :: (← pairs items))) :=
      .bind hp fun _ he => .bind (ih hitems) fun _ hes =>
        .pure (Scene.told_append.2 ⟨he, hes⟩)
    have noPair : Chains S Walk.expr (do
        report (.noPair item.typeName) item.span
        Expr.error <$> errorAt item.span) :=
      .after (Still.report _ _).sound fun _ => .cut (Still.errorAt _).plain fun _ => by simp
    unfold pairs
    split
    · exact entry (.pure hitem)
    · exact entry (.pure hitem)
    · exact entry noPair

/-- So are those in a list. -/
theorem list_chains (ht : Chaining S g) : Chains S Walk.expr (list g) :=
  .mark fun _ => .bind (bracketed_chains ht) fun _ he => .spanFrom fun _ => by simp [he]

/-- So are those in a vector. -/
theorem vector_chains (ht : Chaining S g) (type : VectorType) :
    Chains S Walk.expr (vector g type) := by
  refine .mark fun _ => .after (Steady.name _).sound fun _ => ?_
  refine .bind (bracketed_chains ht) fun elements he => ?_
  refine .spanFrom fun _ => ?_
  simp [he]

/-- So are those in a map. -/
theorem map_chains (ht : Chaining S g) : Chains S Walk.expr (map g) := by
  refine .mark fun _ => .after (Steady.name _).sound fun _ => ?_
  refine .bind (bracketed_chains ht) fun e he => ?_
  refine .bind (pairs_chains e.items he) fun pairs hp => ?_
  refine .spanFrom fun _ => ?_
  simp [hp]

/-- So are those in parentheses. -/
theorem parenthesised_chains (ht : Chaining S g) : Chains S Walk.expr (parenthesised g) := by
  refine .mark fun _ => .after (Steady.expect _ _).sound fun _ => ?_
  refine .after (Steady.eat _).sound fun _ => ?_
  refine .ite (.spanFrom fun _ => by simp) ?_
  refine .bind ht.expr fun _ h => ?_
  refine .after (Steady.eat _).sound fun _ => ?_
  refine .ite ?_ (.after (Steady.expect _ _).sound fun _ => .spanFrom fun _ => by simp [h])
  refine .bind ht.expr fun _ h' => ?_
  refine .after (Steady.expect _ _).sound fun _ => .spanFrom fun _ => ?_
  simp [h, h']

/-- So are those in the index of a generic type. -/
theorem generic_chains (ht : Chaining S g) : Chains S Walk.expr (generic g) := by
  have index : Chains S Walk.expr? (index? g) :=
    .ahead fun _ => .ite (.after Steady.bump.sound fun _ => .bind ht.expr fun _ h =>
      .after (Steady.expect _ _).sound fun _ => .pure h) (.pure (by simp))
  refine .mark fun _ => .after (Steady.expect _ _).sound fun _ => .ahead fun _ => ?_
  refine .ite ?_ (.unexpected _)
  refine .after (Steady.name _).sound fun _ => .ahead fun _ => ?_
  refine .ite ?_ (.unexpected _)
  refine .after Steady.bump.sound fun _ => .bind index fun _ h => ?_
  refine .spanFrom fun _ => ?_
  simp [h]

/-- A payload has none. -/
theorem guid_chains : Chains S Walk.expr guid := by
  refine .mark fun m => .after Steady.bump.sound fun _ => .after (Steady.expect _ _).sound fun _ =>
    .look fun t => ?_
  split
  · exact .after Steady.bump.sound fun _ => .spanFrom fun _ => by simp
  · exact .after Steady.bump.sound fun _ => .after (Still.errorFrom m).sound fun _ =>
      .pure (by simp)
  · exact .unexpected _

/-- Nor has a broken token. -/
theorem brokenToken_chains (e : LexError) : Chains S Walk.expr (brokenToken e) := by
  have node (m : Mark) : Chains S Walk.expr (do pure (.error (← errorFrom m))) :=
    .after (Still.errorFrom m).sound fun _ => .pure (by simp)
  refine .mark fun m => .look fun t => .after Steady.bump.sound fun _ => ?_
  split
  · exact .after (Still.report _ _).sound fun _ => node m
  · exact node m

/-- **A vector with one element is a reference, if the path goes on behind it.** -/
theorem vectorOrPath_chains (ht : Chaining S g) (hj : Lookahead.isJoined c.rest.tail 0 = true) :
    Leads S c (fun e _ => S.Told (Walk.expr e)) (vectorOrPath g) := by
  have hvector (n : Name) (e : Elements) (s : Span) (h : S.Told (Walk.exprs e.items)) :
      S.Told (Walk.expr (.vector n none e.items e.strayCommas s)) := by simp [h]
  have hpath : Leads S c (fun e d => S.Told (Walk.expr e) ∨ ∃ r, e = .reference r ∧
      S.Chain c d r ∧ S.Told (Walk.segments r.segments)) (vectorOrPath g) := by
    refine .here fun hon => .mark ?_
    refine .bind (.name _) fun n d ⟨t, ts, wordClass, hr, hk, hn, hd⟩ => ?_
    subst hd
    have hc : S.Whole c := Scene.whole_of_head hon (by rw [hr, List.headD_cons, hk]; simp)
    have hname := Scene.spells_name ht.legible hc hr hk hn
    rw [hr, List.tail_cons] at hj
    refine .bind (bracketed_leads ht hname.whole hname.moved hj) fun e d ⟨htold, hindex⟩ => ?_
    refine .spanFrom (.ahead ?_)
    split
    · rename_i index hi
      rw [hi] at htold
      obtain ⟨inside, hfollows⟩ := hindex index hi
      have hspells := hname.step hfollows
      refine .ite (fun _ => .bind (suffixes_leads ht hspells)
        fun ss d ⟨⟨hss, steps, hsteps, hspells⟩, hend⟩ => .spanFrom (.pure (.inr ⟨_, rfl, ?_, ?_⟩)))
        fun _ => .pure (.inl (hi ▸ hvector n e _ (hi ▸ htold)))
      · exact ⟨hc, _, _, hspells, hend, by rw [← hsteps]; rfl⟩
      · exact @Scene.told_segments S (.index index :: ss) |>.2
          (List.forall_mem_cons.2 ⟨by simpa using htold, hss⟩)
    · exact .pure (.inl (hvector n e _ htold))
  refine (hpath.spanned (vectorOrPath_steady ht.laying.advancing).sound
    (vectorOrPath_eats ht.laying.advancing) vectorOrPath_spans).mono fun e d h => ?_
  obtain ⟨htold | ⟨r, rfl, hchain, htold⟩, hreach, hm, hspan⟩ := h
  · exact htold
  · simpa [Scene.told_reference] using ⟨hchain.shows hreach hm hspan, htold⟩

/-- A joined bracket behind a name starts a vector or an index. -/
theorem nameLed_chains (ht : Chaining S g) : Chains S Walk.expr (nameLed g) := fun c => by
  refine .ahead (.ite (fun _ => ?object) fun _ => .ite (fun hbracket => ?bracket) fun _ => ?path)
  case object => exact (object_chains ht c).map fun o _ h => by simpa using h
  case bracket =>
    refine vectorOrPath_chains ht ?_
    rw [← (Bool.and_eq_true_iff.1 hbracket).2, Lookahead.isJoined, Lookahead.isJoined,
      List.getElem?_tail]
  case path => exact (reference_chains ht c).map fun r _ h => by simpa using h

/-- So are those in what a word starts, which may be one itself. -/
theorem wordLed_chains (ht : Chaining S g) (wordClass : WordClass) :
    Chains S Walk.expr (wordLed g wordClass) := by
  have constant (value : Span → Expr) (h : ∀ s, S.Told (Walk.expr (value s))) :
      Chains S Walk.expr (constant value) :=
    .look fun _ => .after Steady.bump.sound fun _ => .pure (h _)
  have named : Chains S Walk.expr (nameLed g) := nameLed_chains ht
  refine .ahead fun ts => .ite ((assignment_chains ht).map fun _ h => by simpa using h)
    (.ite ((visibility_chains ht (object_chains ht)).map fun _ h => by simpa using h) ?_)
  split
  · exact constant _ fun _ => by simp
  · exact constant _ fun _ => by simp
  · exact constant _ fun _ => by simp
  · exact .ite guid_chains named
  · exact .ite (map_chains ht) named
  · exact .ite (vector_chains ht _) named
  · exact named

/-- So are those in an operand. -/
theorem primary_chains (ht : Chaining S g) : Chains S Walk.expr (primary g) := by
  refine .look fun token => ?_
  split
  · exact .after Steady.bump.sound fun _ => .pure (by simp)
  · exact .after Steady.bump.sound fun _ => .pure (by simp)
  · exact list_chains ht
  · exact parenthesised_chains ht
  · exact generic_chains ht
  · exact wordLed_chains ht _
  · exact brokenToken_chains _
  · exact .unexpected _
  · exact .ahead fun _ => .ite ((reference_chains ht).map fun _ h => by simpa using h)
      (.abortHere fun t => .noExpression t.kind.name)

/-- So are those in one with signs in front. -/
theorem unary_chains (ht : Chaining S g) : Chains S Walk.expr (unary g) := by
  have operand (op : UnaryOp) (m : Mark) : Chains S Walk.expr (do
      let operand ← g.operand
      pure (.unary op operand (← spanFrom m))) :=
    .bind ht.operand fun _ h => .spanFrom fun _ => by simp [h]
  refine .mark fun m => .look fun token => ?_
  split
  · exact .after Steady.bump.sound fun _ => operand _ m
  · exact .after Steady.bump.sound fun _ => operand _ m
  · exact primary_chains ht

/-- So are those in the operands of an expression. -/
theorem climb_chains (ht : Chaining S g) (steps loosest : Nat) :
    Chains S Walk.expr (climb g steps loosest) := by
  induction steps generalizing loosest with
  | zero => exact unary_chains ht
  | succ steps ih =>
    refine .mark fun m => .bind (unary_chains ht) fun left hleft =>
      .loop Walk.expr (fun left hleft => .ahead fun ts => ?_) hleft
    split
    · exact .pure hleft
    · refine .ite ?_ (.pure hleft)
      refine .after Steady.bump.sound fun _ => .bind ht.expr fun _ hyes => ?_
      refine .after (Steady.expect _ _).sound fun _ => .bind ht.expr fun _ hno => ?_
      refine .spanFrom fun _ => ?_
      simp [hleft, hyes, hno]
    · exact .ite (.after Steady.bump.sound fun _ => .bind (ih _) fun _ hright =>
        .spanFrom fun _ => by simp [hleft, hright]) (.pure hleft)

/-! ### Levels and items -/

/-- A fragment below the last level has none. -/
theorem deepExpr_chains : Chains S Walk.expr Grammar.deepExpr :=
  .cut tooDeep_plain fun _ => by simp

/-- **The references of a level are chains if those of the one below are.** -/
theorem Chaining.above (ht : Chaining S g) (hg : Laying S (.above g)) : Chaining S (.above g) where
  legible := ht.legible
  laying := hg
  expr := .nested (expression_steady ht.laying.advancing).sound deepExpr_chains
    (climb_chains ht _ _)
  operand := .nested (unary_steady ht.laying.advancing).sound deepExpr_chains (unary_chains ht)

/-- **On all levels** the references are spelled so. -/
theorem chaining_levels (hS : S.Legible) (n : Nat) : Chaining S (.levels n) := by
  induction n with
  | zero => exact ⟨hS, laying_levels 0, deepExpr_chains, deepExpr_chains⟩
  | succ n ih => exact ih.above (laying_levels (n + 1))

/-- So are those in an item. -/
theorem item_chains (ht : Chaining S g) : Chains S Walk.item (item g) := by
  refine .ahead fun _ => ?_
  refine .ite ((assignment_chains ht).map fun _ h => by simpa using h) ?_
  refine .ite ((visibility_chains ht (object_chains ht)).map fun _ h => by simpa using h) ?_
  refine .ite ((template_chains ht (object_chains ht)).map fun _ h => by simpa using h) ?_
  refine .ite ((unnamed_chains ht).map fun _ h => by simpa using h) ?_
  exact .ite ((member_chains ht).map fun _ h => by simpa using h)
    (ht.expr.map fun e h => Scene.told_ofExpr.2 h)

/-- So are those in all items. -/
theorem items_chains (ht : Chaining S g) (calledOff : Nat → Bool) :
    Chains S (fun is => (is.getD []).flatMap Walk.item) (items g calledOff) := by
  have item : Chains S Walk.item (itemOrError g) :=
    .mark fun m => .bind (.orRecover (item_chains ht)
      (.cut (cut_recoverItem.plain m) fun _ => by simp)) fun _ h =>
        .after (Still.emit _).sound fun _ => .pure h
  refine .loop (fun is => is.flatMap Walk.item) (fun read hread => .ahead fun ts =>
    .ite (.pure ?_) (.ite (.pure ?_) (.bind item fun i hi => .pure ?_))) (by simp)
  · simpa [Scene.told_flatMap] using hread
  · exact Scene.told_nil
  · exact Scene.told_append.2 ⟨hi, hread⟩

end Parser

/-- **References are read exactly and greedily.**  Every reference of a parse, wherever it is in the
tree, is written between its ends as the mark of its scope and its names and indexes in order, with
nothing in between: each name behind the first one stands behind its sign, and an index between its
brackets.  Without the brackets and what is in them this is the path of the reference.  The kind of
a name is that of the sign behind it, that of the last one is that of the sign before it, and a name
alone is terminal, or nested behind a scope.  The first token behind the reference is no joined
bracket and no joined sign with a joined name behind it. -/
theorem parse_references (source : String) :
    ∀ r, .reference r ∈ (parse source).document.parts → ∃ w, r.Spelled source.toList w ∧
      Spelling.Ends ((visibleTokens source).filter fun t =>
        decide (r.span.stop ≤ t.span.start)) := by
  have hrun := Parser.items_chains (Parser.chaining_levels (Scene.legible_ofText source)
    Parser.maxNesting) (fun _ => false) (.start (TokenStream.ofText source).tokens) (.start _)
  have htold := hrun.2 _ (readItems_value source)
  intro r hr
  rw [← (ofText_eq source).1]
  exact htold r ((Document.mem_reference _).2 hr)

/-- A reference with a scope, an index and both signs. -/
theorem parse_references_indexed :
    ∃ r, .reference r ∈ (parse "A is ~/B[ 1 ]/c.d").document.parts ∧ r.path = "~/B/c.d" ∧
      ∃ w, r.Spelled "A is ~/B[ 1 ]/c.d".toList w ∧
        Spelling.Ends ((visibleTokens "A is ~/B[ 1 ]/c.d").filter fun t =>
          decide (r.span.stop ≤ t.span.start)) := by
  have paths : ((parse "A is ~/B[ 1 ]/c.d").document.parts.filterMap Part.reference?).map
      Reference.path = ["~/B/c.d"] := by decide +kernel
  obtain ⟨r, hr, hpath⟩ := List.mem_map.1 (paths ▸ List.mem_singleton_self "~/B/c.d")
  obtain ⟨p, hp, hpart⟩ := List.mem_filterMap.1 hr
  obtain rfl : p = .reference r := by
    cases p <;> simp_all [Part.reference?]
  exact ⟨r, hp, hpath, parse_references "A is ~/B[ 1 ]/c.d" r hp⟩

end Ndf
