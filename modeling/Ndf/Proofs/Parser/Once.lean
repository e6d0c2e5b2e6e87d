/-
# No problem is reported twice

`SPEC_FULL.md` §7: an error is local.

`Ndf.Proofs.Parser.Tidy` for all parsers of the grammar, level by level, and for a whole source.

`parse_once` says of a whole source that a broken token which tokenizing reports has no second
report where it starts, but for those that are made directly, and that the end of the source is
reported once at most.
-/

import Ndf.Proofs.Parser.Tidy

namespace Ndf
namespace Parser

variable {α : Type} {S : Scene} {g : Grammar} {c : Cursor} {t : Token} {m : Mark}

/-- What the level below has to do so that a level is tidy. -/
structure Reporting (S : Scene) (g : Grammar) : Prop where
  advancing : Advancing g
  spanning : Spanning g
  expr : Tidy S g.expr
  operand : Tidy S g.operand
  type : Tidy S g.type

/-! ### Types -/

/-- Behind a type parameter, the first half of a `>=` moves forward only from in front of it. -/
theorem typeParamEnd_tidy (read : List TypeRef) (hc : c.On S.tokens)
    (hon : (typeParamEnd read S.source c).cursor.On S.tokens) :
    S.Tidy (fun _ => True) (typeParamEnd read S.source c) := by
  obtain ⟨b, hb⟩ := eat_value S.source c .comma
  have hcomma : S.Tidy (fun _ => True) (eat .comma S.source c) := Tidies.eat .comma c hc
  refine hcomma.bind fun b hb _ => ?_
  rw [typeParamEnd, bind_of_some hb] at hon
  have hd := hcomma.on
  generalize (eat .comma S.source c).cursor = d at hd hon ⊢
  rw [peek_bind] at hon ⊢
  have key {p : Parser (List TypeRef ⊕ List TypeRef)} (hp : Tidy S p) :
      S.Tidy (fun _ => True) (p S.source d) := hp d hd
  cases hk : (d.rest.headD S.source.stop).kind with
  | gt => exact key (.after .bump fun _ => .pure trivial)
  | gtEq =>
    obtain ⟨t, ts, hr, -⟩ := exists_rest S.ended (c := d) (by rw [hk]; simp)
    have hrun : bumpHalf S.source d =
        ⟨some (), ⟨t.secondHalf :: ts, d.count + 1, t.firstHalf.span, d.depth⟩, []⟩ := by
      simp only [bumpHalf, hr]
    rw [hk] at hon
    refine .silent hon ?_ fun _ _ => trivial
    dsimp only
    rw [bind_of_some (congrArg Outcome.value hrun), hrun]
    rfl
  | word => exact key (.pure trivial)
  | _ => exact key (.unexpected (by decide))

/-- A parameter of a type, and the end of the parameters. -/
theorem typeParamStep_tidy (hg : Reporting S g) (read : List TypeRef) :
    Tidy S (typeParamStep g read) := fun c hc => by
  have hon := hc.reaches ((typeParamStep_sound hg.advancing read).moves S.ended c)
  have hparam := hg.type c hc
  refine hparam.bind fun param hv _ => typeParamEnd_tidy _ hparam.on ?_
  rwa [typeParamStep, bind_of_some hv] at hon

/-- A type reports the end of the source once at most, and nothing a second time. -/
theorem typeRef_tidy (hg : Reporting S g) : Tidy S (typeRef g) := by
  have params : Tidy S (typeParams g) :=
    .loopAfter (Eats.advances (typeParamStep_eats hg.advancing)) (typeParamStep_tidy hg) []
  refine .mark fun _ => .after .look fun _ => .after (.name (by decide)) fun name => ?_
  refine .after .ahead fun _ => ?_
  exact .ite (.after .bump fun _ => .after params fun _ => .spanned)
    (.after (.pure trivial) fun _ => .spanned)

/-! ### Declarations -/

/-- So does an assignment. -/
theorem assignment_tidy (hg : Reporting S g) : Tidy S (assignment g) := by
  refine .mark fun _ => .after (.name (by decide)) fun name => .after (.expectKeyword _) fun _ => ?_
  refine .after hg.expr fun value => ?_
  exact .spanned

/-- So does what follows the name of a member. -/
theorem memberTail_tidy (hg : Reporting S g) (m : Mark) (name : Name) :
    Tidy S (memberTail g m name) := by
  have value (type : Option TypeRef) (legacy : Bool) : Tidy S (do
      let value ← g.expr
      pure (⟨name, type, some value, legacy, ← spanFrom m⟩ : Member)) :=
    .after hg.expr fun _ => .spanned
  refine .after (.eat _) fun _ => ?_
  refine .ite ?_ (.after (.expect _ (by decide)) fun _ => value _ _)
  refine .after (.eat _) fun _ => ?_
  refine .ite (value _ _) ?_
  refine .after (typeRef_tidy hg) fun type => .after (.eat _) fun _ => ?_
  exact .ite (value _ _) .spanned

/-- So does a member. -/
theorem member_tidy (hg : Reporting S g) : Tidy S (member g) :=
  .mark fun m => .after (.name (by decide)) fun name => memberTail_tidy hg m name

/-- So does a parameter. -/
theorem param_tidy (hg : Reporting S g) : Tidy S (param g) := by
  refine .mark fun m => .after (.name (by decide)) fun name => .after .look fun token => ?_
  split
  · exact memberTail_tidy hg m name
  · exact memberTail_tidy hg m name
  · exact .spanned

/-- So do several. -/
theorem params_tidy (hg : Reporting S g) : Tidy S (params g) := by
  refine .loopAfter (paramStep_advances hg.advancing) (fun read => .after .look fun token => ?_) _
  split
  · exact .pure trivial
  · exact .pure trivial
  · exact .after .bump fun _ => .pure trivial
  · exact .after (param_tidy hg) fun _ => .pure trivial
  · exact .unexpected (by decide)

variable {body : Parser Object}

/-- So does a template whose body does. -/
theorem template_tidy (hg : Reporting S g) (hb : Tidy S body) : Tidy S (template g body) := by
  refine .mark fun _ => .after (.expectKeyword _) fun _ => .after (.name (by decide)) fun name => ?_
  refine .after (.expect _ (by decide)) fun _ => .after (params_tidy hg) fun params => ?_
  refine .after (.expect _ (by decide)) fun _ => .after (.expectKeyword _) fun _ => ?_
  refine .after hb fun object => ?_
  exact .spanned

/-- So does a modifier with what follows. -/
theorem visibility_tidy (hg : Reporting S g) (hb : Tidy S body) : Tidy S (visibility g body) := by
  refine .mark fun m => .after .look fun token => ?_
  have key {q : Parser Declaration} (hq : Tidy S q) (modifier : Modifier) (keyword : Name) :
      Tidy S (do
        let declaration ← q
        pure (⟨modifier, keyword, declaration, ← spanFrom m⟩ : Visibility)) :=
    .after hq fun _ => .spanned
  split
  · exact .unexpected (by decide)
  · exact .after (.name (by decide)) fun _ => .after .ahead fun _ =>
      .ite (key (.map _ (template_tidy hg hb)) _ _) (key (.map _ (assignment_tidy hg)) _ _)

/-- So do the steps of a path. -/
theorem suffixes_tidy (hg : Reporting S g) : Tidy S (suffixes g) := by
  refine .loopAfter (suffix_advances hg.advancing) (fun read => ?_) _
  have joined (kind : SegmentKind) : Tidy S (do
      pure (.inl (.joined kind (← name "a name") :: read)) : Parser (_ ⊕ List Suffix)) :=
    .after (.name (by decide)) fun _ => .pure trivial
  refine .after .ahead fun _ => .ite (.after .look fun token => ?_) (.pure trivial)
  split
  · exact .after .bump fun _ => .after hg.expr fun _ => .after (.expect _ (by decide)) fun _ =>
      .pure trivial
  · exact .after .bump fun _ => joined _
  · exact .after .bump fun _ => joined _

/-- The sign of a scope reports nothing. -/
theorem scopeMark_tidy : Tidy S scopeMark := by
  refine .after .bump fun _ => .after .ahead fun _ => ?_
  refine .ite ?_ ?_
  · refine .after .bump fun _ => .after .ahead fun _ => ?_
    exact .ite (.pure trivial) (.unexpected (by decide))
  · refine .after (.unexpected (by decide)) fun _ => .after .ahead fun _ => ?_
    exact .ite (.pure trivial) (.unexpected (by decide))

/-- A path is tidy with its steps. -/
theorem reference_tidy (hg : Reporting S g) : Tidy S (reference g) := by
  have key (scope : Scope) (m : Mark) : Tidy S (do
      let name ← name "a reference name"
      let suffixes ← suffixes g
      let kind : SegmentKind := if scope = .none then .terminal else .nested
      pure (⟨scope, Reference.segmentsOf name kind suffixes, ← spanFrom m⟩ : Reference)) :=
    .after (.name (by decide)) fun _ => .after (suffixes_tidy hg) fun _ => .spanned
  exact .mark fun m => .after .look fun _ => .ite (.after scopeMark_tidy fun _ => key _ m) (key _ m)

/-- An entry is, one way of reading it as the other. -/
theorem entry_tidy (hg : Reporting S g) (hb : Tidy S body) : Tidy S (entry g body) :=
  .after .ahead fun _ => .ite (.map _ (assignment_tidy hg))
    (.ite (.map _ (visibility_tidy hg hb))
      (.ite (.map _ (member_tidy hg))
        (.ite (.map _ (reference_tidy hg))
          (.abortHere fun t => Diagnostic.Cause.oneLine_noMember t.kind.oneLine_name))))

/-- With an entry, or with the fragment in its place, the entries stay tidy. -/
theorem entryStep_tidy (hg : Reporting S g) (hs : Steady body) (hb : Tidy S body)
    (read : List Entry) : Tidy S (entryStep g body read) := by
  refine .peek fun token ht => ?_
  split
  · exact .after .bump fun _ => .pure trivial
  · exact .unexpected (by decide)
  · rename_i hk
    have ht := ht (by simp [hk])
    exact .after (.report (.token ht (by simp [hk]) (by decide)) ht.lt_stop) fun _ =>
      .after .bump fun _ => .pure trivial
  · intro c hc
    have hentry : S.Tidy (fun _ => True) (orRecover (entry g body)
        (Entry.error <$> recoverEntry (.here S.source c)) S.source c) :=
      .orCut hc (entry_tidy hg hb c hc) ((entry_steady hg.advancing hs).moves S.ended c)
        recoverEntry_patches (fun _ _ => recoverEntry_value_nil) fun _ _ => trivial
    exact hentry.bind fun _ _ _ => Tidies.pure trivial _ hentry.on

/-- So an object is tidy whose templates are. -/
theorem objectWith_tidy (hg : Reporting S g) (hs : Steady body) (hb : Tidy S body) :
    Tidy S (objectWith g body) := by
  have entries : Tidy S (loop (entryStep g body) []) :=
    .loopAfter (entryStep_advances hg.advancing hs) (entryStep_tidy hg hs hb) []
  exact .mark fun _ => .after (.name (by decide)) fun _ => .after (.expect _ (by decide)) fun _ =>
    .after entries fun _ => .spanned

/-- The recursion into templates stays so as far as it goes. -/
theorem object_tidy (hg : Reporting S g) : Tidy S (object g) := by
  have hbase := Steady.unexpected (α := Object) ""
  have nest (n : Nat) : Tidy S (objectNest g (unexpected "") n) := by
    induction n with
    | zero => exact objectWith_tidy hg hbase (.unexpected (by decide))
    | succ n ih => exact objectWith_tidy hg (objectNest_steady hg.advancing hbase n) ih
  intro c hc
  rw [object_eq_nest hg.advancing hbase S.ended (Nat.le_refl _)]
  exact nest _ c hc

/-- An unnamed object is tidy with its object. -/
theorem unnamed_tidy (hg : Reporting S g) : Tidy S (unnamed g) :=
  .mark fun _ => .after (.expectKeyword _) fun _ => .after (object_tidy hg) fun _ => .spanned

/-! ### Elements -/

/-- All elements start at a token. -/
def Elements.Inner (S : Scene) (e : Elements) : Prop := ∀ i ∈ e.items, S.Inner i.span

/-- An element, or the fragment that is cut out in its place, starts at the next token. -/
theorem orElement_tidy (hg : Reporting S g) (hc : c.On S.tokens) (hr : c.rest ≠ []) :
    S.Tidy (fun i => S.Inner i.span)
      (orRecover g.expr (Expr.error <$> recoverElement (.here S.source c)) S.source c) := by
  have hexpr := hg.expr c hc
  refine .orCut hc ⟨hexpr.toClean, hexpr.quits, fun i hi => ⟨c, hc, hr, ?_⟩⟩
    (hg.advancing.expr.moves S.ended c) recoverElement_patches
    (fun _ _ => recoverElement_value_nil) fun e he => ⟨c, hc, hr, he⟩
  rw [hg.spanning.expr S.ended c i hi, Scene.start_upTo]

/-- One round of the elements keeps them at the tokens they start with. -/
theorem element_tidies (hg : Reporting S g) (e : Elements) (he : e.Inner S) :
    Tidies S (Sum.elim (Elements.Inner S) (Elements.Inner S)) (element g e) := by
  intro c hc
  rw [element, peek_bind]
  have item (hr : c.rest ≠ []) : S.Tidy (Sum.elim (Elements.Inner S) (Elements.Inner S)) ((do
      let m ← mark
      let item ← orRecover g.expr (Expr.error <$> recoverElement m)
      pure (.inl { e with reversed := item :: e.reversed, commaDue := true }) :
        Parser (Elements ⊕ Elements)) S.source c) := by
    have helement := orElement_tidy hg hc hr
    refine helement.bind fun i _ hi => Tidies.pure (a := Sum.inl _) ?_ _ helement.on
    intro j hj
    have hj : j ∈ e.items ∨ j = i := by simpa [Elements.items] using hj
    exact hj.elim (he j) fun h => h ▸ hi
  have due (kind : TokenKind) (hk : (c.rest.headD S.source.stop).kind = kind)
      (hne : kind ≠ .eof) : S.Tidy (Sum.elim (Elements.Inner S) (Elements.Inner S)) ((do
        if e.commaDue then
          report (.expected "',' or ']'" kind.name) (c.rest.headD S.source.stop).span
        else pure ()
        let m ← mark
        let item ← orRecover g.expr (Expr.error <$> recoverElement m)
        pure (.inl { e with reversed := item :: e.reversed, commaDue := true }) :
          Parser (Elements ⊕ Elements)) S.source c) := by
    subst hk
    have hr : c.rest ≠ [] := fun hnil => hne (by rw [hnil]; exact S.ended)
    have hreport := Tidies.report (.direct (.separator _) hc rfl) (Scene.next_lt_stop hc hr) c hc
    by_cases hdue : e.commaDue
    · rw [if_pos hdue]
      exact hreport.bind fun _ _ _ => item hr
    · rw [if_neg hdue]
      exact item hr
  cases hk : (c.rest.headD S.source.stop).kind with
  | rbracket => exact Tidies.pure (a := Sum.inr e) he c hc
  | eof => exact Tidies.pure (a := Sum.inr e) he c hc
  | comma => exact Tidies.after .bump (fun _ => .pure (a := Sum.inl _) he) c hc
  | _ => exact due _ hk (by simp)

/-- So do the brackets around them. -/
theorem bracketed_tidies (hg : Reporting S g) : Tidies S (Elements.Inner S) (bracketed g) := by
  have elements : Tidies S (Elements.Inner S) (elements g) :=
    .loop (element_advances hg.advancing) (element_tidies hg) fun i hi => by cases hi
  exact .after (.expect _ (by decide)) fun _ => .bind elements fun _ he =>
    .after (.expect _ (by decide)) fun _ => .pure he

/-! ### Expressions -/

/-- An element that is no pair is reported where it starts. -/
theorem pairs_tidy {items : List Expr} (h : ∀ i ∈ items, S.Inner i.span) :
    Tidy S (pairs items) := by
  induction items with
  | nil => exact .pure trivial
  | cons item items ih =>
    obtain ⟨hitem, hitems⟩ := List.forall_mem_cons.1 h
    have entry {p : Parser Expr} (hp : Tidy S p) : Tidy S (do
        let entry ← p
        pure (entry :: (← pairs items))) :=
      .after hp fun _ => .after (ih hitems) fun _ => .pure trivial
    unfold pairs
    split
    · exact entry (.pure trivial)
    · exact entry (.pure trivial)
    · obtain ⟨c, hc, hr, hs⟩ := id hitem
      exact entry (.after (.report (.direct (.noPair item) hc hs) hitem.lt_stop) fun _ =>
        .map _ (.errorAt _))

/-- A list is tidy with its elements. -/
theorem list_tidy (hg : Reporting S g) : Tidy S (list g) :=
  .mark fun _ => .bind (bracketed_tidies hg) fun _ _ => .spanned

/-- So is a vector. -/
theorem vector_tidy (hg : Reporting S g) (type : VectorType) : Tidy S (vector g type) := by
  refine .mark fun _ => .after (.name (by decide)) fun name => ?_
  refine .bind (bracketed_tidies hg) fun elements _ => ?_
  exact .spanned

/-- So is whatever a name and a bracket start. -/
theorem vectorOrPath_tidy (hg : Reporting S g) : Tidy S (vectorOrPath g) := by
  refine .mark fun m => .after (.name (by decide)) fun name => .bind (bracketed_tidies hg)
    fun e _ => .after .spanFrom fun span => .after .ahead fun ts => ?_
  split
  · exact .ite (.after (suffixes_tidy hg) fun _ => .spanned)
      (.pure trivial)
  · exact .pure trivial

/-- A map may report an element that is no pair. -/
theorem map_tidy (hg : Reporting S g) : Tidy S (map g) := by
  refine .mark fun _ => .after (.name (by decide)) fun name => ?_
  refine .bind (bracketed_tidies hg) fun elements he => ?_
  refine .after (pairs_tidy he) fun pairs => ?_
  exact .spanned

/-- A pair or a group asks for its parenthesis once. -/
theorem parenthesised_tidy (hg : Reporting S g) : Tidy S (parenthesised g) := by
  refine .mark fun _ => .after (.expect _ (by decide)) fun _ => .after (.eat _) fun _ => ?_
  refine .ite .spanned ?_
  refine .after hg.expr fun value => .after (.eat _) fun _ => ?_
  exact .ite (.after hg.expr fun _ => .after (.expect _ (by decide)) fun _ => .spanned)
    (.after (.expect _ (by decide)) fun _ => .spanned)

/-- A generic type asks for its bracket once. -/
theorem generic_tidy (hg : Reporting S g) : Tidy S (generic g) := by
  have index : Tidy S (index? g) :=
    .after .ahead fun _ => .ite (.after .bump fun _ => .after hg.expr fun _ =>
      .after (.expect _ (by decide)) fun _ => .pure trivial) (.pure trivial)
  refine .mark fun _ => .after (.expect _ (by decide)) fun _ => .after .ahead fun _ => ?_
  refine .ite ?_ (.unexpected (by decide))
  refine .after (.name (by decide)) fun name => .after .ahead fun _ => ?_
  exact .ite (.after .bump fun _ => .after index fun _ => .spanned) (.unexpected (by decide))

/-- A payload asks for its token once. -/
theorem guid_tidy : Tidy S guid := by
  refine .mark fun m => .after .bump fun _ => .after (.expect _ (by decide)) fun _ =>
    .after .look fun token => ?_
  split
  · exact .after .bump fun _ => .spanned
  · exact .after .bump fun _ => .after .errorFrom fun _ => .pure trivial
  · exact .unexpected (by decide)

/-- What a name starts is tidy in each of its forms. -/
theorem nameLed_tidy (hg : Reporting S g) : Tidy S (nameLed g) :=
  .after .ahead fun _ => .ite (.map _ (object_tidy hg))
    (.ite (vectorOrPath_tidy hg) (.map _ (reference_tidy hg)))

/-- So is what any word starts. -/
theorem wordLed_tidy (hg : Reporting S g) (wordClass : WordClass) :
    Tidy S (wordLed g wordClass) := by
  have constant (value : Span → Expr) : Tidy S (constant value) :=
    .after .look fun _ => .after .bump fun _ => .pure trivial
  refine .after .ahead fun _ => .ite (.map _ (assignment_tidy hg))
    (.ite (.map _ (visibility_tidy hg (object_tidy hg))) ?_)
  split
  · exact constant _
  · exact constant _
  · exact constant _
  · exact .ite guid_tidy (nameLed_tidy hg)
  · exact .ite (map_tidy hg) (nameLed_tidy hg)
  · exact .ite (vector_tidy hg _) (nameLed_tidy hg)
  · exact nameLed_tidy hg

/-- A stray character is the one broken token that is reported where it is read. -/
theorem brokenToken_tidy {e : LexError} (hc : c.On S.tokens)
    (hk : (c.rest.headD S.source.stop).kind = .error e) :
    S.Tidy (fun _ => True) (brokenToken e S.source c) := by
  obtain ⟨t, ts, hr, -⟩ := exists_rest S.ended (c := c) (by rw [hk]; simp)
  have ht : S.Meets t := hc.mem_rest (by simp [hr])
  rw [hr, List.headD_cons] at hk
  have run {q : Parser Unit} (hq : Tidy S q) : S.Tidy (fun _ => True)
      ((bump >>= fun _ => q >>= fun _ => do pure (Expr.error (← errorFrom (.here S.source c))))
        S.source c) :=
    Tidies.after .bump (fun _ => .after hq fun _ => .after .errorFrom fun _ => .pure trivial) c hc
  cases e with
  | unexpectedChar x =>
    refine run (q := report (.strayCharacter x) (c.rest.headD S.source.stop).span) ?_
    rw [hr, List.headD_cons]
    refine .report (.token ht (fun e he => ?_) (Diagnostic.Cause.oneLine_strayCharacter x))
      ht.lt_stop
    obtain rfl : LexError.unexpectedChar x = e := by simpa [hk] using he
    rfl
  | unterminatedString | unterminatedBrace | missingHexDigits =>
    exact run (q := pure ()) (.pure trivial)

/-- An operand is tidy, and silent at a token that was reported. -/
theorem primary_tidy (hg : Reporting S g) : Tidy S (primary g) := by
  intro c hc
  have literal (value : Expr) : Tidy S (bump >>= fun _ => pure value) :=
    .after .bump fun _ => .pure trivial
  have other : Tidy S (do
      if Lookahead.startsScoped (← ahead) then Expr.reference <$> reference g
      else noExpression) :=
    .after .ahead fun _ => .ite (.map _ (reference_tidy hg))
      (.abortHere fun t => Diagnostic.Cause.oneLine_noExpression t.kind.oneLine_name)
  rw [primary, peek_bind]
  cases hk : (c.rest.headD S.source.stop).kind with
  | number => exact literal _ c hc
  | string => exact literal _ c hc
  | lbracket => exact list_tidy hg c hc
  | lparen => exact parenthesised_tidy hg c hc
  | lt => exact generic_tidy hg c hc
  | word => exact wordLed_tidy hg _ c hc
  | error e => exact brokenToken_tidy hc hk
  | eof => exact Tidies.unexpected (by decide) c hc
  | _ => exact other c hc

/-- So it is with signs in front. -/
theorem unary_tidy (hg : Reporting S g) : Tidy S (unary g) := by
  have operand (op : UnaryOp) (m : Mark) : Tidy S (do
      let operand ← g.operand
      pure (Expr.unary op operand (← spanFrom m))) :=
    .after hg.operand fun _ => .spanned
  refine .mark fun m => .after .look fun token => ?_
  split
  · exact .after .bump fun _ => operand _ m
  · exact .after .bump fun _ => operand _ m
  · exact primary_tidy hg

/-- So is an expression, operator by operator. -/
theorem climb_tidy (hg : Reporting S g) (steps loosest : Nat) : Tidy S (climb g steps loosest) := by
  induction steps generalizing loosest with
  | zero => exact unary_tidy hg
  | succ steps ih =>
    have hright (rank : Nat) := climb_steady hg.advancing steps rank
    refine .mark fun m => .after (unary_tidy hg) fun left =>
      .loopAfter (operation_advances hg.advancing hright loosest m)
        (fun left => .after .ahead fun ts => ?_) left
    split
    · exact .pure trivial
    · exact .ite (.after .bump fun _ => .after hg.expr fun _ => .after (.expect _ (by decide))
        fun _ => .after hg.expr fun _ => .spanned) (.pure trivial)
    · exact .ite (.after .bump fun _ => .after (ih _) fun _ => .spanned) (.pure trivial)

/-! ### Levels and items -/

/-- Below the last level the report stands where the fragment starts: at the end of the source if
there is none. -/
theorem tooDeep_tidy : Tidy S tooDeep := by
  intro c hc
  obtain ⟨d, text, h, hrun⟩ := tooDeep_run (R := .whole S) hc
  rw [hrun]
  have hnoted : S.Noted (.problem (.ofCause (.tooDeep maxNesting)
      ((Mark.here S.source c).upTo d))) := .direct (.tooDeep _) hc (Scene.start_upTo S c d)
  have noted : ∀ note ∈ [.event (.skipped ((Mark.here S.source c).upTo d)),
      .problem (.ofCause (.tooDeep maxNesting) ((Mark.here S.source c).upTo d))],
      S.Noted note := by simp [hnoted, Scene.Noted.event]
  by_cases hr : c.rest = []
  · have hd : d.rest = [] :=
      List.eq_nil_of_length_eq_zero (Nat.le_zero.1 (by simpa [hr] using h.length_le))
    have hstill : ¬ c.count < d.count := by
      rw [h.count_lt_iff, hr]
      exact Nat.not_lt_zero _
    refine ⟨⟨hc.reaches h, noted, .inr ⟨?_, hd⟩⟩, .inr (if_neg hstill), fun _ _ => trivial⟩
    simp [Scene.finals, Scene.isFinal, Diagnostic.ofCause, Scene.next_nil hr]
  · refine .of_finals (hc.reaches h) noted ?_ fun _ _ => trivial
    have hlt := Scene.next_lt_stop hc hr
    simp [Scene.finals, Scene.isFinal, Diagnostic.ofCause, Nat.ne_of_lt hlt]

/-- **A level is tidy if the one below is.** -/
theorem Reporting.above (hg : Reporting S g) (hs : Spanning (.above g)) :
    Reporting S (.above g) where
  advancing := hg.advancing.above
  spanning := hs
  expr := .nested (.map _ tooDeep_tidy) (expression_steady hg.advancing).sound (climb_tidy hg _ _)
  operand := .nested (.map _ tooDeep_tidy) (unary_steady hg.advancing).sound (unary_tidy hg)
  type := .nested (.after tooDeep_tidy fun _ => .abort) (typeRef_sound hg.advancing)
    (typeRef_tidy hg)

/-- All levels are tidy. -/
theorem reporting_levels (S : Scene) (n : Nat) : Reporting S (.levels n) := by
  induction n with
  | zero =>
    exact ⟨advancing_bottom, spanning_levels 0, .map _ tooDeep_tidy, .map _ tooDeep_tidy,
      .after tooDeep_tidy fun _ => .abort⟩
  | succ n ih => exact ih.above (spanning_levels (n + 1))

/-- An item is tidy on each level. -/
theorem item_tidy (hg : Reporting S g) : Tidy S (item g) :=
  .after .ahead fun _ => .ite (.map _ (assignment_tidy hg))
    (.ite (.map _ (visibility_tidy hg (object_tidy hg)))
      (.ite (.map _ (template_tidy hg (object_tidy hg)))
        (.ite (.map _ (unnamed_tidy hg))
          (.ite (.map _ (member_tidy hg)) (.map _ hg.expr)))))

/-- A broken item is cut out at the end of the source as well. -/
theorem itemOrError_clean (hg : Reporting S g) (hc : c.On S.tokens) :
    S.Clean (itemOrError g S.source c) := by
  have hitem := (item_tidy hg c hc).clean_orCut (h := Item.error) hc
    ((item_steady hg.advancing).moves S.ended c) recoverItem_patches
  exact hitem.bind fun i _ => ⟨(Tidies.after (.emit _) (fun _ => .pure trivial) _ hitem.on :
    S.Tidy (fun _ : Item => True) _).toClean, fun hr => ⟨rfl, hr⟩⟩

/-- Where nothing is left, no more items are read. -/
theorem items_clean (hg : Reporting S g) (hc : c.On S.tokens) (read : List Item) :
    S.Clean (loop (nextItem g) read S.source c) := by
  refine (loop_rec (nextItem_advances hg.advancing) S.ended (P := fun _ c o => c.On S.tokens →
    S.Clean o ∧ (c.rest = [] → S.finals o.notes = 0 ∧ o.cursor.rest = []))
    (fun read c ih hc => ?_) read c hc).1
  by_cases hr : c.rest = []
  · rw [bind_of_some (congrArg Outcome.value (nextItem_nil hr read)), nextItem_nil hr]
    exact ⟨⟨hc, by simp [again, pure_run], .inl rfl⟩, fun _ => ⟨rfl, hr⟩⟩
  · refine ⟨?_, fun h => absurd h hr⟩
    have hstep : S.Clean (nextItem g read S.source c) := by
      rw [nextItem_cons hr]
      have hitem := itemOrError_clean hg hc
      exact hitem.bind fun i _ => ⟨⟨hitem.on, by simp [pure_run], .inl rfl⟩, fun hr => ⟨rfl, hr⟩⟩
    refine hstep.bind fun r hv => ?_
    cases r with
    | inl read' => exact ih read' hv hstep.on
    | inr items => exact ⟨⟨hstep.on, by simp [again, pure_run], .inl rfl⟩, fun hr => ⟨rfl, hr⟩⟩

end Parser

/-! ### Problems of tokens -/

variable {source : String} {t : Token} {d : Diagnostic}

/-- Tokenizing reports a problem over the whole of a token. -/
theorem exists_token_of_mem_diagnostics (h : d ∈ (tokenize source).diagnostics) :
    ∃ t ∈ (tokenize source).tokens, t.kind ≠ .eof ∧ d.span = t.span := by
  obtain ⟨x, hx, hd⟩ := List.mem_filterMap.1 h
  obtain ⟨hspan, hlt⟩ := covers_of_problem hx hd
  have ht := List.mem_map_of_mem (f := LexStep.token) hx
  exact ⟨x.token, ht, ((cover_tokenize source).ne_eof_iff_lt ht).2 hlt, hspan⟩

/-- **Tokenizing reports no two problems at one place.** -/
theorem pairwise_diagnostics (source : String) :
    (tokenize source).diagnostics.Pairwise fun a b => a.span.start < b.span.start := by
  have hsteps := List.pairwise_map.1 (cover_tokenize source).pairwise
  refine (hsteps.imp_of_mem (S := fun x y => ∀ a, x.problem = some a → ∀ b, y.problem = some b →
    a.span.start < b.span.start) fun {x y} hx hy hxy a ha b hb => ?_).filterMap _
      fun x y h a ha b hb => h a ha b hb
  obtain ⟨hspan, hlt⟩ := covers_of_problem hx ha
  rw [hspan, (covers_of_problem hy hb).1]
  exact Nat.lt_of_lt_of_le hlt hxy.1

/-- Tokenizing reports nothing at the end of the source. -/
theorem start_lt_of_mem_diagnostics (h : d ∈ (tokenize source).diagnostics) :
    d.span.start < Text.byteSize source.toList := by
  obtain ⟨t, ht, hk, hspan⟩ := exists_token_of_mem_diagnostics h
  have cover := cover_tokenize source
  obtain ⟨last, hlast, heof, hstart, -⟩ := cover.last
  have hlt := (cover.ne_eof_iff_lt ht).1 hk
  have hpairwise := cover.pairwise
  rw [← List.dropLast_append_getLast? last hlast] at ht hpairwise
  rcases List.mem_append.1 ht with ht | ht
  · have := ((List.pairwise_append.1 hpairwise).2.2 t ht last (List.mem_singleton_self _)).1
    rw [hspan]
    omega
  · rw [List.mem_singleton.1 ht] at hk
    exact absurd heof hk

/-- A broken token that tokenizing reports is reported by it once. -/
theorem exists_alone (ht : t ∈ (tokenize source).tokens) {e : LexError} (hk : t.kind = .error e)
    (he : e.isReported = true) : ∃ d u v, (tokenize source).diagnostics = u ++ d :: v ∧
      d.span = t.span ∧ ∀ d' ∈ u ++ v, d'.span.start ≠ d.span.start := by
  obtain ⟨x, hx, rfl⟩ := List.mem_map.1 ht
  obtain ⟨d, hd⟩ := Option.ne_none_iff_exists'.1 (Lexer.problem_of_isReported hx hk he)
  obtain ⟨u, v, huv⟩ := List.append_of_mem
    (show d ∈ (tokenize source).diagnostics from List.mem_filterMap.2 ⟨x, hx, hd⟩)
  have hpairwise := pairwise_diagnostics source
  rw [huv, List.pairwise_append, List.pairwise_cons] at hpairwise
  obtain ⟨-, ⟨hv, -⟩, hu⟩ := hpairwise
  refine ⟨d, u, v, huv, ((Lexer.ofText_at source.toList).steps_show x hx).problem d hd,
    fun d' hd' => ?_⟩
  rcases List.mem_append.1 hd' with hd' | hd'
  · exact Nat.ne_of_lt (hu d' hd' d (List.mem_cons_self ..))
  · exact Nat.ne_of_gt (hv d' hd')

/-! ### Whole sources -/

namespace Scene

variable {S : Scene}

/-- No two tokens overlap. -/
theorem eq_of_overlap {s : Token} (hs : s ∈ S.tokens) (ht : t ∈ S.tokens)
    (hle : s.span.start ≤ t.span.start) (hlt : t.span.start < s.span.stop) : t = s := by
  obtain ⟨u, v, huv⟩ := List.append_of_mem hs
  rw [huv, List.mem_append, List.mem_cons] at ht
  rcases ht with hu | rfl | hv
  · obtain ⟨w, x, hwx⟩ := List.append_of_mem hu
    have hsplit : S.tokens = w ++ t :: (x ++ s :: v) := by simp [huv, hwx]
    have := stop_le_of_append hsplit (t := s) (by simp)
    have := S.nonempty t (by simp [huv, hu])
    omega
  · rfl
  · have := stop_le_of_append huv (t := t) (by simp [hv])
    omega

/-- Where a token starts the grammar meets no other one. -/
theorem Meets.eq {s : Token} (h : S.Meets s) (ht : t ∈ S.tokens)
    (hst : s.span.start = t.span.start) : s = t := by
  rcases h with hs | ⟨u, hu, hk, rfl⟩
  · exact eq_of_overlap ht hs (by omega) (by have := S.nonempty t ht; omega)
  · have hstart : u.span.start + 1 = t.span.start := hst
    have hstop : u.span.start + 1 < u.span.stop := (S.halves u hu hk).2
    obtain rfl := eq_of_overlap hu ht (by omega) (by omega)
    omega

end Scene

/-- A token of a source that is not passed over is read, or it is the end of the source. -/
theorem mem_tokens_or_stop (ht : t ∈ (tokenize source).tokens) (hk : t.kind.isTrivia = false) :
    t ∈ (Scene.ofText source).tokens ∨ t = (Scene.ofText source).source.stop := by
  have happend : (Scene.ofText source).tokens ++ [(Scene.ofText source).source.stop] = _ :=
    ofText_append_stop source
  rw [← List.mem_singleton, ← List.mem_append, happend]
  exact List.mem_filter.2 ⟨ht, by rw [hk]; rfl⟩

/-- The run over a source is clean. -/
theorem readItems_clean (source : String) : (Scene.ofText source).Clean
    (readItems (fun _ => false) source (TokenStream.ofText source)) :=
  Parser.items_clean (Parser.reporting_levels (Scene.ofText source) Parser.maxNesting)
    (Cursor.On.start _) []

/-- What the grammar reports at a broken token that tokenizing reports is reported directly. -/
theorem direct_of_mem {notes : List Note}
    (hnotes : ∀ note ∈ notes, (Scene.ofText source).Noted note)
    (ht : t ∈ (tokenize source).tokens) {e : LexError} (hk : t.kind = .error e)
    (he : e.isReported = true) (hd : d ∈ Note.diagnostics false notes)
    (hs : d.span.start = t.span.start) : d.Direct := by
  have htokens : t ∈ (Scene.ofText source).tokens := by
    refine (mem_tokens_or_stop ht (by rw [hk]; rfl)).resolve_right fun hstop => ?_
    have hend := (Scene.ofText source).ended
    rw [Source.Ended, ← hstop, hk] at hend
    cases hend
  have hstop := Scene.Meets.lt_stop (.inl htokens)
  rcases Note.mem_of_mem_diagnostics hd with hd | hd
  · cases hnotes _ hd with
    | token hmeets hreport _ =>
      obtain rfl := hmeets.eq htokens hs
      rw [hreport e hk] at he
      cases he
    | direct hdirect _ _ => exact hdirect
  · cases hnotes _ hd with
    | atEnd _ => exact absurd hs (Nat.ne_of_gt hstop)

/-- The reports about the end of the source are among the notes about it. -/
theorem Note.countP_diagnostics_le (S : Scene) (ended : Bool) (notes : List Note) :
    ((diagnostics ended notes).countP fun d => d.span.start == S.source.stop.span.start) ≤
      S.finals notes := by
  induction notes generalizing ended with
  | nil => exact Nat.le_refl 0
  | cons note notes ih =>
    rw [Scene.finals, List.countP_cons]
    cases note with
    | problem d =>
      rw [diagnostics, List.countP_cons]
      exact Nat.add_le_add_right (ih ended) _
    | atEnd d =>
      rw [if_pos (show S.isFinal (.atEnd d) = true from rfl)]
      cases ended with
      | true => exact Nat.le_succ_of_le (ih true)
      | false =>
        rw [diagnostics, if_neg (by simp), List.countP_cons]
        refine Nat.add_le_add (ih true) ?_
        split <;> simp
    | event e => exact ih ended
    | breach b => exact ih ended

/-- The problems of a source are those of its tokens and those that the grammar reports. -/
theorem perm_diagnostics (source : String) : (parse source).diagnostics.Perm
    ((tokenize source).diagnostics ++ Note.diagnostics false
      (readItems (fun _ => false) source (TokenStream.ofText source)).notes) :=
  List.mergeSort_perm _ _

/-- A problem of a source is one of its tokens, or the grammar notes it. -/
theorem noted_of_mem_diagnostics (h : d ∈ (parse source).diagnostics) :
    d ∈ (tokenize source).diagnostics ∨ (Scene.ofText source).Noted (.problem d) ∨
      (Scene.ofText source).Noted (.atEnd d) := by
  have hnoted := (readItems_clean source).noted
  refine (List.mem_append.1 ((perm_diagnostics source).subset h)).imp_right fun h => ?_
  exact (Note.mem_of_mem_diagnostics h).imp (hnoted _) (hnoted _)

/-- **No problem is reported twice, unless directly.**  An unterminated string, an unterminated
payload and a number without its hex digits are covered by one diagnostic each, and all others that
start where it does were reported without a look at what had been reported: the comma in front of
an element is missing, an entry of a map is no pair, or a fragment lies below the last level.  At
the end-of-input token one diagnostic starts at most. -/
theorem parse_once (source : String) :
    (∀ t ∈ (tokenize source).tokens, ∀ e, t.kind = .error e →
      e ∈ [LexError.unterminatedString, .unterminatedBrace, .missingHexDigits] →
      ∃ before d after, (parse source).diagnostics = before ++ d :: after ∧ d.span = t.span ∧
        ∀ d' ∈ before ++ after, d'.span.start = t.span.start → d'.Direct) ∧
    ∀ t ∈ (tokenize source).tokens, t.kind = .eof →
      ((parse source).diagnostics.countP fun d => d.span.start == t.span.start) ≤ 1 := by
  have hclean := readItems_clean source
  have hperm := perm_diagnostics source
  constructor
  · intro t ht e hk hkind
    have he : e.isReported = true := by
      simp only [List.mem_cons, List.not_mem_nil, or_false] at hkind
      rcases hkind with rfl | rfl | rfl <;> rfl
    obtain ⟨d, u, v, huv, hspan, halone⟩ := exists_alone ht hk he
    have hmem : d ∈ (tokenize source).diagnostics := by simp [huv]
    obtain ⟨before, after, hsplit⟩ :=
      List.append_of_mem (hperm.symm.subset (List.mem_append_left _ hmem))
    refine ⟨before, d, after, hsplit, hspan, fun d' hd' hs => ?_⟩
    -- Besides `d`, what starts there is not reported by tokenizing.
    rw [hsplit, huv, List.append_assoc, List.cons_append] at hperm
    have hrest := (List.perm_middle.symm.trans (hperm.trans List.perm_middle)).cons_inv
    rw [← List.append_assoc] at hrest
    rcases List.mem_append.1 (hrest.subset hd') with hd' | hd'
    · exact absurd (hspan ▸ hs) (halone d' hd')
    · exact direct_of_mem hclean.noted ht hk he hd' hs
  · intro t ht hk
    obtain rfl : t = (Scene.ofText source).source.stop :=
      (mem_tokens_or_stop ht (by rw [hk]; rfl)).resolve_left fun h =>
        (Scene.ofText source).seen t h hk
    have htokens : ((tokenize source).diagnostics.countP fun d =>
        d.span.start == (Scene.ofText source).source.stop.span.start) = 0 := by
      refine List.countP_eq_zero.2 fun d hd => ?_
      have := start_lt_of_mem_diagnostics hd
      rw [show (Scene.ofText source).source.stop.span.start = _ from
        TokenStream.start_stop source]
      simpa using Nat.ne_of_lt this
    rw [hperm.countP_eq, List.countP_append, htokens, Nat.zero_add]
    refine Nat.le_trans (Note.countP_diagnostics_le ..) ?_
    rcases hclean.ends with h | h <;> omega

/-- A broken number where a comma is missing is reported twice. -/
theorem parse_twice : ∃ t ∈ (tokenize "[1 0x]").tokens, t.kind = .error .missingHexDigits ∧
    (parse "[1 0x]").diagnostics.countP (fun d => d.span.start == t.span.start) = 2 := by
  refine ⟨⟨.error .missingHexDigits, ⟨3, 5, 1, 4⟩, false⟩, by decide +kernel, rfl, ?_⟩
  rw [(perm_diagnostics _).countP_eq]
  decide +kernel

end Ndf
