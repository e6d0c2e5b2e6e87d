/-
# The span of what is read

Every node is given the span from a mark at its start through the last token read.  `Ends m` says
so for a parser that runs behind the mark `m`, `Spans` for one that sets the mark itself, and
`Spans` of the parts carries over to the whole: an operator between two operands starts where its
left one does.

The mark of a parse that read something stands for its first token, so a node covers exactly the
tokens that were read for it (`itemOrError_span`).
-/

import Ndf.Proofs.Parser.Levels

namespace Ndf

namespace Parser

/-- The span from a mark through the last token read before a place. -/
def Mark.upTo (m : Mark) (c : Cursor) : Span :=
  if m.count < c.count then m.first.through c.last else m.first.atStart

/-- The mark that is set at a place. -/
def Mark.here (src : Source) (c : Cursor) : Mark := ⟨c.count, (c.rest.headD src.stop).span⟩

variable {α β σ : Type} {p : Parser α} {k : α → Parser β} {h : β → Span} {m : Mark} {g : Grammar}
  {src : Source} {c : Cursor}

/-- A value covers what was read since a mark. -/
def Ends (m : Mark) (h : α → Span) (p : Parser α) : Prop :=
  ∀ (src : Source) (c : Cursor) (a : α), (p src c).value = some a → h a = m.upTo (p src c).cursor

/-- A value covers what was read for it, from here. -/
def SpansAt (src : Source) (c : Cursor) (h : α → Span) (p : Parser α) : Prop :=
  ∀ a, (p src c).value = some a → h a = (Mark.here src c).upTo (p src c).cursor

/-- A value covers what was read for it. -/
def Spans (h : α → Span) (p : Parser α) : Prop :=
  ∀ ⦃src : Source⦄, src.Ended → ∀ (c : Cursor), SpansAt src c h p

/-- The span since a mark is known at once. -/
theorem spanFrom_bind (f : Span → Parser β) : (spanFrom m >>= f) src c = f (m.upTo c) src c := rfl

/-- The last part of a sequence closes the node. -/
theorem Ends.bind (hk : ∀ a, Ends m h (k a)) : Ends m h (p >>= k) := by
  intro src c b
  cases hv : (p src c).value with
  | none =>
    rw [bind_of_none hv]
    intro hb
    cases hb
  | some a =>
    rw [bind_of_some hv]
    exact hk a src _ b

/-- Both branches close it. -/
theorem Ends.ite {P : Prop} [Decidable P] {p q : Parser β} (hp : Ends m h p) (hq : Ends m h q) :
    Ends m h (if P then p else q) := by
  split
  · exact hp
  · exact hq

/-- Without a value there is nothing to close. -/
theorem Ends.abort : Ends m h abort := fun _ _ _ hb => by cases hb

/-- Nor is there behind a complaint. -/
theorem Ends.unexpected (due : String) : Ends m h (unexpected due) := fun _ _ _ hb => by cases hb

/-- The span is taken last. -/
theorem Ends.spanFrom {v : Span → β} (hv : ∀ s, h (v s) = s) :
    Ends m h (spanFrom m >>= fun s => pure (v s)) := by
  intro src c b hb
  obtain rfl : v (m.upTo c) = b := by injection hb
  exact hv _

/-- A fragment is closed by its own span. -/
theorem Ends.errorFrom {v : ErrorNode → β} (hv : ∀ e, h (v e) = e.span) :
    Ends m h (errorFrom m >>= fun e => pure (v e)) := by
  intro src c b hb
  obtain rfl : v ⟨m.upTo c, String.ofList (Text.covered src.text (m.upTo c))⟩ = b := by
    injection hb
  exact hv _

/-- A mark set first is where the node starts. -/
theorem Spans.mark {q : Mark → Parser β} (hq : ∀ m, Ends m h (q m)) : Spans h (mark >>= q) :=
  fun src _ c => hq (Mark.here src c) src c

/-- Of two branches only the one taken counts. -/
theorem Spans.ite {P : Prop} [Decidable P] {p q : Parser β} (hp : Spans h p) (hq : Spans h q) :
    Spans h (if P then p else q) := by
  split
  · exact hp
  · exact hq

/-- The same from one place. -/
theorem SpansAt.ite {P : Prop} [Decidable P] {p q : Parser β} (hp : SpansAt src c h p)
    (hq : SpansAt src c h q) : SpansAt src c h (if P then p else q) := by
  split
  · exact hp
  · exact hq

/-- The tokens ahead may decide. -/
theorem Spans.ahead {q : List Token → Parser β} (hq : ∀ ts, Spans h (q ts)) :
    Spans h (ahead >>= q) := fun _ he c => hq c.rest he c

/-- So may the next one. -/
theorem Spans.peek {q : Token → Parser β} (hq : ∀ ⦃src : Source⦄, src.Ended → ∀ (c : Cursor),
    SpansAt src c h (q (c.rest.headD src.stop))) : Spans h (peek >>= q) := hq

/-- So may it behind a mark. -/
theorem Spans.markPeek {q : Mark → Token → Parser β} (hq : ∀ ⦃src : Source⦄, src.Ended →
    ∀ (c : Cursor), SpansAt src c h (q (Mark.here src c) (c.rest.headD src.stop))) :
    Spans h (Parser.mark >>= fun m => Parser.peek >>= q m) := hq

/-- What is made of a node has its span. -/
theorem Spans.map {h' : α → Span} {f : α → β} (hp : Spans h' p) (hf : ∀ a, h (f a) = h' a) :
    Spans h (f <$> p) := by
  intro src he c b hb
  rw [map_run] at hb ⊢
  obtain ⟨a, ha, rfl⟩ := Option.map_eq_some_iff.1 hb
  rw [hf]
  exact hp he c a ha

/-- One level deeper, or at the cut. -/
theorem Spans.nested {deep : Parser α} {h : α → Span} (hd : Spans h deep) (hs : Sound p)
    (hp : Spans h p) : Spans h (nested deep p) := by
  intro src he c a
  rcases Nat.lt_or_ge c.depth maxNesting with hc | hc
  · rw [nested_of_lt hs he hc]
    exact hp he c.down a
  · rw [nested_of_le hc]
    exact hd he c a

/-! ### Declarations and references -/

/-- An assignment has the span of what was read for it. -/
theorem assignment_spans : Spans Assignment.span (assignment g) :=
  .mark fun _ => .bind fun _ => .bind fun _ => .bind fun _ => .spanFrom fun _ => rfl

/-- A member is closed behind its value or its type. -/
theorem memberTail_ends (name : Name) : Ends m Member.span (memberTail g m name) := by
  refine .bind fun _ => ?_
  refine .ite ?_ ?_
  · refine .bind fun _ => ?_
    refine .ite (.bind fun _ => .spanFrom fun _ => rfl) ?_
    refine .bind fun _ => .bind fun _ => ?_
    exact .ite (.bind fun _ => .spanFrom fun _ => rfl) (.spanFrom fun _ => rfl)
  · refine .bind fun _ => .bind fun _ => .spanFrom fun _ => ?_
    exact rfl

/-- So it has the span of what was read for it. -/
theorem member_spans : Spans Member.span (member g) :=
  .mark fun _ => .bind fun _ => memberTail_ends _

/-- So has a template. -/
theorem template_spans (body : Parser Object) : Spans Template.span (template g body) := by
  refine .mark fun _ => .bind fun _ => .bind fun _ => .bind fun _ => .bind fun _ => ?_
  refine .bind fun _ => .bind fun _ => .bind fun _ => .spanFrom fun _ => ?_
  exact rfl

/-- So has a modifier with its declaration. -/
theorem visibility_spans (body : Parser Object) : Spans Visibility.span (visibility g body) := by
  refine .mark fun m => .bind fun token => ?_
  split
  · exact .unexpected _
  · exact .bind fun _ => .bind fun _ => .ite (.bind fun _ => .spanFrom fun _ => rfl)
      (.bind fun _ => .spanFrom fun _ => rfl)

/-- So has an object. -/
theorem objectWith_spans (body : Parser Object) : Spans Object.span (objectWith g body) :=
  .mark fun _ => .bind fun _ => .bind fun _ => .bind fun _ => .spanFrom fun _ => rfl

/-- So it has however its templates are read. -/
theorem object_spans : Spans Object.span (object g) := by
  intro src he c
  show SpansAt src c Object.span (objectWithin g c.rest)
  cases c.rest with
  | nil => exact objectWith_spans _ he c
  | cons t ts => exact objectWith_spans _ he c

/-- So has an unnamed object. -/
theorem unnamed_spans : Spans Unnamed.span (unnamed g) :=
  .mark fun _ => .bind fun _ => .bind fun _ => .spanFrom fun _ => rfl

/-- So has a path. -/
theorem reference_spans : Spans Reference.span (reference g) := by
  refine .mark fun m => .bind fun token => ?_
  have behind (kind : SegmentKind) : Ends m Reference.span (do
      let name ← name "a reference name"
      let suffixes ← suffixes g
      pure ⟨scopeOf token.kind, Reference.segmentsOf name kind suffixes, ← spanFrom m⟩) :=
    .bind fun _ => .bind fun _ => .spanFrom fun _ => rfl
  exact .ite (.bind fun _ => behind _) (behind _)

/-- So has whatever a name and a bracket start. -/
theorem vectorOrPath_spans : Spans Expr.span (vectorOrPath g) := by
  refine .mark fun m => .bind fun name => .bind fun e => ?_
  intro src c b
  have done (v : Expr) (hv : v.span = m.upTo c) :
      ((pure v : Parser Expr) src c).value = some b → b.span = m.upTo c := by
    intro hb
    obtain rfl : v = b := by injection hb
    exact hv
  have path (index : Expr) : Ends m Expr.span (do
      let suffixes ← suffixes g
      pure (.reference ⟨.none, Reference.segmentsOf name .terminal (.index index :: suffixes),
        ← spanFrom m⟩)) :=
    .bind fun _ => .spanFrom fun _ => rfl
  rw [spanFrom_bind, ahead_bind]
  rcases e.items with _ | ⟨index, _ | ⟨second, more⟩⟩
  · exact done _ rfl
  · dsimp only
    by_cases hp : e.strayCommas = 0 ∧ Lookahead.continuesPath c.rest = true
    · rw [if_pos hp]
      exact path index src c b
    · rw [if_neg hp]
      exact done _ rfl
  · exact done _ rfl

/-! ### Expressions -/

/-- A node that is closed by a mark set here starts here. -/
theorem Ends.here {p : Parser β} (hp : Ends (Mark.here src c) h p) : SpansAt src c h p := hp src c

/-- A node for a single token. -/
theorem SpansAt.bump {v : β} (hr : c.rest ≠ []) (hv : h v = (c.rest.headD src.stop).span) :
    SpansAt src c h (Parser.bump >>= fun _ => pure v) := by
  obtain ⟨t, ts, hr⟩ := List.exists_cons_of_ne_nil hr
  intro b hb
  rw [bind_of_some bump_value, bump_run hr] at hb ⊢
  obtain rfl : v = b := by injection hb
  rw [hr, List.headD_cons] at hv
  show h v = Mark.upTo (Mark.here src c) ⟨ts, c.count + 1, t.span, c.depth⟩
  rw [Mark.upTo, Mark.here, if_pos (Nat.lt_succ_self _), hr, hv, List.headD_cons, Span.through,
    Nat.max_self]

/-- A constant has the span of its token. -/
theorem constant_spans {value : Span → Expr} (hr : c.rest ≠ []) (hv : ∀ s, (value s).span = s) :
    SpansAt src c Expr.span (constant value) := SpansAt.bump hr (hv _)

/-- A list has the span of what was read for it. -/
theorem list_spans : Spans Expr.span (list g) :=
  .mark fun _ => .bind fun _ => .spanFrom fun _ => rfl

/-- So has a vector. -/
theorem vector_spans (type : VectorType) : Spans Expr.span (vector g type) :=
  .mark fun _ => .bind fun _ => .bind fun _ => .spanFrom fun _ => rfl

/-- So has a map. -/
theorem map_spans : Spans Expr.span (map g) :=
  .mark fun _ => .bind fun _ => .bind fun _ => .bind fun _ => .spanFrom fun _ => rfl

/-- So has a pair or a group, with its parentheses. -/
theorem parenthesised_spans : Spans Expr.span (parenthesised g) := by
  refine .mark fun _ => .bind fun _ => .bind fun _ => ?_
  refine .ite (.spanFrom fun _ => rfl) ?_
  refine .bind fun _ => .bind fun _ => ?_
  refine .ite ?_ (.bind fun _ => .spanFrom fun _ => rfl)
  refine .bind fun _ => .bind fun _ => .spanFrom fun _ => ?_
  exact rfl

/-- So has a generic type. -/
theorem generic_spans : Spans Expr.span (generic g) := by
  refine .mark fun _ => .bind fun _ => .bind fun _ => ?_
  exact .ite (.bind fun _ => .bind fun _ =>
    .ite (.bind fun _ => .bind fun _ => .spanFrom fun _ => rfl) (.unexpected _)) (.unexpected _)

/-- So has a payload with its word. -/
theorem guid_spans : Spans Expr.span guid := by
  refine .mark fun m => .bind fun _ => .bind fun _ => .bind fun token => ?_
  split
  · exact .bind fun _ => .spanFrom fun _ => rfl
  · exact .bind fun _ => .errorFrom fun _ => rfl
  · exact .unexpected _

/-- So has what a name starts. -/
theorem nameLed_spans : Spans Expr.span (nameLed g) := by
  refine .ahead fun _ => ?_
  exact .ite (object_spans.map fun _ => rfl)
    (.ite vectorOrPath_spans (reference_spans.map fun _ => rfl))

/-- So has what any word starts. -/
theorem wordLed_spans (wordClass : WordClass) (he : src.Ended) (hr : c.rest ≠ []) :
    SpansAt src c Expr.span (wordLed g wordClass) := by
  have named : SpansAt src c Expr.span (nameLed g) := nameLed_spans he c
  have assigned : Spans Expr.span (Expr.assignment <$> assignment g) :=
    assignment_spans.map fun _ => rfl
  have visible : Spans Expr.span (Expr.visibility <$> visibility g (object g)) :=
    (visibility_spans _).map fun _ => rfl
  refine SpansAt.ite (assigned he c) (.ite (visible he c) ?_)
  split
  · exact constant_spans hr fun _ => rfl
  · exact constant_spans hr fun _ => rfl
  · exact constant_spans hr fun _ => rfl
  · exact .ite (guid_spans he c) named
  · exact .ite (map_spans he c) named
  · exact .ite (vector_spans _ he c) named
  · exact named

/-- A broken token has its own span. -/
theorem brokenToken_spans (e : LexError) : Spans Expr.span (brokenToken e) := by
  refine .mark fun m => .bind fun _ => .bind fun _ => ?_
  split
  · exact .bind fun _ => .errorFrom fun _ => rfl
  · exact .errorFrom fun _ => rfl

/-- An operand has the span of what was read for it. -/
theorem primary_spans : Spans Expr.span (primary g) := by
  refine .peek fun src he c => ?_
  have rest {k : TokenKind} (h : (c.rest.headD src.stop).kind = k) (hk : k ≠ .eof) : c.rest ≠ [] :=
    rest_ne_nil he (h ▸ hk)
  have path : Spans Expr.span (Expr.reference <$> reference g) :=
    reference_spans.map fun _ => rfl
  split
  · rename_i h
    exact .bump (rest h (by simp)) rfl
  · rename_i h
    exact .bump (rest h (by simp)) rfl
  · exact list_spans he c
  · exact parenthesised_spans he c
  · exact generic_spans he c
  · rename_i h
    exact wordLed_spans _ he (rest h (by simp))
  · exact brokenToken_spans _ he c
  · exact (Ends.unexpected _).here
  · exact SpansAt.ite (path he c) fun _ hb => by cases hb

/-- So it has with signs in front. -/
theorem unary_spans : Spans Expr.span (unary g) := by
  refine .markPeek fun src he c => ?_
  split
  · exact Ends.here (.bind fun _ => .bind fun _ => .spanFrom fun _ => rfl)
  · exact Ends.here (.bind fun _ => .bind fun _ => .spanFrom fun _ => rfl)
  · exact primary_spans he c

/-- One more operator keeps the start: what is read so far covers all since the mark. -/
theorem operation_spans {right : Nat → Parser Expr} {loosest : Nat} {left : Expr}
    (hl : left.span = m.upTo c) (r : Expr ⊕ Expr)
    (h : (operation g right loosest m left src c).value = some r) :
    Sum.elim Expr.span Expr.span r = m.upTo (operation g right loosest m left src c).cursor := by
  -- The operand as it stands, and the two nodes that an operator makes of it.
  have stay : ((pure (.inr left) : Parser (Expr ⊕ Expr)) src c).value = some r →
      Sum.elim Expr.span Expr.span r = m.upTo c := by
    intro hr
    obtain rfl : .inr left = r := by injection hr
    exact hl
  have ternary : Ends m (Sum.elim Expr.span Expr.span) (do
      bump
      let yes ← g.expr
      expect .colon "':' in conditional expression"
      let no ← g.expr
      pure (.inl (.ternary left yes no (← spanFrom m)) : Expr ⊕ Expr)) :=
    .bind fun _ => .bind fun _ => .bind fun _ => .bind fun _ => .spanFrom fun _ => rfl
  have binary (op : BinaryOp) : Ends m (Sum.elim Expr.span Expr.span) (do
      bump
      let right ← right (op.rank + 1)
      pure (.inl (.binary op left right (← spanFrom m)) : Expr ⊕ Expr)) :=
    .bind fun _ => .bind fun _ => .spanFrom fun _ => rfl
  unfold operation at h ⊢
  rw [ahead_bind] at h ⊢
  cases ho : operator? c.rest with
  | none =>
    rw [ho] at h
    exact stay h
  | some op =>
    rw [ho] at h
    cases op with
    | question =>
      dsimp only at h ⊢
      by_cases hl : loosest = 0
      · rw [if_pos hl] at h ⊢
        exact ternary src c r h
      · rw [if_neg hl] at h ⊢
        exact stay h
    | binary op =>
      dsimp only at h ⊢
      by_cases hl : loosest ≤ op.rank
      · rw [if_pos hl] at h ⊢
        exact binary op src c r h
      · rw [if_neg hl] at h ⊢
        exact stay h

/-- Each operator makes a node from the first operand on. -/
theorem operations_spans (hg : Advancing g) (steps loosest : Nat) (m : Mark) (he : src.Ended) :
    ∀ left c, left.span = m.upTo c → ∀ b,
      (loop (operation g (climb g steps) loosest m) left src c).value = some b →
      b.span = m.upTo (loop (operation g (climb g steps) loosest m) left src c).cursor := by
  have advances := operation_advances hg (climb_steady hg steps) loosest m
  refine loop_rec advances he (P := fun left c o => left.span = m.upTo c →
    ∀ b, o.value = some b → b.span = m.upTo o.cursor) fun left c ih hl b => ?_
  cases hv : (operation g (climb g steps) loosest m left src c).value with
  | none =>
    rw [bind_of_none hv]
    intro hb
    cases hb
  | some r =>
    have hr := operation_spans hl r hv
    rw [bind_of_some hv]
    cases r with
    | inl left' => exact ih left' hv hr b
    | inr e =>
      intro hb
      obtain rfl : e = b := by injection hb
      exact hr

/-- So an expression has the span of what was read for it. -/
theorem climb_spans (hg : Advancing g) (steps loosest : Nat) :
    Spans Expr.span (climb g steps loosest) := by
  cases steps with
  | zero => exact unary_spans
  | succ steps =>
    intro src he c b
    show ((unary g >>= loop (operation g (climb g steps) loosest (Mark.here src c))) src c).value =
        some b → b.span = (Mark.here src c).upTo
      ((unary g >>= loop (operation g (climb g steps) loosest (Mark.here src c))) src c).cursor
    cases hv : (unary g src c).value with
    | none =>
      rw [bind_of_none hv]
      intro hb
      cases hb
    | some left =>
      rw [bind_of_some hv]
      exact operations_spans hg steps loosest _ he left _ (unary_spans he c left hv) b

/-! ### Cuts and items -/

/-- The span of a cut is taken last: what follows moves nothing and returns the node. -/
theorem Ends.cut {k : ErrorNode → Parser ErrorNode}
    (hk : ∀ e (src : Source) (c : Cursor), (k e src c).cursor = c ∧
      ∀ b, (k e src c).value = some b → b = e) :
    Ends m ErrorNode.span (Parser.errorFrom m >>= k) := by
  intro src c b
  show (k ⟨m.upTo c, String.ofList (Text.covered src.text (m.upTo c))⟩ src c).value = some b →
    b.span = m.upTo (k ⟨m.upTo c, String.ofList (Text.covered src.text (m.upTo c))⟩ src c).cursor
  obtain ⟨hc, hb⟩ := hk ⟨m.upTo c, String.ofList (Text.covered src.text (m.upTo c))⟩ src c
  intro h
  rw [hc, hb b h]

/-- The fragment of an item starts at the mark. -/
theorem recoverItem_ends : Ends m ErrorNode.span (recoverItem m) := by
  refine .bind fun _ => .bind fun _ => .bind fun _ => .cut fun _ _ _ => ?_
  exact ⟨rfl, fun _ h => by injection h with h; exact h.symm⟩

/-- That below the last level starts where it is met. -/
theorem tooDeep_spans : Spans ErrorNode.span tooDeep := by
  refine .mark fun m => .bind fun _ => .bind fun _ => .cut fun e src c => ?_
  show
    ((if decide (m.count < c.count) then pure e else abort : Parser ErrorNode) src c).cursor = c ∧
    ∀ b,
      ((if decide (m.count < c.count) then pure e else abort : Parser ErrorNode) src c).value =
      some b → b = e
  by_cases hm : m.count < c.count
  · rw [if_pos (by simpa using hm)]
    exact ⟨rfl, fun _ h => by injection h with h; exact h.symm⟩
  · rw [if_neg (by simpa using hm)]
    exact ⟨rfl, fun _ h => by cases h⟩

/-- What the level below has to do so that nodes cover what is read for them. -/
structure Spanning (g : Grammar) : Prop where
  expr : Spans Expr.span g.expr
  operand : Spans Expr.span g.operand

/-- So does the expression in its place. -/
theorem deepExpr_spans : Spans Expr.span Grammar.deepExpr := tooDeep_spans.map fun _ => rfl

/-- All levels give the spans of what they read. -/
theorem spanning_levels (n : Nat) : Spanning (.levels n) := by
  cases n with
  | zero => exact ⟨deepExpr_spans, deepExpr_spans⟩
  | succ n =>
    have hg := advancing_levels n
    exact ⟨.nested deepExpr_spans (expression_steady hg).sound (climb_spans hg _ _),
      .nested deepExpr_spans (unary_steady hg).sound unary_spans⟩

/-- An expression has the same span as an item. -/
theorem span_ofExpr (e : Expr) : (Item.ofExpr e).span = e.span := by
  cases e <;> rfl

/-- An item has the span of what was read for it. -/
theorem item_spans (hg : Spanning g) : Spans Item.span (item g) := by
  refine .ahead fun _ => ?_
  refine .ite (assignment_spans.map fun _ => rfl) ?_
  refine .ite ((visibility_spans _).map fun _ => rfl) ?_
  refine .ite ((template_spans _).map fun _ => rfl) ?_
  exact .ite (unnamed_spans.map fun _ => rfl)
    (.ite (member_spans.map fun _ => rfl) (hg.expr.map span_ofExpr))

/-- What is cut out in place of an item covers all since the mark. -/
theorem orRecoverItem_spans (hg : Spanning g) (he : src.Ended) (c : Cursor) :
    SpansAt src c Item.span
      (orRecover (item g) (Item.error <$> recoverItem (Mark.here src c))) := by
  intro b
  cases hv : (item g src c).value with
  | some a =>
    rw [orRecover_of_some hv]
    exact item_spans hg he c b
  | none =>
    rw [orRecover_of_none hv, map_run]
    intro hb
    obtain ⟨e, ha, rfl⟩ := Option.map_eq_some_iff.1 hb
    exact recoverItem_ends src _ e ha

/-- **An item covers exactly what is read for it.** -/
theorem itemOrError_spans (hg : Spanning g) : Spans Item.span (itemOrError g) := by
  intro src he c b
  have covers := orRecoverItem_spans hg he c
  show ((orRecover (item g) (Item.error <$> recoverItem (Mark.here src c)) >>= fun item =>
      emit (.item item.span.line item.span.column item.isError) >>= fun _ => pure item)
      src c).value = some b → b.span = (Mark.here src c).upTo
    ((orRecover (item g) (Item.error <$> recoverItem (Mark.here src c)) >>= fun item =>
      emit (.item item.span.line item.span.column item.isError) >>= fun _ => pure item)
      src c).cursor
  cases hv : (orRecover (item g) (Item.error <$> recoverItem (Mark.here src c)) src c).value with
  | none =>
    rw [bind_of_none hv]
    intro hb
    cases hb
  | some a =>
    rw [bind_of_some hv]
    intro hb
    obtain rfl : a = b := by injection hb
    exact covers a hv

end Parser

end Ndf
