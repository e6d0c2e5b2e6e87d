/-
# How deep a tree is nested

Objects, lists, vectors, maps, pairs and groups are the containers of a tree.  `nesting` counts them
along the deepest path.  No level of the grammar adds more than one of them, and an item stands in
none, so a document is nested at most one deeper than there are levels (`parse_nesting`).

One kind of container does not count for that: the body of a template that stands in an object.
Such an object is read at the level of the one around it, and there is no bound on how many of them
are inside each other.  `bodies` says whether they are counted.
-/

import Ndf.Proofs.Parser.Sound

namespace Ndf

/-! ### The measure -/

mutual

/-- The containers on the deepest path into an expression. -/
def Expr.nesting (bodies : Bool) : Expr → Nat
  | .object o => o.nesting bodies
  | .vector _ _ items _ _ => exprsNesting bodies items + 1
  | .list items _ _ => exprsNesting bodies items + 1
  | .map _ items _ => exprsNesting bodies items + 1
  | .pair left right _ => max (left.nesting bodies) (right.nesting bodies) + 1
  | .group inner _ => nesting? bodies inner + 1
  | .unary _ operand _ => operand.nesting bodies
  | .binary _ left right _ => max (left.nesting bodies) (right.nesting bodies)
  | .ternary condition yes no _ =>
    max (condition.nesting bodies) (max (yes.nesting bodies) (no.nesting bodies))
  | .generic _ index _ => nesting? bodies index
  | .reference r => r.nesting bodies
  | .assignment a => a.nesting bodies
  | .visibility v => v.nesting bodies true
  | .nil _ | .bool .. | .number .. | .string .. | .guid .. | .error _ => 0

/-- The deepest of several expressions. -/
def exprsNesting (bodies : Bool) : List Expr → Nat
  | [] => 0
  | e :: rest => max (e.nesting bodies) (exprsNesting bodies rest)

/-- An expression that may be missing. -/
def nesting? (bodies : Bool) : Option Expr → Nat
  | none => 0
  | some e => e.nesting bodies

/-- A path is as deep as its deepest index. -/
def Reference.nesting (bodies : Bool) : Reference → Nat
  | ⟨_, segments, _⟩ => segmentsNesting bodies segments

/-- A name opens no level. -/
def segmentsNesting (bodies : Bool) : List Segment → Nat
  | [] => 0
  | .name .. :: rest => segmentsNesting bodies rest
  | .index e :: rest => max (e.nesting bodies) (segmentsNesting bodies rest)

/-- An assignment is as deep as its value. -/
def Assignment.nesting (bodies : Bool) : Assignment → Nat
  | ⟨_, value, _⟩ => value.nesting bodies

/-- `counted` says whether the body of a template behind the modifier counts. -/
def Visibility.nesting (bodies counted : Bool) : Visibility → Nat
  | ⟨_, _, declaration, _⟩ => declaration.nesting bodies counted

/-- A template counts its body only if asked to. -/
def Declaration.nesting (bodies counted : Bool) : Declaration → Nat
  | .assignment a => a.nesting bodies
  | .template t => t.nesting bodies counted

/-- Defaults of parameters, and the entries of the body. -/
def Template.nesting (bodies counted : Bool) : Template → Nat
  | ⟨_, params, ⟨_, entries, _⟩, _⟩ =>
    max (membersNesting bodies params) (entriesNesting bodies entries + counted.toNat)

/-- A member is as deep as its value. -/
def Member.nesting (bodies : Bool) : Member → Nat
  | ⟨_, _, value, _, _⟩ => nesting? bodies value

/-- The deepest of several members. -/
def membersNesting (bodies : Bool) : List Member → Nat
  | [] => 0
  | m :: rest => max (m.nesting bodies) (membersNesting bodies rest)

/-- A declaration behind a modifier counts its body only if bodies count. -/
def Entry.nesting (bodies : Bool) : Entry → Nat
  | .member m => m.nesting bodies
  | .assignment a => a.nesting bodies
  | .visibility v => v.nesting bodies bodies
  | .reference r => r.nesting bodies
  | .error _ => 0

/-- The deepest of several entries. -/
def entriesNesting (bodies : Bool) : List Entry → Nat
  | [] => 0
  | e :: rest => max (e.nesting bodies) (entriesNesting bodies rest)

/-- An object is a container of its own. -/
def Object.nesting (bodies : Bool) : Object → Nat
  | ⟨_, entries, _⟩ => entriesNesting bodies entries + 1

end

/-- The containers on the deepest path into an item. -/
def Item.nesting (bodies : Bool) : Item → Nat
  | .assignment a => a.nesting bodies
  | .visibility v => v.nesting bodies true
  | .template t => t.nesting bodies true
  | .unnamed u => u.object.nesting bodies
  | .member m => m.nesting bodies
  | .expr e => e.nesting bodies
  | .error _ => 0

/-- The containers on the deepest path into a document. -/
def Document.nesting (bodies : Bool) (d : Document) : Nat :=
  d.items.foldr (fun i n => max (i.nesting bodies) n) 0

section Lists

variable {bodies : Bool} {n : Nat}

/-- All of the expressions are within a bound. -/
theorem exprsNesting_le {items : List Expr} :
    exprsNesting bodies items ≤ n ↔ ∀ e ∈ items, e.nesting bodies ≤ n := by
  induction items with
  | nil => simp [exprsNesting]
  | cons e items ih => rw [exprsNesting, Nat.max_le, ih, List.forall_mem_cons]

/-- The same of members. -/
theorem membersNesting_le {members : List Member} :
    membersNesting bodies members ≤ n ↔ ∀ m ∈ members, m.nesting bodies ≤ n := by
  induction members with
  | nil => simp [membersNesting]
  | cons m members ih => rw [membersNesting, Nat.max_le, ih, List.forall_mem_cons]

/-- The same of entries. -/
theorem entriesNesting_le {entries : List Entry} :
    entriesNesting bodies entries ≤ n ↔ ∀ e ∈ entries, e.nesting bodies ≤ n := by
  induction entries with
  | nil => simp [entriesNesting]
  | cons e entries ih => rw [entriesNesting, Nat.max_le, ih, List.forall_mem_cons]

/-- The same of items. -/
theorem Document.nesting_le {d : Document} :
    d.nesting bodies ≤ n ↔ ∀ i ∈ d.items, i.nesting bodies ≤ n := by
  obtain ⟨items, span⟩ := d
  induction items with
  | nil => simp [Document.nesting]
  | cons i items ih => simpa [Document.nesting, Nat.max_le] using fun _ => ih

/-- The containers in the index that a suffix is. -/
def Suffix.nesting (bodies : Bool) : Suffix → Nat
  | .joined .. => 0
  | .index e => e.nesting bodies

/-- The steps of a path are within a bound if the suffixes it was read from are. -/
theorem segmentsNesting_segments {suffixes : List Suffix} :
    segmentsNesting bodies (Suffix.segments suffixes) ≤ n ↔
      ∀ s ∈ suffixes, s.nesting bodies ≤ n := by
  induction suffixes with
  | nil => simp [Suffix.segments, segmentsNesting]
  | cons s suffixes ih =>
    cases s with
    | joined kind name => simp [Suffix.segments, Suffix.nesting, segmentsNesting, ih]
    | index e =>
      rw [Suffix.segments, segmentsNesting, Nat.max_le, ih, List.forall_mem_cons, Suffix.nesting]

/-- A reference holds what its suffixes hold. -/
theorem Reference.nesting_le {scope : Scope} {name : Name} {kind : SegmentKind}
    {suffixes : List Suffix} {span : Span} (h : ∀ s ∈ suffixes, s.nesting bodies ≤ n) :
    Reference.nesting bodies ⟨scope, Reference.segmentsOf name kind suffixes, span⟩ ≤ n := by
  rw [Reference.nesting, Reference.segmentsOf, segmentsNesting, segmentsNesting_segments]
  exact h

/-- The measure of a member by its field. -/
theorem Member.nesting_eq (m : Member) : m.nesting bodies = nesting? bodies m.value := by
  obtain ⟨_, _, _, _, _⟩ := m
  rfl

/-- That of a modifier by its declaration. -/
theorem Visibility.nesting_eq (v : Visibility) (counted : Bool) :
    v.nesting bodies counted = v.declaration.nesting bodies counted := by
  obtain ⟨_, _, _, _⟩ := v
  rfl

/-- The body of a template is an object that may go uncounted. -/
theorem Template.nesting_le {name : Name} {params : List Member} {body : Object} {span : Span}
    {counted : Bool} (hp : ∀ m ∈ params, m.nesting bodies ≤ n)
    (hb : body.nesting bodies ≤ n + 1) :
    Template.nesting bodies counted ⟨name, params, body, span⟩ ≤ n + counted.toNat := by
  obtain ⟨typeName, entries, s⟩ := body
  rw [Object.nesting] at hb
  rw [Template.nesting]
  have := membersNesting_le.2 hp
  omega

end Lists

namespace Parser

variable {α β σ : Type} {p : Parser α} {P Q : α → Prop} {R : β → Prop} {f : α → Parser β}
  {g : Grammar} {n : Nat}

/-! ### What holds of every value -/

/-- Every value that a parser returns has a property. -/
def Yields (Q : α → Prop) (p : Parser α) : Prop :=
  ∀ (src : Source) (c : Cursor) (a : α), (p src c).value = some a → Q a

/-- What holds of all values holds of those returned. -/
theorem Yields.any (h : ∀ a, Q a) : Yields Q p := fun _ _ a _ => h a

/-- Who returns nothing returns only values with the property. -/
theorem Yields.none (h : ∀ src c, (p src c).value = none) : Yields Q p := fun src c a ha => by
  rw [h] at ha
  cases ha

/-- One value that is returned at once. -/
theorem Yields.pure {a : α} (h : Q a) : Yields Q (pure a) := fun _ _ b hb => by
  obtain rfl : a = b := by injection hb
  exact h

/-- A complaint returns nothing. -/
theorem Yields.unexpected (due : String) : Yields Q (unexpected due) := .none fun _ _ => rfl

/-- A sequence, with what is known of the first value. -/
theorem Yields.bind (hp : Yields P p) (hf : ∀ a, P a → Yields R (f a)) : Yields R (p >>= f) := by
  intro src c b
  cases hv : (p src c).value with
  | none =>
    rw [bind_of_none hv]
    intro hb
    cases hb
  | some a =>
    rw [bind_of_some hv]
    exact hf a (hp src c a hv) src _ b

/-- The value of the first parser does not matter. -/
theorem Yields.after (hf : ∀ a, Yields R (f a)) : Yields R (p >>= f) :=
  .bind (.any fun _ => trivial) fun a _ => hf a

/-- What is made of a value. -/
theorem Yields.map {h : α → β} (hp : Yields P p) (hh : ∀ a, P a → R (h a)) : Yields R (h <$> p) :=
  .bind hp fun a ha => .pure (hh a ha)

/-- Of two branches only the one taken counts. -/
theorem Yields.ite {C : Prop} [Decidable C] {p q : Parser α} (hp : Yields Q p) (hq : Yields Q q) :
    Yields Q (if C then p else q) := by
  split
  · exact hp
  · exact hq

/-- A value is the parser's own or that of the recovery. -/
theorem Yields.orRecover {q : Parser α} (hp : Yields Q p) (hq : Yields Q q) :
    Yields Q (orRecover p q) := by
  intro src c a
  cases hv : (p src c).value with
  | none =>
    rw [orRecover_of_none hv]
    exact hq src _ a
  | some b =>
    rw [orRecover_of_some hv]
    exact hp src c a

/-- One level further down, or at the cut. -/
theorem Yields.nested {deep : Parser α} (hd : Yields Q deep) (hp : Yields Q p) :
    Yields Q (nested deep p) := by
  intro src c a
  rw [Parser.nested]
  split
  · rw [Outcome.up]
    split
    · exact hp src c.down a
    · exact hp src c.down a
  · exact hd src c a

/-- An invariant of the state of a loop. -/
theorem Yields.loop {I : σ → Prop} {step : σ → Parser (σ ⊕ β)}
    (h : ∀ s, I s → Yields (Sum.elim I R) (step s)) {s : σ} (hs : I s) :
    Yields R (loop step s) := by
  have key (ts : List Token) : ∀ s, I s → Yields R (rounds step ts s) := by
    induction ts with
    | nil =>
      intro s hs
      rw [rounds_nil]
      refine .bind (h s hs) fun r hr => ?_
      cases r with
      | inl s' => exact .none fun _ _ => rfl
      | inr b => exact .pure hr
    | cons t ts ih =>
      intro s hs
      rw [rounds_cons]
      refine .bind (h s hs) fun r hr => ?_
      cases r with
      | inl s' => exact ih s' hr
      | inr b => exact .pure hr
  exact fun src c => key c.rest s hs src c

/-! ### One level -/

/-- What is read on the level below is nested at most so deep. -/
structure Nests (n : Nat) (g : Grammar) : Prop where
  expr : Yields (fun e => e.nesting false ≤ n) g.expr
  operand : Yields (fun e => e.nesting false ≤ n) g.operand

/-- An assignment is no deeper than the level below. -/
theorem assignment_nesting (hg : Nests n g) :
    Yields (fun a => a.nesting false ≤ n) (assignment g) :=
  .after fun _ => .after fun _ => .after fun _ => .bind hg.expr fun _ hv => .after fun _ => .pure hv

/-- Neither is a member, with its value. -/
theorem memberTail_nesting (hg : Nests n g) (m : Mark) (name : Name) :
    Yields (fun m => m.nesting false ≤ n) (memberTail g m name) := by
  have value (k : Expr → Span → Member) (hk : ∀ e s, (k e s).value = some e) :
      Yields (fun m => m.nesting false ≤ n) (do
        let value ← g.expr
        pure (k value (← spanFrom m))) :=
    .bind hg.expr fun e he => .after fun s => .pure <| by
      rwa [Member.nesting_eq, hk]
  refine .after fun _ => ?_
  refine .ite ?_ (.after fun _ => value _ fun _ _ => rfl)
  refine .after fun _ => ?_
  refine .ite (value _ fun _ _ => rfl) ?_
  refine .after fun _ => .after fun _ => ?_
  exact .ite (value _ fun _ _ => rfl) (.after fun _ => .pure (Nat.zero_le n))

/-- The same with its name in front. -/
theorem member_nesting (hg : Nests n g) : Yields (fun m => m.nesting false ≤ n) (member g) :=
  .after fun _ => .after fun _ => memberTail_nesting hg _ _

/-- Nor is a parameter. -/
theorem param_nesting (hg : Nests n g) : Yields (fun m => m.nesting false ≤ n) (param g) := by
  refine .after fun m => .after fun name => .after fun token => ?_
  split
  · exact memberTail_nesting hg _ _
  · exact memberTail_nesting hg _ _
  · exact .after fun _ => .pure (Nat.zero_le n)

/-- Nor any of several. -/
theorem params_nesting (hg : Nests n g) :
    Yields (fun ms => ∀ m ∈ ms, m.nesting false ≤ n) (params g) := by
  refine .loop (I := fun ms => ∀ m ∈ ms, m.nesting false ≤ n) (fun read hr => ?_) (by simp)
  refine .after fun token => ?_
  split
  · exact .pure (by simpa using hr)
  · exact .pure (by simpa using hr)
  · exact .after fun _ => .pure hr
  · exact .bind (param_nesting hg) fun m hm => .pure (List.forall_mem_cons.2 ⟨hm, hr⟩)
  · exact .unexpected _

variable {body : Parser Object}

/-- A template, whose body is one level deeper if it counts. -/
theorem template_nesting (hg : Nests n g) (hb : Yields (fun o => o.nesting false ≤ n + 1) body) :
    Yields (fun t => ∀ counted, t.nesting false counted ≤ n + counted.toNat) (template g body) := by
  refine .after fun _ => .after fun _ => .after fun _ => .after fun _ => ?_
  refine .bind (params_nesting hg) fun params hp => ?_
  refine .after fun _ => .after fun _ => .bind hb fun object hb => ?_
  refine .after fun _ => .pure fun _ => ?_
  exact Template.nesting_le hp hb

/-- The same behind a modifier. -/
theorem visibility_nesting (hg : Nests n g)
    (hb : Yields (fun o => o.nesting false ≤ n + 1) body) :
    Yields (fun v => ∀ counted, v.nesting false counted ≤ n + counted.toNat)
      (visibility g body) := by
  refine .after fun _ => .after fun token => ?_
  split
  · exact .unexpected _
  · refine .after fun _ => .after fun ts => ?_
    have key (q : Parser Declaration)
        (hq : Yields (fun d => ∀ counted, d.nesting false counted ≤ n + counted.toNat) q)
        (k : Declaration → Span → Visibility) (hk : ∀ d s, (k d s).declaration = d) (m : Mark) :
        Yields (fun v => ∀ counted, v.nesting false counted ≤ n + counted.toNat) (do
          let declaration ← q
          pure (k declaration (← spanFrom m))) :=
      .bind hq fun d hd => .after fun s => .pure fun counted => by
        rw [Visibility.nesting_eq, hk]
        exact hd counted
    have template : Yields (fun d => ∀ counted, d.nesting false counted ≤ n + counted.toNat)
        (Declaration.template <$> template g body) := (template_nesting hg hb).map fun _ h => h
    have assignment : Yields (fun d => ∀ counted, d.nesting false counted ≤ n + counted.toNat)
        (Declaration.assignment <$> assignment g) :=
      (assignment_nesting hg).map fun _ h counted => Nat.le_add_right_of_le h
    exact .ite (key _ template _ (fun _ _ => rfl) _) (key _ assignment _ (fun _ _ => rfl) _)

/-- An index of a path is read on the level below. -/
theorem suffixes_nesting (hg : Nests n g) :
    Yields (fun ss => ∀ s ∈ ss, s.nesting false ≤ n) (suffixes g) := by
  refine .loop (I := fun ss => ∀ s ∈ ss, s.nesting false ≤ n) (fun read hr => ?_) (by simp)
  have joined (kind : SegmentKind) : Yields
      (Sum.elim (fun ss => ∀ s ∈ ss, s.nesting false ≤ n) fun ss => ∀ s ∈ ss, s.nesting false ≤ n)
      (do pure (.inl (.joined kind (← name "a name") :: read)) : Parser (_ ⊕ List Suffix)) :=
    .after fun _ => .pure (List.forall_mem_cons.2 ⟨Nat.zero_le n, hr⟩)
  refine .after fun ts => .ite (.after fun token => ?_) (.pure (by simpa using hr))
  split
  · exact .after fun _ => .bind hg.expr fun _ he => .after fun _ =>
      .pure (List.forall_mem_cons.2 ⟨he, hr⟩)
  · exact .after fun _ => joined _
  · exact .after fun _ => joined _

/-- So a path is no deeper than that. -/
theorem reference_nesting (hg : Nests n g) :
    Yields (fun r => r.nesting false ≤ n) (reference g) := by
  have key (scope : Scope) (m : Mark) : Yields (fun r => r.nesting false ≤ n) (do
      let name ← name "a reference name"
      let suffixes ← suffixes g
      let kind : SegmentKind := if scope = .none then .terminal else .nested
      pure ⟨scope, Reference.segmentsOf name kind suffixes, ← spanFrom m⟩ : Parser Reference) :=
    .after fun _ => .bind (suffixes_nesting hg) fun _ hs => .after fun _ =>
      .pure (Reference.nesting_le hs)
  exact .after fun m => .after fun _ => .ite (.after fun _ => key _ m) (key _ m)

/-- Nor is an entry: without its body a template adds nothing. -/
theorem entry_nesting (hg : Nests n g) (hb : Yields (fun o => o.nesting false ≤ n + 1) body) :
    Yields (fun e => e.nesting false ≤ n) (entry g body) := by
  refine .after fun _ => ?_
  refine .ite ((assignment_nesting hg).map fun _ h => h) ?_
  refine .ite ((visibility_nesting hg hb).map fun _ h => h false) ?_
  exact .ite ((member_nesting hg).map fun _ h => h)
    (.ite ((reference_nesting hg).map fun _ h => h) (.none fun _ _ => rfl))

/-- An object is one level deeper than its entries. -/
theorem objectWith_nesting (hg : Nests n g)
    (hb : Yields (fun o => o.nesting false ≤ n + 1) body) :
    Yields (fun o => o.nesting false ≤ n + 1) (objectWith g body) := by
  have entries : Yields (fun es => ∀ e ∈ es, e.nesting false ≤ n) (loop (entryStep g body) []) := by
    refine .loop (I := fun es => ∀ e ∈ es, e.nesting false ≤ n) (fun read hr => ?_) (by simp)
    refine .after fun token => ?_
    split
    · exact .after fun _ => .pure (by simpa using hr)
    · exact .unexpected _
    · exact .after fun _ => .after fun _ => .pure hr
    · refine .after fun _ => ?_
      refine .bind (.orRecover (entry_nesting hg hb)
        (.map (.any fun _ => trivial) fun _ _ => Nat.zero_le n)) fun e he => ?_
      exact .pure (List.forall_mem_cons.2 ⟨he, hr⟩)
  exact .after fun _ => .after fun _ => .after fun _ => .bind entries fun es he => .after fun _ =>
    .pure (Nat.succ_le_succ (entriesNesting_le.2 he))

/-- So it is however its templates are read. -/
theorem object_nesting (hg : Nests n g) :
    Yields (fun o => o.nesting false ≤ n + 1) (object g) := by
  have key (ts : List Token) : Yields (fun o => o.nesting false ≤ n + 1) (objectWithin g ts) := by
    induction ts with
    | nil => exact objectWith_nesting hg (.none fun _ _ => rfl)
    | cons t ts ih => exact objectWith_nesting hg ih
  exact fun src c => key c.rest src c

/-- What stands between brackets is read on the level below. -/
theorem bracketed_nesting (hg : Nests n g) :
    Yields (fun e => ∀ i ∈ e.items, i.nesting false ≤ n) (bracketed g) := by
  have elements : Yields (fun e => ∀ i ∈ e.items, i.nesting false ≤ n) (elements g) := by
    refine .loop (I := fun e => ∀ i ∈ e.items, i.nesting false ≤ n) (fun e he => ?_)
      (by simp [Elements.items])
    have item : Yields
        (Sum.elim (fun e => ∀ i ∈ e.items, i.nesting false ≤ n)
          fun e => ∀ i ∈ e.items, i.nesting false ≤ n) (do
        let m ← mark
        let item ← orRecover g.expr (Expr.error <$> recoverElement m)
        pure (.inl { e with reversed := item :: e.reversed, commaDue := true }) :
          Parser (Elements ⊕ Elements)) :=
      .after fun _ => .bind
        (.orRecover hg.expr (.map (.any fun _ => trivial) fun _ _ => Nat.zero_le n))
        fun i hi => .pure <| by
          show ∀ j ∈ (i :: e.reversed).reverse, j.nesting false ≤ n
          rw [List.reverse_cons]
          exact List.forall_mem_append.2 ⟨he, by simpa using hi⟩
    refine .after fun token => ?_
    split
    · exact .pure he
    · exact .pure he
    · exact .after fun _ => .pure he
    · exact .ite (.after fun _ => item) item
  exact .after fun _ => .bind elements fun _ he => .after fun _ => .pure he

/-- A vector is one level deeper than its elements. -/
theorem vectorOrPath_nesting (hg : Nests n g) :
    Yields (fun e => e.nesting false ≤ n + 1) (vectorOrPath g) := by
  refine .after fun _ => .after fun _ => .bind (bracketed_nesting hg) fun e he => .after fun _ =>
    .after fun ts => ?_
  split
  · rename_i index hi
    have hindex : index.nesting false ≤ n := he index (by rw [hi]; exact List.mem_singleton_self _)
    refine .ite (.bind (suffixes_nesting hg) fun ss hs => .after fun _ => .pure ?_)
      (.pure (Nat.succ_le_succ (exprsNesting_le.2 (by simpa using hindex))))
    exact Nat.le_succ_of_le (Reference.nesting_le (List.forall_mem_cons.2 ⟨hindex, hs⟩))
  · exact .pure (Nat.succ_le_succ (exprsNesting_le.2 he))

/-- The halves of a pair are no deeper than the pair. -/
theorem pairs_nesting (items : List Expr) (h : ∀ i ∈ items, i.nesting false ≤ n) :
    Yields (fun es => ∀ e ∈ es, e.nesting false ≤ n) (pairs items) := by
  induction items with
  | nil => exact .pure (by simp)
  | cons item items ih =>
    obtain ⟨hitem, hitems⟩ := List.forall_mem_cons.1 h
    have entry {p : Parser Expr} (hp : Yields (fun e => e.nesting false ≤ n) p) :
        Yields (fun es => ∀ e ∈ es, e.nesting false ≤ n) (do
          let entry ← p
          pure (entry :: (← pairs items))) :=
      .bind hp fun _ he => .bind (ih hitems) fun _ hes => .pure (List.forall_mem_cons.2 ⟨he, hes⟩)
    unfold pairs
    split
    · exact entry (.pure hitem)
    · exact entry (.pure hitem)
    · exact .after fun _ => entry (.map (.any fun _ => trivial) fun _ _ => Nat.zero_le n)

/-- A map is one level deeper than its pairs. -/
theorem map_nesting (hg : Nests n g) : Yields (fun e => e.nesting false ≤ n + 1) (map g) := by
  refine .after fun _ => .after fun _ => .bind (bracketed_nesting hg) fun e he => ?_
  refine .bind (pairs_nesting e.items he) fun pairs hp => ?_
  exact .after fun _ => .pure (Nat.succ_le_succ (exprsNesting_le.2 hp))

/-- Parentheses are one level deeper than what they enclose. -/
theorem parenthesised_nesting (hg : Nests n g) :
    Yields (fun e => e.nesting false ≤ n + 1) (parenthesised g) := by
  refine .after fun _ => .after fun _ => .after fun _ => ?_
  refine .ite (.after fun _ => .pure (Nat.succ_le_succ (Nat.zero_le n))) ?_
  refine .bind hg.expr fun value hl => ?_
  refine .after fun _ => ?_
  refine .ite ?_ (.after fun _ => .after fun _ => .pure (Nat.succ_le_succ hl))
  refine .bind hg.expr fun value hr => ?_
  refine .after fun _ => .after fun _ => ?_
  exact .pure (Nat.succ_le_succ (Nat.max_le.2 ⟨hl, hr⟩))

/-- A generic type is one level deeper than its index. -/
theorem generic_nesting (hg : Nests n g) :
    Yields (fun e => e.nesting false ≤ n + 1) (generic g) := by
  have index : Yields (fun e => nesting? false e ≤ n) (index? g) :=
    .after fun _ => .ite (.after fun _ => .bind hg.expr fun _ he => .after fun _ => .pure he)
      (.pure (Nat.zero_le n))
  refine .after fun _ => .after fun _ => .after fun _ => ?_
  refine .ite ?_ (.unexpected _)
  refine .after fun _ => .after fun _ => ?_
  refine .ite ?_ (.unexpected _)
  refine .after fun _ => .bind index fun _ hi => ?_
  exact .after fun _ => .pure (Nat.le_succ_of_le hi)

/-- A payload has no depth. -/
theorem guid_nesting : Yields (fun e => e.nesting false ≤ n) guid := by
  refine .after fun _ => .after fun _ => .after fun _ => .after fun token => ?_
  split
  · exact .after fun _ => .after fun _ => .pure (Nat.zero_le n)
  · exact .after fun _ => .after fun _ => .pure (Nat.zero_le n)
  · exact .unexpected _

/-- What a name starts is at most one level deeper. -/
theorem nameLed_nesting (hg : Nests n g) :
    Yields (fun e => e.nesting false ≤ n + 1) (nameLed g) := by
  refine .after fun _ => ?_
  exact .ite ((object_nesting hg).map fun _ h => h)
    (.ite (vectorOrPath_nesting hg) ((reference_nesting hg).map fun _ h => Nat.le_succ_of_le h))

/-- So is what any word starts. -/
theorem wordLed_nesting (hg : Nests n g) (wordClass : WordClass) :
    Yields (fun e => e.nesting false ≤ n + 1) (wordLed g wordClass) := by
  have constant (value : Span → Expr) (h : ∀ s, (value s).nesting false = 0) :
      Yields (fun e => e.nesting false ≤ n + 1) (constant value) :=
    .after fun _ => .after fun _ => .pure (Nat.le_trans (Nat.le_of_eq (h _)) (Nat.zero_le _))
  have vector (type : VectorType) : Yields (fun e => e.nesting false ≤ n + 1) (vector g type) :=
    .after fun _ => .after fun _ => .bind (bracketed_nesting hg) fun e he => .after fun _ =>
      .pure (Nat.succ_le_succ (exprsNesting_le.2 he))
  have named := nameLed_nesting hg
  refine .after fun _ => .ite ((assignment_nesting hg).map fun _ h => Nat.le_succ_of_le h)
    (.ite ((visibility_nesting hg (object_nesting hg)).map fun _ h => h true) ?_)
  split
  · exact constant _ fun _ => rfl
  · exact constant _ fun _ => rfl
  · exact constant _ fun _ => rfl
  · exact .ite guid_nesting named
  · exact .ite (map_nesting hg) named
  · exact .ite (vector _) named
  · exact named

/-- A broken token has no depth. -/
theorem brokenToken_nesting (e : LexError) :
    Yields (fun e => e.nesting false ≤ n) (brokenToken e) := by
  refine .after fun _ => .after fun _ => .after fun _ => ?_
  split
  · exact .after fun _ => .after fun _ => .pure (Nat.zero_le n)
  · exact .after fun _ => .pure (Nat.zero_le n)

/-- An operand is at most one level deeper than the level below. -/
theorem primary_nesting (hg : Nests n g) :
    Yields (fun e => e.nesting false ≤ n + 1) (primary g) := by
  refine .after fun token => ?_
  split
  · exact .after fun _ => .pure (Nat.zero_le _)
  · exact .after fun _ => .pure (Nat.zero_le _)
  · exact .after fun _ => .bind (bracketed_nesting hg) fun e he => .after fun _ =>
      .pure (Nat.succ_le_succ (exprsNesting_le.2 he))
  · exact parenthesised_nesting hg
  · exact generic_nesting hg
  · exact wordLed_nesting hg _
  · exact brokenToken_nesting _
  · exact .unexpected _
  · exact .after fun _ => .ite ((reference_nesting hg).map fun _ h => Nat.le_succ_of_le h)
      (.none fun _ _ => rfl)

/-- So it is with a sign, whose operand is read on the level below. -/
theorem unary_nesting (hg : Nests n g) : Yields (fun e => e.nesting false ≤ n + 1) (unary g) := by
  have operand (op : UnaryOp) (m : Mark) : Yields (fun e : Expr => e.nesting false ≤ n + 1) (do
      let operand ← g.operand
      pure (.unary op operand (← spanFrom m))) :=
    .bind hg.operand fun _ he => .after fun _ => .pure (Nat.le_succ_of_le he)
  refine .after fun m => .after fun token => ?_
  split
  · exact .after fun _ => operand _ m
  · exact .after fun _ => operand _ m
  · exact primary_nesting hg

/-- An operator holds its operands without being a container. -/
theorem climb_nesting (hg : Nests n g) (steps loosest : Nat) :
    Yields (fun e => e.nesting false ≤ n + 1) (climb g steps loosest) := by
  induction steps generalizing loosest with
  | zero => exact unary_nesting hg
  | succ steps ih =>
    refine .after fun m => .bind (unary_nesting hg) fun left hleft =>
      .loop (I := fun e => e.nesting false ≤ n + 1) (fun left hl => ?_) hleft
    refine .after fun ts => ?_
    split
    · exact .pure hl
    · refine .ite ?_ (.pure hl)
      refine .after fun _ => .bind hg.expr fun value hy => ?_
      refine .after fun _ => .bind hg.expr fun value hn => ?_
      refine .after fun _ => ?_
      exact .pure (Nat.max_le.2 ⟨hl, Nat.max_le.2 ⟨Nat.le_succ_of_le hy, Nat.le_succ_of_le hn⟩⟩)
    · exact .ite (.after fun _ => .bind (ih _) fun _ hr => .after fun _ =>
        .pure (Nat.max_le.2 ⟨hl, hr⟩)) (.pure hl)

/-! ### All levels -/

/-- A fragment has no depth. -/
theorem deepExpr_nesting : Yields (fun e => e.nesting false ≤ n) Grammar.deepExpr :=
  .map (.any fun _ => trivial) fun _ _ => Nat.zero_le n

/-- **A level adds one container at most.** -/
theorem Nests.above (hg : Nests n g) : Nests (n + 1) (.above g) where
  expr := .nested deepExpr_nesting (climb_nesting hg _ _)
  operand := .nested deepExpr_nesting (unary_nesting hg)

/-- With so many levels left nothing is deeper than that. -/
theorem nests_levels (n : Nat) : Nests n (.levels n) := by
  induction n with
  | zero => exact ⟨deepExpr_nesting, deepExpr_nesting⟩
  | succ n ih => exact ih.above

/-- An expression is as deep as the item made of it. -/
theorem nesting_ofExpr (e : Expr) : (Item.ofExpr e).nesting false = e.nesting false := by
  cases e <;> rfl

/-- An item is at most one level deeper than the level below. -/
theorem item_nesting (hg : Nests n g) : Yields (fun i => i.nesting false ≤ n + 1) (item g) := by
  have unnamed : Yields (fun u => u.object.nesting false ≤ n + 1) (unnamed g) := by
    refine .after fun m => .after fun _ => .bind (object_nesting hg) fun object ho => ?_
    exact .after fun s => .pure ho
  refine .after fun ts => .ite ?assignment (.ite ?visibility (.ite ?template (.ite ?unnamed
    (.ite ?member ?expr))))
  case assignment => exact (assignment_nesting hg).map fun a h => Nat.le_succ_of_le h
  case visibility => exact (visibility_nesting hg (object_nesting hg)).map fun v h => h true
  case template => exact (template_nesting hg (object_nesting hg)).map fun t h => h true
  case unnamed => exact unnamed.map fun u h => h
  case member => exact (member_nesting hg).map fun m h => Nat.le_succ_of_le h
  case expr =>
    refine hg.expr.map fun e h => Nat.le_succ_of_le ?_
    rwa [nesting_ofExpr]

/-- So is each of several. -/
theorem items_nesting (hg : Nests n g) (calledOff : Nat → Bool) :
    Yields (fun is => ∀ i ∈ is.getD [], i.nesting false ≤ n + 1) (items g calledOff) := by
  refine .loop (I := fun is => ∀ i ∈ is, i.nesting false ≤ n + 1) (fun read hr => ?_) (by simp)
  refine .after fun ts => .ite (.pure (by simpa using hr)) (.ite (.pure (by simp)) ?_)
  have item : Yields (fun i => i.nesting false ≤ n + 1) (itemOrError g) :=
    .after fun _ => .bind
      (.orRecover (item_nesting hg) (.map (.any fun _ => trivial) fun _ _ => Nat.zero_le _))
      fun _ hi => .after fun _ => .pure hi
  exact .bind item fun _ hi => .pure (List.forall_mem_cons.2 ⟨hi, hr⟩)

end Parser

/-- **No path into a document leads through more containers than there are levels, and one more.**
Bodies of templates that stand in objects are left out of the count. -/
theorem parse_nesting (source : String) :
    (parse source).document.nesting false ≤ Parser.maxNesting + 1 := by
  have h := Parser.items_nesting (Parser.nests_levels Parser.maxNesting) fun _ => false
  refine Document.nesting_le.2 ?_
  show ∀ i ∈ (readItems _ source _).value.join.getD [], _
  cases hv : (readItems (fun _ => false) source (TokenStream.ofText source)).value with
  | none => simp
  | some is => exact h _ _ is hv

/-- The bodies that are left out lead further: three objects in thirty-one lists are read without
a problem, as two of them are bodies of templates in objects. -/
theorem parse_nesting_bodies :
    (parse (String.ofList (.replicate 31 '[') ++
      "T(export template A[]is T(export template A[]is T()))" ++
        String.ofList (.replicate 31 ']'))).diagnostics = [] ∧
    Parser.maxNesting + 1 < (parse (String.ofList (.replicate 31 '[') ++
      "T(export template A[]is T(export template A[]is T()))" ++
        String.ofList (.replicate 31 ']'))).document.nesting true := by
  decide +kernel

end Ndf
