/-
# What a parser depends on

Two parsers agree on a zone, a set of places that moving forward does not leave, if they do the same
at each of its places.  A parser that takes the level below as an argument agrees with itself given
another level below, if the two levels agree where fewer tokens are left: it reads a token before it
turns to them.  So each lemma here is about two zones, one of which is entered from the other by
reading a token (`Zone.Falls`).

For objects this ends the recursion.  An object holds templates whose bodies are objects, and with
as many objects inside each other as there are tokens left, what is read below them makes no
difference (`objectNest_agree`).  So the bound of `object` is never met: an object holds objects
(`object_eq`).
-/

import Ndf.Proofs.Parser.Progress

namespace Ndf

/-- Places that are closed under moving forward. -/
structure Zone where
  mem : Cursor → Prop
  step : ∀ {c d : Cursor}, mem c → c.Reaches d → mem d

namespace Zone

/-- All places. -/
def all : Zone := ⟨fun _ => True, fun _ _ => trivial⟩

/-- The places with fewer than `n` tokens left. -/
def fewer (n : Nat) : Zone :=
  ⟨fun c => c.rest.length < n, fun hc h => Nat.lt_of_le_of_lt h.length_le hc⟩

/-- The places of both zones. -/
def inter (Y Z : Zone) : Zone :=
  ⟨fun c => Y.mem c ∧ Z.mem c, fun hc h => ⟨Y.step hc.1 h, Z.step hc.2 h⟩⟩

/-- Reading a token leads from one zone to another. -/
def Falls (Y Z : Zone) : Prop :=
  ∀ {c d : Cursor}, Y.mem c → c.Reaches d → d.rest.length < c.rest.length → Z.mem d

/-- Moving forward stays in a zone. -/
theorem falls_self (Z : Zone) : Z.Falls Z := fun hc h _ => Z.step hc h

/-- Reading a token leaves fewer. -/
theorem falls_fewer (n : Nat) : (fewer (n + 1)).Falls (fewer n) := fun hc _ hlt =>
  Nat.lt_of_lt_of_le hlt (Nat.le_of_lt_succ hc)

/-- So it is with what two zones share. -/
theorem Falls.inter {Y Y' Z Z' : Zone} (h : Y.Falls Z) (h' : Y'.Falls Z') :
    (Y.inter Y').Falls (Z.inter Z') := fun hc hd hlt => ⟨h hc.1 hd hlt, h' hc.2 hd hlt⟩

end Zone

namespace Parser

variable {α β σ : Type} {p p' q : Parser α} {f f' : α → Parser β} {src : Source} {c : Cursor}
  {Y Z : Zone}

/-- Two parsers do the same at a place. -/
def AgreeAt (src : Source) (c : Cursor) (p q : Parser α) : Prop := src.Ended → p src c = q src c

/-- Two parsers do the same at the places of a zone. -/
def AgreeOn (src : Source) (Z : Zone) (p q : Parser α) : Prop :=
  src.Ended → ∀ c, Z.mem c → p src c = q src c

namespace AgreeOn

/-- A parser agrees with itself. -/
theorem refl (p : Parser α) : AgreeOn src Z p p := fun _ _ _ => rfl

/-- Agreeing goes both ways. -/
theorem symm (h : AgreeOn src Z p q) : AgreeOn src Z q p := fun he c hc => (h he c hc).symm

/-- And from one to a third. -/
theorem trans (h : AgreeOn src Z p p') (h' : AgreeOn src Z p' q) : AgreeOn src Z p q :=
  fun he c hc => (h he c hc).trans (h' he c hc)

/-- On a smaller zone parsers agree as well. -/
theorem mono (h : AgreeOn src Z p q) (hz : ∀ c, Y.mem c → Z.mem c) : AgreeOn src Y p q :=
  fun he c hc => h he c (hz c hc)

/-- Two sequences agree if their parts do. -/
theorem bind (hs : Sound p) (hp : AgreeOn src Z p p') (hf : ∀ a, AgreeOn src Z (f a) (f' a)) :
    AgreeOn src Z (p >>= f) (p' >>= f') := fun he c hc =>
  bind_congr (hp he c hc) fun a _ => hf a he _ (Z.step hc (hs.moves he c))

/-- The same parser in front of two others. -/
theorem after (hs : Sound p) (hf : ∀ a, AgreeOn src Z (f a) (f' a)) :
    AgreeOn src Z (p >>= f) (p >>= f') := bind hs (refl p) hf

/-- The same parser in front of two others, if it reads a token. -/
theorem read (hs : Sound p) (hp : Eats p) (hz : Y.Falls Z)
    (hf : ∀ a, AgreeOn src Z (f a) (f' a)) : AgreeOn src Y (p >>= f) (p >>= f') := fun he c hc =>
  bind_congr rfl fun a ha => hf a he _
    (hz hc (hs.moves he c) (hp he c (ha ▸ Option.some_ne_none a)))

/-- A function of the value keeps parsers in agreement. -/
theorem map (h : α → β) (hp : AgreeOn src Z p q) : AgreeOn src Z (h <$> p) (h <$> q) :=
  fun he c hc => bind_congr (hp he c hc) fun _ _ => rfl

/-- Two branches agree if both sides do. -/
theorem ite {P : Prop} [Decidable P] {q' : Parser α} (hp : AgreeOn src Z p p')
    (hq : AgreeOn src Z q q') : AgreeOn src Z (if P then p else q) (if P then p' else q') := by
  split
  · exact hp
  · exact hq

/-- What recovers alike agrees if what is tried first does. -/
theorem orRecover (h : AgreeOn src Z p p') :
    AgreeOn src Z (orRecover p q) (orRecover p' q) := by
  intro he c hc
  rw [Parser.orRecover, Parser.orRecover, h he c hc]

/-- Two loops agree if their rounds do. -/
theorem loop {step step' : σ → Parser (σ ⊕ β)} (hs : ∀ s, Sound (step s))
    (h : ∀ s, AgreeOn src Z (step s) (step' s)) (s : σ) :
    AgreeOn src Z (loop step s) (loop step' s) := by
  have key (ts : List Token) : ∀ s, AgreeOn src Z (rounds step ts s) (rounds step' ts s) := by
    induction ts with
    | nil =>
      intro s
      rw [rounds_nil, rounds_nil]
      exact bind (hs s) (h s) fun _ => refl _
    | cons t ts ih =>
      intro s
      rw [rounds_cons, rounds_cons]
      refine bind (hs s) (h s) fun r => ?_
      cases r with
      | inl s' => exact ih s'
      | inr b => exact refl _
  exact fun he c hc => key c.rest s he c hc

/-- What is read may depend on the next token. -/
theorem peek {f f' : Token → Parser β}
    (h : ∀ c, Z.mem c → AgreeAt src c (f (c.rest.headD src.stop)) (f' (c.rest.headD src.stop))) :
    AgreeOn src Z (peek >>= f) (peek >>= f') := fun he c hc => h c hc he

/-- What is read may depend on the tokens ahead. -/
theorem ahead {f f' : List Token → Parser β}
    (h : ∀ c, Z.mem c → AgreeAt src c (f c.rest) (f' c.rest)) :
    AgreeOn src Z (ahead >>= f) (ahead >>= f') := fun he c hc => h c hc he

/-- A token that is there is read. -/
theorem bump {q q' : Parser β} (hz : Y.Falls Z) (hc : Y.mem c) (hr : c.rest ≠ [])
    (h : AgreeOn src Z q q') : AgreeAt src c (bump >>= fun _ => q) (bump >>= fun _ => q') :=
  fun he => bind_congr rfl fun _ _ => h he _ (hz hc (Steady.bump.moves he c) (bump_lt hr))

end AgreeOn
end Parser

/-- Two levels do the same at the places of a zone. -/
structure Grammar.AgreeOn (src : Source) (Z : Zone) (g g' : Grammar) : Prop where
  expr : Parser.AgreeOn src Z g.expr g'.expr
  operand : Parser.AgreeOn src Z g.operand g'.operand
  type : Parser.AgreeOn src Z g.type g'.type

namespace Grammar.AgreeOn

variable {src : Source} {Y Z : Zone} {g g' g'' : Grammar}

/-- A level agrees with itself. -/
theorem refl (g : Grammar) : Grammar.AgreeOn src Z g g := ⟨.refl _, .refl _, .refl _⟩

/-- Agreeing goes both ways. -/
theorem symm (h : Grammar.AgreeOn src Z g g') : Grammar.AgreeOn src Z g' g :=
  ⟨h.expr.symm, h.operand.symm, h.type.symm⟩

/-- And from one to a third. -/
theorem trans (h : Grammar.AgreeOn src Z g g') (h' : Grammar.AgreeOn src Z g' g'') :
    Grammar.AgreeOn src Z g g'' :=
  ⟨h.expr.trans h'.expr, h.operand.trans h'.operand, h.type.trans h'.type⟩

/-- On a smaller zone levels agree as well. -/
theorem mono (h : Grammar.AgreeOn src Z g g') (hz : ∀ c, Y.mem c → Z.mem c) :
    Grammar.AgreeOn src Y g g' :=
  ⟨h.expr.mono hz, h.operand.mono hz, h.type.mono hz⟩

end Grammar.AgreeOn

namespace Parser

variable {src : Source} {c : Cursor} {g g' : Grammar} {Y Z : Zone}

/-! ### Types, lists and references -/

/-- The parameters of a type depend on the level below alone. -/
theorem typeParams_agree (hg : Advancing g) (h : g.AgreeOn src Z g') :
    AgreeOn src Z (typeParams g) (typeParams g') :=
  .loop (typeParamStep_sound hg) (fun _ => .bind hg.type h.type fun _ => .refl _) []

/-- A type reads its name before it turns to them. -/
theorem typeRef_agree (hg : Advancing g) (hz : Y.Falls Z) (h : g.AgreeOn src Z g') :
    AgreeOn src Y (typeRef g) (typeRef g') := by
  refine .after Still.mark.sound fun _ => .after Still.peek.sound fun _ => ?_
  refine .read (Steady.name _).sound (.name _) hz fun _ => .after Still.ahead.sound fun _ => ?_
  exact .ite (.after Steady.bump.sound fun _ =>
    .bind (typeParams_sound hg) (typeParams_agree hg h) fun _ => .refl _) (.refl _)

/-- The elements of a list depend on the level below. -/
theorem elements_agree (hg : Advancing g) (h : g.AgreeOn src Z g') :
    AgreeOn src Z (elements g) (elements g') := by
  refine .loop (fun e => (element_steady hg e).sound) (fun e => ?_) {}
  have item (k : Expr → Elements ⊕ Elements) : AgreeOn src Z (do
        let m ← mark
        let item ← orRecover g.expr (Expr.error <$> recoverElement m)
        pure (k item)) (do
        let m ← mark
        let item ← orRecover g'.expr (Expr.error <$> recoverElement m)
        pure (k item)) :=
    .after Still.mark.sound fun _ he c hc => bind_congr (h.expr.orRecover he c hc) fun _ _ => rfl
  refine .after Still.peek.sound fun token => ?_
  split
  · exact .refl _
  · exact .refl _
  · exact .refl _
  · exact .ite (.after (Still.report _ _).sound fun _ => item _) (item _)

/-- A bracket is read in front of them. -/
theorem bracketed_agree (hg : Advancing g) (hz : Y.Falls Z) (h : g.AgreeOn src Z g') :
    AgreeOn src Y (bracketed g) (bracketed g') :=
  .read (Steady.expect _ _).sound (.expect (by simp) _) hz fun _ =>
    .bind (elements_steady hg).sound (elements_agree hg h) fun _ => .refl _

/-- The steps of a path read a sign before an index. -/
theorem suffixes_agree (hg : Advancing g) (hz : Y.Falls Z) (h : g.AgreeOn src Z g') :
    AgreeOn src Y (suffixes g) (suffixes g') := by
  refine .loop (fun read => (suffix_steady hg read).sound) (fun read => .ahead fun c hc => ?_) []
  by_cases hp : Lookahead.continuesPath c.rest = true
  · have hr : c.rest ≠ [] := by
      rintro hr
      rw [hr] at hp
      cases hp
    intro he
    rw [if_pos hp, if_pos hp, peek_bind, peek_bind]
    cases (c.rest.headD src.stop).kind with
    | lbracket => exact AgreeOn.bump hz hc hr (.bind hg.expr.sound h.expr fun _ => .refl _) he
    | _ => rfl
  · rw [if_neg hp, if_neg hp]
    exact fun _ => rfl

/-- A reference reads its name first. -/
theorem reference_agree (hg : Advancing g) (hz : Y.Falls Z) (h : g.AgreeOn src Z g') :
    AgreeOn src Y (reference g) (reference g') := by
  have key (scope : Scope) (m : Mark) : AgreeOn src Y (do
      let name ← name "a reference name"
      let suffixes ← suffixes g
      let kind : SegmentKind := if scope = .none then .terminal else .nested
      pure ⟨scope, Reference.segmentsOf name kind suffixes, ← spanFrom m⟩ : Parser Reference) (do
      let name ← name "a reference name"
      let suffixes ← suffixes g'
      let kind : SegmentKind := if scope = .none then .terminal else .nested
      pure ⟨scope, Reference.segmentsOf name kind suffixes, ← spanFrom m⟩) :=
    .read (Steady.name _).sound (.name _) hz fun _ =>
      .bind (suffixes_steady hg).sound (suffixes_agree hg Z.falls_self h) fun _ => .refl _
  exact .after Still.mark.sound fun m => .after Still.peek.sound fun _ =>
    .ite (.after scopeMark_steady.sound fun _ => key _ m) (key _ m)

/-- So does what a name and a bracket start. -/
theorem vectorOrPath_agree (hg : Advancing g) (hz : Y.Falls Z) (h : g.AgreeOn src Z g') :
    AgreeOn src Y (vectorOrPath g) (vectorOrPath g') := by
  refine .after Still.mark.sound fun m => .read (Steady.name _).sound (.name _) hz fun _ =>
    .bind (bracketed_steady hg).sound (bracketed_agree hg Z.falls_self h) fun e =>
      .after (Still.spanFrom m).sound fun _ => .after Still.ahead.sound fun _ => ?_
  split
  · exact .ite (.bind (suffixes_steady hg).sound (suffixes_agree hg Z.falls_self h) fun _ =>
      .refl _) (.refl _)
  · exact .refl _

/-! ### Declarations -/

/-- An assignment reads its name before its value. -/
theorem assignment_agree (hg : Advancing g) (hz : Y.Falls Z) (h : g.AgreeOn src Z g') :
    AgreeOn src Y (assignment g) (assignment g') := by
  refine .after Still.mark.sound fun _ => .read (Steady.name _).sound (.name _) hz fun _ => ?_
  refine .after (Steady.expectKeyword _).sound fun _ => .bind hg.expr.sound h.expr fun value => ?_
  exact .refl _

/-- What follows the name of a member depends on the level below. -/
theorem memberTail_agree (hg : Advancing g) (h : g.AgreeOn src Z g') (m : Mark) (name : Name) :
    AgreeOn src Z (memberTail g m name) (memberTail g' m name) := by
  have value (k : Expr → Span → Member) : AgreeOn src Z (do
      let value ← g.expr
      pure (k value (← spanFrom m))) (do
      let value ← g'.expr
      pure (k value (← spanFrom m))) :=
    .bind hg.expr.sound h.expr fun _ => .refl _
  refine .after (Steady.eat _).sound fun _ => ?_
  refine .ite ?_ (.after (Steady.expect _ _).sound fun _ => value _)
  refine .after (Steady.eat _).sound fun _ => ?_
  refine .ite (value _) ?_
  refine .bind (typeRef_sound hg) (typeRef_agree hg Z.falls_self h) fun type => ?_
  exact .after (Steady.eat _).sound fun _ => .ite (value _) (.refl _)

/-- A member reads its name first. -/
theorem member_agree (hg : Advancing g) (hz : Y.Falls Z) (h : g.AgreeOn src Z g') :
    AgreeOn src Y (member g) (member g') :=
  .after Still.mark.sound fun m => .read (Steady.name _).sound (.name _) hz fun name =>
    memberTail_agree hg h m name

/-- So does a parameter. -/
theorem param_agree (hg : Advancing g) (hz : Y.Falls Z) (h : g.AgreeOn src Z g') :
    AgreeOn src Y (param g) (param g') := by
  refine .after Still.mark.sound fun m => .read (Steady.name _).sound (.name _) hz fun name =>
    .after Still.peek.sound fun token => ?_
  split
  · exact memberTail_agree hg h m name
  · exact memberTail_agree hg h m name
  · exact .refl _

/-- So do all parameters. -/
theorem params_agree (hg : Advancing g) (hz : Y.Falls Z) (h : g.AgreeOn src Z g') :
    AgreeOn src Y (params g) (params g') := by
  refine .loop (fun read => (paramStep_steady hg read).sound)
    (fun read => .after Still.peek.sound fun token => ?_) []
  split
  · exact .refl _
  · exact .refl _
  · exact .refl _
  · exact .bind (param_steady hg).sound (param_agree hg hz h) fun _ => .refl _
  · exact .refl _

variable {body body' : Parser Object}

/-- A template reads its name before its body. -/
theorem template_agree (hg : Advancing g) (hb : Steady body) (hz : Y.Falls Z)
    (h : g.AgreeOn src Z g') (hb' : AgreeOn src Z body body') :
    AgreeOn src Y (template g body) (template g' body') := by
  refine .after Still.mark.sound fun _ => ?_
  refine .read (Steady.expectKeyword _).sound (.expectKeyword _) hz fun _ => ?_
  refine .after (Steady.name _).sound fun _ => .after (Steady.expect _ _).sound fun _ => ?_
  refine .bind (params_steady hg).sound (params_agree hg Z.falls_self h) fun params => ?_
  refine .after (Steady.expect _ _).sound fun _ => .after (Steady.expectKeyword _).sound fun _ => ?_
  refine .bind hb.sound hb' fun object => ?_
  exact .refl _

/-- A modifier is read before its declaration. -/
theorem visibility_agree (hg : Advancing g) (hb : Steady body) (hz : Y.Falls Z)
    (h : g.AgreeOn src Z g') (hb' : AgreeOn src Z body body') :
    AgreeOn src Y (visibility g body) (visibility g' body') := by
  refine .after Still.mark.sound fun m => .after Still.peek.sound fun token => ?_
  split
  · exact .refl _
  · refine .read (Steady.name _).sound (.name _) hz fun _ => .after Still.ahead.sound fun _ => ?_
    exact .ite (.bind (Steady.map _ (template_steady hg hb)).sound
      (.map _ (template_agree hg hb Z.falls_self h hb')) fun _ => .refl _)
      (.bind (Steady.map _ (assignment_steady hg)).sound
      (.map _ (assignment_agree hg Z.falls_self h)) fun _ => .refl _)

/-- An entry reads a token before it turns to what is below. -/
theorem entryStep_agree (hg : Advancing g) (hb : Steady body) (hz : Y.Falls Z)
    (h : g.AgreeOn src Z g') (hb' : AgreeOn src Z body body') (read : List Entry) :
    AgreeOn src Y (entryStep g body read) (entryStep g' body' read) := by
  have entry : AgreeOn src Y (entry g body) (entry g' body') :=
    .after Still.ahead.sound fun _ => .ite (.map _ (assignment_agree hg hz h))
      (.ite (.map _ (visibility_agree hg hb hz h hb')) (.ite (.map _ (member_agree hg hz h))
        (.ite (.map _ (reference_agree hg hz h)) (.refl _))))
  refine .after Still.peek.sound fun token => ?_
  split
  · exact .refl _
  · exact .refl _
  · exact .refl _
  · exact .after Still.mark.sound fun m he c hc =>
      bind_congr (entry.orRecover he c hc) fun _ _ => rfl

/-- An object reads its name before its entries. -/
theorem objectWith_agree (hg : Advancing g) (hb : Steady body) (hz : Y.Falls Z)
    (h : g.AgreeOn src Z g') (hb' : AgreeOn src Z body body') :
    AgreeOn src Y (objectWith g body) (objectWith g' body') := by
  refine .after Still.mark.sound fun _ => .read (Steady.name _).sound (.name _) hz fun _ => ?_
  refine .after (Steady.expect _ _).sound fun _ => ?_
  refine .bind (.loop (entryStep_advances hg hb) (fun s => (entryStep_steady hg hb s).sound) [])
    (.loop (fun s => (entryStep_steady hg hb s).sound) (entryStep_agree hg hb Z.falls_self h hb')
    []) fun _ => ?_
  exact .refl _

/-! ### Objects inside each other -/

/-- Objects that hold at most `n` templates inside each other, with any parser below. -/
def objectNest (g : Grammar) (base : Parser Object) : Nat → Parser Object
  | 0 => objectWith g base
  | n + 1 => objectWith g (objectNest g base n)

variable {base : Parser Object}

/-- Objects inside each other stop between two tokens if the last one does. -/
theorem objectNest_steady (hg : Advancing g) (hb : Steady base) (n : Nat) :
    Steady (objectNest g base n) := by
  induction n with
  | zero => exact objectWith_steady hg hb
  | succ n ih => exact objectWith_steady hg ih

/-- With at most as many tokens left as there are levels, the parser below is not met. -/
theorem objectNest_agree (hg : Advancing g) (hb : Steady base) (n : Nat) (ts : List Token)
    (hn : ts.length ≤ n) (hz : Y.Falls Z) (h : g.AgreeOn src Z g') :
    AgreeOn src (Y.inter (.fewer (ts.length + 1))) (objectNest g base n) (objectWithin g' ts) := by
  induction ts generalizing n Y with
  | nil =>
    have hfalls : (Y.inter (.fewer 1)).Falls (Z.inter (.fewer 0)) := hz.inter (Zone.falls_fewer 0)
    have hg' : g.AgreeOn src (Z.inter (.fewer 0)) g' := h.mono fun _ => And.left
    have below {p q : Parser Object} : AgreeOn src (Z.inter (.fewer 0)) p q :=
      fun _ c hc => absurd hc.2 (Nat.not_lt_zero _)
    cases n with
    | zero => exact objectWith_agree hg hb hfalls hg' below
    | succ n => exact objectWith_agree hg (objectNest_steady hg hb n) hfalls hg' below
  | cons t ts ih =>
    have hfalls : (Y.inter (.fewer (ts.length + 2))).Falls (Z.inter (.fewer (ts.length + 1))) :=
      hz.inter (Zone.falls_fewer (ts.length + 1))
    have hg' : g.AgreeOn src (Z.inter (.fewer (ts.length + 1))) g' := h.mono fun _ => And.left
    cases n with
    | zero => simp at hn
    | succ n =>
      exact objectWith_agree hg (objectNest_steady hg hb n) hfalls hg'
        (ih n (by simpa using hn) Z.falls_self)

/-- **The bound on nested templates is never met.**  With any parser below, and as many levels as
there are tokens left, an object is read as the grammar reads it. -/
theorem object_eq_nest (hg : Advancing g) (hb : Steady base) {n : Nat}
    (he : src.Ended) (hn : c.rest.length ≤ n) : object g src c = objectNest g base n src c :=
  (objectNest_agree hg hb n c.rest hn Zone.all.falls_self (.refl g) he c
    ⟨trivial, Nat.lt_succ_self _⟩).symm

/-- An object depends on the level below only where fewer tokens are left. -/
theorem object_agree (hg : Advancing g) (hz : Y.Falls Z) (h : g.AgreeOn src Z g') :
    AgreeOn src Y (object g) (object g') := by
  intro he c hc
  have hb := Steady.unexpected (α := Object) ""
  rw [object_eq_nest hg hb he (Nat.le_refl _)]
  exact objectNest_agree hg hb _ c.rest (Nat.le_refl _) hz h he c ⟨hc, Nat.lt_succ_self _⟩

/-- So does an object. -/
theorem object_steady (hg : Advancing g) : Steady (object g) := by
  have h (src : Source) (he : src.Ended) (c : Cursor) :
      object g src c = objectNest g (unexpected "") c.rest.length src c :=
    object_eq_nest hg (.unexpected "") he (Nat.le_refl _)
  have hn (n : Nat) := objectNest_steady hg (Steady.unexpected (α := Object) "") n
  exact
    { moves := fun he c => (h _ he c).symm ▸ (hn _).moves he c
      loud := fun he c => (h _ he c).symm ▸ (hn _).loud he c
      lands := fun he c => (h _ he c).symm ▸ (hn _).lands he c }

/-- An object holds objects. -/
theorem object_eq (hg : Advancing g) (he : src.Ended) :
    object g src c = objectWith g (object g) src c := by
  have hb := Steady.unexpected (α := Object) ""
  have hnest := objectNest_steady hg hb c.rest.length
  have hbelow : AgreeOn src (.fewer c.rest.length) (objectNest g (unexpected "") c.rest.length)
      (object g) := fun he d hd => (object_eq_nest hg hb he (Nat.le_of_lt hd)).symm
  rw [object_eq_nest hg hb he (Nat.le_succ _)]
  exact objectWith_agree hg hnest (Zone.falls_fewer _) (.refl g) hbelow he c (Nat.lt_succ_self _)

/-- An object reads a token. -/
theorem object_eats (hg : Advancing g) : Eats (object g) := by
  intro src he c
  rw [EatsAt, object_eq hg he]
  exact objectWith_eats hg (object_steady hg) he c

end Parser

end Ndf
