/-
# Commas in what is read without problems

`Smooth S c Q p` says of one run at a place of a scene that, if it returns a value and finds no
problem, its value and the place where it ends have the property `Q`.  Whoever gives up finds a
problem (`Sound.loud`), so what is cut out needs no case of its own (`Smooth.orRecover`).

`Tallies` is the property of all parsers of the grammar: brackets are read in pairs, with no comma
outside of them unless that is said, and the commas of every list and vector in the value are
counted (`Scene.Counted`).
-/

import Ndf.Proofs.Commas.Paired
import Ndf.Proofs.Parser.Explained
import Ndf.Proofs.Tree.Met

namespace Ndf

/-! ### Lists and vectors and their tokens -/

/-- The elements of a list or a vector and the number of its stray commas. -/
def Expr.elements? : Expr → Option (List Expr × Nat)
  | .list items stray _ | .vector _ _ items stray _ => some (items, stray)
  | _ => none

/-- Tokens that end in a pair of square brackets, with `inside` between the two.  In front of the
first stands no other bracket, and inside the brackets are in pairs, so the two belong together. -/
structure Brackets (ts inside : List Token) : Prop where
  ends : ∃ front opening closing, ts = front ++ opening :: (inside ++ [closing]) ∧
    fences front = [] ∧ opening.kind = .lbracket ∧ closing.kind = .rbracket
  paired : ∃ n, Paired n (fences inside)

namespace Scene

variable {S : Scene} {c d : Cursor}

/-- The tokens that a span covers. -/
def within (S : Scene) (s : Span) : List Token := S.tokens.filter fun t => s.encloses t.span

/-- The last of some tokens ends last. -/
theorem stop_le_stop_getLast {us u ds : List Token} (h : S.tokens = us ++ (u ++ ds)) (hu : u ≠ [])
    {s : Token} (hs : s ∈ u) : s.span.stop ≤ (u.getLast hu).span.stop := by
  have hordered := (List.pairwise_append.1 S.ordered).1
  rw [h, ← List.dropLast_append_getLast hu, List.append_assoc] at hordered
  have hlast := S.nonempty (u.getLast hu) (by simp [h])
  rw [← List.dropLast_append_getLast hu, List.mem_append, List.mem_singleton] at hs
  rcases hs with hs | rfl
  · have hle := (List.pairwise_append.1 (List.pairwise_append.1 hordered).2.1).2.2 s hs
      (u.getLast hu) (by simp)
    omega
  · exact Nat.le_refl _

/-- A span from the start of a token to the end of another covers these two and what is between. -/
theorem within_eq {us u ds : List Token} (h : S.tokens = us ++ (u ++ ds)) (hu : u ≠ []) {s : Span}
    (hstart : s.start = (u.head hu).span.start) (hstop : s.stop = (u.getLast hu).span.stop) :
    S.within s = u := by
  have hordered := (List.pairwise_append.1 S.ordered).1
  rw [h] at hordered
  obtain ⟨-, hmiddle, hfront⟩ := List.pairwise_append.1 hordered
  obtain ⟨hinner, -, hback⟩ := List.pairwise_append.1 hmiddle
  have hnonempty (t : Token) (ht : t ∈ us ++ (u ++ ds)) := S.nonempty t (h ▸ ht)
  have hbefore : us.filter (fun t => s.encloses t.span) = [] := by
    refine List.filter_eq_nil_iff.2 fun t ht hin => ?_
    have hle := hfront t ht (u.head hu) (by simp)
    have hlt := hnonempty t (by simp [ht])
    have := (Span.encloses_iff.1 hin).1
    omega
  have hbehind : ds.filter (fun t => s.encloses t.span) = [] := by
    refine List.filter_eq_nil_iff.2 fun t ht hin => ?_
    have hle := hback (u.getLast hu) (List.getLast_mem hu) t ht
    have hlt := hnonempty t (by simp [ht])
    have := (Span.encloses_iff.1 hin).2
    omega
  have hinside : u.filter (fun t => s.encloses t.span) = u := by
    refine List.filter_eq_self.2 fun t ht => Span.encloses_iff.2 ⟨?_, ?_⟩
    · obtain ⟨v, vs, rfl⟩ := List.exists_cons_of_ne_nil hu
      rw [hstart, List.head_cons]
      rcases List.mem_cons.1 ht with rfl | ht
      · exact Nat.le_refl _
      · have hle := (List.pairwise_cons.1 hinner).1 t ht
        have hlt := hnonempty v (by simp)
        omega
    · rw [hstop]
      exact stop_le_stop_getLast h hu ht
  rw [within, h, List.filter_append, List.filter_append, hbefore, hinside, hbehind,
    List.nil_append, List.append_nil]

/-- **What is read between two places are the tokens that the span from one to the other
covers.** -/
theorem within_upTo {us u : List Token} (h : S.tokens = us ++ c.rest) (hp : c.Passes u d)
    (hu : u ≠ []) : S.within ((Parser.Mark.here S.source c).upTo d) = u := by
  obtain ⟨hcount, hlast⟩ := hp.moved hu
  have hrest := hp.rest
  have hsplit : S.tokens = us ++ (u ++ d.rest) := by rw [h, hrest]
  have hhead : (c.rest.headD S.source.stop).span = (u.head hu).span := by
    obtain ⟨t, v, rfl⟩ := List.exists_cons_of_ne_nil hu
    rw [hrest]
    rfl
  have hspan : (Parser.Mark.here S.source c).upTo d = (u.head hu).span.through d.last := by
    rw [Parser.Mark.upTo,
      if_pos (show (Parser.Mark.here S.source c).count < d.count from hcount), ← hhead]
    rfl
  have hle := stop_le_stop_getLast hsplit hu (List.head_mem hu)
  refine within_eq hsplit hu (by rw [hspan]; rfl) ?_
  rw [hspan, ← hlast]
  exact Nat.max_eq_left (hlast ▸ hle)

/-- The commas of a list or a vector: as many as separate its elements, and the stray ones. -/
def Counted (S : Scene) (e : Expr) : Prop := ∀ items stray, e.elements? = some (items, stray) →
  ∃ inside, Brackets (S.within e.span) inside ∧
    Paired (stray + max items.length 1 - 1) (fences inside)

end Scene

/-- As `Scene.Counted`, of an expression that is met. -/
def Visit.Counted (S : Scene) : Visit → Prop
  | .enterExpr e => S.Counted e
  | _ => True

namespace Scene

variable {S : Scene} {v : Visit} {vs ws : List Visit} {t : Token} {ts us : List Token} {c : Cursor}

/-- The commas of all lists and vectors that are met are counted. -/
def Tallied (S : Scene) (visits : List Visit) : Prop := ∀ v ∈ visits, v.Counted S

@[simp] theorem tallied_nil : S.Tallied [] := fun _ h => nomatch h

@[simp] theorem tallied_cons : S.Tallied (v :: vs) ↔ v.Counted S ∧ S.Tallied vs :=
  List.forall_mem_cons

@[simp] theorem tallied_append : S.Tallied (vs ++ ws) ↔ S.Tallied vs ∧ S.Tallied ws :=
  List.forall_mem_append

@[simp] theorem tallied_flatMap {α : Type} {f : α → List Visit} {as : List α} :
    S.Tallied (as.flatMap f) ↔ ∀ a ∈ as, S.Tallied (f a) := by
  simp only [Tallied, List.mem_flatMap]
  constructor
  · exact fun h a ha v hv => h v ⟨a, ha, hv⟩
  · rintro h v ⟨a, ha, hv⟩
    exact h a ha v hv

/-! ### What can be left of the tokens -/

/-- Tokens that can be left: the last ones, or those behind the first half of a token. -/
def Left (S : Scene) (ts : List Token) : Prop := (∃ us, S.tokens = us ++ ts) ∨
  ∃ us t rest, S.tokens = us ++ t :: rest ∧ ts = t.secondHalf :: rest

/-- All tokens can be left, in front of the first. -/
theorem Left.all (S : Scene) : S.Left S.tokens := .inl ⟨[], rfl⟩

/-- One token less can be left as well. -/
theorem Left.tail (h : S.Left ts) : S.Left ts.tail := by
  rcases h with ⟨us, h⟩ | ⟨us, t, rest, h, rfl⟩
  · cases ts with
    | nil => exact .inl ⟨us, h⟩
    | cons t rest => exact .inl ⟨us ++ [t], by simpa using h⟩
  · exact .inl ⟨us ++ [t], by simpa using h⟩

/-- In front of anything else than an equals sign, no token is split. -/
theorem Left.whole (h : S.Left ts) (hk : (ts.headD S.source.stop).kind ≠ .eq) :
    ∃ us, S.tokens = us ++ ts := by
  refine h.resolve_right ?_
  rintro ⟨us, t, rest, -, rfl⟩
  exact hk rfl

/-- The equals sign of a `>=` can be left. -/
theorem Left.half (h : S.Left (t :: ts)) (hk : t.kind = .gtEq) : S.Left (t.secondHalf :: ts) := by
  obtain ⟨us, h⟩ := h.whole (by rw [List.headD_cons, hk]; simp)
  exact .inr ⟨us, t, ts, h, rfl⟩

/-- No token is broken in a way that tokenizing reports. -/
def Fair (S : Scene) : Prop := (Cursor.start S.tokens).Fair

/-- Where tokenizing found no problem, no broken token is left. -/
theorem Left.fair (h : S.Left c.rest) (hS : S.Fair) : c.Fair := by
  intro t ht e hk
  rcases h with ⟨us, h⟩ | ⟨us, s, rest, h, hr⟩
  · exact hS t (by rw [Cursor.start, h]; exact List.mem_append_right us ht) e hk
  · rw [hr, List.mem_cons] at ht
    rcases ht with rfl | ht
    · cases hk
    · exact hS t (by rw [Cursor.start, h]; simp [ht]) e hk

end Scene

/-! ### Runs -/

namespace Parser

variable {α β σ : Type} {S : Scene} {c : Cursor} {p q : Parser α} {P Q : α → Cursor → Prop}
  {R : β → Cursor → Prop} {f : α → Parser β} {kind : TokenKind} {free : Bool}
  {out : α → List Visit} {more : β → List Visit}

/-- From a place of the scene, a run without problems gets to a place of the scene, with a value as
said. -/
def Smooth (S : Scene) (c : Cursor) (Q : α → Cursor → Prop) (p : Parser α) : Prop :=
  S.Left c.rest → ∀ a, (p S.source c).value = some a → Quiet (p S.source c).notes →
    S.Left (p S.source c).cursor.rest ∧ Q a (p S.source c).cursor

namespace Smooth

/-- A weaker property holds as well. -/
theorem mono (hp : Smooth S c P p) (h : ∀ a d, P a d → Q a d) : Smooth S c Q p :=
  fun hc a ha hq => ⟨(hp hc a ha hq).1, h a _ (hp hc a ha hq).2⟩

/-- Two parsers with the same run have the same properties. -/
theorem congr (h : p S.source c = q S.source c) (hq : Smooth S c Q q) : Smooth S c Q p := by
  unfold Smooth
  rwa [h]

/-- The run starts at a place of the scene. -/
theorem here (h : S.Left c.rest → Smooth S c Q p) : Smooth S c Q p := fun hc => h hc hc

/-- In a sequence the second parser may rely on what the first one gives. -/
theorem bind (hp : Smooth S c P p) (hf : ∀ a d, P a d → Smooth S d R (f a)) :
    Smooth S c R (p >>= f) := by
  intro hc b hb hq
  cases hv : (p S.source c).value with
  | none =>
    rw [bind_of_none hv] at hb
    cases hb
  | some a =>
    rw [bind_of_some hv] at hb hq ⊢
    obtain ⟨hfirst, hsecond⟩ := (quiet_append _ _).1 hq
    obtain ⟨hleft, ha⟩ := hp hc a hv hfirst
    exact hf a _ ha hleft b hb hsecond

/-- Returning a value reads nothing. -/
theorem pure {a : α} (h : Q a c) : Smooth S c Q (pure a) := fun hc b hb _ => ⟨hc, by
  obtain rfl : a = b := Option.some.inj hb
  exact h⟩

/-- A function of the value leaves the place as it is. -/
theorem map {h : α → β} (hp : Smooth S c P p) (hh : ∀ a d, P a d → R (h a) d) :
    Smooth S c R (h <$> p) := hp.bind fun a d ha => .pure (hh a d ha)

/-- Of two branches only the one taken counts. -/
theorem ite {C : Prop} [Decidable C] (hp : C → Smooth S c Q p) (hq : ¬ C → Smooth S c Q q) :
    Smooth S c Q (if C then p else q) := by
  split
  · exact hp ‹_›
  · exact hq ‹_›

/-- A run that gives up. -/
theorem none (h : (p S.source c).value = none) : Smooth S c Q p := fun _ a ha => by
  rw [h] at ha
  cases ha

/-- Whoever gives up finds a problem, so nothing is to be shown. -/
theorem unexpected (due : String) : Smooth S c Q (unexpected due) := .none rfl

/-- A parser that always notes a problem. -/
theorem loud (h : Loud p) : Smooth S c Q p := fun _ _ _ hq => absurd hq (h _ _)

/-- A report is a problem. -/
theorem report {cause : Diagnostic.Cause} {s : Span} {f : Unit → Parser β} :
    Smooth S c R (report cause s >>= f) := fun _ _ _ hq => by
  rw [bind_of_some (a := ()) rfl] at hq
  exact absurd ((quiet_append _ _).1 hq).1 (not_quiet_problem _ _)

/-- Whoever gives up has found a problem, so nothing is cut out. -/
theorem orRecover (hS : S.Fair) (hs : Sound p) (hp : Smooth S c Q p) :
    Smooth S c Q (orRecover p q) := by
  intro hc a
  cases hv : (p S.source c).value with
  | none =>
    rw [orRecover_of_none hv]
    intro _ hq
    exact absurd ((quiet_append _ _).1 hq).1 (hs.loud S.ended c (hc.fair hS) hv)
  | some b =>
    rw [orRecover_of_some hv]
    exact hp hc a

/-- A level deeper the same tokens are read, and below the last one a problem is found. -/
theorem nested {deep : Parser α} (hs : Sound p) (hd : Loud deep)
    (hp : Smooth S c.down (fun a d => Q a d.up) p) : Smooth S c Q (nested deep p) := by
  intro hc
  rcases Nat.lt_or_ge c.depth maxNesting with h | h
  · rw [nested_of_lt hs S.ended h]
    exact hp hc
  · rw [nested_of_le h]
    exact loud hd hc

/-- An invariant of a loop, of its state and of the place where a round starts. -/
theorem loop {I : σ → Cursor → Prop} {step : σ → Parser (σ ⊕ β)}
    (h : ∀ s d, I s d → Smooth S d (fun r e => r.elim (I · e) (R · e)) (step s)) {s : σ}
    (hs : I s c) : Smooth S c R (loop step s) := by
  have key (ts : List Token) : ∀ s d, I s d → Smooth S d R (rounds step ts s) := by
    induction ts with
    | nil =>
      intro s d hs
      rw [rounds_nil]
      refine .bind (h s d hs) fun r e hr => ?_
      cases r with
      | inl s' => exact .none rfl
      | inr b => exact .pure hr
    | cons t ts ih =>
      intro s d hs
      rw [rounds_cons]
      refine .bind (h s d hs) fun r e hr => ?_
      cases r with
      | inl s' => exact ih s' e hr
      | inr b => exact .pure hr
  exact key c.rest s c hs

/-- What is read lies between two tokens. -/
theorem steady (hs : Steady p) (hp : Smooth S c Q p) :
    Smooth S c (fun a d => Q a d ∧ ∃ u, c.Passes u d) p := fun hc a ha hq =>
  have h := hp hc a ha hq
  ⟨h.1, h.2, hs.lands S.ended c (ha ▸ Option.some_ne_none a)⟩

/-- Looking at the next token reads nothing. -/
theorem peek {f : Token → Parser β} (h : Smooth S c R (f (c.rest.headD S.source.stop))) :
    Smooth S c R (peek >>= f) := h

/-- Looking further ahead reads nothing either. -/
theorem ahead {f : List Token → Parser β} (h : Smooth S c R (f c.rest)) :
    Smooth S c R (ahead >>= f) := h

/-- Setting a mark reads nothing. -/
theorem mark {f : Mark → Parser β} (h : Smooth S c R (f (.here S.source c))) :
    Smooth S c R (mark >>= f) := h

/-- Taking the span from a mark reads nothing. -/
theorem spanFrom {m : Mark} {f : Span → Parser β} (h : Smooth S c R (f (m.upTo c))) :
    Smooth S c R (spanFrom m >>= f) := h

/-- What stands still stays where it is. -/
theorem still (h : Still p) : Smooth S c (fun _ d => d = c) p := fun hc _ _ _ => by
  rw [(h S.source c).1]
  exact ⟨hc, rfl⟩

/-! ### Single tokens -/

/-- Reading a token leaves those behind it. -/
theorem bump : Smooth S c (fun _ d => d.rest = c.rest.tail) bump := fun hc _ _ _ =>
  ⟨bump_rest ▸ hc.tail, bump_rest⟩

/-- A token that is there is read. -/
theorem bump_token {t : Token} {ts : List Token} (hr : c.rest = t :: ts) :
    Smooth S c (fun _ d => d = ⟨ts, c.count + 1, t.span, c.depth⟩) Parser.bump := fun hc _ _ _ => by
  have htail := hc.tail
  rw [hr, List.tail_cons] at htail
  rw [bump_run hr]
  exact ⟨htail, rfl⟩

/-- What is no fence is read. -/
theorem bump_plain (h : (c.rest.headD S.source.stop).kind.isFence = false) :
    Smooth S c (fun _ d => c.Level free d) Parser.bump :=
  bump.mono fun _ d hd => .of_eq (by
    rw [hd]
    cases hr : c.rest with
    | nil => rfl
    | cons t ts =>
      rw [hr, List.headD_cons] at h
      exact fences_cons_of_not h)

/-- Reading half of a `>=` is level: no half is a fence. -/
theorem bumpHalf (h : (c.rest.headD S.source.stop).kind = .gtEq) :
    Smooth S c (fun _ d => c.Level free d) bumpHalf := by
  intro hc _ _ _
  obtain ⟨t, ts, hr, ht⟩ := exists_rest S.ended (c := c) (by rw [h]; simp)
  have hgt : t.kind = .gtEq := ht.symm.trans h
  simp only [Parser.bumpHalf, hr]
  refine ⟨(hr ▸ hc).half hgt, .of_eq ?_⟩
  rw [hr, fences_cons_of_not (by rw [hgt]; rfl)]
  exact (fences_cons_of_not rfl).symm

/-- A token that is due is there, and it is read. -/
theorem expect (hk : kind ≠ .eof) (due : String) :
    Smooth S c (fun _ d => ∃ t ts, c.rest = t :: ts ∧ t.kind = kind ∧
      d = ⟨ts, c.count + 1, t.span, c.depth⟩) (expect kind due) := by
  refine .congr (expect_run ..) (.ite (fun h => ?_) fun _ => .unexpected due)
  have hhead := eq_of_beq h
  obtain ⟨t, ts, hr, ht⟩ := exists_rest S.ended (c := c) (by rw [hhead]; exact hk)
  exact (bump_token hr).mono fun _ d hd => ⟨t, ts, hr, ht.symm.trans hhead, hd⟩

/-- A sign that is no fence is read on the level. -/
theorem expect_plain (h : kind.isFence = false) (due : String) :
    Smooth S c (fun _ d => c.Level free d) (Parser.expect kind due) :=
  .congr (expect_run ..) (.ite (fun hk => bump_plain (by rw [eq_of_beq hk]; exact h))
    fun _ => .unexpected due)

/-- A fence is read. -/
theorem bump_fence (h : (c.rest.headD S.source.stop).kind = kind) (hk : kind.isFence = true) :
    Smooth S c (fun _ d => c.Crosses kind d) Parser.bump := by
  obtain ⟨t, ts, hr, ht⟩ := exists_rest S.ended (c := c) (by
    rintro heof
    rw [← h, heof] at hk
    cases hk)
  have hkind : t.kind = kind := ht.symm.trans h
  refine (bump_token hr).mono fun _ d hd => ?_
  rw [Cursor.Crosses, hd, hr, fences_cons (hkind ▸ hk), hkind]

/-- A fence that is due is crossed. -/
theorem expect_fence (h : kind.isFence = true) (due : String) :
    Smooth S c (fun _ d => c.Crosses kind d) (Parser.expect kind due) :=
  .congr (expect_run ..) (.ite (fun hk => bump_fence (eq_of_beq hk) h) fun _ => .unexpected due)

/-- Trying for a sign that is no fence stays level. -/
theorem eat_plain (h : kind.isFence = false) : Smooth S c (fun _ d => c.Level free d) (eat kind) :=
  .congr (eat_run ..) (.ite
    (fun hk => .bind (bump_plain (by rw [eq_of_beq hk]; exact h)) fun _ _ hd => .pure hd)
    fun _ => .pure (.refl c))

/-- Trying for a fence crosses it or stays. -/
theorem eat_fence (h : kind.isFence = true) :
    Smooth S c (fun b d => if b = true then c.Crosses kind d else d = c) (eat kind) :=
  .congr (eat_run ..) (.ite
    (fun hk => .bind (bump_fence (eq_of_beq hk) h) fun _ _ hd => .pure (by rwa [if_pos rfl]))
    fun _ => .pure (by simp))

/-- A keyword is no fence. -/
theorem expectKeyword (keyword : Keyword) :
    Smooth S c (fun _ d => c.Level free d) (expectKeyword keyword) := by
  refine .peek (.ite (fun hk => bump_plain ?_) fun _ => .unexpected _)
  cases hkind : (c.rest.headD S.source.stop).kind with
  | word => rfl
  | _ =>
    rw [hkind] at hk
    cases hk

/-- A name is the next token. -/
theorem name (due : String) : Smooth S c (fun _ d => ∃ t ts, c.rest = t :: ts ∧
    t.kind.isWord = true ∧ d = ⟨ts, c.count + 1, t.span, c.depth⟩) (name due) := by
  cases hk : (c.rest.headD S.source.stop).kind with
  | word text wordClass =>
    obtain ⟨t, ts, hr, ht⟩ := exists_rest S.ended (c := c) (by rw [hk]; simp)
    refine .congr (name_run_word hk due) (.bind (bump_token hr) fun _ d hd => .pure ?_)
    exact ⟨t, ts, hr, by rw [← ht, hk]; rfl, hd⟩
  | _ => exact .congr (name_run_other (by rw [hk]; rfl) due) (.unexpected due)

/-- A word is no fence. -/
theorem name_plain (due : String) : Smooth S c (fun _ d => c.Level free d) (Parser.name due) :=
  (name due).mono fun _ d ⟨t, ts, hr, hw, hd⟩ => .of_eq (by
    rw [hd, hr]
    refine fences_cons_of_not ?_
    cases hk : t.kind <;> rw [hk] at hw <;> first | rfl | cases hw)

end Smooth

/-! ### Commas in a value -/

/-- A run without problems reads brackets in pairs, and the commas of all lists and vectors in its
value are counted.  Outside of all brackets it reads no comma, unless it is `free` to. -/
def Tallies (S : Scene) (free : Bool) (c : Cursor) (out : α → List Visit) (p : Parser α) : Prop :=
  Smooth S c (fun a d => c.Level free d ∧ S.Tallied (out a)) p

namespace Tallies

/-- In a sequence the commas of the first value are known to the second parser. -/
theorem bind (hp : Tallies S free c out p)
    (hf : ∀ a d, S.Tallied (out a) → Tallies S free d more (f a)) :
    Tallies S free c more (p >>= f) :=
  Smooth.bind hp fun a d ⟨hlevel, ha⟩ => (hf a d ha).mono fun _ _ ⟨hlevel', hb⟩ =>
    ⟨hlevel.trans hlevel', hb⟩

/-- The first parser returns nothing with lists in it. -/
theorem after (hp : Smooth S c (fun _ d => c.Level free d) p)
    (hf : ∀ a d, Tallies S free d more (f a)) : Tallies S free c more (p >>= f) :=
  Smooth.bind hp fun a d hlevel => (hf a d).mono fun _ _ ⟨hlevel', hb⟩ =>
    ⟨hlevel.trans hlevel', hb⟩

/-- A value without lists is counted. -/
theorem pure {a : α} (h : S.Tallied (out a)) : Tallies S free c out (Pure.pure a) :=
  Smooth.pure ⟨.refl c, h⟩

/-- A function that keeps the lists of a value keeps them counted. -/
theorem map {h : α → β} (hp : Tallies S free c out p)
    (hh : ∀ a, S.Tallied (out a) → S.Tallied (more (h a))) : Tallies S free c more (h <$> p) :=
  Smooth.map hp fun a _ ha => ⟨ha.1, hh a ha.2⟩

/-- Of two branches only the one taken counts. -/
theorem ite {C : Prop} [Decidable C] (hp : C → Tallies S free c out p)
    (hq : ¬ C → Tallies S free c out q) : Tallies S free c out (if C then p else q) :=
  Smooth.ite hp hq

/-- Whoever gives up returns nothing that would be counted. -/
theorem unexpected (due : String) : Tallies S free c out (unexpected due) :=
  Smooth.unexpected due

/-- What is cut out is reported, so recovery needs no case of its own. -/
theorem orRecover (hS : S.Fair) (hs : Sound p) (hp : Tallies S free c out p) :
    Tallies S free c out (orRecover p q) := Smooth.orRecover hS hs hp

/-- A level deeper the same lists are counted. -/
theorem nested {deep : Parser α} (hs : Sound p) (hd : Loud deep)
    (hp : Tallies S free c.down out p) : Tallies S free c out (nested deep p) :=
  Smooth.nested hs hd hp

/-- Looking at the next token counts nothing. -/
theorem peek {f : Token → Parser β} (h : Tallies S free c more (f (c.rest.headD S.source.stop))) :
    Tallies S free c more (peek >>= f) := h

/-- Looking further ahead counts nothing. -/
theorem ahead {f : List Token → Parser β} (h : Tallies S free c more (f c.rest)) :
    Tallies S free c more (ahead >>= f) := h

/-- Setting a mark counts nothing. -/
theorem mark {f : Mark → Parser β} (h : Tallies S free c more (f (.here S.source c))) :
    Tallies S free c more (mark >>= f) := h

/-- The span is taken last. -/
theorem spanFrom {m : Mark} {v : Span → β} (h : ∀ s, S.Tallied (more (v s))) :
    Tallies S free c more (spanFrom m >>= fun s => Pure.pure (v s)) :=
  Smooth.spanFrom (Tallies.pure (h _))

/-- A loop counts what its rounds count. -/
theorem loop {step : σ → Parser (σ ⊕ β)} (st : σ → List Visit)
    (h : ∀ s d, S.Tallied (st s) → Tallies S free d (Sum.elim st more) (step s)) {s : σ}
    (hs : S.Tallied (st s)) : Tallies S free c more (loop step s) :=
  Smooth.loop (I := fun s d => c.Level free d ∧ S.Tallied (st s))
    (fun s d ⟨hlevel, hs⟩ => (h s d hs).mono fun r _ ⟨hlevel', hr⟩ => by
      cases r with
      | inl s' => exact ⟨hlevel.trans hlevel', hr⟩
      | inr b => exact ⟨hlevel.trans hlevel', hr⟩)
    ⟨.refl c, hs⟩

end Tallies

namespace Smooth

variable {d : Cursor} {k : TokenKind}

/-- What is read inside of a bracket. -/
theorem inside (ho : c.Inside k d) (hp : Tallies S true d out p)
    (hf : ∀ a e, c.Inside k e → S.Tallied (out a) → Smooth S e R (f a)) : Smooth S d R (p >>= f) :=
  Smooth.bind hp fun a e ⟨hlevel, ha⟩ => hf a e (ho.trans hlevel) ha

/-- The bracket is closed again. -/
theorem close (hclose : ∀ e, d.Crosses kind e → c.Level free e) (hk : kind.isFence = true)
    {due : String} {q : Parser β} (hq : ∀ e, Tallies S free e more q) :
    Smooth S d (fun b e => c.Level free e ∧ S.Tallied (more b))
      (Parser.expect kind due >>= fun _ => q) :=
  Smooth.bind (.expect_fence hk due) fun _ e he => (hq e).mono fun _ _ ⟨hlevel, hb⟩ =>
    ⟨(hclose e he).trans hlevel, hb⟩

end Smooth

end Parser

end Ndf
