/-
# What a parser builds

Where the tokens ahead stand in the source as they say (`Source.Trusts`), a parser leaves such
tokens behind, and its value and the place where it ends have some property.  `Builds` says so of
one run that stays within the bounds of its operations.  It is closed under the combinators, so the
property of a parser is put together along its definition.

The property of a name tells that the next token is the word that it is made of (`Builds.name`), and
the one of a fragment that it is the text between its ends (`Builds.errorFrom`).
-/

import Ndf.Proofs.Form.Law
import Ndf.Proofs.Parser.Accounts

namespace Ndf

/-- No operation was outside of its bounds. -/
def Calm (notes : List Note) : Prop := ∀ b, .breach b ∉ notes

/-- The first notes of calm ones are calm. -/
theorem Calm.left {notes more : List Note} (h : Calm (notes ++ more)) : Calm notes :=
  fun b hb => h b (List.mem_append_left more hb)

/-- So are the last. -/
theorem Calm.right {notes more : List Note} (h : Calm (notes ++ more)) : Calm more :=
  fun b hb => h b (List.mem_append_right notes hb)

/-- Tokens that stand in a source in order, each written as its kind says.  Nothing is asked of
equals signs, which may be left over from a `>=`. -/
structure Source.Trusts (src : Source) (ts : List Token) : Prop where
  ended : src.Ended
  written : ∀ t ∈ ts, t.kind = .eq ∨ t.Written src.text
  ordered : ts.Pairwise fun a b => a.span.stop ≤ b.span.start

namespace Source.Trusts

variable {src : Source} {t : Token} {ts : List Token}

/-- Trust in some tokens is trust in those behind the first. -/
theorem tail (h : src.Trusts (t :: ts)) : src.Trusts ts where
  ended := h.ended
  written s hs := h.written s (List.mem_cons_of_mem t hs)
  ordered := (List.pairwise_cons.1 h.ordered).2

/-- And in the equals sign of a `>=`. -/
theorem secondHalf (h : src.Trusts (t :: ts)) : src.Trusts (t.secondHalf :: ts) where
  ended := h.ended
  written := List.forall_mem_cons.2 ⟨.inl rfl, h.tail.written⟩
  ordered := List.pairwise_cons.2 ⟨(List.pairwise_cons.1 h.ordered).1, h.tail.ordered⟩

/-- The next token is written as its kind says. -/
theorem next_written (h : src.Trusts ts) (hend : (ts.headD src.stop).kind ≠ .eof)
    (heq : (ts.headD src.stop).kind ≠ .eq) : (ts.headD src.stop).Written src.text := by
  cases ts with
  | nil => exact absurd h.ended hend
  | cons t ts => exact (h.written t (List.mem_cons_self ..)).resolve_left heq

end Source.Trusts

/-- What an outcome has to be. -/
structure Outcome.Built {α : Type} (src : Source) (Q : α → Cursor → Prop) (o : Outcome α) :
    Prop where
  left : src.Trusts o.cursor.rest
  value : ∀ a, o.value = some a → Q a o.cursor

namespace Parser

variable {α β σ : Type} {src : Source} {c : Cursor} {p : Parser α} {P Q : α → Cursor → Prop}
  {R : β → Cursor → Prop} {f : α → Parser β} {m : Mark}

/-- From trusted tokens a run within its bounds builds what has a property. -/
def Builds (src : Source) (c : Cursor) (Q : α → Cursor → Prop) (p : Parser α) : Prop :=
  src.Trusts c.rest → Calm (p src c).notes → (p src c).Built src Q

namespace Builds

/-! ### Combinators -/

/-- The tokens ahead can be trusted. -/
theorem trusting (h : src.Trusts c.rest → Builds src c Q p) : Builds src c Q p := fun ht => h ht ht

/-- A weaker property holds as well. -/
theorem mono (hp : Builds src c P p) (h : ∀ a d, P a d → Q a d) : Builds src c Q p := fun ht hn =>
  ⟨(hp ht hn).left, fun a ha => h a _ ((hp ht hn).value a ha)⟩

/-- In a sequence the second parser may rely on what the first one built. -/
theorem bind (hp : Builds src c P p) (hf : ∀ a d, P a d → Builds src d R (f a)) :
    Builds src c R (p >>= f) := by
  intro ht hn
  cases hv : (p src c).value with
  | none =>
    rw [bind_of_none hv] at hn ⊢
    exact ⟨(hp ht hn).left, fun b hb => by cases hb⟩
  | some a =>
    rw [bind_of_some hv] at hn ⊢
    have first := hp ht hn.left
    have second := hf a _ (first.value a hv) first.left hn.right
    exact ⟨second.left, second.value⟩

/-- The value of the first parser does not matter. -/
theorem after (hp : Builds src c P p) (hf : ∀ a d, Builds src d R (f a)) :
    Builds src c R (p >>= f) := hp.bind fun a d _ => hf a d

/-- Returning a value reads nothing. -/
theorem pure {a : α} (h : Q a c) : Builds src c Q (pure a) := fun ht _ => ⟨ht, fun b hb => by
  obtain rfl : a = b := by injection hb
  exact h⟩

/-- A function of the value leaves the place as it is. -/
theorem map {h : α → β} (hp : Builds src c P p) (hh : ∀ a d, P a d → R (h a) d) :
    Builds src c R (h <$> p) := hp.bind fun a d ha => .pure (hh a d ha)

/-- Of two branches only the one taken counts. -/
theorem ite {C : Prop} [Decidable C] {p q : Parser α} (hp : C → Builds src c Q p)
    (hq : ¬ C → Builds src c Q q) : Builds src c Q (if C then p else q) := by
  split
  · exact hp ‹_›
  · exact hq ‹_›

/-- A parser that gives up and leaves the cursor where it is. -/
theorem none (hv : (p src c).value = none) (hc : (p src c).cursor = c) : Builds src c Q p :=
  fun ht _ => ⟨by rwa [hc], fun a ha => by rw [hv] at ha; cases ha⟩

/-- A parser that is never to be run. -/
theorem breach (b : Breach) : Builds src c Q (breach b) := fun _ hn =>
  absurd (List.mem_singleton_self _) (hn b)

/-- Either the value is built or what is cut out for it. -/
theorem orRecover {q : Parser α} (hp : Builds src c Q p) (hq : ∀ d, Builds src d Q q) :
    Builds src c Q (orRecover p q) := by
  intro ht hn
  cases hv : (p src c).value with
  | none =>
    rw [orRecover_of_none hv] at hn ⊢
    have second := hq _ (hp ht hn.left).left hn.right
    exact ⟨second.left, second.value⟩
  | some a =>
    rw [orRecover_of_some hv] at hn ⊢
    exact hp ht hn

/-- A level deeper the same is built, or a fragment below the last one. -/
theorem nested {deep : Parser α} (hd : Builds src c Q deep)
    (hp : Builds src c.down (fun a d => Q a d.up) p) : Builds src c Q (nested deep p) := by
  intro ht
  rw [Parser.nested]
  split
  · rw [Outcome.up]
    split
    · exact fun hn => absurd (List.mem_append_right _ (List.mem_singleton_self _)) (hn .level)
    · exact fun hn => ⟨(hp ht hn).left, (hp ht hn).value⟩
  · exact hd ht

/-- An invariant of a loop, of its state and of the place where a round starts. -/
theorem loop {I : σ → Cursor → Prop} {step : σ → Parser (σ ⊕ β)}
    (h : ∀ s d, I s d → Builds src d (fun r e => r.elim (I · e) (R · e)) (step s)) {s : σ}
    (hs : I s c) : Builds src c R (loop step s) := by
  have key (ts : List Token) : ∀ s d, I s d → Builds src d R (rounds step ts s) := by
    induction ts with
    | nil =>
      intro s d hs
      rw [rounds_nil]
      refine .bind (h s d hs) fun r e hr => ?_
      cases r with
      | inl s' => exact .breach .rounds
      | inr b => exact .pure hr
    | cons t ts ih =>
      intro s d hs
      rw [rounds_cons]
      refine .bind (h s d hs) fun r e hr => ?_
      cases r with
      | inl s' => exact ih s' e hr
      | inr b => exact .pure hr
  exact key c.rest s c hs

/-! ### Looking around -/

/-- Looking at the next token reads nothing. -/
theorem peek {f : Token → Parser β} (h : Builds src c R (f (c.rest.headD src.stop))) :
    Builds src c R (peek >>= f) := h

/-- Looking further ahead reads nothing either. -/
theorem ahead {f : List Token → Parser β} (h : Builds src c R (f c.rest)) :
    Builds src c R (ahead >>= f) := h

/-- Setting a mark reads nothing. -/
theorem mark {f : Mark → Parser β} (h : Builds src c R (f (.here src c))) :
    Builds src c R (mark >>= f) := h

/-- What stands still stays where it is. -/
theorem still (hp : Still p) : Builds src c (fun _ d => d = c) p := fun ht _ => by
  rw [← (hp src c).1] at ht
  exact ⟨ht, fun _ _ => (hp src c).1⟩

/-- The span from a mark leads to the place where it is taken. -/
theorem spanFrom : Builds src c (fun s d => s = m.upTo c ∧ d = c) (spanFrom m) := fun ht _ =>
  ⟨ht, fun _ hs => ⟨(Option.some.inj hs).symm, rfl⟩⟩

/-- Whoever gives up builds nothing. -/
theorem unexpected (due : String) : Builds src c Q (unexpected due) := .none rfl rfl

/-! ### Reading tokens -/

/-- Reading a token leads behind it. -/
theorem bump : Builds src c (fun _ d => ∀ t ts, c.rest = t :: ts →
    d = ⟨ts, c.count + 1, t.span, c.depth⟩) bump := by
  intro ht _
  rcases hr : c.rest with _ | ⟨t, ts⟩
  · rw [bump_run_nil hr]
    exact ⟨ht, fun _ _ _ _ h => by cases h⟩
  · rw [bump_run hr]
    rw [hr] at ht
    refine ⟨ht.tail, fun _ _ _ _ h => ?_⟩
    obtain ⟨rfl, rfl⟩ := List.cons.inj h
    rfl

/-- The equals sign of a `>=` stands in the source as it says. -/
theorem bumpHalf : Builds src c (fun _ _ => True) bumpHalf := by
  intro ht
  rcases hr : c.rest with _ | ⟨t, ts⟩
  · have hrun : Parser.bumpHalf src c = ⟨some (), c, [.breach .token]⟩ := by
      simp only [Parser.bumpHalf, hr]
    rw [hrun]
    exact fun hn => absurd (List.mem_singleton_self _) (hn .token)
  · have hrun : Parser.bumpHalf src c =
        ⟨some (), ⟨t.secondHalf :: ts, c.count + 1, t.firstHalf.span, c.depth⟩, []⟩ := by
      simp only [Parser.bumpHalf, hr]
    rw [hrun]
    rw [hr] at ht
    exact fun _ => ⟨ht.secondHalf, fun _ _ => trivial⟩

/-- Passing over tokens leaves trusted ones. -/
theorem skip (n : Nat) : Builds src c (fun _ _ => True) (skip n) := by
  induction n generalizing c with
  | zero => exact .pure trivial
  | succ n ih => exact .after .bump fun _ _ => ih

/-- Trying for a sign does so too. -/
theorem eat (kind : TokenKind) : Builds src c (fun _ _ => True) (eat kind) := by
  refine .after (.still (.sees kind)) fun _ _ => ?_
  refine .ite (fun _ => .after .bump fun _ _ => .pure trivial) fun _ => ?_
  exact .pure trivial

/-- A token that is due is there, and it is read. -/
theorem expect (kind : TokenKind) (due : String) :
    Builds src c (fun _ d => (c.rest.headD src.stop).kind = kind ∧ ∀ t ts, c.rest = t :: ts →
      d = ⟨ts, c.count + 1, t.span, c.depth⟩) (expect kind due) := by
  show Builds src c _
    (if (c.rest.headD src.stop).kind == kind then Parser.bump else Parser.unexpected due)
  exact .ite (fun hk => bump.mono fun _ _ h => ⟨eq_of_beq hk, h⟩) fun _ => .unexpected due

/-- So does a keyword that is due. -/
theorem expectKeyword (keyword : Keyword) :
    Builds src c (fun _ _ => True) (expectKeyword keyword) :=
  .peek (.ite (fun _ => bump.mono fun _ _ _ => trivial) fun _ => .unexpected _)

/-- So does leaving a broken fragment. -/
theorem leave (keep : Option TokenKind) : Builds src c (fun _ _ => True) (leave m keep) := by
  refine .after (.still (.movedFrom m)) fun _ _ => .ite (fun _ => .pure trivial) fun _ => ?_
  exact .peek (.ite (fun _ => .pure trivial) fun _ => bump.mono fun _ _ _ => trivial)

/-! ### Names and fragments -/

/-- A name is a word of the source in front of the cursor. -/
theorem name (due : String) : Builds src c (fun n _ => Part.Lawful src.text (.name n) ∧
    (c.rest.headD src.stop).kind = .word n.text (Word.classify n.text)) (name due) := by
  refine .trusting fun ht => .peek ?_
  cases hk : (c.rest.headD src.stop).kind with
  | word text wordClass =>
    obtain ⟨written, hw, hwritten⟩ := ht.next_written (by rw [hk]; simp) (by rw [hk]; simp)
    rw [hk] at hwritten
    obtain ⟨rfl, hword, rfl⟩ := hwritten
    exact .after .bump fun _ _ => .pure ⟨⟨hw, hword, trivial, trivial⟩, rfl⟩
  | _ => exact .unexpected due

/-- A fragment is the text that its span covers. -/
theorem errorAt (s : Span) : Builds src c (fun e d => d = c ∧ e.span = s ∧
    Part.Lawful src.text (.error e)) (errorAt s) := by
  intro ht hn
  refine ⟨ht, fun e he => ⟨rfl, ?_⟩⟩
  obtain rfl : _ = e := Option.some.inj he
  refine ⟨rfl, ?_, trivial, trivial, trivial⟩
  show Text.slice? src.text s.start s.stop =
    some (String.ofList ((Text.slice? src.text s.start s.stop).getD [])).toList
  cases hs : Text.slice? src.text s.start s.stop with
  | none =>
    have hnotes : (Parser.errorAt s src c).notes = [.breach (.slice s)] := by
      simp only [Parser.errorAt, hs]
      rfl
    rw [hnotes] at hn
    exact absurd (List.mem_singleton_self _) (hn _)
  | some text => rw [Option.getD_some, String.toList_ofList]

/-- So is one from a mark on. -/
theorem errorFrom : Builds src c (fun e _ => Part.Lawful src.text (.error e)) (errorFrom m) :=
  .after .spanFrom fun s _ => (errorAt s).mono fun _ _ h => h.2.2

/-- So is what is cut out for an item. -/
theorem recoverItem : Builds src c (fun e _ => Part.Lawful src.text (.error e)) (recoverItem m) :=
  .after (.leave _) fun _ _ => .ahead <| .after (.skip _) fun _ _ => .bind .errorFrom fun _ _ he =>
    .after (.still (.emit _)) fun _ _ => .pure he

/-- So is what is cut out for an element. -/
theorem recoverElement :
    Builds src c (fun e _ => Part.Lawful src.text (.error e)) (recoverElement m) := by
  refine .after (.leave _) fun _ _ => .ahead <| .after (.skip _) fun _ _ => ?_
  refine .ite (fun _ => .errorFrom) fun _ => ?_
  exact .none rfl rfl

/-- So is what is cut out for an entry. -/
theorem recoverEntry :
    Builds src c (fun e _ => Part.Lawful src.text (.error e)) (recoverEntry m) := by
  refine .after (.leave _) fun _ _ => .ahead <| .after (.skip _) fun _ _ => ?_
  refine .ite (fun _ => .bind .errorFrom fun _ _ he => .after (.still (.emit _)) fun _ _ =>
    .pure he) fun _ => ?_
  exact .none rfl rfl

/-- So is what is cut out below the last level. -/
theorem tooDeep : Builds src c (fun e _ => Part.Lawful src.text (.error e)) tooDeep := by
  refine .mark <| .ahead <| .after (.skip _) fun _ _ => .bind .errorFrom fun _ _ he => ?_
  refine .after (.still (.emit _)) fun _ _ => .after (.still (.report _ _)) fun _ _ => ?_
  refine .after (.still (.movedFrom _)) fun _ _ => .ite (fun _ => .pure he) fun _ => ?_
  exact .none rfl rfl

end Builds

end Parser

end Ndf
