/-
# What a run leads to

`Leads S c Q p` says of one run at a place of a scene that it leaves the cursor at a place of the
scene again, and that its value and this place have the property `Q`.  It is closed under the
combinators, so a property of values is put together along the definition of a parser, with all that
is known of the places in between.

Of a scene that comes from a text (`Scene.Legible`) it is known besides how its tokens are written
and that a joined token starts where the last one that was read ends (`Scene.start_of_joined`).
-/

import Ndf.Proofs.Nodes.Row
import Ndf.Proofs.Reference.Spelling
import Ndf.Proofs.Token.Position

namespace Ndf

/-! ### Scenes of a text -/

namespace Text

/-- The two slices on both sides of a place make up one. -/
theorem slice?_concat {text u v : List Char} {a b c : Nat} (hu : slice? text a b = some u)
    (hv : slice? text b c = some v) : slice? text a c = some (u ++ v) := by
  obtain ⟨front, rest, rfl, rfl, rfl⟩ := eq_append_of_slice? hu
  obtain ⟨front', rest', h, hb, rfl⟩ := eq_append_of_slice? hv
  rw [← byteSize_append] at hb
  rw [← List.append_assoc] at h
  obtain ⟨-, rfl⟩ := eq_of_byteSize h hb.symm
  have := slice?_append front (u ++ v) rest'
  rwa [byteSize_append, List.append_assoc, ← Nat.add_assoc, ← byteSize_append, ← hb] at this

/-- A piece of a text ends as many bytes behind its start as it has. -/
theorem stop_of_slice? {text w : List Char} {a b : Nat} (h : slice? text a b = some w) :
    b = a + byteSize w := by
  obtain ⟨front, rest, rfl, rfl, rfl⟩ := eq_append_of_slice? h
  rfl

end Text

/-- Tokens are written as their kinds say, and a joined one starts where the one before it ends. -/
structure Scene.Legible (S : Scene) : Prop where
  written : ∀ t ∈ S.tokens, t.Written S.source.text
  signs : ∀ t ∈ S.tokens, ∀ sign, t.kind.sign? = some sign → t.span.Covers S.source.text sign
  adjacent : S.tokens.IsChain fun a b => b.joined = true → b.span.start = a.span.stop

/-- The tokens of a text are written as their kinds say. -/
theorem Scene.legible_ofText (source : String) : (Scene.ofText source).Legible where
  written t ht := by
    have ht : t ∈ visibleTokens source := (ofText_eq source).1 ▸ ht
    exact tokenize_written source t (mem_visibleTokens ht).1
  signs t ht := by
    have ht : t ∈ visibleTokens source := (ofText_eq source).1 ▸ ht
    exact tokenize_signs source t (mem_visibleTokens ht).1
  adjacent := by
    show ((TokenStream.ofText source).tokens).IsChain _
    rw [(ofText_eq source).1]
    exact adjacent_visibleTokens source

namespace Scene

variable {S : Scene} {c d : Cursor} {t : Token} {ts : List Token}

/-- In the middle of a token an equals sign comes next. -/
theorem whole_of_head (hc : c.On S.tokens) (h : (c.rest.headD S.source.stop).kind ≠ .eq) :
    S.Whole c := by
  refine (whole_or_half hc).resolve_right ?_
  rintro ⟨s, us, -, -, hr, -⟩
  rw [hr, List.headD_cons] at h
  exact h rfl

/-- Behind something that was read, the last token of it is the one before the next. -/
theorem exists_last (hc : S.Whole c) (h0 : 0 < c.count) :
    ∃ us s, S.tokens = us ++ s :: c.rest ∧ c.last.stop = s.span.stop := by
  obtain ⟨u, hu⟩ := hc
  have hne : u ≠ [] := by
    rintro rfl
    rw [hu.nil] at h0
    exact absurd h0 (Nat.lt_irrefl 0)
  have hrest : S.tokens = u ++ c.rest := hu.rest
  refine ⟨u.dropLast, u.getLast hne, ?_, (hu.moved hne).2⟩
  conv => lhs; rw [hrest, ← List.dropLast_append_getLast hne]
  simp

/-- **A joined token starts where the last one that was read ends.** -/
theorem start_of_joined (hS : S.Legible) (hc : S.Whole c) (h0 : 0 < c.count) (hr : c.rest = t :: ts)
    (hj : t.joined = true) : t.span.start = c.last.stop := by
  obtain ⟨us, s, hs, hlast⟩ := exists_last hc h0
  have hadjacent := hS.adjacent
  rw [hs, hr] at hadjacent
  rw [hlast]
  exact (List.isChain_cons_cons.1 hadjacent.right_of_append).1 hj

/-- What is left are the tokens behind the end of what was read. -/
theorem filter_behind (hc : S.Whole c) (h0 : 0 < c.count) :
    (S.tokens.filter fun t => decide (c.last.stop ≤ t.span.start)) = c.rest := by
  obtain ⟨us, s, hs, hlast⟩ := exists_last hc h0
  have hbefore : ∀ t ∈ us ++ [s], ¬ c.last.stop ≤ t.span.start := by
    intro t ht
    rw [hlast]
    rcases List.mem_append.1 ht with ht | ht
    · obtain ⟨v, w, rfl⟩ := List.append_of_mem ht
      have hsplit : S.tokens = v ++ t :: (w ++ s :: c.rest) := by rw [hs]; simp
      have := stop_le_of_append hsplit (t := s) (by simp)
      have := S.nonempty t (by simp [hsplit])
      have := S.nonempty s (by simp [hs])
      omega
    · obtain rfl := List.mem_singleton.1 ht
      exact Nat.not_le.2 (S.nonempty t (by simp [hs]))
  have hbehind : ∀ t ∈ c.rest, c.last.stop ≤ t.span.start := fun t ht =>
    hlast ▸ stop_le_of_append hs (List.mem_append_left _ ht)
  rw [show S.tokens = (us ++ [s]) ++ c.rest by rw [hs]; simp, List.filter_append,
    List.filter_eq_nil_iff.2 (by simpa using hbefore), List.nil_append,
    List.filter_eq_self.2 (by simpa using hbehind)]

end Scene

/-! ### Runs -/

namespace Parser

variable {α β σ : Type} {S : Scene} {c : Cursor} {p q : Parser α} {P Q : α → Cursor → Prop}
  {R : β → Cursor → Prop} {f : α → Parser β}

/-- From a place of the scene a run gets to a place of the scene, with a value as said. -/
def Leads (S : Scene) (c : Cursor) (Q : α → Cursor → Prop) (p : Parser α) : Prop :=
  c.On S.tokens → (p S.source c).cursor.On S.tokens ∧
    ∀ a, (p S.source c).value = some a → Q a (p S.source c).cursor

namespace Leads

/-- Less may be asked of the value and the place. -/
theorem mono (hp : Leads S c P p) (h : ∀ a d, P a d → Q a d) : Leads S c Q p := fun hc =>
  ⟨(hp hc).1, fun a ha => h a _ ((hp hc).2 a ha)⟩

/-- A run that is the same as another. -/
theorem congr (h : p S.source c = q S.source c) (hq : Leads S c Q q) : Leads S c Q p := by
  unfold Leads
  rwa [h]

/-- The run starts at a place of the scene. -/
theorem here (h : c.On S.tokens → Leads S c Q p) : Leads S c Q p := fun hc => h hc hc

/-- A run that moves forward. -/
theorem of_moves (h : c.Reaches (p S.source c).cursor) : Leads S c (fun _ d => c.Reaches d) p :=
  fun hc => ⟨hc.reaches h, fun _ _ => h⟩

/-- A run that ends between two tokens, if it ends. -/
theorem of_steady (hs : Steady p) : Leads S c (fun _ d => ∃ u, c.Passes u d) p := fun hc =>
  ⟨hc.reaches (hs.moves S.ended c), fun _ ha => hs.lands S.ended c (ha ▸ Option.some_ne_none _)⟩

/-- Two things that hold of a run hold both. -/
theorem and (hp : Leads S c P p) (hq : Leads S c Q p) :
    Leads S c (fun a d => P a d ∧ Q a d) p := fun hc =>
  ⟨(hp hc).1, fun a ha => ⟨(hp hc).2 a ha, (hq hc).2 a ha⟩⟩

/-- A run behind a run, with what is known of the first value and its place. -/
theorem bind (hp : Leads S c P p) (hf : ∀ a d, P a d → Leads S d R (f a)) :
    Leads S c R (p >>= f) := by
  intro hc
  obtain ⟨hon, hvalue⟩ := hp hc
  cases hv : (p S.source c).value with
  | none =>
    rw [bind_of_none hv]
    exact ⟨hon, fun b hb => nomatch hb⟩
  | some a =>
    rw [bind_of_some hv]
    exact hf a _ (hvalue a hv) hon

/-- The value of the first parser does not matter. -/
theorem after (hp : Sound p) (hf : ∀ a d, Leads S d R (f a)) : Leads S c R (p >>= f) :=
  (of_moves (hp.moves S.ended c)).bind fun a d _ => hf a d

/-- Returning a value moves nothing. -/
theorem pure {a : α} (h : Q a c) : Leads S c Q (pure a) := fun hc => ⟨hc, fun b hb => by
  obtain rfl : a = b := by injection hb
  exact h⟩

/-- A function of the value moves nothing. -/
theorem map {h : α → β} (hp : Leads S c P p) (hh : ∀ a d, P a d → R (h a) d) :
    Leads S c R (h <$> p) := hp.bind fun a d ha => .pure (hh a d ha)

/-- Of two branches only the one taken counts, and its condition is known. -/
theorem ite {C : Prop} [Decidable C] (hp : C → Leads S c Q p) (hq : ¬ C → Leads S c Q q) :
    Leads S c Q (if C then p else q) := by
  split
  · exact hp ‹_›
  · exact hq ‹_›

/-- A parser that gives up where it is. -/
theorem none (hv : (p S.source c).value = none) (hc : (p S.source c).cursor = c) :
    Leads S c Q p := fun hon => ⟨hc.symm ▸ hon, fun a ha => by rw [hv] at ha; cases ha⟩

/-- A breach returns nothing. -/
theorem breach (b : Breach) : Leads S c Q (breach b) := .none rfl rfl

/-- Nor does a complaint. -/
theorem unexpected (due : String) : Leads S c Q (unexpected due) := .none rfl rfl

/-- Recovery may start anywhere in the scene. -/
theorem orRecover (hp : Leads S c Q p) (hq : ∀ d, Leads S d Q q) :
    Leads S c Q (orRecover p q) := by
  intro hc
  cases hv : (p S.source c).value with
  | none =>
    rw [orRecover_of_none hv]
    exact hq _ (hp hc).1
  | some a =>
    rw [orRecover_of_some hv]
    exact hp hc

/-- One level further down, or at the cut. -/
theorem nested {deep : Parser α} (hs : Sound p) (hd : Leads S c Q deep)
    (hp : Leads S c.down (fun a d => Q a d.up) p) : Leads S c Q (nested deep p) := by
  intro hc
  rcases Nat.lt_or_ge c.depth maxNesting with h | h
  · rw [nested_of_lt hs S.ended h]
    exact ⟨hc.reaches (hs.moves S.ended c.down).up, (hp hc.down).2⟩
  · rw [nested_of_le h]
    exact hd hc

/-- An invariant of a loop, of its state and of the place where a round starts. -/
theorem loop {I : σ → Cursor → Prop} {step : σ → Parser (σ ⊕ β)}
    (h : ∀ s d, I s d → Leads S d (fun r e => r.elim (I · e) (R · e)) (step s)) {s : σ}
    (hs : I s c) : Leads S c R (loop step s) := by
  have key (ts : List Token) : ∀ s d, I s d → Leads S d R (rounds step ts s) := by
    induction ts with
    | nil =>
      intro s d hs
      rw [rounds_nil]
      refine .bind (h s d hs) fun r e hr => ?_
      cases r with
      | inl s' => exact .breach .rounds
      | inr b => exact .pure hr
    | cons t ts ih =>
      intro s d hs
      rw [rounds_cons]
      refine .bind (h s d hs) fun r e hr => ?_
      cases r with
      | inl s' => exact ih s' e hr
      | inr b => exact .pure hr
  exact key c.rest s c hs

/-- The next token is known. -/
theorem peek {f : Token → Parser β} (h : Leads S c R (f (c.rest.headD S.source.stop))) :
    Leads S c R (peek >>= f) := h

/-- So are all that are left. -/
theorem ahead {f : List Token → Parser β} (h : Leads S c R (f c.rest)) :
    Leads S c R (ahead >>= f) := h

/-- The mark is set here. -/
theorem mark {f : Mark → Parser β} (h : Leads S c R (f (.here S.source c))) :
    Leads S c R (mark >>= f) := h

/-- The span ends here. -/
theorem spanFrom {m : Mark} {f : Span → Parser β} (h : Leads S c R (f (m.upTo c))) :
    Leads S c R (spanFrom m >>= f) := h

/-- The next token is read. -/
theorem bump : Leads S c (fun _ d => ∀ t ts, c.rest = t :: ts →
    d = ⟨ts, c.count + 1, t.span, c.depth⟩) bump := by
  intro hc
  rcases hr : c.rest with _ | ⟨t, ts⟩
  · rw [bump_run_nil hr]
    exact ⟨hc, fun _ _ _ _ h => by cases h⟩
  · rw [bump_run hr]
    refine ⟨hc.reaches (Cursor.Passes.one hr).reaches, fun _ _ _ _ h => ?_⟩
    obtain ⟨rfl, rfl⟩ := List.cons.inj h
    rfl

/-- A token that is due is there, and it is read. -/
theorem expect {kind : TokenKind} (hk : kind ≠ .eof) (due : String) :
    Leads S c (fun _ d => ∃ t ts, c.rest = t :: ts ∧ t.kind = kind ∧
      d = ⟨ts, c.count + 1, t.span, c.depth⟩) (expect kind due) := by
  refine .congr (expect_run kind due) (.ite (fun h => ?_) fun _ => .unexpected due)
  have h := eq_of_beq h
  obtain ⟨t, ts, hr, ht⟩ := exists_rest S.ended (c := c) (by rw [h]; exact hk)
  exact bump.mono fun _ d hd => ⟨t, ts, hr, ht.symm.trans h, hd t ts hr⟩

/-- A name is the next token. -/
theorem name (due : String) : Leads S c (fun n d => ∃ t ts wordClass, c.rest = t :: ts ∧
    t.kind = .word n.text wordClass ∧ n.span = t.span ∧
    d = ⟨ts, c.count + 1, t.span, c.depth⟩) (name due) := by
  cases hw : (c.rest.headD S.source.stop).kind with
  | word text wordClass =>
    obtain ⟨t, ts, hr, ht⟩ := exists_rest S.ended (c := c) (by rw [hw]; simp)
    refine .congr (name_run_word hw due) (.bind .bump fun _ d hd => .pure ?_)
    exact ⟨t, ts, wordClass, hr, ht.symm.trans hw, by rw [hr, List.headD_cons], hd t ts hr⟩
  | _ => exact .congr (name_run_other (by rw [hw]; rfl) due) (.unexpected due)

end Leads

end Parser

end Ndf
