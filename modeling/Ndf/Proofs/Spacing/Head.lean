/-
# The front of an expression

Whether a token is joined tells how it stands to the token before, and no parser asks that of the
token that it reads first.  `Fronted p` says so: a run of `p` that ends with a value is the same
whether or not the next token is joined.  It holds if the kind and the place of the next token are
all that is looked at before it is read, whatever is read behind it (`Fronted.bind`).

Every expression is read so, where a level is left for it (`expr_fronted`).
-/

import Ndf.Parser.Document
import Ndf.Proofs.Spacing.Blind

namespace Ndf
namespace Parser

variable {α β : Type} {p q : Parser α} {g : Grammar}

/-- A run that ends with a value is the same whether or not the next token is joined. -/
def Fronted (p : Parser α) : Prop :=
  ∀ ⦃src : Source⦄ ⦃t : Token⦄ ⦃ts : List Token⦄ ⦃count : Nat⦄ ⦃last : Span⦄ ⦃depth : Nat⦄
    (joined : Bool), (p src ⟨t :: ts, count, last, depth⟩).value ≠ none →
      p src ⟨{ t with joined := joined } :: ts, count, last, depth⟩ =
        p src ⟨t :: ts, count, last, depth⟩

namespace Fronted

/-! ### Combinators -/

/-- Who returns no value needs no token. -/
theorem of_none (h : ∀ src c, (p src c).value = none) : Fronted p :=
  fun _ _ _ _ _ _ _ hv => absurd (h _ _) hv

/-- A token is taken, joined or not. -/
theorem bump : Fronted bump := fun _ _ _ _ _ _ _ _ => rfl

/-- What is read behind the first token does not matter. -/
theorem bind (hp : Fronted p) (f : α → Parser β) : Fronted (p >>= f) := by
  intro src t ts count last depth joined hv
  obtain ⟨a, ha⟩ : ∃ a, (p src ⟨t :: ts, count, last, depth⟩).value = some a :=
    Option.ne_none_iff_exists'.1 fun hn => hv (by rw [bind_of_none hn])
  have hrun := hp joined (ha ▸ Option.some_ne_none a)
  rw [bind_of_some (hrun ▸ ha), bind_of_some ha, hrun]

/-- A function of the value. -/
theorem map (hp : Fronted p) (f : α → β) : Fronted (f <$> p) := hp.bind _

/-- Of two branches only the one taken counts. -/
theorem ite {P : Prop} [Decidable P] (hp : Fronted p) (hq : Fronted q) :
    Fronted (if P then p else q) := by
  split
  · exact hp
  · exact hq

/-- A mark in front is set at the same place. -/
theorem mark {f : Mark → Parser β} (hf : ∀ m, Fronted (f m)) : Fronted (Parser.mark >>= f) :=
  fun _ _ _ _ _ _ joined hv => hf _ joined hv

/-- Looking at the kind and the place of the next token. -/
theorem peek {f : Token → Parser β} (hf : ∀ t, Fronted (f t))
    (hk : ∀ t joined, f { t with joined := joined } = f t) : Fronted (Parser.peek >>= f) := by
  intro src t ts count last depth joined hv
  show f { t with joined := joined } src _ = f t src _
  rw [hk]
  exact hf t joined hv

/-- Looking at the tokens ahead, but not at whether the next one is joined. -/
theorem ahead {f : List Token → Parser β} (hf : ∀ ts, Fronted (f ts))
    (hk : ∀ t ts joined, f ({ t with joined := joined } :: ts) = f (t :: ts)) :
    Fronted (Parser.ahead >>= f) := by
  intro src t ts count last depth joined hv
  show f ({ t with joined := joined } :: ts) src _ = f (t :: ts) src _
  rw [hk]
  exact hf _ joined hv

/-! ### Tokens -/

/-- A complaint returns no value. -/
theorem unexpected (due : String) : Fronted (unexpected due : Parser α) := of_none fun _ _ => rfl

/-- The kind decides whether the token is there. -/
theorem expect (kind : TokenKind) (due : String) : Fronted (expect kind due) := by
  intro src t ts count last depth joined hv
  rw [expect_run] at hv ⊢
  rw [expect_run]
  exact (ite bump (.unexpected due) : Fronted _) joined hv

/-- So it does with a name. -/
theorem name (due : String) : Fronted (name due) := by
  refine peek (fun t => ?_) fun _ _ => rfl
  split
  · exact bump.bind _
  · exact .unexpected due

end Fronted

/-! ### Operands -/

/-- Brackets start with a token that may be joined. -/
theorem bracketed_fronted (g : Grammar) : Fronted (bracketed g) := (Fronted.expect _ _).bind _

/-- So does a list. -/
theorem list_fronted (g : Grammar) : Fronted (list g) := .mark fun _ => (bracketed_fronted g).bind _

/-- So does a vector. -/
theorem vector_fronted (g : Grammar) (type : VectorType) : Fronted (vector g type) :=
  .mark fun _ => (Fronted.name _).bind _

/-- So does a map. -/
theorem map_fronted (g : Grammar) : Fronted (map g) := .mark fun _ => (Fronted.name _).bind _

/-- So do parentheses. -/
theorem parenthesised_fronted (g : Grammar) : Fronted (parenthesised g) :=
  .mark fun _ => (Fronted.expect _ _).bind _

/-- So does a generic type. -/
theorem generic_fronted (g : Grammar) : Fronted (generic g) :=
  .mark fun _ => (Fronted.expect _ _).bind _

/-- So does a payload. -/
theorem guid_fronted : Fronted guid := .mark fun _ => Fronted.bump.bind _

/-- So does a constant. -/
theorem constant_fronted (value : Span → Expr) : Fronted (constant value) :=
  .peek (fun _ => Fronted.bump.bind _) fun _ _ => rfl

/-- So does a broken token. -/
theorem brokenToken_fronted (e : LexError) : Fronted (brokenToken e) :=
  .mark fun _ => .peek (fun _ => Fronted.bump.bind _) fun _ _ => rfl

/-- A scope mark is read before its slash is looked at. -/
theorem reference_fronted (g : Grammar) : Fronted (reference g) := by
  refine .mark fun _ => .peek (fun t => ?_) fun _ _ => rfl
  have hname {scope : Scope} {m : Mark} : Fronted (do
      let name ← name "a reference name"
      let suffixes ← suffixes g
      let kind : SegmentKind := if scope = .none then .terminal else .nested
      pure (⟨scope, Reference.segmentsOf name kind suffixes, ← spanFrom m⟩ : Reference)) :=
    (Fronted.name _).bind _
  by_cases hscope : scopeOf t.kind = .none
  · rw [if_neg (by simpa using hscope)]
    exact hname
  · rw [if_pos hscope]
    exact (Fronted.bump.bind _).bind _

/-- So does whatever a name and a bracket start. -/
theorem vectorOrPath_fronted (g : Grammar) : Fronted (vectorOrPath g) :=
  .mark fun _ => (Fronted.name _).bind _

/-- So does an object. -/
theorem object_fronted (g : Grammar) : Fronted (object g) := by
  intro src t ts count last depth joined hv
  exact (Fronted.mark fun _ => (Fronted.name _).bind _ : Fronted (objectWith g (objectWithin g ts)))
    joined hv

/-- So does what a name starts. -/
theorem nameLed_fronted (g : Grammar) : Fronted (nameLed g) :=
  .ahead (fun _ => .ite ((object_fronted g).map _)
    (.ite (vectorOrPath_fronted g) ((reference_fronted g).map _))) fun _ _ _ => rfl

/-- So does what any word starts. -/
theorem wordLed_fronted (g : Grammar) (wordClass : WordClass) : Fronted (wordLed g wordClass) := by
  have hassignment : Fronted (assignment g) := .mark fun _ => (Fronted.name _).bind _
  have hvisibility : Fronted (visibility g (object g)) := by
    refine .mark fun _ => .peek (fun t => ?_) fun _ _ => rfl
    split
    · exact .unexpected _
    · exact (Fronted.name _).bind _
  refine .ahead (fun ts => .ite (hassignment.map _) (.ite (hvisibility.map _) ?_)) fun _ _ _ => rfl
  split
  · exact constant_fronted _
  · exact constant_fronted _
  · exact constant_fronted _
  · exact .ite guid_fronted (nameLed_fronted g)
  · exact .ite (map_fronted g) (nameLed_fronted g)
  · exact .ite (vector_fronted g _) (nameLed_fronted g)
  · exact nameLed_fronted g

/-- So does an operand. -/
theorem primary_fronted (g : Grammar) : Fronted (primary g) := by
  refine .peek (fun t => ?_) fun _ _ => rfl
  split
  · exact Fronted.bump.bind _
  · exact Fronted.bump.bind _
  · exact list_fronted g
  · exact parenthesised_fronted g
  · exact generic_fronted g
  · exact wordLed_fronted g _
  · exact brokenToken_fronted _
  · exact .unexpected _
  · exact .ahead (fun _ => .ite ((reference_fronted g).map _) (.of_none fun _ _ => rfl))
      fun _ _ _ => rfl

/-- So does one with signs in front. -/
theorem unary_fronted (g : Grammar) : Fronted (unary g) := by
  refine .mark fun m => .peek (fun t => ?_) fun _ _ => rfl
  split
  · exact Fronted.bump.bind _
  · exact Fronted.bump.bind _
  · exact primary_fronted g

/-- So does an expression. -/
theorem expression_fronted (g : Grammar) : Fronted (expression g) :=
  .mark fun _ => (unary_fronted g).bind _

/-- **An expression is read alike whether or not its first token is joined**, where a level is left
for it. -/
theorem expr_fronted {src : Source} {t : Token} {ts : List Token} {count : Nat} {last : Span}
    {depth : Nat} (joined : Bool) (hd : depth < maxNesting)
    (hv : ((Grammar.above g).expr src ⟨t :: ts, count, last, depth⟩).value ≠ none) :
    (Grammar.above g).expr src ⟨{ t with joined := joined } :: ts, count, last, depth⟩ =
      (Grammar.above g).expr src ⟨t :: ts, count, last, depth⟩ := by
  have hrun (ts : List Token) : (Grammar.above g).expr src ⟨ts, count, last, depth⟩ =
      (expression g src ⟨ts, count, last, depth + 1⟩).up := if_pos hd
  rw [hrun, Outcome.value_up] at hv
  rw [hrun, hrun, expression_fronted g joined hv]

end Parser
end Ndf
