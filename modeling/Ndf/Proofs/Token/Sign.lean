/-
# Signs

A token that carries no text is a sign, which is written in one way only (`TokenKind.sign?`), so it
covers that text (`tokenize_signs`).

Of two tokens that the grammar sees one behind the other, the second is joined only if nothing is
between them (`adjacent_visibleTokens`).
-/

import Ndf.Proofs.Parser.Coverage
import Ndf.Proofs.Token.Written

namespace Ndf

/-- How a sign is written. -/
def TokenKind.sign? : TokenKind → Option (List Char)
  | .lparen => some ['(']
  | .rparen => some [')']
  | .lbracket => some ['[']
  | .rbracket => some [']']
  | .comma => some [',']
  | .colon => some [':']
  | .eq => some ['=']
  | .question => some ['?']
  | .lt => some ['<']
  | .gt => some ['>']
  | .ltEq => some ['<', '=']
  | .gtEq => some ['>', '=']
  | .eqEq => some ['=', '=']
  | .notEq => some ['!', '=']
  | .bang => some ['!']
  | .plus => some ['+']
  | .minus => some ['-']
  | .star => some ['*']
  | .percent => some ['%']
  | .amp => some ['&']
  | .pipe => some ['|']
  | .slash => some ['/']
  | .dot => some ['.']
  | .tilde => some ['~']
  | .dollar => some ['$']
  | _ => none

namespace Lexeme

variable {sign : List Char}

/-- A sign of one character is that character. -/
theorem sign_single {c : Char} (h : (single c).sign? = some sign) : sign = [c] := by
  unfold single at h
  split at h <;> cases h <;> rfl

/-- Any sign is its text. -/
theorem sign_symbol {c : Char} {rest : List Char} (h : (symbol c rest).kind.sign? = some sign) :
    (symbol c rest).text = sign := by
  unfold symbol at h ⊢
  split at h
  · rename_i kind hw
    unfold withEquals at hw
    split at hw <;> cases hw <;> cases h <;> rfl
  · exact (sign_single h).symm

/-- A number is none. -/
theorem sign_number (text : List Char) : (number text).kind.sign? = none := by
  have hex (x : Char) (rest : List Char) : (hexNumber x rest).kind.sign? = none := by
    simp only [hexNumber]
    split <;> rfl
  unfold number
  split
  · exact hex _ _
  · exact hex _ _
  · simp only [plainNumber]
    split <;> rfl

/-- Nor is a string. -/
theorem sign_string (quote : Quote) (body : List Char) :
    (string quote body).kind.sign? = none := by
  unfold string
  split
  · split <;> rfl
  · rfl

/-- **A sign is written in one way.** -/
theorem text_of_sign {payload : Bool} {c : Char} {rest : List Char}
    (h : (scan payload c rest).kind.sign? = some sign) : (scan payload c rest).text = sign := by
  unfold scan at h ⊢
  split at h
  · unfold delimitedComment at h
    split at h <;> cases h
  · unfold delimitedComment at h
    split at h <;> cases h
  · cases h
  · split at h
    · unfold guidBody at h
      split at h <;> cases h
    · unfold braceComment at h
      split at h <;> cases h
  · rw [sign_string] at h
    cases h
  · rw [sign_string] at h
    cases h
  · split at h
    · rw [sign_number] at h
      cases h
    · split at h
      · cases h
      · rename_i hn hw
        rw [if_neg hn, if_neg hw]
        exact sign_symbol h

end Lexeme

/-- A sign covers its text. -/
theorem tokenize_signs (source : String) : ∀ t ∈ (tokenize source).tokens, ∀ sign,
    t.kind.sign? = some sign →
      Text.slice? source.toList t.span.start t.span.stop = some sign := by
  intro t ht
  obtain ⟨l, h, rfl⟩ := exists_next_of_mem_tokens ht
  intro sign hs
  obtain ⟨payload, c, rest, hk, hw⟩ := h.scanned (by rintro he; rw [he] at hs; cases hs)
  rw [hw, Lexeme.text_of_sign (hk ▸ hs)]

/-! ### Tokens without anything between them -/

/-- What is said of two neighbours of which the second has a property is kept where elements are
left out, if a neighbour of that kind is never left out. -/
theorem isChain_filter {α : Type} {R : α → α → Prop} {Q : α → Prop} (keep : α → Bool)
    {l : List α} (h : l.IsChain fun a b => Q b → keep a = true ∧ R a b) :
    (l.filter keep).IsChain fun a b => Q b → R a b := by
  -- Behind what is left out, nothing that is kept has the property.
  have behind (a : α) (l : List α) (ha : keep a = false)
      (h : (a :: l).IsChain fun a b => Q b → keep a = true ∧ R a b) :
      ∀ b ∈ (l.filter keep).head?, ¬ Q b := by
    induction l generalizing a with
    | nil => simp
    | cons b l ih =>
      obtain ⟨hab, hl⟩ := List.isChain_cons_cons.1 h
      cases hb : keep b with
      | true =>
        rw [List.filter_cons_of_pos hb]
        rintro _ ⟨⟩ hq
        rw [(hab hq).1] at ha
        cases ha
      | false =>
        rw [List.filter_cons_of_neg (by simp [hb])]
        exact ih b hb hl
  induction l with
  | nil => exact .nil
  | cons a l ih =>
    have hl := ih h.tail
    cases ha : keep a with
    | false => rwa [List.filter_cons_of_neg (by simp [ha])]
    | true =>
      rw [List.filter_cons_of_pos ha]
      refine List.isChain_cons.2 ⟨?_, hl⟩
      cases l with
      | nil => simp
      | cons b l =>
        obtain ⟨hab, hbl⟩ := List.isChain_cons_cons.1 h
        cases hb : keep b with
        | true =>
          rw [List.filter_cons_of_pos hb]
          rintro _ ⟨⟩ hq
          exact (hab hq).2
        | false =>
          rw [List.filter_cons_of_neg (by simp [hb])]
          exact fun x hx hq => absurd hq (behind b l hb hbl x hx)

/-- **A joined token starts where the one before it ends**, of those that the grammar sees. -/
theorem adjacent_visibleTokens (source : String) : (visibleTokens source).IsChain fun a b =>
    b.joined = true → b.span.start = a.span.stop := by
  have hkept := isChain_filter (R := fun a b => b.span.start = a.span.stop)
    (Q := fun b => b.joined = true) (fun t : Token => !t.kind.isTrivia)
    ((cover_tokenize source).chain.imp fun a b h hj => by
      obtain ⟨hs, hk⟩ := h.joined.1 hj
      exact ⟨by rw [hk]; rfl, hs⟩)
  rw [← (ofText_eq source).1]
  exact hkept.dropLast

end Ndf
