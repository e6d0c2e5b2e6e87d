/-
# Quoted text is read back

A character is quoted as itself, by a letter behind a backslash or by its code point
(`escape_escaped`), and the three forms can be told apart by their first two characters, so a quoted
text stands for one text only (`quoted_injective`).  No form holds a bare quote mark or the end of a
line: read as a string, a quoted text ends at its second mark (`quoted_encloses`).
-/

import Ndf.Proofs.Token.Written
import Ndf.Text.Quoted

namespace Ndf

/-- Nothing is taken where the first one stops. -/
theorem takeWhile_stops {α : Type} {p : α → Bool} {as : List α}
    (h : ∀ a ∈ as.head?, p a = false) : as.takeWhile p = [] := by
  cases as with
  | nil => rfl
  | cons a as => exact List.takeWhile_cons_of_neg (by simp [h a rfl])

/-- Two lists are cut at the same place if all in front of it passes a test and what stands there
does not. -/
theorem append_inj_of_test {α : Type} {p : α → Bool} {as bs xs ys : List α}
    (ha : ∀ a ∈ as, p a = true) (hb : ∀ b ∈ bs, p b = true)
    (hx : ∀ x ∈ xs.head?, p x = false) (hy : ∀ y ∈ ys.head?, p y = false)
    (h : as ++ xs = bs ++ ys) : as = bs ∧ xs = ys := by
  have front := congrArg (List.takeWhile p) h
  rw [List.takeWhile_append_of_pos ha, List.takeWhile_append_of_pos hb,
    takeWhile_stops hx, takeWhile_stops hy, List.append_nil, List.append_nil] at front
  subst front
  exact ⟨rfl, List.append_cancel_left h⟩

namespace Text

/-! ### Numbers in digits -/

/-- Numbers with the same digits are equal; the sixteen digits are different characters. -/
theorem toDigits_injective {base n m : Nat} (hbase : 1 < base) (hdigits : base ≤ 16)
    (h : Nat.toDigits base n = Nat.toDigits base m) : n = m := by
  have digit : ∀ a < 16, ∀ b < 16, Nat.digitChar a = Nat.digitChar b → a = b := by decide
  have single {n m : Nat} (hn : n < base) (hm : base ≤ m) :
      Nat.toDigits base n ≠ Nat.toDigits base m := by
    rw [Nat.toDigits_of_lt_base hn, Nat.toDigits_of_base_le hbase hm]
    intro h
    have := congrArg List.length h
    have := Nat.length_toDigits_pos (b := base) (n := m / base)
    simp only [List.length_append, List.length_singleton] at *
    omega
  induction n using Nat.strongRecOn generalizing m with
  | ind n ih =>
    rcases Nat.lt_or_ge n base with hn | hn <;> rcases Nat.lt_or_ge m base with hm | hm
    · rw [Nat.toDigits_of_lt_base hn, Nat.toDigits_of_lt_base hm] at h
      exact digit n (by omega) m (by omega) (List.singleton_inj.1 h)
    · exact absurd h (single hn hm)
    · exact absurd h.symm (single hm hn)
    · rw [Nat.toDigits_of_base_le hbase hn, Nat.toDigits_of_base_le hbase hm] at h
      obtain ⟨hfront, hlast⟩ := List.append_singleton_inj.1 h
      have hdiv := ih (n / base) (Nat.div_lt_self (by omega) hbase) hfront
      have hmod := digit (n % base) (by have := Nat.mod_lt n (show 0 < base by omega); omega)
        (m % base) (by have := Nat.mod_lt m (show 0 < base by omega); omega) hlast
      rw [← Nat.div_add_mod n base, ← Nat.div_add_mod m base, hdiv, hmod]

/-- The digits of a number to the base 16. -/
theorem isHexDigit_of_mem_toDigits {n : Nat} {c : Char} (h : c ∈ Nat.toDigits 16 n) :
    Lexeme.isHexDigit c = true := by
  have digit : ∀ a < 16, Lexeme.isHexDigit (Nat.digitChar a) = true := by decide
  induction n using Nat.strongRecOn with
  | ind n ih =>
    rcases Nat.lt_or_ge n 16 with hn | hn
    · rw [Nat.toDigits_of_lt_base hn, List.mem_singleton] at h
      exact h ▸ digit n hn
    · rw [Nat.toDigits_of_base_le (by decide) hn, List.mem_append, List.mem_singleton] at h
      rcases h with h | rfl
      · exact ih (n / 16) (by omega) h
      · exact digit _ (Nat.mod_lt n (by decide))

/-! ### The forms of a character -/

/-- What a letter behind a backslash stands for; any other character stands for itself there. -/
def meant (letter : Char) : Char :=
  if letter = '0' then '\x00'
  else if letter = 't' then '\t'
  else if letter = 'r' then '\r'
  else if letter = 'n' then '\n'
  else letter

/-- How a character can be written between two marks. -/
inductive Escaped (mark c : Char) : List Char → Prop where
  | plain (hb : c ≠ '\\') (hm : c ≠ mark) (hn : c ≠ '\n') (hr : c ≠ '\r') : Escaped mark c [c]
  | letter (letter : Char) (hu : letter ≠ 'u') (hc : meant letter = c) :
    Escaped mark c ['\\', letter]
  | code : Escaped mark c ('\\' :: 'u' :: '\x7b' :: (Nat.toDigits 16 c.toNat ++ ['\x7d']))

/-- A character is escaped in one of these forms. -/
theorem escape_escaped (c : Char) : Escaped '"' c (escape '"' c) := by
  unfold escape
  split
  · exact .letter '0' (by decide) (by simp [*, meant])
  split
  · exact .letter 't' (by decide) (by simp [*, meant])
  split
  · exact .letter 'r' (by decide) (by simp [*, meant])
  split
  · exact .letter 'n' (by decide) (by simp [*, meant])
  split
  · rename_i h
    rcases h with rfl | rfl
    · exact .letter '\\' (by decide) (by decide)
    · exact .letter '"' (by decide) (by decide)
  split
  · exact .code
  · rename_i hr hn h _
    exact .plain (fun hb => h (.inl hb)) (fun hm => h (.inr hm)) hn hr

namespace Escaped

variable {mark c d : Char} {written written' : List Char}

/-- **A written character is known from its front.** -/
theorem append_inj (hc : Escaped mark c written) (hd : Escaped mark d written')
    {rest rest' : List Char} (h : written ++ rest = written' ++ rest') : c = d ∧ rest = rest' := by
  cases hc with
  | plain hb =>
    cases hd with
    | plain => exact List.cons.inj h
    | letter => exact absurd (List.cons.inj h).1 hb
    | code => exact absurd (List.cons.inj h).1 hb
  | letter letter hu hc =>
    cases hd with
    | plain hb => exact absurd (List.cons.inj h).1.symm hb
    | letter letter' hu' hd =>
      obtain ⟨rfl, hrest⟩ := List.cons.inj (List.cons.inj h).2
      exact ⟨hc.symm.trans hd, hrest⟩
    | code => exact absurd (List.cons.inj (List.cons.inj h).2).1 hu
  | code =>
    cases hd with
    | plain hb => exact absurd (List.cons.inj h).1.symm hb
    | letter letter' hu => exact absurd (List.cons.inj (List.cons.inj h).2).1.symm hu
    | code =>
      simp only [List.cons_append, List.append_assoc, List.cons.injEq, true_and,
        List.nil_append] at h
      obtain ⟨hn, hrest⟩ := append_inj_of_test (p := Lexeme.isHexDigit)
        (fun _ => isHexDigit_of_mem_toDigits) (fun _ => isHexDigit_of_mem_toDigits)
        (by simp [Lexeme.isHexDigit]) (by simp [Lexeme.isHexDigit]) h
      have hcode := toDigits_injective (by decide) (by decide) hn
      exact ⟨Char.toNat_inj.1 hcode, (List.cons.inj hrest).2⟩

/-- Each form has a character at least. -/
theorem ne_nil (h : Escaped mark c written) : written ≠ [] := by
  cases h <;> exact List.cons_ne_nil _ _

/-- Characters that neither end a string nor take one along are passed over. -/
theorem stringBody_passes {piece : List Char}
    (h : ∀ c ∈ piece, c ≠ '\\' ∧ c ≠ mark ∧ c ≠ '\n' ∧ c ≠ '\r') (rest : List Char) :
    Lexeme.stringBody mark (piece ++ rest) =
      (piece ++ (Lexeme.stringBody mark rest).1, (Lexeme.stringBody mark rest).2) := by
  induction piece with
  | nil => rfl
  | cons c piece ih =>
    obtain ⟨⟨hb, hm, hn, hr⟩, hpiece⟩ := List.forall_mem_cons.1 h
    rw [List.cons_append, Lexeme.stringBody, ih hpiece, if_neg (by simp [hm, hn, hr])]
    · rfl
    · exact fun _ _ hc => absurd hc hb

/-- **A written character does not end a string.** -/
theorem stringBody (h : Escaped '"' c written) (rest : List Char) :
    Lexeme.stringBody '"' (written ++ rest) =
      (written ++ (Lexeme.stringBody '"' rest).1, (Lexeme.stringBody '"' rest).2) := by
  cases h with
  | plain hb hm hn hr =>
    exact stringBody_passes (List.forall_mem_singleton.2 ⟨hb, hm, hn, hr⟩) rest
  | letter => rfl
  | code =>
    have passes : ∀ d ∈ '\x7b' :: (Nat.toDigits 16 c.toNat ++ ['\x7d']),
        d ≠ '\\' ∧ d ≠ '"' ∧ d ≠ '\n' ∧ d ≠ '\r' := by
      intro d hd
      rw [List.mem_cons, List.mem_append, List.mem_singleton] at hd
      rcases hd with rfl | hd | rfl
      · decide
      · have := isHexDigit_of_mem_toDigits hd
        refine ⟨?_, ?_, ?_, ?_⟩ <;>
        · rintro rfl
          exact absurd this (by decide)
      · decide
    rw [List.cons_append, List.cons_append, Lexeme.stringBody, stringBody_passes passes]
    rfl

end Escaped

/-- Two texts that are written alike are equal. -/
theorem escape_flatMap_injective {xs ys : List Char}
    (h : xs.flatMap (escape '"') = ys.flatMap (escape '"')) : xs = ys := by
  induction xs generalizing ys with
  | nil =>
    cases ys with
    | nil => rfl
    | cons y ys => exact absurd (List.append_eq_nil_iff.1 h.symm).1 (escape_escaped y).ne_nil
  | cons x xs ih =>
    cases ys with
    | nil => exact absurd (List.append_eq_nil_iff.1 h).1 (escape_escaped x).ne_nil
    | cons y ys =>
      rw [List.flatMap_cons, List.flatMap_cons] at h
      obtain ⟨rfl, hrest⟩ := (escape_escaped x).append_inj (escape_escaped y) h
      rw [ih hrest]

/-- **A quoted text stands for one text only.** -/
theorem quoted_injective {s t : String} (h : quoted s = quoted t) : s = t := by
  have inside := List.cons.inj (String.ofList_inj.1 h)
  exact String.toList_inj.1 (escape_flatMap_injective (List.append_cancel_right inside.2))

/-- **A quoted text ends at its second mark**, whatever follows. -/
theorem quoted_encloses (text : List Char) : Quote.double.Encloses (text.flatMap (escape '"')) := by
  intro more
  induction text with
  | nil => rfl
  | cons c text ih =>
    rw [List.flatMap_cons, List.append_assoc, Quote.char, (escape_escaped c).stringBody]
    rw [Quote.char] at ih
    rw [ih]

end Text

end Ndf
