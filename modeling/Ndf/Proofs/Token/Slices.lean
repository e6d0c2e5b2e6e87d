/-
# What tokenizing cuts out and counts

Words, numbers, strings and payloads carry text.  It is cut out of the source between two
characters, from one end of the token to the other or, for the last two, between their marks
(`tokenize_slices`).

Open braces are counted by `Lexeme.braceBody`, the first one apart.  `Lexeme.countedBody` counts all
of them and subtracts one for each that is closed, refusing to subtract from none; it never refuses
(`Lexeme.countedBody_eq`).
-/

import Ndf.Proofs.Token.Append

namespace Ndf

/-- The text that a token carries, and how many bytes stand in the token on either side of it. -/
def TokenKind.carried? : TokenKind → Option (Nat × String)
  | .word text _ | .number _ text => some (0, text)
  | .string _ raw | .guidBody raw => some (1, raw)
  | _ => none

namespace Lexeme

/-- The text that a token carries is what it covers, or that without its marks. -/
def Carries (l : Lexeme) : Prop :=
  ∀ margin text, l.kind.carried? = some (margin, text) → ∃ front back,
    Text.byteSize front = margin ∧ Text.byteSize back = margin ∧
      l.text = front ++ (text.toList ++ back)

/-- A token without a text of its own. -/
theorem Carries.nothing {l : Lexeme} (h : l.kind.carried? = none) : l.Carries := by
  intro margin text ht
  rw [h] at ht
  cases ht

/-- A token that carries all of its text. -/
theorem Carries.whole {l : Lexeme} {text : List Char} (ht : l.text = text)
    (h : l.kind.carried? = some (0, String.ofList text)) : l.Carries := by
  intro margin text' h'
  obtain ⟨rfl, rfl⟩ : 0 = margin ∧ String.ofList text = text' := by simpa [h] using h'
  exact ⟨[], [], rfl, rfl, by simp [ht]⟩

/-- One that carries what stands between its first and last characters. -/
theorem Carries.between {l : Lexeme} {inside : List Char} {a b : Char} (ha : a.utf8Size = 1)
    (hb : b.utf8Size = 1) (ht : l.text = a :: inside ++ [b])
    (h : l.kind.carried? = some (1, String.ofList inside)) : l.Carries := by
  intro margin text h'
  obtain ⟨rfl, rfl⟩ : 1 = margin ∧ String.ofList inside = text := by simpa [h] using h'
  exact ⟨[a], [b], by simp [ha], by simp [hb], by simp [ht]⟩

/-- A payload is what stands between the braces. -/
theorem guidBody_carries (body : List Char) : (guidBody body).Carries := by
  unfold guidBody
  split
  · exact .between (by decide) (by decide) rfl rfl
  · exact .nothing rfl

/-- A string is what stands between the quotes. -/
theorem string_carries (quote : Quote) (body : List Char) : (string quote body).Carries := by
  have hq : quote.char.utf8Size = 1 := by cases quote <;> decide
  unfold string
  split
  · split
    · rename_i h
      exact .between hq (h ▸ hq) rfl rfl
    · exact .nothing rfl
  · exact .nothing rfl

/-- A number is its text. -/
theorem number_carries (text : List Char) : (number text).Carries := by
  have hex (x : Char) (rest : List Char) : (hexNumber x rest).Carries := by
    simp only [hexNumber]
    split
    · exact .nothing rfl
    · exact .whole rfl rfl
  have plain : (plainNumber text).Carries := by
    simp only [plainNumber]
    split
    · exact .whole rfl rfl
    · exact .whole rfl rfl
  unfold number
  split
  · exact hex _ _
  · exact hex _ _
  · exact plain

/-- A sign has no text of its own, apart from a character that is none. -/
theorem symbol_carries (c : Char) (rest : List Char) : (symbol c rest).Carries := by
  have equals {kind : TokenKind} (h : withEquals c = some kind) : kind.carried? = none := by
    unfold withEquals at h
    split at h <;> cases h <;> rfl
  have sign : (single c).carried? = none := by
    unfold single
    split <;> rfl
  unfold symbol
  split
  · rename_i h
    exact .nothing (equals h)
  · exact .nothing sign

/-- So it is with every token. -/
theorem scan_carries (payload : Bool) (c : Char) (rest : List Char) :
    (scan payload c rest).Carries := by
  unfold scan
  split
  · unfold delimitedComment
    split <;> exact .nothing rfl
  · unfold delimitedComment
    split <;> exact .nothing rfl
  · exact .nothing rfl
  · split
    · exact guidBody_carries _
    · unfold braceComment
      split <;> exact .nothing rfl
  · exact string_carries .double _
  · exact string_carries .single _
  · split
    · exact number_carries _
    · split
      · exact .whole rfl rfl
      · exact symbol_carries _ _

/-! ### Counting braces -/

/-- Splits a text that follows an opening brace, as `braceBody` does, with that brace counted among
the `level` open ones.  There is no answer at all if a brace is closed and none is open. -/
def countedBody (level : Nat) : List Char → Option (Option (List Char × List Char))
  | [] => some none
  | '\\' :: c :: rest => (countedBody level rest).map (Option.map fun s => push '\\' (push c s))
  | '\x7b' :: rest => (countedBody (level + 1) rest).map (Option.map (push '\x7b'))
  | '\x7d' :: rest =>
    if level = 0 then none
    else if level - 1 = 0 then some (some ([], rest))
    else (countedBody (level - 1) rest).map (Option.map (push '\x7d'))
  | c :: rest => (countedBody level rest).map (Option.map (push c))

/-- **A brace is closed only if one is open.** -/
theorem countedBody_eq (depth : Nat) (text : List Char) :
    countedBody (depth + 1) text = some (braceBody depth text) := by
  fun_induction braceBody depth text with
  | case1 depth => simp [countedBody]
  | case2 depth c rest ih => simp [countedBody, ih]
  | case3 depth rest ih => simp [countedBody, ih]
  | case4 rest => simp [countedBody]
  | case5 rest depth ih => simp [countedBody, ih]
  | case6 depth c rest hescape hopen hclose ih =>
    rw [countedBody, ih]
    · rfl
    · exact hescape
    · exact hopen
    · exact hclose

end Lexeme

namespace Lexer

variable {text : List Char} {l : Lexer}

/-- The text that a token carries is a slice of the source. -/
theorem At.slice?_carried (h : At text l) {margin : Nat} {carried : String}
    (hk : l.next.token.kind.carried? = some (margin, carried)) :
    Text.slice? text (l.next.token.span.start + margin) (l.next.token.span.stop - margin) =
      some carried.toList := by
  obtain ⟨before, c, rest, rfl, -, hkind, hstart, hstop⟩ :=
    h.stands (by rintro he; rw [he] at hk; cases hk)
  obtain ⟨front, back, hf, hb, ht⟩ := Lexeme.scan_carries _ c rest margin carried (hkind ▸ hk)
  have hslice := Text.slice?_append (before ++ front) carried.toList
    (back ++ (Lexeme.scan (l.guid == .colon) c rest).rest)
  rw [Text.byteSize_append, hf] at hslice
  rw [hstart, hstop, ← Lexeme.scan_split (l.guid == .colon) c rest, ht]
  simp only [Text.byteSize_append, hf, hb]
  rw [show Text.byteSize before + (margin + (Text.byteSize carried.toList + margin)) - margin =
    Text.byteSize before + margin + Text.byteSize carried.toList by omega]
  simpa using hslice

end Lexer

/-- **What a token carries is cut out of the source.** -/
theorem tokenize_slices (source : String) : ∀ t ∈ (tokenize source).tokens, ∀ margin text,
    t.kind.carried? = some (margin, text) →
      Text.slice? source.toList (t.span.start + margin) (t.span.stop - margin) =
        some text.toList := by
  intro t ht margin text
  obtain ⟨l, h, rfl⟩ := exists_next_of_mem_tokens ht
  exact h.slice?_carried

end Ndf
