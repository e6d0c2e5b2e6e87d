/-
# Brackets in pairs and the commas outside of them

`fences` keeps of some tokens the commas, brackets and parentheses.  `Paired n` says that those
brackets and parentheses close in pairs and that `n` commas stand outside of all pairs, so `n` is
what counting with a level yields (`Paired.bareCommas`).

Between two places of a cursor this is `Cursor.Tally`.  What is read in the middle of a `>=` is no
fence, so the two halves of a token need no case of their own.
-/

import Ndf.Proofs.Parser.Reaches

namespace Ndf

/-! ### Fences -/

/-- Commas, brackets and parentheses. -/
def TokenKind.isFence : TokenKind → Bool
  | .comma | .lparen | .rparen | .lbracket | .rbracket => true
  | _ => false

/-- The commas, brackets and parentheses among some tokens. -/
def fences (ts : List Token) : List TokenKind := (ts.map Token.kind).filter TokenKind.isFence

section Fences

variable {t : Token} {ts us : List Token}

@[simp] theorem fences_nil : fences [] = [] := rfl

@[simp] theorem fences_append : fences (ts ++ us) = fences ts ++ fences us := by
  simp [fences]

/-- A token that is a fence is kept. -/
theorem fences_cons (h : t.kind.isFence = true) : fences (t :: ts) = t.kind :: fences ts := by
  simp [fences, h]

/-- Any other token is dropped. -/
theorem fences_cons_of_not (h : t.kind.isFence = false) : fences (t :: ts) = fences ts := by
  simp [fences, h]

end Fences

/-- The number of commas outside of all brackets and parentheses, `level` of which are open. -/
def bareCommas (level : Nat) : List TokenKind → Nat
  | [] => 0
  | .comma :: ks => (if level = 0 then 1 else 0) + bareCommas level ks
  | .lparen :: ks | .lbracket :: ks => bareCommas (level + 1) ks
  | .rparen :: ks | .rbracket :: ks => bareCommas (level - 1) ks
  | _ :: ks => bareCommas level ks

/-- What is no fence is not counted. -/
theorem bareCommas_filter (level : Nat) (ks : List TokenKind) :
    bareCommas level (ks.filter TokenKind.isFence) = bareCommas level ks := by
  induction ks generalizing level with
  | nil => rfl
  | cons k ks ih =>
    rw [List.filter_cons]
    cases k <;> simp [bareCommas, TokenKind.isFence, ih]

/-! ### Pairs -/

/-- Brackets and parentheses in pairs, with `n` commas outside of them. -/
inductive Paired : Nat → List TokenKind → Prop
  | nil : Paired 0 []
  | comma {n : Nat} {ks : List TokenKind} : Paired n ks → Paired (n + 1) (.comma :: ks)
  | round {m n : Nat} {inner ks : List TokenKind} : Paired m inner → Paired n ks →
      Paired n (.lparen :: (inner ++ .rparen :: ks))
  | square {m n : Nat} {inner ks : List TokenKind} : Paired m inner → Paired n ks →
      Paired n (.lbracket :: (inner ++ .rbracket :: ks))

namespace Paired

variable {m n : Nat} {ks ls : List TokenKind}

/-- Pairs behind pairs are pairs, and the commas outside add up. -/
theorem append (h : Paired m ks) (h' : Paired n ls) : Paired (m + n) (ks ++ ls) := by
  induction h with
  | nil => simpa using h'
  | comma _ ih =>
    rw [Nat.add_right_comm]
    exact .comma ih
  | round hinner _ _ ih =>
    rw [List.cons_append, List.append_assoc, List.cons_append]
    exact .round hinner ih
  | square hinner _ _ ih =>
    rw [List.cons_append, List.append_assoc, List.cons_append]
    exact .square hinner ih

/-- Only outside of all levels the commas outside of the pairs count. -/
theorem bareCommas_append (h : Paired n ks) (level : Nat) (more : List TokenKind) :
    bareCommas level (ks ++ more) = (if level = 0 then n else 0) + bareCommas level more := by
  induction h generalizing level more with
  | nil => simp
  | comma _ ih =>
    rw [List.cons_append, bareCommas, ih]
    split <;> omega
  | round _ _ ihInner ih | square _ _ ihInner ih =>
    rw [List.cons_append, List.append_assoc, List.cons_append, bareCommas, ihInner,
      if_neg (Nat.succ_ne_zero level), Nat.zero_add, bareCommas, Nat.add_sub_cancel, ih]

/-- **Counting with a level yields the commas outside of the pairs.** -/
theorem bareCommas {ts : List Token} (h : Paired n (fences ts)) :
    Ndf.bareCommas 0 (ts.map Token.kind) = n := by
  have hcount := h.bareCommas_append 0 []
  rwa [List.append_nil, fences, bareCommas_filter, if_pos rfl] at hcount

end Paired

/-! ### Between two places -/

namespace Cursor

variable {b c d e : Cursor} {m n : Nat} {k : TokenKind} {free : Bool}

/-- Between two places `n` commas are read outside of all brackets, and these are read in pairs. -/
def Tally (n : Nat) (c d : Cursor) : Prop :=
  ∃ ks, fences c.rest = ks ++ fences d.rest ∧ Paired n ks

/-- Of all fences, exactly one is read between two places. -/
def Crosses (k : TokenKind) (c d : Cursor) : Prop := fences c.rest = k :: fences d.rest

/-- Nothing lies between a place and itself. -/
theorem Tally.refl (c : Cursor) : Tally 0 c c := ⟨[], rfl, .nil⟩

/-- Nothing is told between two places with the same fences ahead. -/
theorem Tally.of_eq (h : fences c.rest = fences d.rest) : Tally 0 c d := ⟨[], h, .nil⟩

/-- The commas of two stretches add up. -/
theorem Tally.trans (h : Tally m c d) (h' : Tally n d e) : Tally (m + n) c e := by
  obtain ⟨ks, hks, hm⟩ := h
  obtain ⟨ls, hls, hn⟩ := h'
  exact ⟨ks ++ ls, by rw [hks, hls, List.append_assoc], hm.append hn⟩

/-- What is read between two places are the tokens by which they differ. -/
theorem Tally.paired {u : List Token} (h : Tally n c d) (hu : c.rest = u ++ d.rest) :
    Paired n (fences u) := by
  obtain ⟨ks, hks, hn⟩ := h
  rw [hu, fences_append, List.append_cancel_right_eq] at hks
  rwa [hks]

/-- Reading a comma is a stretch of one comma. -/
theorem Crosses.comma (h : Crosses .comma c d) : Tally 1 c d := ⟨[.comma], h, .comma .nil⟩

/-- As `Tally`, with as many commas as there are if `free`, and with none otherwise. -/
def Level (free : Bool) (c d : Cursor) : Prop := ∃ n, Tally n c d ∧ (free = false → n = 0)

/-- A stretch with some commas outside is level if commas are free. -/
theorem Tally.level (h : Tally n c d) : Level true c d := ⟨n, h, fun hf => nomatch hf⟩

/-- A stretch without a comma outside is level either way. -/
theorem Level.of_tally (h : Tally 0 c d) : Level free c d := ⟨0, h, fun _ => rfl⟩

/-- Standing still is level. -/
theorem Level.refl (c : Cursor) : Level free c c := .of_tally (.refl c)

/-- What has the same fences ahead is level with it. -/
theorem Level.of_eq (h : fences c.rest = fences d.rest) : Level free c d := .of_tally (.of_eq h)

/-- Where commas are not free, a level stretch holds none outside. -/
theorem Level.tally (h : Level false c d) : Tally 0 c d := by
  obtain ⟨n, htally, hn⟩ := h
  rwa [hn rfl] at htally

/-- Freeing the commas keeps a stretch level. -/
theorem Level.relax (h : Level free c d) : Level true c d := by
  obtain ⟨n, htally, -⟩ := h
  exact htally.level

/-- Two level stretches in a row are level. -/
theorem Level.trans (h : Level free c d) (h' : Level free d e) : Level free c e := by
  obtain ⟨m, hm, hm0⟩ := h
  obtain ⟨n, hn, hn0⟩ := h'
  exact ⟨m + n, hm.trans hn, fun hf => by rw [hm0 hf, hn0 hf]⟩

/-- A bracket was read at a place, and since then all that was opened was closed. -/
def Inside (k : TokenKind) (c d : Cursor) : Prop := ∃ b, Crosses k c b ∧ Level true b d

/-- Behind an opening sign one is inside. -/
theorem Crosses.inside (h : Crosses k c d) : Inside k c d := ⟨d, h, .refl d⟩

/-- A level stretch does not lead out. -/
theorem Inside.trans (h : Inside k c d) (h' : Level free d e) : Inside k c e := by
  obtain ⟨b, hb, hlevel⟩ := h
  exact ⟨b, hb, hlevel.trans h'.relax⟩

/-- The closing parenthesis leads out, and the whole is level. -/
theorem Inside.round (h : Inside .lparen c d) (h' : Crosses .rparen d e) : Level free c e := by
  obtain ⟨b, hb, n, ⟨ks, hks, hn⟩, -⟩ := h
  refine .of_tally ⟨.lparen :: (ks ++ [.rparen]), ?_, .round hn .nil⟩
  rw [hb, hks, h']
  simp

/-- The closing bracket leads out, and the whole is level. -/
theorem Inside.square (h : Inside .lbracket c d) (h' : Crosses .rbracket d e) :
    Level free c e := by
  obtain ⟨b, hb, n, ⟨ks, hks, hn⟩, -⟩ := h
  refine .of_tally ⟨.lbracket :: (ks ++ [.rbracket]), ?_, .square hn .nil⟩
  rw [hb, hks, h']
  simp

end Cursor

end Ndf
