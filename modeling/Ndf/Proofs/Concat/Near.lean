/-
# Lookahead at the end of what is read

`Near ts us` says that the tokens `us` are the tokens `ts`, perhaps followed by a plain name that is
not joined.  No test of what starts at a place tells the two apart, unless the last of `ts` is a
word that binds what follows it, such as `is` or `export`: a name alone starts nothing that the
tokens before it begin.

How much recovery cuts out is told by the kinds of the tokens ahead alone.
-/

import Ndf.Parser.Expression

namespace Ndf

namespace Lookahead

/-- The words that bind what follows them to what stands before. -/
def binds : Keyword → Bool
  | .is | .export | .private | .public | .template | .unnamed => true
  | _ => false

/-- The last token is no word that binds what follows. -/
def Loose (ts : List Token) : Prop :=
  ∀ t ∈ ts.getLast?, ∀ k, t.kind.keyword? = some k → binds k = false

/-- With a token less the last one binds nothing either. -/
theorem Loose.tail {t : Token} {ts : List Token} (h : Loose (t :: ts)) : Loose ts := by
  cases ts with
  | nil => exact fun u hu => by cases hu
  | cons v ts => exact fun u hu => h u (by rwa [List.getLast?_cons_cons])

/-- Only the last token matters. -/
theorem Loose.replace {t u : Token} {ts : List Token} (h : Loose (t :: ts))
    (hu : u.kind.keyword? = none) : Loose (u :: ts) := by
  cases ts with
  | nil =>
    intro v hv k hk
    obtain rfl : u = v := by simpa using hv
    rw [hu] at hk
    cases hk
  | cons v ts => exact fun x hx => h x (by rwa [List.getLast?_cons_cons] at hx ⊢)

/-- The same tokens, whether or not a word at the front is joined, with nothing behind them or
with a plain name that is not joined. -/
structure Near (ts us : List Token) : Prop where
  kind : ∀ n < ts.length, kind? us n = kind? ts n
  joined : ∀ n < ts.length, (n = 0 → isWord ts 0 = false) → isJoined us n = isJoined ts n
  behind : us.length = ts.length ∨
    (∃ text, kind? us ts.length = some (.word text .name)) ∧ isJoined us ts.length = false ∧
      Loose ts

variable {ts us : List Token} {n : Nat}

/-- Past the last token there is no kind. -/
theorem kind?_of_le (h : ts.length ≤ n) : kind? ts n = none := by
  rw [kind?, List.getElem?_eq_none h, Option.map_none]

/-- Nor is anything joined there. -/
theorem isJoined_of_le (h : ts.length ≤ n) : isJoined ts n = false := by
  rw [isJoined, List.getElem?_eq_none h, Option.any_none]

namespace Near

/-- The tokens that both have are of the same kinds. -/
theorem kind_eq (h : Near ts us) (hn : n < ts.length ∨ us.length = ts.length) :
    kind? us n = kind? ts n := by
  by_cases hlt : n < ts.length
  · exact h.kind n hlt
  · have hl := hn.resolve_left hlt
    rw [kind?_of_le (by omega), kind?_of_le (by omega)]

/-- The same tokens are words. -/
theorem isWord_eq (h : Near ts us) (hn : n < ts.length ∨ us.length = ts.length) :
    isWord us n = isWord ts n := by
  rw [isWord, isWord, h.kind_eq hn]

/-- One token further than `kind_eq`: what stands behind is no keyword. -/
theorem keyword?_eq (h : Near ts us) (hn : n ≤ ts.length ∨ us.length = ts.length) :
    keyword? us n = keyword? ts n := by
  by_cases hlt : n < ts.length ∨ us.length = ts.length
  · rw [keyword?, keyword?, h.kind_eq hlt]
  · obtain rfl : n = ts.length := by omega
    obtain ⟨⟨text, hk⟩, -⟩ := h.behind.resolve_left fun hl => hlt (.inr hl)
    rw [keyword?, keyword?, hk, kind?_of_le (Nat.le_refl _)]
    rfl

/-- The same are keywords: a plain name is none. -/
theorem isKeyword_eq (h : Near ts us) (hn : n ≤ ts.length ∨ us.length = ts.length) (k : Keyword) :
    isKeyword us n k = isKeyword ts n k := by
  rw [isKeyword, isKeyword, h.keyword?_eq hn]

/-- The same are signs: a plain name is none. -/
theorem isKind_eq (h : Near ts us) (hn : n ≤ ts.length ∨ us.length = ts.length) {k : TokenKind}
    (hk : k.isWord = false) : isKind us n k = isKind ts n k := by
  by_cases hlt : n < ts.length ∨ us.length = ts.length
  · rw [isKind, isKind, h.kind_eq hlt]
  · obtain rfl : n = ts.length := by omega
    obtain ⟨⟨text, hw⟩, -⟩ := h.behind.resolve_left fun hl => hlt (.inr hl)
    rw [isKind, isKind, hw, kind?_of_le (Nat.le_refl _)]
    cases k <;> first | rfl | cases hk

/-- No word that binds is the last token, or behind it. -/
theorem isKeyword_last (h : Near ts us) (hl : us.length ≠ ts.length) (hn : ts.length ≤ n + 1)
    {k : Keyword} (hk : binds k = true) : isKeyword ts n k = false := by
  obtain ⟨-, -, loose⟩ := h.behind.resolve_left hl
  rw [isKeyword, keyword?, kind?]
  cases ht : ts[n]? with
  | none => rfl
  | some t =>
    have hlast : t ∈ ts.getLast? := by
      obtain ⟨hlt, rfl⟩ := List.getElem?_eq_some_iff.1 ht
      rw [List.getLast?_eq_getElem?, Option.mem_def, show ts.length - 1 = n by omega, ht]
    show (t.kind.keyword? == some k) = false
    rw [beq_eq_false_iff_ne]
    intro heq
    rw [loose t hlast k heq] at hk
    cases hk

/-- The same are modifiers. -/
theorem isModifier_eq (h : Near ts us) (hn : n ≤ ts.length ∨ us.length = ts.length) :
    isModifier us n = isModifier ts n := by
  rw [isModifier, isModifier, h.keyword?_eq hn]

/-- The last token in front of a name that follows is no modifier. -/
theorem isModifier_last (h : Near ts us) (hl : us.length ≠ ts.length) (hn : ts.length ≤ n + 1) :
    isModifier ts n = false := by
  have key (k : Keyword) (hk : binds k = true) : keyword? ts n ≠ some k := by
    have := h.isKeyword_last hl hn hk
    rwa [isKeyword, beq_eq_false_iff_ne] at this
  unfold isModifier
  split
  · rename_i hk
    exact absurd hk (key .export rfl)
  · rename_i hk
    exact absurd hk (key .private rfl)
  · rename_i hk
    exact absurd hk (key .public rfl)
  · rfl

/-- An assignment starts at the same places. -/
theorem startsAssignment_eq (h : Near ts us) (hn : n < ts.length ∨ us.length = ts.length) :
    startsAssignment us n = startsAssignment ts n := by
  have hword := h.isWord_eq hn
  have his := h.isKeyword_eq (n := n + 1) (by omega) .is
  unfold startsAssignment
  by_cases h2 : n + 2 ≤ ts.length ∨ us.length = ts.length
  · rw [hword, his, h.isKeyword_eq h2]
  · have hnone : isKeyword ts (n + 1) .is = false := by
      rw [isKeyword, keyword?, kind?_of_le (by omega)]
      rfl
    rw [hword, his, hnone, Bool.and_false, Bool.false_and, Bool.false_and]

/-- A template starts at the same places. -/
theorem startsTemplate_eq (h : Near ts us) (hn : n ≤ ts.length ∨ us.length = ts.length) :
    startsTemplate us n = startsTemplate ts n := by
  have hkey := h.isKeyword_eq (n := n) (by omega) .template
  unfold startsTemplate
  by_cases h1 : n + 1 < ts.length ∨ us.length = ts.length
  · rw [hkey, h.isWord_eq h1, h.startsAssignment_eq (by omega)]
  · rw [hkey, h.isKeyword_last (by omega) (by omega) rfl, Bool.false_and, Bool.false_and,
      Bool.false_and, Bool.false_and]

/-- A declaration behind a modifier starts at the same places. -/
theorem startsVisibility_eq (h : Near ts us) (hn : n < ts.length ∨ us.length = ts.length) :
    startsVisibility us n = startsVisibility ts n := by
  have hmod := h.isModifier_eq (n := n) (by omega)
  unfold startsVisibility
  by_cases h1 : n + 1 < ts.length ∨ us.length = ts.length
  · rw [hmod, h.startsAssignment_eq h1, h.startsTemplate_eq (by omega)]
  · rw [hmod, h.isModifier_last (by omega) (by omega), Bool.false_and, Bool.false_and]

/-- A modifier and a word, which is enough for a declaration among the items. -/
theorem modifies_eq (h : Near ts us) :
    (isModifier us 0 && isWord us 1) = (isModifier ts 0 && isWord ts 1) := by
  have hmod := h.isModifier_eq (n := 0) (.inl (Nat.zero_le _))
  by_cases h1 : 1 < ts.length ∨ us.length = ts.length
  · rw [hmod, h.isWord_eq h1]
  · rw [hmod, h.isModifier_last (by omega) (by omega), Bool.false_and, Bool.false_and]

/-- An unnamed object starts at the same places. -/
theorem startsUnnamed_eq (h : Near ts us) (hn : n < ts.length ∨ us.length = ts.length) :
    startsUnnamed us n = startsUnnamed ts n := by
  have hkey := h.isKeyword_eq (n := n) (by omega) .unnamed
  unfold startsUnnamed
  by_cases h1 : n + 1 < ts.length ∨ us.length = ts.length
  · rw [hkey, h.isWord_eq h1, h.isKind_eq (n := n + 2) (by omega) rfl]
  · rw [hkey, h.isKeyword_last (by omega) (by omega) rfl, Bool.false_and, Bool.false_and,
      Bool.false_and, Bool.false_and]

/-- A payload stands at the same places. -/
theorem isPayload_eq (h : Near ts us) (hn : n ≤ ts.length ∨ us.length = ts.length) :
    isPayload us n = isPayload ts n := by
  by_cases hlt : n < ts.length ∨ us.length = ts.length
  · rw [isPayload, isPayload, h.kind_eq hlt]
  · obtain rfl : n = ts.length := by omega
    obtain ⟨⟨text, hw⟩, -⟩ := h.behind.resolve_left fun hl => hlt (.inr hl)
    rw [isPayload, isPayload, hw, kind?_of_le (Nat.le_refl _)]

/-- A member starts at the same places. -/
theorem startsMember_eq (h : Near ts us) (hn : n < ts.length ∨ us.length = ts.length) :
    startsMember us n = startsMember ts n := by
  have hword := h.isWord_eq hn
  have hguid := h.isKeyword_eq (n := n) (by omega) .guid
  have heq := h.isKind_eq (n := n + 1) (by omega) (k := .eq) rfl
  have hcolon := h.isKind_eq (n := n + 1) (by omega) (k := .colon) rfl
  unfold startsMember
  by_cases h2 : n + 2 ≤ ts.length ∨ us.length = ts.length
  · rw [hword, hguid, heq, hcolon, h.isPayload_eq h2]
  · have hnone : isKind ts (n + 1) .colon = false := by
      rw [isKind, kind?_of_le (by omega)]
      rfl
    rw [hword, heq, hcolon, hnone, Bool.false_and, Bool.false_and]

/-- The same tokens are joined, the first one left out. -/
theorem isJoined_eq (h : Near ts us) (hn : n ≤ ts.length ∨ us.length = ts.length) (h0 : n ≠ 0) :
    isJoined us n = isJoined ts n := by
  by_cases hlt : n < ts.length
  · exact h.joined n hlt fun hz => absurd hz h0
  · rw [isJoined_of_le (show ts.length ≤ n by omega)]
    rcases h.behind with hl | ⟨-, hj, -⟩
    · exact isJoined_of_le (by omega)
    · by_cases hl : us.length = ts.length
      · exact isJoined_of_le (by omega)
      · obtain rfl : n = ts.length := by omega
        exact hj

/-- A reference with a scope starts alike. -/
theorem startsScoped_eq (h : Near ts us) (hn : 0 < ts.length ∨ us.length = ts.length) :
    startsScoped us = startsScoped ts := by
  unfold startsScoped
  rw [h.isKind_eq (n := 0) (by omega) rfl, h.isKind_eq (n := 0) (by omega) rfl,
    h.isKind_eq (n := 0) (by omega) rfl, h.isKind_eq (n := 1) (by omega) rfl,
    h.isJoined_eq (n := 1) (by omega) (by omega)]

/-- Whether a sign is joined here. -/
theorem sign_eq (h : Near ts us) {k : TokenKind} (hk : k.isWord = false) :
    (isKind us 0 k && isJoined us 0) = (isKind ts 0 k && isJoined ts 0) := by
  have hkind := h.isKind_eq (n := 0) (.inl (Nat.zero_le _)) hk
  rw [hkind]
  by_cases hs : isKind ts 0 k = true
  · rw [hs, Bool.true_and, Bool.true_and]
    have hlt : 0 < ts.length := by
      rcases ts with _ | ⟨t, ts⟩
      · cases hs
      · exact Nat.succ_pos _
    refine h.joined 0 hlt fun _ => ?_
    rw [isKind, beq_iff_eq] at hs
    rw [isWord, hs]
    exact hk
  · rw [Bool.not_eq_true] at hs
    rw [hs, Bool.false_and, Bool.false_and]

/-- A path goes on alike: the name behind is not joined. -/
theorem continuesPath_eq (h : Near ts us) : continuesPath us = continuesPath ts := by
  have bracket := h.sign_eq (k := .lbracket) rfl
  have slash := h.sign_eq (k := .slash) rfl
  have dot := h.sign_eq (k := .dot) rfl
  have name (hs : (isKind ts 0 .slash || isKind ts 0 .dot) = true) :
      (isWord us 1 && isJoined us 1) = (isWord ts 1 && isJoined ts 1) := by
    have hlt : 0 < ts.length := by
      rcases ts with _ | ⟨t, ts⟩
      · cases hs
      · exact Nat.succ_pos _
    have hj := h.isJoined_eq (n := 1) (.inl hlt) (by omega)
    by_cases h1 : 1 < ts.length ∨ us.length = ts.length
    · rw [h.isWord_eq h1, hj]
    · rw [hj, isJoined_of_le (show ts.length ≤ 1 by omega), Bool.and_false, Bool.and_false]
  unfold continuesPath
  have hslash := h.isKind_eq (n := 0) (.inl (Nat.zero_le _)) (k := .slash) rfl
  have hdot := h.isKind_eq (n := 0) (.inl (Nat.zero_le _)) (k := .dot) rfl
  have hbracket := h.isKind_eq (n := 0) (.inl (Nat.zero_le _)) (k := .lbracket) rfl
  revert bracket slash dot name
  rw [hslash, hdot, hbracket, Bool.and_assoc, Bool.and_assoc]
  cases isKind ts 0 .lbracket <;> cases isKind ts 0 .slash <;> cases isKind ts 0 .dot <;> simp_all

end Near

end Lookahead

namespace Parser

open Lookahead

/-- The operator ahead is the same. -/
theorem operator?_eq {ts us : List Token} (h : Near ts us) : operator? us = operator? ts := by
  unfold operator?
  by_cases hn : 0 < ts.length ∨ us.length = ts.length
  · rw [h.kind_eq hn, h.startsAssignment_eq hn, h.startsMember_eq hn]
  · obtain ⟨⟨text, hw⟩, -⟩ := h.behind.resolve_left fun hl => hn (.inr hl)
    rw [show ts.length = 0 by omega] at hw
    rw [hw, kind?_of_le (show ts.length ≤ 0 by omega)]

/-! ### Gaps

How much recovery cuts out depends on the kinds of the tokens ahead alone. -/

/-- Whether an item starts is told by the kinds ahead. -/
theorem startsItem_congr {ts us : List Token} (h : us.map Token.kind = ts.map Token.kind) :
    Lookahead.startsItem us = Lookahead.startsItem ts := by
  have hk : Lookahead.kind? us = Lookahead.kind? ts := by
    funext n
    rw [Lookahead.kind?, Lookahead.kind?, ← List.getElem?_map, ← List.getElem?_map, h]
  simp only [Lookahead.startsItem, Lookahead.startsAssignment, Lookahead.startsVisibility,
    Lookahead.startsTemplate, Lookahead.startsUnnamed, Lookahead.isModifier, Lookahead.isKeyword,
    Lookahead.keyword?, Lookahead.isWord, Lookahead.isKind, hk]

/-- Whether an entry starts is told by the kinds ahead. -/
theorem startsEntry_congr {ts us : List Token} (h : us.map Token.kind = ts.map Token.kind) :
    Lookahead.startsEntry us = Lookahead.startsEntry ts := by
  have hk : Lookahead.kind? us = Lookahead.kind? ts := by
    funext n
    rw [Lookahead.kind?, Lookahead.kind?, ← List.getElem?_map, ← List.getElem?_map, h]
  simp only [Lookahead.startsEntry, Lookahead.startsAssignment, Lookahead.startsVisibility,
    Lookahead.startsTemplate, Lookahead.startsMember, Lookahead.isModifier, Lookahead.isKeyword,
    Lookahead.keyword?, Lookahead.isWord, Lookahead.isKind, Lookahead.isPayload, hk]

/-- A list of tokens with the kinds of another one. -/
theorem kinds_cons {t : Token} {ts us : List Token}
    (h : us.map Token.kind = (t :: ts).map Token.kind) :
    ∃ u rest, us = u :: rest ∧ u.kind = t.kind ∧ rest.map Token.kind = ts.map Token.kind := by
  cases us with
  | nil => cases h
  | cons u rest =>
    rw [List.map_cons, List.map_cons, List.cons.injEq] at h
    exact ⟨u, rest, rfl, h.1, h.2⟩

/-- As much is cut out for an item. -/
theorem itemGap_congr {ts us : List Token} (h : us.map Token.kind = ts.map Token.kind) :
    Recovery.itemGap us = Recovery.itemGap ts := by
  induction ts generalizing us with
  | nil => rw [List.map_eq_nil_iff.1 h]
  | cons t ts ih =>
    obtain ⟨u, rest, rfl, -, hrest⟩ := kinds_cons h
    rw [Recovery.itemGap, Recovery.itemGap, startsItem_congr h, ih hrest]

/-- As much is cut out below the last level. -/
theorem fragment_congr {ts us : List Token} (h : us.map Token.kind = ts.map Token.kind)
    (level : Nat) : Recovery.fragment level us = Recovery.fragment level ts := by
  induction ts generalizing us level with
  | nil => rw [List.map_eq_nil_iff.1 h]
  | cons t ts ih =>
    obtain ⟨u, rest, rfl, hk, hrest⟩ := kinds_cons h
    simp only [Recovery.fragment, hk, ih hrest]

/-- As much is cut out for an element. -/
theorem elementGap_congr {ts us : List Token} (h : us.map Token.kind = ts.map Token.kind)
    (level : Nat) : Recovery.elementGap level us = Recovery.elementGap level ts := by
  induction ts generalizing us level with
  | nil => rw [List.map_eq_nil_iff.1 h]
  | cons t ts ih =>
    obtain ⟨u, rest, rfl, hk, hrest⟩ := kinds_cons h
    simp only [Recovery.elementGap, hk, ih hrest]

/-- As much is cut out for an entry. -/
theorem entryGap_congr {ts us : List Token} (h : us.map Token.kind = ts.map Token.kind)
    (level : Nat) : Recovery.entryGap level us = Recovery.entryGap level ts := by
  induction ts generalizing us level with
  | nil => rw [List.map_eq_nil_iff.1 h]
  | cons t ts ih =>
    have hstart := startsEntry_congr h
    obtain ⟨u, rest, rfl, hk, hrest⟩ := kinds_cons h
    simp only [Recovery.entryGap, hk, ih hrest, hstart]

end Parser

end Ndf
