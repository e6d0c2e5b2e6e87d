/-
# Tests that the end of a source leaves open

What starts at a place is told by at most four tokens.  Where fewer are left, more tokens behind
may decide otherwise.  A test that asks for a joined token stays as it is, as the first token
behind is not joined; the others change in front of few tokens only (`Undecided`), and in front of
two that a third one binds (`dangles`).
-/

import Ndf.Proofs.Unfinished.Sequel

namespace Ndf
namespace Lookahead

/-- A name at the end, or a name and `is`, which could be the name itself. -/
inductive Begun : List Token → Prop where
  | name (t : Token) (word : isWord [t] 0 = true) : Begun [t]
  | is (t u : Token) (word : isWord [t] 0 = true) (is : u.kind.keyword? = some .is) : Begun [t, u]

/-- A word and too few tokens behind it to tell what starts here. -/
inductive Undecided : List Token → Prop where
  | begun {ts : List Token} (h : Begun ts) : Undecided ts
  | modified (t u v : Token) (modifier : isModifier [t] 0 = true) (word : isWord [u] 0 = true)
    (is : v.kind.keyword? = some .is) : Undecided [t, u, v]
  | payload (t u : Token) (guid : t.kind.keyword? = some .guid) (colon : u.kind = .colon) :
    Undecided [t, u]

/-- What starts here is the same with more tokens behind. -/
structure Decided (more ts : List Token) : Prop where
  assignment : startsAssignment (ts ++ more) 0 = startsAssignment ts 0
  visibility : startsVisibility (ts ++ more) 0 = startsVisibility ts 0
  template : startsTemplate (ts ++ more) 0 = startsTemplate ts 0
  member : startsMember (ts ++ more) 0 = startsMember ts 0
  modifier : (isModifier (ts ++ more) 0 && isWord (ts ++ more) 1) =
    (isModifier ts 0 && isWord ts 1)

variable {ts more : List Token} {n : Nat}

/-- A token that is there stays where more follow. -/
theorem kind?_append (hn : n < ts.length) : kind? (ts ++ more) n = kind? ts n := by
  rw [kind?, kind?, List.getElem?_append_left hn]

/-- So does a word. -/
theorem isWord_append (hn : n < ts.length) : isWord (ts ++ more) n = isWord ts n := by
  rw [isWord, isWord, kind?_append hn]

/-- So does a keyword. -/
theorem isKeyword_append (hn : n < ts.length) (k : Keyword) :
    isKeyword (ts ++ more) n k = isKeyword ts n k := by
  rw [isKeyword, isKeyword, keyword?, keyword?, kind?_append hn]

/-- So does a token of a kind. -/
theorem isKind_append (hn : n < ts.length) (k : TokenKind) :
    isKind (ts ++ more) n k = isKind ts n k := by
  rw [isKind, isKind, kind?_append hn]

/-- So does a payload. -/
theorem isPayload_append (hn : n < ts.length) : isPayload (ts ++ more) n = isPayload ts n := by
  rw [isPayload, isPayload, kind?_append hn]

/-- So does a joint, also behind the last token, since what follows is not joined. -/
theorem isJoined_append (hm : ∀ t ∈ more.head?, t.joined = false) (hn : n ≤ ts.length) :
    isJoined (ts ++ more) n = isJoined ts n := by
  rcases Nat.lt_or_eq_of_le hn with hn | rfl
  · rw [isJoined, isJoined, List.getElem?_append_left hn]
  · rw [isJoined, isJoined, List.getElem?_append_right (Nat.le_refl _), Nat.sub_self,
      List.getElem?_eq_none (Nat.le_refl ts.length), ← List.head?_eq_getElem?]
    cases hh : more.head? with
    | none => rfl
    | some t => exact hm t hh

/-- So does the start of a scope. -/
theorem startsScoped_append (hm : ∀ t ∈ more.head?, t.joined = false) (hts : ts ≠ []) :
    startsScoped (ts ++ more) = startsScoped ts := by
  match ts with
  | [t] =>
    have hj : isJoined ([t] ++ more) 1 = isJoined [t] 1 := isJoined_append hm (Nat.le_refl _)
    rw [startsScoped, startsScoped, hj, isJoined_succ, isJoined_nil, Bool.and_false, Bool.and_false]
  | t :: u :: ts => rfl

/-- A path goes on or ends alike. -/
theorem continuesPath_append (hm : ∀ t ∈ more.head?, t.joined = false) (hts : ts ≠ []) :
    continuesPath (ts ++ more) = continuesPath ts := by
  match ts with
  | [t] =>
    have hj : isJoined ([t] ++ more) 1 = isJoined [t] 1 := isJoined_append hm (Nat.le_refl _)
    rw [continuesPath, continuesPath, hj, isJoined_succ, isJoined_nil, Bool.and_false,
      Bool.and_false]
    rfl
  | t :: u :: ts => rfl

/-! ### Tests of several tokens -/

/-- Only a word starts something that more than one token tells. -/
theorem starts_of_not_isWord (h : isWord ts 0 = false) :
    startsAssignment ts 0 = false ∧ startsVisibility ts 0 = false ∧ startsTemplate ts 0 = false ∧
      startsMember ts 0 = false := by
  rw [startsTemplate, startsVisibility, startsMember, startsAssignment, h,
    isModifier_of_not_isWord h, isKeyword_of_not_isWord h]
  exact ⟨rfl, rfl, rfl, rfl⟩

/-- What is no word is told by itself. -/
theorem decided_of_not_isWord {t : Token} (h : isWord (t :: ts) 0 = false) :
    Decided more (t :: ts) := by
  have h' : isWord (t :: ts ++ more) 0 = false := h
  obtain ⟨ha, hv, ht, hm⟩ := starts_of_not_isWord h
  obtain ⟨ha', hv', ht', hm'⟩ := starts_of_not_isWord h'
  refine ⟨ha'.trans ha.symm, hv'.trans hv.symm, ht'.trans ht.symm, hm'.trans hm.symm, ?_⟩
  rw [isModifier_of_not_isWord h, isModifier_of_not_isWord h', Bool.false_and, Bool.false_and]

/-- An assignment is told by three tokens, or by two that start none. -/
theorem startsAssignment_append
    (h : 2 < ts.length ∨ 1 < ts.length ∧ isKeyword ts 1 .is = false) :
    startsAssignment (ts ++ more) 0 = startsAssignment ts 0 := by
  have h1 : 1 < ts.length := by omega
  rw [startsAssignment, startsAssignment, isWord_append (by omega), isKeyword_append h1]
  rcases h with h | ⟨-, h⟩
  · rw [isKeyword_append h]
  · rw [h, Bool.and_false, Bool.false_and, Bool.false_and]

/-- So is a template. -/
theorem startsTemplate_append (h : 2 < ts.length ∨ 1 < ts.length ∧ isKeyword ts 1 .is = false) :
    startsTemplate (ts ++ more) 0 = startsTemplate ts 0 := by
  have h1 : 1 < ts.length := by omega
  rw [startsTemplate, startsTemplate, startsAssignment_append h, isWord_append h1,
    isKeyword_append (by omega)]

/-- So is a member. -/
theorem startsMember_append (h : 2 < ts.length ∨ 1 < ts.length ∧
    (isKind ts 1 .colon = false ∨ isKeyword ts 0 .guid = false)) :
    startsMember (ts ++ more) 0 = startsMember ts 0 := by
  have h1 : 1 < ts.length := by omega
  rw [startsMember, startsMember, isWord_append (by omega), isKind_append h1, isKind_append h1,
    isKeyword_append (by omega)]
  rcases h with h | ⟨-, h | h⟩
  · rw [isPayload_append h]
  · rw [h, Bool.false_and, Bool.false_and]
  · rw [h, Bool.false_and, Bool.false_and]

/-- Behind a modifier an assignment or a template starts, or neither does. -/
theorem startsVisibility_cons (t : Token) (ts : List Token) : startsVisibility (t :: ts) 0 =
    (isModifier [t] 0 && (startsAssignment ts 0 || startsTemplate ts 0)) := rfl

section Begun

variable {t : Token}

/-- Two tokens behind a word are enough to tell an assignment, and one that is not `is`. -/
theorem begun_or (hw : isWord [t] 0 = true) (ts : List Token) : Begun (t :: ts) ∨
    2 < (t :: ts).length ∨ 1 < (t :: ts).length ∧ isKeyword (t :: ts) 1 .is = false := by
  match ts with
  | [] => exact .inl (.name t hw)
  | [u] =>
    cases hu : isKeyword [t, u] 1 .is with
    | true => exact .inl (.is t u hw (by simpa [isKeyword, keyword?] using hu))
    | false => exact .inr (.inr ⟨Nat.lt_succ_self 1, rfl⟩)
  | u :: v :: ts => exact .inr (.inl (by simp))

/-- An assignment that has not begun does not start where more follow. -/
theorem startsAssignment_of_not_begun (h : ¬ Begun (t :: ts)) :
    startsAssignment (t :: ts ++ more) 0 = startsAssignment (t :: ts) 0 := by
  cases hw : isWord [t] 0 with
  | false => exact Decided.assignment (decided_of_not_isWord hw)
  | true => exact startsAssignment_append ((begun_or hw ts).resolve_left h)

/-- Nor does a template. -/
theorem startsTemplate_of_not_begun (h : ¬ Begun (t :: ts)) :
    startsTemplate (t :: ts ++ more) 0 = startsTemplate (t :: ts) 0 := by
  cases hw : isWord [t] 0 with
  | false => exact Decided.template (decided_of_not_isWord hw)
  | true => exact startsTemplate_append ((begun_or hw ts).resolve_left h)

end Begun

/-! ### What is started where more is open -/

section Shapes

variable {t u v : Token} {k : Keyword}

/-- The keyword at a place. -/
theorem isKeyword_iff (n : Nat) : isKeyword ts n k = true ↔ keyword? ts n = some k := by
  rw [isKeyword, beq_iff_eq]

/-- A word alone starts nothing that another token tells. -/
theorem starts_one (t : Token) : startsAssignment [t] 0 = false ∧ startsVisibility [t] 0 = false ∧
    startsMember [t] 0 = false := by
  have hbehind : isKeyword [t] 1 .is = false := rfl
  have ha : startsAssignment [t] 0 = false := by
    rw [startsAssignment, hbehind, Bool.and_false, Bool.false_and]
  refine ⟨ha, Bool.and_false _, Bool.and_false _⟩

/-- A word in front of `is` starts an assignment. -/
theorem startsAssignment_is (hw : isWord [t] 0 = true) (hu : u.kind.keyword? = some .is) :
    startsAssignment [t, u] 0 = true := by
  have his : isKeyword [t, u] 1 .is = true := (isKeyword_iff 1).2 hu
  rw [startsAssignment, his, show isWord [t, u] 0 = true from hw]
  rfl

/-- A declaration is taken for an assignment where the end leaves it open. -/
theorem startsTemplate_begun (h : Begun ts) : startsTemplate ts 0 = false := by
  cases h with
  | name t word => rw [startsTemplate, show isWord [t] 1 = false from rfl, Bool.and_false,
      Bool.false_and]
  | is t u word his => rw [startsTemplate, startsAssignment_is word his, Bool.not_true,
      Bool.and_false]

/-- Behind a modifier such a word starts a declaration. -/
theorem starts_modified (ht : isModifier [t] 0 = true) (hu : isWord [u] 0 = true)
    (hv : v.kind.keyword? = some .is) :
    startsAssignment [t, u, v] 0 = false ∧ startsVisibility [t, u, v] 0 = true := by
  have his : isKeyword [t, u, v] 2 .is = true := (isKeyword_iff 2).2 hv
  constructor
  · rw [startsAssignment, his, Bool.not_true, Bool.and_false]
  · rw [startsVisibility_cons, ht, startsAssignment_is hu hv]
    rfl

/-- An open payload is taken for the type of a member. -/
theorem starts_payload (ht : t.kind.keyword? = some .guid) (hu : u.kind = .colon) :
    startsAssignment [t, u] 0 = false ∧ startsVisibility [t, u] 0 = false ∧
      startsMember [t, u] 0 = true := by
  have hguid : keyword? [t, u] 0 = some .guid := ht
  have hcolon : kind? [t, u] 1 = some .colon := congrArg some hu
  refine ⟨?_, ?_, ?_⟩
  · rw [startsAssignment, isKeyword, keyword?, hcolon]
    exact Bool.and_eq_false_iff.2 (.inl (Bool.and_false _))
  · rw [startsVisibility, isModifier, hguid, Bool.false_and]
  · have hpayload : isPayload [t, u] 2 = false := rfl
    rw [startsMember, isWord_of_isKeyword ((isKeyword_iff 0).2 hguid), isKind, isKind, hcolon,
      hpayload, Bool.and_false]
    rfl

/-- A word at the front that is read alone, whatever class it is of. -/
structure Alone (ts : List Token) : Prop where
  assignment : startsAssignment ts 0 = false
  visibility : startsVisibility ts 0 = false
  object : isKind ts 1 .lparen = false
  bracket : isKind ts 1 .lbracket = false
  payload : isKind ts 1 .colon = false
  path : continuesPath ts.tail = false

/-- One word is alone. -/
theorem alone_one (t : Token) : Alone [t] :=
  ⟨(starts_one t).1, (starts_one t).2.1, rfl, rfl, rfl, rfl⟩

/-- A word is no sign. -/
theorem isKind_of_isWord {kind : TokenKind} (hu : isWord [u] 0 = true)
    (hk : kind.isWord = false) : isKind [u] 0 kind = false :=
  Bool.eq_false_iff.2 fun h => by
    have hkind : u.kind = kind := by simpa [isKind] using h
    have hword : u.kind.isWord = true := hu
    rw [hkind, hk] at hword
    cases hword

/-- In front of a word that is not `is`, all but a modifier is read alone. -/
theorem alone_two (ht : isModifier [t] 0 = false) (hu : isWord [u] 0 = true)
    (his : isKeyword [u] 0 .is = false) : Alone [t, u] := by
  have hne {kind : TokenKind} : kind.isWord = false → isKind [u] 0 kind = false :=
    isKind_of_isWord hu
  refine ⟨?_, ?_, hne rfl, hne rfl, hne rfl, ?_⟩
  · rw [startsAssignment, show isKeyword [t, u] 1 .is = false from his, Bool.and_false,
      Bool.false_and]
  · rw [startsVisibility_cons, ht, Bool.false_and]
  · rw [List.tail_cons, continuesPath, hne rfl, hne rfl, hne rfl, Bool.or_false,
      Bool.false_and, Bool.false_and, Bool.or_false, Bool.and_false]

end Shapes

/-- Behind a modifier no less can be told than in front of it. -/
theorem not_begun_of_modifier {t u : Token} (hm : isModifier [t] 0 = true)
    (h : ¬ Undecided (t :: u :: ts)) (hd : ts = [] → dangles t u = false) :
    ¬ Begun (u :: ts) := by
  intro hb
  cases hb with
  | name _ hu =>
    cases his : isKeyword [t, u] 1 .is with
    | true =>
      exact h (.begun (.is t u (isWord_of_isModifier hm) ((isKeyword_iff 1).1 his)))
    | false =>
      have hd' : (isModifier [t] 0 && isWord [u] 0 && !isKeyword [t, u] 1 .is ||
          isKeyword [t, u] 0 .div && isKeyword [t, u] 1 .is) = false := hd rfl
      rw [hm, hu, his] at hd'
      cases hd'
  | is _ v hu his => exact h (.modified t u v hm hu his)

/-- Of what `div` could start nothing is open but in front of the end. -/
theorem not_undecided_of_div {t : Token} (ht : t.kind.keyword? = some .div) (hne : ts ≠ [])
    (hd : ∀ u, ts = [u] → dangles t u = false) : ¬ Undecided (t :: ts) := by
  have hdiv : keyword? [t] 0 = some .div := ht
  intro h
  cases h with
  | begun h =>
    cases h with
    | name => exact hne rfl
    | is _ u _ hu =>
      have hlast : (isKeyword [t, u] 0 .div && isKeyword [t, u] 1 .is) = true :=
        Bool.and_eq_true_iff.2 ⟨(isKeyword_iff 0).2 ht, (isKeyword_iff 1).2 hu⟩
      have hopen := hd u rfl
      rw [dangles, hlast, Bool.or_true] at hopen
      cases hopen
  | modified _ u v hm =>
    rw [isModifier, hdiv] at hm
    cases hm
  | payload _ u hguid =>
    rw [ht] at hguid
    cases hguid

/-- **More tokens behind change what starts here only in front of a few.** -/
theorem decided {t : Token} (h : ¬ Undecided (t :: ts))
    (hd : ∀ u, ts = [u] → dangles t u = false) : Decided more (t :: ts) := by
  have hb : ¬ Begun (t :: ts) := fun hb => h (.begun hb)
  cases ht : isWord [t] 0 with
  | false => exact decided_of_not_isWord ht
  | true =>
    obtain ⟨u, us, rfl⟩ := List.exists_cons_of_ne_nil (l := ts) (by
      rintro rfl
      exact hb (.name t ht))
    refine ⟨startsAssignment_of_not_begun hb, ?_, startsTemplate_of_not_begun hb, ?_, rfl⟩
    · rw [List.cons_append, startsVisibility_cons, startsVisibility_cons]
      cases hm : isModifier [t] 0 with
      | false => rw [Bool.false_and, Bool.false_and]
      | true =>
        have hbehind := not_begun_of_modifier hm h fun hus => hd u (hus ▸ rfl)
        rw [startsAssignment_of_not_begun hbehind, startsTemplate_of_not_begun hbehind]
    · refine startsMember_append ?_
      match us with
      | [] =>
        refine .inr ⟨Nat.lt_succ_self 1, ?_⟩
        rw [← Bool.and_eq_false_iff]
        refine Bool.eq_false_iff.2 fun hu => ?_
        rw [Bool.and_eq_true] at hu
        exact h (.payload t u (by simpa [isKeyword, keyword?] using hu.2)
          (by simpa [isKind] using hu.1))
      | v :: us => exact .inl (by simp)

end Lookahead
end Ndf
