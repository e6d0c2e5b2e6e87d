/-
# Tokens that look the same from in front

What starts at a place is told by the tokens ahead, word by word up to the first sign.  A list of
tokens `Resembles` another one if that much of them is the same: their words are of the same
classes, and the first sign is of the same kind.  A comma and a closing bracket are the same to
every test, and so is the end (`Done`).  All tests of the grammar agree on such lists
(`Resembles.startsAssignment` and so on).

Between the parameters of a template a comma may be missing, and canonical text has one there: the
words of the next parameter are `cut` off.  Lists that are the same up to such a cut agree on less.
`Follow` says what has to hold of what follows a node, so that the node is read the same in front of
either list.
-/

import Ndf.Parser.Expression

namespace Ndf

namespace Lookahead

variable {cut : Bool} {t u : Token} {ts us : List Token} {k : WordClass} {n : Nat}

/-- What follows ends everything that is open: nothing, a comma or a closing bracket. -/
def Done (ts : List Token) : Prop := ∀ t ∈ ts.head?, t.kind = .comma ∨ t.kind = .rbracket

/-- The same words and the same first sign. -/
inductive Resembles (cut : Bool) : List Token → List Token → Prop where
  | done {ts us : List Token} : Done ts → Done us → Resembles cut ts us
  /-- A payload behind a colon makes it that of a guid. -/
  | sign {t u : Token} {ts us : List Token} : t.kind = u.kind → t.kind.isWord = false →
      (t.kind = .colon → isPayload ts 0 = isPayload us 0) → Resembles cut (t :: ts) (u :: us)
  | word {t u : Token} {ts us : List Token} {k : WordClass} : t.kind.wordClass? = some k →
      u.kind.wordClass? = some k → Resembles cut ts us → Resembles cut (t :: ts) (u :: us)
  /-- An end where words followed. -/
  | cut {t : Token} {ts us : List Token} : cut = true → t.kind.isWord = true → Done us →
      Resembles cut (t :: ts) us

/-! ### Tests, token by token -/

/-- A kind one token later is that of the tail. -/
theorem kind?_tail (ts : List Token) (n : Nat) : kind? ts (n + 1) = kind? ts.tail n := by
  cases ts <;> rfl

/-- A word one token later is one of the tail. -/
theorem isWord_tail (ts : List Token) (n : Nat) : isWord ts (n + 1) = isWord ts.tail n := by
  rw [isWord, kind?_tail, isWord]

/-- So is a keyword. -/
theorem isKeyword_tail (ts : List Token) (n : Nat) (k : Keyword) :
    isKeyword ts (n + 1) k = isKeyword ts.tail n k := by
  rw [isKeyword, keyword?, kind?_tail, isKeyword, keyword?]

/-- So is a sign. -/
theorem isKind_tail (ts : List Token) (n : Nat) (kind : TokenKind) :
    isKind ts (n + 1) kind = isKind ts.tail n kind := by
  rw [isKind, kind?_tail, isKind]

/-- So is a payload. -/
theorem isPayload_tail (ts : List Token) (n : Nat) :
    isPayload ts (n + 1) = isPayload ts.tail n := by
  rw [isPayload, kind?_tail, isPayload]

/-- So is an assignment that starts there. -/
theorem startsAssignment_tail (ts : List Token) (n : Nat) :
    startsAssignment ts (n + 1) = startsAssignment ts.tail n := by
  simp only [startsAssignment, isWord_tail, isKeyword_tail]

/-- So is a template. -/
theorem startsTemplate_tail (ts : List Token) (n : Nat) :
    startsTemplate ts (n + 1) = startsTemplate ts.tail n := by
  simp only [startsTemplate, isWord_tail, isKeyword_tail, startsAssignment_tail]

/-- The class of the word that comes next. -/
def wordClass? (ts : List Token) : Option WordClass := (kind? ts 0).bind TokenKind.wordClass?

/-- A token is a word if it has a class. -/
theorem isWord_eq (ts : List Token) : isWord ts 0 = (wordClass? ts).isSome := by
  rw [isWord, wordClass?]
  cases kind? ts 0 <;> rfl

/-- It is a keyword by its class. -/
theorem keyword?_eq (ts : List Token) :
    keyword? ts 0 = (wordClass? ts).bind WordClass.keyword? := by
  rw [keyword?, wordClass?]
  cases kind? ts 0 <;> rfl

/-- A keyword has a class. -/
theorem wordClass?_of_isKeyword {k : Keyword} (h : isKeyword ts 0 k = true) :
    ∃ c, wordClass? ts = some c := by
  rw [isKeyword, keyword?_eq, beq_iff_eq] at h
  exact (Option.bind_eq_some_iff.1 h).imp fun _ h => h.1

/-- Where nothing goes on, no word is next. -/
theorem Done.wordClass? (h : Done ts) : wordClass? ts = none := by
  cases ts with
  | nil => rfl
  | cons t ts =>
    rcases h t rfl with hk | hk <;> simp [Lookahead.wordClass?, hk, TokenKind.wordClass?]

/-- Nothing goes on in front of a comma or a closing bracket. -/
theorem Done.of_isKind {kind : TokenKind} (h : isKind ts 0 kind = true)
    (hk : kind = .comma ∨ kind = .rbracket) : Done ts := by
  rintro t ht
  rw [Option.mem_def, List.head?_eq_some_iff] at ht
  obtain ⟨ts, rfl⟩ := ht
  rw [isKind, kind?_zero, beq_iff_eq, Option.some.injEq] at h
  rwa [h]

/-- Where nothing goes on, no other sign is next. -/
theorem Done.isKind (h : Done ts) {kind : TokenKind} (hc : kind ≠ .comma) (hb : kind ≠ .rbracket) :
    isKind ts 0 kind = false := by
  cases ts with
  | nil => rfl
  | cons t ts =>
    refine beq_false_of_ne fun hk => ?_
    rcases h t rfl with h | h
    · exact hc ((Option.some.inj hk).symm.trans h)
    · exact hb ((Option.some.inj hk).symm.trans h)

namespace Resembles

/-- Tokens resemble themselves. -/
theorem refl (cut : Bool) (ts : List Token) : Resembles cut ts ts := by
  induction ts with
  | nil => exact .done nofun nofun
  | cons t ts ih =>
    cases hk : t.kind.wordClass? with
    | none => exact .sign rfl (by rw [TokenKind.isWord, hk]; rfl) fun _ => rfl
    | some k => exact .word hk hk ih

/-- Without a cut resemblance goes both ways. -/
theorem symm (h : Resembles false ts us) : Resembles false us ts := by
  induction h with
  | done h h' => exact .done h' h
  | sign hk hw hp => exact .sign hk.symm (hk ▸ hw) fun hc => (hp (hk.trans hc)).symm
  | word h h' _ ih => exact .word h' h ih
  | cut h => cases h

/-- What is the same is the same up to a cut. -/
theorem weaken (h : Resembles false ts us) (cut : Bool) : Resembles cut ts us := by
  induction h with
  | done h h' => exact .done h h'
  | sign hk hw hp => exact .sign hk hw hp
  | word h h' _ ih => exact .word h h' ih
  | cut h => cases h

/-- A word that is left in the second list is there in the first, and so on behind it. -/
theorem of_word (h : Resembles cut ts us) (hu : wordClass? us = some k) :
    wordClass? ts = some k ∧ Resembles cut ts.tail us.tail := by
  cases h with
  | done _ h' =>
    rw [h'.wordClass?] at hu
    cases hu
  | sign hk hw =>
    have hu : TokenKind.wordClass? _ = some k := hu
    rw [← hk] at hu
    rw [TokenKind.isWord, hu] at hw
    cases hw
  | word ht hu' hrest => exact ⟨ht.trans (hu'.symm.trans hu), hrest⟩
  | cut _ _ h' =>
    rw [h'.wordClass?] at hu
    cases hu

/-- Behind a word of the second list the rest of both is alike. -/
theorem tail (h : Resembles cut ts us) (hu : isWord us 0 = true) :
    Resembles cut ts.tail us.tail := by
  rw [isWord_eq] at hu
  obtain ⟨k, hk⟩ := Option.isSome_iff_exists.1 hu
  exact (h.of_word hk).2

/-- A word of the second list is one of the first. -/
theorem isWord_of (h : Resembles cut ts us) (hu : isWord us 0 = true) : isWord ts 0 = true := by
  rw [isWord_eq] at hu ⊢
  obtain ⟨k, hk⟩ := Option.isSome_iff_exists.1 hu
  rw [(h.of_word hk).1]
  rfl

/-- So is a keyword. -/
theorem isKeyword_of (h : Resembles cut ts us) {k : Keyword} (hu : isKeyword us 0 k = true) :
    isKeyword ts 0 k = true := by
  obtain ⟨c, hc⟩ := wordClass?_of_isKeyword hu
  rw [isKeyword, keyword?_eq] at hu ⊢
  rwa [(h.of_word hc).1, ← hc]

/-- A sign that is left in the second list is there in the first. -/
theorem isKind_of (h : Resembles cut ts us) {kind : TokenKind} (hw : kind.isWord = false)
    (hc : kind ≠ .comma) (hb : kind ≠ .rbracket) (hu : isKind us 0 kind = true) :
    isKind ts 0 kind = true := by
  cases h with
  | done _ h' =>
    rw [h'.isKind hc hb] at hu
    cases hu
  | sign hk => exact beq_iff_eq.2 ((congrArg some hk).trans (beq_iff_eq.1 hu))
  | word _ h' =>
    rw [isKind, kind?_zero, beq_iff_eq, Option.some.injEq] at hu
    rw [TokenKind.isWord, ← hu, h'] at hw
    cases hw
  | cut _ _ h' =>
    rw [h'.isKind hc hb] at hu
    cases hu

/-- Whether a payload comes next. -/
theorem isPayload_eq (h : Resembles cut ts us) : isPayload ts 0 = isPayload us 0 := by
  have hdone {ts : List Token} (h : Done ts) : isPayload ts 0 = false := by
    cases ts with
    | nil => rfl
    | cons t ts => rcases h t rfl with hk | hk <;> simp [isPayload, hk]
  have hword {t : Token} {ts : List Token} {k : WordClass} (h : t.kind.wordClass? = some k) :
      isPayload (t :: ts) 0 = false := by
    cases hk : t.kind with
    | word => simp [isPayload, hk]
    | _ =>
      rw [hk] at h
      cases h
  cases h with
  | done h h' => rw [hdone h, hdone h']
  | sign hk => simp [isPayload, hk]
  | word h h' => rw [hword h, hword h']
  | cut _ h h' =>
    obtain ⟨k, hk⟩ := Option.isSome_iff_exists.1 h
    rw [hword hk, hdone h']

/-- Behind a colon they agree on payloads. -/
theorem isPayload_behind (h : Resembles cut ts us) (hu : isKind us 0 .colon = true) :
    isPayload ts.tail 0 = isPayload us.tail 0 := by
  cases h with
  | done _ h' =>
    rw [h'.isKind (by simp) (by simp)] at hu
    cases hu
  | sign hk _ hp => exact hp (hk.trans (Option.some.inj (beq_iff_eq.1 hu)))
  | word _ _ h => exact h.isPayload_eq
  | cut _ _ h' =>
    rw [h'.isKind (by simp) (by simp)] at hu
    cases hu

/-- The first token is kept: a sign is the same, and a word is one of the same class. -/
theorem head (h : Resembles false (t :: ts) us) (hd : ¬ Done (t :: ts)) : ∃ u us', us = u :: us' ∧
    (t.kind = u.kind ∨ ∃ k, t.kind.wordClass? = some k ∧ u.kind.wordClass? = some k) := by
  cases h with
  | done h _ => exact absurd h hd
  | sign hk => exact ⟨_, _, rfl, .inl hk⟩
  | word ht hu => exact ⟨_, _, rfl, .inr ⟨_, ht, hu⟩⟩
  | cut h => cases h

/-! ### Tests that agree -/

/-- The first words are of the same class. -/
theorem wordClass?_eq (h : Resembles false ts us) : wordClass? ts = wordClass? us := by
  cases hu : wordClass? us with
  | some k => exact (h.of_word hu).1
  | none =>
    cases ht : wordClass? ts with
    | none => rfl
    | some k =>
      rw [(h.symm.of_word ht).1] at hu
      cases hu

/-- So both lists start with a word, or neither does. -/
theorem isWord_eq (h : Resembles false ts us) : isWord ts 0 = isWord us 0 := by
  rw [Lookahead.isWord_eq, Lookahead.isWord_eq, h.wordClass?_eq]

/-- And with the same keyword. -/
theorem keyword?_eq (h : Resembles false ts us) : keyword? ts 0 = keyword? us 0 := by
  rw [Lookahead.keyword?_eq, Lookahead.keyword?_eq, h.wordClass?_eq]

/-- Tests for a keyword agree. -/
theorem isKeyword_eq (h : Resembles false ts us) (k : Keyword) :
    isKeyword ts 0 k = isKeyword us 0 k := by
  rw [isKeyword, isKeyword, h.keyword?_eq]

/-- Tests for a sign agree, but for a comma and a closing bracket. -/
theorem isKind_eq (h : Resembles false ts us) {kind : TokenKind} (hw : kind.isWord = false)
    (hc : kind ≠ .comma) (hb : kind ≠ .rbracket) : isKind ts 0 kind = isKind us 0 kind :=
  Bool.eq_iff_iff.2 ⟨h.symm.isKind_of hw hc hb, h.isKind_of hw hc hb⟩

/-- A test that goes on behind a word agrees, if what it goes on with does. -/
theorem and_tail (h : Resembles false ts us) {p : Bool} (hp : p = true → isWord us 0 = true)
    {f : List Token → Bool} (hf : ∀ {ts us}, Resembles false ts us → f ts = f us) :
    (p && f ts.tail) = (p && f us.tail) := by
  cases p with
  | false => rfl
  | true => rw [hf (h.tail (hp rfl))]

/-- An assignment starts in both lists, or in neither. -/
theorem startsAssignment (h : Resembles false ts us) :
    startsAssignment ts 0 = startsAssignment us 0 := by
  have bound {ts us : List Token} (h : Resembles false ts us) :
      (isKeyword ts 0 .is && !isKeyword ts.tail 0 .is) =
        (isKeyword us 0 .is && !isKeyword us.tail 0 .is) := by
    rw [h.isKeyword_eq]
    exact h.and_tail isWord_of_isKeyword (f := fun ts => !isKeyword ts 0 .is)
      fun h => congrArg not (h.isKeyword_eq _)
  simp only [Lookahead.startsAssignment, isKeyword_tail, Bool.and_assoc, h.isWord_eq]
  exact h.and_tail id bound

/-- So does a template. -/
theorem startsTemplate (h : Resembles false ts us) : startsTemplate ts 0 = startsTemplate us 0 := by
  simp only [Lookahead.startsTemplate, isWord_tail, h.startsAssignment, h.isKeyword_eq]
  rw [h.and_tail isWord_of_isKeyword (f := (isWord · 0)) fun h => h.isWord_eq]

/-- Both start with a modifier, or neither does. -/
theorem isModifier (h : Resembles false ts us) : isModifier ts 0 = isModifier us 0 := by
  rw [Lookahead.isModifier, h.keyword?_eq, Lookahead.isModifier]

/-- So do declarations behind modifiers. -/
theorem startsVisibility (h : Resembles false ts us) :
    startsVisibility ts 0 = startsVisibility us 0 := by
  simp only [Lookahead.startsVisibility, startsAssignment_tail, startsTemplate_tail, h.isModifier]
  exact h.and_tail isWord_of_isModifier
    (f := fun ts => Lookahead.startsAssignment ts 0 || Lookahead.startsTemplate ts 0)
    fun h => by rw [h.startsAssignment, h.startsTemplate]

/-- The test of a broken modifier. -/
theorem isModifier_isWord (h : Resembles false ts us) :
    (Lookahead.isModifier ts 0 && isWord ts 1) = (Lookahead.isModifier us 0 && isWord us 1) := by
  simp only [isWord_tail, h.isModifier]
  exact h.and_tail isWord_of_isModifier (f := (isWord · 0)) fun h => h.isWord_eq

/-- So do unnamed objects. -/
theorem startsUnnamed (h : Resembles false ts us) : startsUnnamed ts 0 = startsUnnamed us 0 := by
  have called {ts us : List Token} (h : Resembles false ts us) :
      (isWord ts 0 && isKind ts.tail 0 .lparen) = (isWord us 0 && isKind us.tail 0 .lparen) := by
    rw [h.isWord_eq]
    exact h.and_tail id (f := (isKind · 0 .lparen)) fun h => h.isKind_eq rfl (by simp) (by simp)
  simp only [Lookahead.startsUnnamed, isWord_tail, isKind_tail, Bool.and_assoc, h.isKeyword_eq]
  exact h.and_tail isWord_of_isKeyword called

/-- So do members. -/
theorem startsMember (h : Resembles false ts us) : startsMember ts 0 = startsMember us 0 := by
  have signed (guid : Bool) {ts us : List Token} (h : Resembles false ts us) :
      (isKind ts 0 .eq || (isKind ts 0 .colon && !(guid && isPayload ts.tail 0))) =
        (isKind us 0 .eq || (isKind us 0 .colon && !(guid && isPayload us.tail 0))) := by
    rw [h.isKind_eq rfl (by simp) (by simp), h.isKind_eq rfl (by simp) (by simp)]
    cases hc : isKind us 0 .colon with
    | false => rfl
    | true => rw [h.isPayload_behind hc]
  simp only [Lookahead.startsMember, isKind_tail, isPayload_tail, h.isWord_eq, h.isKeyword_eq]
  exact h.and_tail id (signed _)

/-- Where nothing goes on, no operator is next. -/
theorem operator?_done (h : Done ts) : Parser.operator? ts = none := by
  cases ts with
  | nil => rfl
  | cons t ts => rcases h t rfl with hk | hk <;> simp [Parser.operator?, hk]

/-- Of the words only `div` is an operator, where it starts nothing. -/
theorem operator?_word (h : t.kind.wordClass? = some k) : Parser.operator? (t :: ts) =
    if k = .keyword .div then
      if Lookahead.startsAssignment (t :: ts) 0 || Lookahead.startsMember (t :: ts) 0 then none
      else some (.binary .div)
    else none := by
  cases hk : t.kind with
  | word text c =>
    rw [hk] at h
    cases h
    simp only [Parser.operator?, kind?_zero, hk]
    split <;> simp_all
  | _ =>
    rw [hk] at h
    cases h

/-- A sign is an operator by its kind. -/
theorem operator?_sign (hk : t.kind = u.kind) (hw : t.kind.isWord = false) :
    Parser.operator? (t :: ts) = Parser.operator? (u :: us) := by
  simp only [Parser.operator?, kind?_zero, ← hk]
  split <;> simp_all [TokenKind.isWord, TokenKind.wordClass?]

/-- The same operator is next in both lists. -/
theorem operator? (h : Resembles false ts us) : Parser.operator? ts = Parser.operator? us := by
  cases h with
  | done h h' => rw [operator?_done h, operator?_done h']
  | sign hk hw => exact operator?_sign hk hw
  | word ht hu h =>
    have h := Resembles.word ht hu h
    rw [operator?_word ht, operator?_word hu, h.startsAssignment, h.startsMember]
  | cut h => cases h

end Resembles

/-- Nothing is joined that would continue a name. -/
def Detached (ts : List Token) : Prop := ∀ t ∈ ts.head?, t.joined = true →
  t.kind ≠ .lbracket ∧ t.kind ≠ .slash ∧ t.kind ≠ .dot ∧ t.kind ≠ .lt

/-- No path goes on with a token that is not joined. -/
theorem Detached.continuesPath (h : Detached ts) : continuesPath ts = false := by
  cases ts with
  | nil => rfl
  | cons t ts =>
    cases hj : t.joined with
    | false => simp [Lookahead.continuesPath, hj]
    | true =>
      obtain ⟨h1, h2, h3, -⟩ := h t rfl hj
      simp [Lookahead.continuesPath, isKind, h1, h2, h3]

/-- Nor do the parameters of a type start with one. -/
theorem Detached.ends_type (h : Detached ts) : (isKind ts 0 .lt && isJoined ts 0) = false := by
  cases ts with
  | nil => rfl
  | cons t ts =>
    cases hj : t.joined with
    | false => simp [hj]
    | true => simp [isKind, (h t rfl hj).2.2.2]

/-- Nor does a vector. -/
theorem Detached.ends_name (h : Detached ts) :
    (isKind ts 0 .lbracket && isJoined ts 0) = false := by
  cases ts with
  | nil => rfl
  | cons t ts =>
    cases hj : t.joined with
    | false => simp [hj]
    | true => simp [isKind, (h t rfl hj).1]

/-- What was followed by `ts` can be followed by `us`.  In front of a cut this is not so of what
ends in `div is`. -/
structure Follow (endsInDivIs : Bool) (ts us : List Token) : Prop where
  resembles : Resembles true ts us
  operator : Parser.operator? us = Parser.operator? ts
  assignment : isKeyword us 0 .is = true → isKeyword us.tail 0 .is = false →
    isKeyword ts 0 .is = true ∧ isKeyword ts.tail 0 .is = false
  declared : startsAssignment us 0 = true → startsAssignment ts 0 = true
  templated : startsTemplate us 0 = true → startsTemplate ts 0 = true
  detached : Detached us
  whole : isWord ts 0 = true → Done us → endsInDivIs = false

namespace Follow

variable {b b' : Bool}

/-- What looks the same may follow any node. -/
theorem of_resembles (h : Resembles false ts us) (hl : Detached us) (b : Bool) :
    Follow b ts us where
  resembles := h.weaken true
  operator := h.operator?.symm
  assignment h0 h1 := by
    have htail := h.tail (isWord_of_isKeyword h0)
    exact ⟨h.isKeyword_of h0, htail.isKeyword_eq _ ▸ h1⟩
  declared h0 := h.startsAssignment ▸ h0
  templated h0 := h.startsTemplate ▸ h0
  detached := hl
  whole hw hd := by
    rw [h.isWord_eq, Lookahead.isWord_eq, hd.wordClass?] at hw
    cases hw

/-- A node that ends otherwise asks for less. -/
theorem mono (h : Follow b ts us) (hb : b = false → b' = false) : Follow b' ts us :=
  { h with whole := fun hw hc => hb (h.whole hw hc) }

/-- In front of what ends everything. -/
theorem done (h : Done ts) (h' : Done us) (b : Bool) : Follow b ts us :=
  of_resembles (.done h h') (fun t ht _ => by rcases h' t ht with hk | hk <;> simp [hk]) b

/-- In front of a sign. -/
theorem sign (hk : t.kind = u.kind) (hw : t.kind.isWord = false)
    (hp : t.kind = .colon → isPayload ts 0 = isPayload us 0)
    (hl : u.joined = true → u.kind ≠ .lbracket ∧ u.kind ≠ .slash ∧ u.kind ≠ .dot ∧ u.kind ≠ .lt)
    (b : Bool) : Follow b (t :: ts) (u :: us) :=
  of_resembles (.sign hk hw hp) (by rintro u ⟨⟩; exact hl) b

/-- In front of an end where words followed. -/
theorem cutOff (ht : isWord ts 0 = true) (ho : Parser.operator? ts = none) (h : Done us) :
    Follow false ts us := by
  have hword : isWord us 0 = false := by rw [isWord_eq, h.wordClass?]; rfl
  refine ⟨?_, ?_, fun h => ?_, fun h => ?_, fun h => ?_, fun t ht _ => ?_, fun _ _ => rfl⟩
  · cases ts with
    | nil => cases ht
    | cons t ts => exact .cut rfl ht h
  · rw [ho, Resembles.operator?_done h]
  · rw [isKeyword_of_not_isWord hword] at h
    cases h
  · rw [startsAssignment, hword] at h
    cases h
  · rw [startsTemplate, isKeyword_of_not_isWord hword] at h
    cases h
  · rcases h t ht with hk | hk <;> simp [hk]

/-- A word that starts no assignment starts none in front of what can follow instead. -/
theorem startsAssignment (h : Follow b ts us) (hw : t.kind.isWord = true)
    (ht : Lookahead.startsAssignment (t :: ts) 0 = false) :
    Lookahead.startsAssignment (u :: us) 0 = false := by
  rw [← Bool.not_eq_true]
  intro hu
  simp only [Lookahead.startsAssignment, isKeyword_tail, List.tail_cons, Bool.and_eq_true,
    Bool.not_eq_true'] at hu
  have hbound := h.assignment hu.1.2 hu.2
  have hword : isWord (t :: ts) 0 = true := hw
  simp [Lookahead.startsAssignment, isKeyword_tail, hbound, hword] at ht

/-- Behind a modifier no declaration starts in either list. -/
theorem startsVisibility (h : Follow b ts us) (hk : t.kind.keyword? = u.kind.keyword?)
    (ht : Lookahead.startsVisibility (t :: ts) 0 = false) :
    Lookahead.startsVisibility (u :: us) 0 = false := by
  have hkeyword : keyword? (t :: ts) 0 = keyword? (u :: us) 0 := hk
  simp only [Lookahead.startsVisibility, startsAssignment_tail, startsTemplate_tail,
    List.tail_cons, isModifier, hkeyword] at ht ⊢
  rw [Bool.and_eq_false_iff, Bool.or_eq_false_iff] at ht ⊢
  refine ht.imp id fun ⟨h1, h2⟩ => ⟨?_, ?_⟩
  · exact Bool.eq_false_iff.2 fun hu => by rw [h.declared hu] at h1; cases h1
  · exact Bool.eq_false_iff.2 fun hu => by rw [h.templated hu] at h2; cases h2

end Follow
end Lookahead
end Ndf
