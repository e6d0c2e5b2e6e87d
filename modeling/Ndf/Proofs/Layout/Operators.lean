/-
# Operators read again

An operator is an operator again because what stands behind it is similar to what stood there.  For
the word `div` this takes a look at its right side: in front of a comma, `div is` would be the start
of an assignment.  What a climb adds to its left side is `Grown`, one operator at a time.
-/

import Ndf.Proofs.Form.Grammar
import Ndf.Proofs.Layout.Operand

namespace Ndf

attribute [local simp] Layout.Script.expr Relabel.expr

namespace Lookahead.Resembles

variable {cut : Bool} {ts us : List Token}

/-- A member starts in front of tokens that look the same, cut off or not. -/
theorem startsMember_of (h : Resembles cut ts us) (hu : Lookahead.startsMember us 0 = true) :
    Lookahead.startsMember ts 0 = true := by
  simp only [Lookahead.startsMember, isKind_tail, isPayload_tail, Bool.and_eq_true,
    Bool.or_eq_true, Bool.not_eq_true'] at hu ⊢
  have htail := h.tail hu.1
  refine ⟨h.isWord_of hu.1, hu.2.imp (htail.isKind_of rfl (by simp) (by simp)) fun hcolon =>
    ⟨htail.isKind_of rfl (by simp) (by simp) hcolon.1, ?_⟩⟩
  obtain ⟨hk, hp⟩ := hcolon
  rw [htail.isPayload_behind hk]
  obtain ⟨k, hk⟩ := Option.isSome_iff_exists.1 (Lookahead.isWord_eq us ▸ hu.1)
  rwa [isKeyword, Lookahead.keyword?_eq, (h.of_word hk).1, ← hk, ← Lookahead.keyword?_eq,
    ← isKeyword]

/-- A keyword stands first again, unless all that followed was cut off. -/
theorem isKeyword_or_done (h : Resembles cut ts us) {k : Keyword} (ht : isKeyword ts 0 k = true) :
    isKeyword us 0 k = true ∨ Done us := by
  cases h with
  | done _ h => exact .inr h
  | sign hk =>
    refine .inl ?_
    rwa [isKeyword, keyword?, kind?_zero, ← hk]
  | @word t u _ _ k' h h' =>
    refine .inl ?_
    have hk : t.kind.keyword? = u.kind.keyword? := by rw [TokenKind.keyword?, h, ← h']; rfl
    rwa [isKeyword, keyword?, kind?_zero, Option.bind_some, ← hk]
  | cut _ _ h => exact .inr h

end Lookahead.Resembles

namespace Parser

open Layout (Margin Script)
open Lookahead (Resembles Done Mirrors Follow Detached isKind isJoined isWord isKeyword isPayload)
open Piece (tokensFrom sign word operator)

variable {S : Scene} {g : Grammar} {src : Source} {n : Nat} {ts us us' : List Token} {t : Token}

/-! ### The token of an operator -/

/-- An operator is a token. -/
theorem exists_of_operator? {o : Operator} (h : operator? ts = some o) : ∃ t us, ts = t :: us := by
  cases ts with
  | nil => cases h
  | cons t us => exact ⟨t, us, rfl⟩

/-- A question mark is one by its kind. -/
theorem kind_of_question (h : operator? (t :: ts) = some .question) : t.kind = .question := by
  simp only [operator?, Lookahead.kind?_zero] at h
  split at h <;> simp_all

/-- The word `div` is one by its class. -/
theorem wordClass?_of_div (h : operator? (t :: ts) = some (.binary .div)) :
    t.kind.wordClass? = some (.keyword .div) := by
  simp only [operator?, Lookahead.kind?_zero] at h
  split at h <;> simp_all [TokenKind.wordClass?]

/-- Any other operator is one by its kind. -/
theorem kind_of_binary {op : BinaryOp} (h : operator? (t :: ts) = some (.binary op))
    (hop : op ≠ .div) : t.kind = op.token := by
  simp only [operator?, Lookahead.kind?_zero] at h
  split at h <;> simp_all [BinaryOp.token] <;> (subst h; rfl)

/-- The piece of an operator stands for its token. -/
theorem operator_mirrors {op : BinaryOp} (h : operator? (t :: ts) = some (.binary op))
    {cut : Bool} {ps : List Piece} (hm : Mirrors cut ts ps us) :
    Mirrors cut (t :: ts) (operator op :: ps) us := by
  by_cases hop : op = .div
  · subst hop
    exact .word (wordClass?_of_div h) rfl hm
  · have hk := kind_of_binary h hop
    exact .sign hk (by cases op <;> first | rfl | exact absurd rfl hop) (by cases op <;> nofun)

/-- A keyword has the class of that keyword. -/
theorem wordClass?_of_isKeyword {k : Keyword} (h : isKeyword (t :: ts) 0 k = true) :
    t.kind.wordClass? = some (.keyword k) := by
  rw [isKeyword, Lookahead.keyword?, Lookahead.kind?_zero, beq_iff_eq, Option.bind_some,
    TokenKind.keyword?, Option.bind_eq_some_iff] at h
  obtain ⟨c, hc, hk⟩ := h
  cases c <;> cases hk
  exact hc

/-! ### The word `div` -/

/-- **The word `div` is an operator again.**  It would be the name of an assignment if its right
side were the word `is` and nothing followed. -/
theorem not_startsAssignment_div {q : Parser Expr} {right : Expr}
    (h : Copies n .expr q ts right us) (ht : t.kind.isWord = true)
    (hdiv : Lookahead.startsAssignment (t :: ts) 0 = false) {d : Bool} (hf : Follow d us us')
    (hd : d = false → right.isBareIs = false) {m : Margin} (here : Position) (u : Token) :
    Lookahead.startsAssignment
      (u :: (tokensFrom here (Layout.Pieces.expr m [' '] right) ++ us')) 0 = false := by
  have hsim := h.mirrors m [' '] hf.resembles here
  rw [← Bool.not_eq_true]
  intro hu
  simp only [Lookahead.startsAssignment, Lookahead.isKeyword_tail, List.tail_cons,
    Bool.and_eq_true, Bool.not_eq_true'] at hu
  obtain ⟨⟨-, his⟩, hnext⟩ := hu
  -- The source had a second `is` there, and now what follows is done: it was cut off.
  have htwo : isKeyword ts.tail 0 .is = true := by
    simpa [Lookahead.startsAssignment, Lookahead.isKeyword_tail, hsim.isKeyword_of his,
      show isWord (t :: ts) 0 = true from ht] using hdiv
  have hrest := hsim.tail (Lookahead.isWord_of_isKeyword his)
  have hdone := (hrest.isKeyword_or_done htwo).resolve_left (Bool.eq_false_iff.1 hnext)
  have hbegins : Layout.Pieces.Begins right.isBareIs (Layout.Pieces.expr m [' '] right) :=
    Layout.Pieces.expr_begins right
  have hsame := h.mirrors m [' '] (Resembles.refl false us) here
  rw [show Script.expr.pieces m [' '] right = Layout.Pieces.expr m [' '] right from rfl]
    at hsame hdone
  rcases hps : Layout.Pieces.expr m [' '] right with _ | ⟨p, _ | ⟨q, ps⟩⟩ <;>
    rw [hps] at hbegins his hdone hsame
  · exact hbegins
  -- Either the right side is the word `is` alone, or no end stands behind its first word.
  · have hword : isWord us 0 = true :=
      (hsame.tail (Lookahead.isWord_of_isKeyword his)).isWord_eq ▸
        Lookahead.isWord_of_isKeyword htwo
    rw [hbegins (wordClass?_of_isKeyword his)] at hd
    exact absurd (hd (hf.whole hword hdone)) Bool.noConfusion
  · have hq := hbegins (Lookahead.isWord_of_isKeyword his)
    exact (hdone (q.token _) rfl).elim hq.1 hq.2

/-- What follows a right side follows the whole, if that ends as the side does. -/
theorem follow_operator {op : BinaryOp} {q : Parser Expr} {left right : Expr} {s : Span}
    (ho : operator? (t :: ts) = some (.binary op)) (h : Copies n .expr q ts right us)
    (hf : Follow (Expr.binary op left right s).endsInDivIs us us') {m : Margin} {here : Position}
    (b : Bool) : Follow b (t :: ts)
      (tokensFrom here (operator op :: Layout.Pieces.expr m [' '] right) ++ us') := by
  -- A sign is an operator by itself, the word `div` by what stands behind it.
  by_cases hop : op = .div
  · subst hop
    have hclass := wordClass?_of_div ho
    have hword : t.kind.isWord = true := by rw [TokenKind.isWord, hclass]; rfl
    have hsim : Resembles true (t :: ts)
        (tokensFrom here (operator .div :: Layout.Pieces.expr m [' '] right) ++ us') :=
      .word hclass rfl (h.mirrors m [' '] hf.resembles _)
    have hnone : Lookahead.startsAssignment (t :: ts) 0 = false ∧
        ¬ Lookahead.startsMember (t :: ts) 0 = true := by
      rw [Lookahead.Resembles.operator?_word hclass, if_pos rfl] at ho
      split at ho
      · cases ho
      · rename_i h
        rwa [Bool.or_eq_true, not_or, Bool.not_eq_true] at h
    have hassignment := not_startsAssignment_div h hword hnone.1 hf (fun hd => by
      simpa [Expr.endsInDivIs] using (Bool.or_eq_false_iff.1 hd).1) (m := m)
      (here.after (operator .div).written) ((operator .div).token here)
    have hmember : Lookahead.startsMember (tokensFrom here
        (operator .div :: Layout.Pieces.expr m [' '] right) ++ us') 0 = false :=
      Bool.eq_false_iff.2 fun hm => hnone.2 (hsim.startsMember_of hm)
    refine ⟨hsim, ?_, by rintro ⟨⟩, fun h => absurd h (Bool.eq_false_iff.1 hassignment),
      by rintro ⟨⟩, ?_, fun _ hd => ?_⟩
    · rw [ho]
      refine (Lookahead.Resembles.operator?_word (k := .keyword .div) rfl).trans ?_
      rw [if_pos rfl]
      exact if_neg (Bool.eq_false_iff.1 (Bool.or_eq_false_iff.2 ⟨hassignment, hmember⟩))
    · rintro u ⟨⟩ hj
      cases hj
    · rcases hd _ rfl with h | h <;> cases h
  · have hk := kind_of_binary ho hop
    exact .sign hk (by rw [hk]; cases op <;> first | rfl | exact absurd rfl hop)
      (by rw [hk]; cases op <;> rintro ⟨⟩) (by rintro ⟨⟩) b

/-! ### What follows a left side -/

variable {steps loosest : Nat} {left b : Expr} {more : Margin → List Piece}

/-- What a climb adds to the left side: pieces between `ts` and `us`, read again behind it. -/
structure Grown (g : Grammar) (n steps loosest : Nat) (left : Expr) (ts : List Token)
    (more : Margin → List Piece) (b : Expr) (us : List Token) : Prop where
  pieces : ∀ m blank, Layout.Pieces.expr m blank b = Layout.Pieces.expr m blank left ++ more m
  parts : Parts.Separable (Parts.expr b) → Parts.Separable (Parts.expr left)
  mirrors : ∀ {cut us'} (m : Margin), Resembles cut us us' → Mirrors cut ts (more m) us'
  follow : ∀ {us'} (m : Margin) (here : Position), Follow b.endsInDivIs us us' →
    Follow left.endsInDivIs ts (tokensFrom here (more m) ++ us')
  again : ∀ {src us'} (m : Margin) (here : Position) (start : Mark) (left' : Expr), src.Ended →
    Parts.Separable (Parts.expr b) → Follow b.endsInDivIs us us' →
    Relabel.tidy.expr left' = Relabel.tidy.expr left →
    Takes src n (loop (operation g (climb g steps) loosest start) left')
      (tokensFrom here (more m) ++ us') fun b' vs =>
        vs = us' ∧ Relabel.tidy.expr b' = Relabel.tidy.expr b
  stops : ∀ o, operator? us = some o → o.rank < loosest

/-- Where no operator goes on, none does again. -/
theorem Grown.stop (hg : Copying S g) (h : ∀ o, operator? ts = some o → o.rank < loosest) :
    Grown g n steps loosest left ts (fun _ => []) left ts := by
  refine ⟨by simp, id, fun _ => .nil, fun _ _ hf => hf,
    fun {src us'} m here start left' he _ hf hl => .loop_end
      (operation_advances hg.advancing (climb_steady hg.advancing steps) loosest start) he
        (.ahead ?_), h⟩
  rw [show tokensFrom here [] ++ us' = us' from rfl]
  rw [← hf.operator] at h
  split
  · exact .pure ⟨_, rfl, rfl, hl⟩
  · rename_i ho
    have := h _ ho
    exact .ite_neg (Nat.ne_of_gt this) (.pure ⟨_, rfl, rfl, hl⟩)
  · rename_i op ho
    exact .ite_neg (Nat.not_le_of_gt (h _ ho)) (.pure ⟨_, rfl, rfl, hl⟩)

/-- An operator and its right side. -/
theorem Grown.binary (hg : Copying S g) {op : BinaryOp} {right : Expr} {s : Span} {vs : List Token}
    (ho : operator? (t :: ts) = some (.binary op)) (hl : loosest ≤ op.rank)
    (hr : Copies n .expr (climb g steps (op.rank + 1)) ts right us)
    (h : Grown g n steps loosest (.binary op left right s) us more b vs) :
    Grown g n steps loosest left (t :: ts)
      (fun m => operator op :: (Layout.Pieces.expr m [' '] right ++ more m)) b vs := by
  have hparts (hb : Parts.Separable (Parts.expr b)) :
      Parts.Separable (Parts.expr left) ∧ Parts.Separable (Parts.expr right) := by
    have := h.parts hb
    rw [Parts.expr, Parts.separable_cons, Parts.separable_append] at this
    exact this.2
  have hfollow {us' : List Token} (m : Margin) (here : Position)
      (hf : Follow b.endsInDivIs vs us') : Follow left.endsInDivIs (t :: ts) (tokensFrom here
        (operator op :: (Layout.Pieces.expr m [' '] right ++ more m)) ++ us') := by
    rw [← List.cons_append, Piece.tokensFrom_append, List.append_assoc]
    exact follow_operator ho hr (h.follow m _ hf) _
  refine ⟨fun m blank => ?_, fun hb => (hparts hb).1, fun m hu => operator_mirrors ho
    (hr.mirrors_append (h.mirrors m hu)), hfollow,
    fun {src us'} m here start left' he hs hf hleft => .loop_next
      (operation_advances hg.advancing (climb_steady hg.advancing steps) loosest start) he
        (.ahead ?_), h.stops⟩
  · rw [h.pieces, Layout.Pieces.expr, List.append_assoc, List.cons_append]
  · rw [(hfollow m here hf).operator.trans ho]
    refine .ite_pos hl (.bump fun here => hr.next he (hparts hs).2 (fun here =>
      (h.follow m here hf).mono fun hd => (Bool.or_eq_false_iff.1 hd).2) fun here right' hright =>
        .spanFrom fun _ => .pure ⟨_, rfl, h.again m here start _ he hs hf ?_⟩)
    have hright : Relabel.tidy.expr right' = Relabel.tidy.expr right := hright
    simp [hleft, hright]

/-- The operator `?:` and its two sides. -/
theorem Grown.ternary (hg : Copying S g) {yes no : Expr} {s : Span} {u : Token} {vs ws : List Token}
    (ho : t.kind = .question) (hl : loosest = 0) (hyes : Copies n .expr g.expr ts yes (u :: us))
    (hu : u.kind = .colon) (hno : Copies n .expr g.expr us no vs)
    (h : Grown g n steps loosest (.ternary left yes no s) vs more b ws) :
    Grown g n steps loosest left (t :: ts) (fun m => sign [' '] '?' ::
      (Layout.Pieces.expr m [' '] yes ++ sign [' '] ':' ::
        (Layout.Pieces.expr m [' '] no ++ more m))) b ws := by
  have hparts (hb : Parts.Separable (Parts.expr b)) : Parts.Separable (Parts.expr left) ∧
      Parts.Separable (Parts.expr yes) ∧ Parts.Separable (Parts.expr no) := by
    have := h.parts hb
    rw [Parts.expr, Parts.separable_cons, Parts.separable_append, Parts.separable_append] at this
    exact this.2
  have hmirrors {cut : Bool} {us' : List Token} (m : Margin) (hu' : Resembles cut ws us') :
      Mirrors cut us (Layout.Pieces.expr m [' '] no ++ more m) us' :=
    hno.mirrors_append (h.mirrors m hu')
  refine ⟨fun m blank => ?pieces, fun hb => (hparts hb).1, fun m hu' => .sign ho rfl nofun,
    fun m here hf => .sign ho (by rw [ho]; rfl) (by simp [ho]) (by rintro ⟨⟩) _,
    fun {src us'} m here start left' he hs hf hleft => ?again, h.stops⟩
  case pieces =>
    rw [h.pieces, Layout.Pieces.expr, List.append_assoc, List.cons_append, List.append_assoc,
      List.cons_append]
  case again =>
    have advances := operation_advances hg.advancing (climb_steady hg.advancing steps) loosest start
    refine .loop_next advances he (.ahead (.ite_pos hl (.bump fun here => ?_)))
    refine hyes.next he (hparts hs).2.1 (fun here => ?_) fun here yes' hyes' => ?_
    · exact .sign hu (by rw [hu]; rfl) (fun _ => (hmirrors m hf.resembles _).isPayload_eq)
        (by rintro ⟨⟩) _
    refine .expect rfl fun here => hno.next he (hparts hs).2.2 (fun here => ?_)
      fun here no' hno' => ?_
    · exact (h.follow m here hf).mono id
    refine .spanFrom fun s => .pure ⟨_, rfl, h.again m here start _ he hs hf ?_⟩
    have hyes' : Relabel.tidy.expr yes' = Relabel.tidy.expr yes := hyes'
    have hno' : Relabel.tidy.expr no' = Relabel.tidy.expr no := hno'
    simp [hleft, hyes', hno']

/-! ### Expressions -/

/-- An expression is read again, and no operator follows that would be part of it. -/
theorem climb_finds (hg : Copying S g) : ∀ {steps loosest : Nat} {ts : List Token},
    ranks ≤ steps + loosest → Finds S n (climb g steps loosest) ts fun e us =>
      Copies n .expr (climb g steps loosest) ts e us ∧
        ∀ o, operator? us = some o → o.rank < loosest := by
  intro steps
  induction steps with
  | zero =>
    intro loosest ts h
    rw [Nat.zero_add] at h
    refine (unary_finds hg).mono fun e us he => ⟨he, fun o _ => Nat.lt_of_lt_of_le ?_ h⟩
    cases o with
    | question => exact Nat.zero_lt_succ _
    | binary op => exact op.rank_lt
  | succ steps ih =>
    intro loosest ts h
    refine .mark fun m => .bind (unary_finds hg) fun left us hleft => ?_
    refine (Finds.loop (fun left ts b us => ∃ more, Grown g n steps loosest left ts more b us)
      (fun left ts => .ahead ?round) left).mono fun b vs ⟨more, hb⟩ => ?copies
    -- One operator: the copy takes the same one, and what it makes is grown further.
    case round =>
      split
      · rename_i ho
        exact .pure ⟨_, .stop hg fun o h => absurd (ho.symm.trans h) nofun⟩
      · rename_i ho
        obtain ⟨t, us, rfl⟩ := exists_of_operator? ho
        refine .ite (fun hl => ?_) fun hl => .pure ⟨_, .stop hg fun o h => ?_⟩
        · refine .bump (.bind hg.expr fun yes vs ⟨hyes, _⟩ => ?_)
          refine .expect (by simp) fun u ws hvs hu => .bind hg.expr fun no xs ⟨hno, _⟩ => ?_
          refine .spanFrom fun s => .pure fun b ys ⟨more, hb⟩ => ?_
          subst hvs
          exact ⟨_, .ternary hg (kind_of_question ho) hl hyes hu hno hb⟩
        · obtain rfl := Option.some.inj (ho.symm.trans h)
          exact Nat.pos_of_ne_zero hl
      · rename_i op ho
        obtain ⟨t, us, rfl⟩ := exists_of_operator? ho
        refine .ite (fun hl => ?_) fun hl => .pure ⟨_, .stop hg fun o h => ?_⟩
        · refine .bump (.bind (ih (by omega)) fun right vs ⟨hr, _⟩ => .spanFrom fun s => ?_)
          exact .pure fun b ws ⟨more, hb⟩ => ⟨_, .binary hg ho hl hr hb⟩
        · obtain rfl := Option.some.inj (ho.symm.trans h)
          exact Nat.lt_of_not_le hl
    case copies =>
      refine ⟨⟨fun m blank hu => ?_, fun m blank here he hs hf => .mark fun start => ?_⟩, hb.stops⟩
      · show Mirrors _ _ (Layout.Pieces.expr m blank b) _
        rw [hb.pieces]
        exact hleft.mirrors_append (hb.mirrors m hu)
      · show Takes _ n _ (tokensFrom here (Layout.Pieces.expr m blank b) ++ _) _
        rw [hb.pieces]
        exact hleft.next he (hb.parts hs) (fun here => hb.follow m here hf)
          fun here left' hl => hb.again m here start left' he hs hf hl

/-- An expression is read again, and no operator follows it. -/
theorem expression_finds (hg : Copying S g) : Finds S n (expression g) ts fun e us =>
    Copies n .expr (expression g) ts e us ∧ operator? us = none :=
  (climb_finds hg (Nat.le_refl _)).mono fun _ _ ⟨he, ho⟩ => ⟨he, Option.eq_none_iff_forall_ne_some.2
    fun o h => absurd (ho o h) (Nat.not_lt_zero _)⟩

/-! ### Levels -/

/-- A level deeper the same is read. -/
theorem Copies.nested {α : Type} {F : Script α} {deep q : Parser α} {a : α} (hn : n < maxNesting)
    (h : Copies (n + 1) F q ts a us) : Copies n F (nested deep q) ts a us :=
  ⟨h.mirrors, fun m blank here he hs hf => .nested hn (h.again m blank here he hs hf)⟩

/-- With no level left nothing is read without problems. -/
theorem copying_bottom (hf : S.Fair) (hs : S.Spelled) : Copying S .bottom where
  fair := hf
  spelled := hs
  advancing := advancing_bottom
  expr := .loud tooDeep_loud.bind
  operand := .loud tooDeep_loud.bind
  type := .loud tooDeep_loud.bind

/-- If a level is read again, so is the one above. -/
theorem Copying.above (hg : Copying S g) : Copying S (.above g) where
  fair := hg.fair
  spelled := hg.spelled
  advancing := hg.advancing.above
  expr := .nested (expression_steady hg.advancing).sound tooDeep_loud.bind fun hn =>
    (expression_finds hg).mono fun _ _ ⟨he, ho⟩ => ⟨he.nested hn, ho⟩
  operand := .nested (unary_steady hg.advancing).sound tooDeep_loud.bind fun hn =>
    (unary_finds hg).mono fun _ _ he => he.nested hn
  type := .nested (typeRef_sound hg.advancing) tooDeep_loud.bind fun hn =>
    (typeRef_finds hg).mono fun _ _ he => he.nested hn

/-- **What any number of levels reads without problems is read again.** -/
theorem copying_levels (hf : S.Fair) (hs : S.Spelled) (n : Nat) : Copying S (.levels n) := by
  induction n with
  | zero => exact copying_bottom hf hs
  | succ n ih => exact ih.above

end Parser
end Ndf
