/-
# Recovery token by token

`Ndf.Parser.Recovery` says how much to cut as a number of tokens.  Here each cut is read by a loop
instead, which looks at the next token, keeps count of the open brackets, and reads the token or
stops.  A round that goes on reads a token, and a bracket is closed only if one is open: the loops
end where the cuts do, without a note (`loop_fragmentRound` and so on).  So the parsers that run
them are those of recovery (`recoverItem_eq` and so on).
-/

import Ndf.Proofs.Parser.Levels

namespace Ndf

namespace TokenKind

/-- Whether the token opens a bracket. -/
def opens : TokenKind → Bool
  | .lparen | .lbracket => true
  | _ => false

/-- Whether the token closes a bracket. -/
def closes : TokenKind → Bool
  | .rparen | .rbracket => true
  | _ => false

/-- The number of open brackets behind a token, `level` being open in front of it. -/
def shift (kind : TokenKind) (level : Nat) : Nat :=
  if kind.opens then level + 1 else if kind.closes then level - 1 else level

end TokenKind

namespace Recovery

variable {level : Nat} {t : Token} {ts : List Token}

/-- A fragment ends at a comma or a closing sign on its own level. -/
theorem fragment_cons : fragment level (t :: ts) =
    if level = 0 ∧ (t.kind = .comma ∨ t.kind.closes) then 0
    else if t.kind.closes ∧ level = 1 then 1
    else fragment (t.kind.shift level) ts + 1 := by
  cases hk : t.kind <;> rcases level with _ | _ | level <;>
    simp [fragment, hk, TokenKind.shift, TokenKind.opens, TokenKind.closes]

/-- So does the gap of an element, which also tells whether more elements follow. -/
theorem elementGap_cons : elementGap level (t :: ts) =
    if level = 0 ∧ (t.kind = .comma ∨ t.kind.closes) then ⟨0, t.kind != .rparen⟩
    else (elementGap (t.kind.shift level) ts).push := by
  cases hk : t.kind <;> rcases level with _ | level <;>
    simp [elementGap, hk, TokenKind.shift, TokenKind.opens, TokenKind.closes]

/-- The gap of an entry ends where another entry starts. -/
theorem entryGap_cons : entryGap level (t :: ts) =
    if level = 0 ∧ (t.kind = .rparen ∨
      ¬ t.kind.opens ∧ ¬ t.kind.closes ∧ Lookahead.startsEntry (t :: ts)) then ⟨0, true⟩
    else (entryGap (t.kind.shift level) ts).push := by
  cases hk : t.kind <;> rcases level with _ | level <;>
    simp [entryGap, hk, TokenKind.shift, TokenKind.opens, TokenKind.closes]

end Recovery

namespace Parser

/-! ### The loops -/

/-- Closes one of the open brackets. -/
def closeBracket (level : Nat) : Parser Nat :=
  if level = 0 then breach .level else pure (level - 1)

/-- One token in front of the next declaration. -/
def itemRound (_ : Unit) : Parser (Unit ⊕ Unit) := do
  let ts ← ahead
  if ts.isEmpty || Lookahead.startsItem ts then pure (.inr ())
  else do
    bump
    pure (.inl ())

/-- One token of a fragment, `level` brackets being open. -/
def fragmentRound (level : Nat) : Parser (Nat ⊕ Unit) := do
  match ← ahead with
  | [] => pure (.inr ())
  | t :: _ =>
    if level = 0 ∧ (t.kind = .comma ∨ t.kind.closes) then pure (.inr ())
    else if t.kind.opens then do
      bump
      pure (.inl (level + 1))
    else if t.kind.closes then do
      let level ← closeBracket level
      bump
      pure (if level = 0 then .inr () else .inl level)
    else do
      bump
      pure (.inl level)

/-- One token of a broken element of a list, `level` brackets being open. -/
def elementRound (level : Nat) : Parser (Nat ⊕ Bool) := do
  match ← ahead with
  | [] => pure (.inr false)
  | t :: _ =>
    if level = 0 ∧ (t.kind = .comma ∨ t.kind = .rbracket) then pure (.inr true)
    else if level = 0 ∧ t.kind = .rparen then pure (.inr false)
    else if t.kind.opens then do
      bump
      pure (.inl (level + 1))
    else if t.kind.closes then do
      let level ← closeBracket level
      bump
      pure (.inl level)
    else do
      bump
      pure (.inl level)

/-- One token of a broken entry of an object, `level` brackets being open.  A bracket that is closed
outside of them is part of the breakage. -/
def entryRound (level : Nat) : Parser (Nat ⊕ Bool) := do
  match ← ahead with
  | [] => pure (.inr false)
  | t :: ts =>
    if level = 0 ∧ t.kind = .rparen then pure (.inr true)
    else if t.kind.opens then do
      bump
      pure (.inl (level + 1))
    else if t.kind.closes then do
      bump
      pure (.inl (level - 1))
    else if level = 0 ∧ Lookahead.startsEntry (t :: ts) then pure (.inr true)
    else do
      bump
      pure (.inl level)

variable {α β σ : Type} {src : Source} {c : Cursor} {level : Nat} {t : Token} {ts : List Token}

/-- The place behind the next token. -/
def past (c : Cursor) (t : Token) (ts : List Token) : Cursor := ⟨ts, c.count + 1, t.span, c.depth⟩

/-- A token that is there is read. -/
theorem bump_pure_run (h : c.rest = t :: ts) (a : α) :
    (bump >>= fun _ => pure a) src c = ⟨some a, past c t ts, []⟩ := by
  rw [bind_of_some bump_value, bump_run h]
  rfl

/-- A bracket that is open is closed. -/
theorem closeBracket_bind (h : level ≠ 0) (f : Nat → Parser α) :
    (closeBracket level >>= f) src c = f (level - 1) src c := by
  rw [closeBracket, if_neg h]
  rfl

/-! ### What one round does -/

/-- One round of the loop of items, by its token. -/
theorem itemRound_run (h : c.rest = t :: ts) : itemRound () src c =
    if Lookahead.startsItem (t :: ts) then ⟨some (.inr ()), c, []⟩
    else ⟨some (.inl ()), past c t ts, []⟩ := by
  rw [itemRound, ahead_bind, h]
  by_cases hs : Lookahead.startsItem (t :: ts) = true
  · rw [if_pos (by simp [hs]), if_pos hs, pure_run]
  · rw [if_neg (by simpa using hs), if_neg hs, bump_pure_run h]

/-- One of that of fragments. -/
theorem fragmentRound_run (h : c.rest = t :: ts) : fragmentRound level src c =
    if level = 0 ∧ (t.kind = .comma ∨ t.kind.closes) then ⟨some (.inr ()), c, []⟩
    else if t.kind.closes ∧ level = 1 then ⟨some (.inr ()), past c t ts, []⟩
    else ⟨some (.inl (t.kind.shift level)), past c t ts, []⟩ := by
  rw [fragmentRound, ahead_bind, h]
  dsimp only
  cases hk : t.kind <;> rcases level with _ | _ | level <;>
    simp [TokenKind.shift, TokenKind.opens, TokenKind.closes, bump_pure_run h, closeBracket_bind,
      pure_run]

/-- One of that of elements. -/
theorem elementRound_run (h : c.rest = t :: ts) : elementRound level src c =
    if level = 0 ∧ (t.kind = .comma ∨ t.kind.closes) then
      ⟨some (.inr (t.kind != .rparen)), c, []⟩
    else ⟨some (.inl (t.kind.shift level)), past c t ts, []⟩ := by
  rw [elementRound, ahead_bind, h]
  dsimp only
  cases hk : t.kind <;> rcases level with _ | level <;>
    simp [TokenKind.shift, TokenKind.opens, TokenKind.closes, bump_pure_run h, closeBracket_bind,
      pure_run]

/-- One of that of entries. -/
theorem entryRound_run (h : c.rest = t :: ts) : entryRound level src c =
    if level = 0 ∧ (t.kind = .rparen ∨
      ¬ t.kind.opens ∧ ¬ t.kind.closes ∧ Lookahead.startsEntry (t :: ts)) then
      ⟨some (.inr true), c, []⟩
    else ⟨some (.inl (t.kind.shift level)), past c t ts, []⟩ := by
  rw [entryRound, ahead_bind, h]
  dsimp only
  by_cases he : Lookahead.startsEntry (t :: ts) = true <;>
    cases hk : t.kind <;> rcases level with _ | level <;>
      simp [TokenKind.shift, TokenKind.opens, TokenKind.closes, bump_pure_run h, pure_run, he]

/-- A loop that stops in front of a token or reads it moves forward. -/
theorem Advances.of_past {step : σ → Parser (σ ⊕ β)}
    (hnil : ∀ src s c, c.rest = [] → ∀ s', (step s src c).value ≠ some (.inl s'))
    (hcons : ∀ src s c t ts, c.rest = t :: ts → ∀ s', (step s src c).value = some (.inl s') →
      (step s src c).cursor = past c t ts) : Advances step := by
  intro src _ s s' c h
  cases hr : c.rest with
  | nil => exact absurd h (hnil src s c hr s')
  | cons t ts =>
    rw [hcons src s c t ts hr s' h]
    exact Nat.lt_succ_self _

/-- A round that goes on takes its token. -/
theorem itemRound_advances : Advances itemRound := by
  refine .of_past (fun src _ c h s' => ?_) fun src _ c t ts h s' hv => ?_
  · simp [itemRound, ahead_bind, h, pure_run]
  · rw [itemRound_run h] at hv ⊢
    split at hv
    · cases hv
    · rw [if_neg ‹_›]

/-- So it does in a fragment. -/
theorem fragmentRound_advances : Advances fragmentRound := by
  refine .of_past (fun src _ c h s' => ?_) fun src _ c t ts h s' hv => ?_
  · simp [fragmentRound, ahead_bind, h, pure_run]
  · rw [fragmentRound_run h] at hv ⊢
    split at hv
    · cases hv
    · rw [if_neg ‹_›]
      split <;> rfl

/-- So it does in the place of an element. -/
theorem elementRound_advances : Advances elementRound := by
  refine .of_past (fun src _ c h s' => ?_) fun src _ c t ts h s' hv => ?_
  · simp [elementRound, ahead_bind, h, pure_run]
  · rw [elementRound_run h] at hv ⊢
    split at hv
    · cases hv
    · rw [if_neg ‹_›]

/-- So it does in the place of an entry. -/
theorem entryRound_advances : Advances entryRound := by
  refine .of_past (fun src _ c h s' => ?_) fun src _ c t ts h s' hv => ?_
  · simp [entryRound, ahead_bind, h, pure_run]
  · rw [entryRound_run h] at hv ⊢
    split at hv
    · cases hv
    · rw [if_neg ‹_›]

/-! ### What the loops read -/

/-- Skipping takes the next token first. -/
theorem skip_cons (h : c.rest = t :: ts) (n : Nat) :
    skip (n + 1) src c = skip n src (past c t ts) := by
  show (bump >>= fun _ => skip n) src c = _
  rw [bind_of_some bump_value, bump_run h]
  rfl

/-- What stands first may be read from another place. -/
theorem bind_of_eq {p q : Parser α} {f : α → Parser β} {d : Cursor} (h : p src c = q src d) :
    (p >>= f) src c = (q >>= f) src d := by
  show Parser.bind p f src c = Parser.bind q f src d
  unfold Parser.bind
  rw [h]

/-- A loop goes on behind a round without notes. -/
theorem loop_of_inl {step : σ → Parser (σ ⊕ β)} (ha : Advances step) (he : src.Ended) {s s' : σ}
    {d : Cursor} (h : step s src c = ⟨some (.inl s'), d, []⟩) :
    loop step s src c = loop step s' src d := by
  rw [loop_eq ha he, bind_of_some (congrArg Outcome.value h), h]
  rfl

/-- A loop whose first round is the last. -/
theorem loop_of_inr {step : σ → Parser (σ ⊕ β)} (ha : Advances step) (he : src.Ended) {s : σ}
    {b : β} {d : Cursor} (h : step s src c = ⟨some (.inr b), d, []⟩) :
    loop step s src c = ⟨some b, d, []⟩ := by
  rw [loop_eq ha he, bind_of_some (congrArg Outcome.value h), h]
  rfl

/-- The rounds skip as many tokens as the gap of an item has. -/
theorem loop_itemRound (he : src.Ended) (c : Cursor) :
    loop itemRound () src c = skip (Recovery.itemGap c.rest) src c := by
  induction hr : c.rest generalizing c with
  | nil =>
    refine (loop_of_inr itemRound_advances he (b := ()) (d := c) ?_).trans rfl
    simp [itemRound, ahead_bind, hr, pure_run]
  | cons t ts ih =>
    have hrun : itemRound () src c = _ := itemRound_run hr
    rw [Recovery.itemGap]
    by_cases hs : Lookahead.startsItem (t :: ts) = true
    · rw [if_pos hs] at hrun ⊢
      exact loop_of_inr itemRound_advances he hrun
    · rw [if_neg hs] at hrun ⊢
      rw [loop_of_inl itemRound_advances he hrun, skip_cons hr]
      exact ih (past c t ts) rfl

/-- As many as the fragment has. -/
theorem loop_fragmentRound (he : src.Ended) (level : Nat) (c : Cursor) :
    loop fragmentRound level src c = skip (Recovery.fragment level c.rest) src c := by
  induction hr : c.rest generalizing c level with
  | nil =>
    refine (loop_of_inr fragmentRound_advances he (b := ()) (d := c) ?_).trans rfl
    simp [fragmentRound, ahead_bind, hr, pure_run]
  | cons t ts ih =>
    have hrun : fragmentRound level src c = _ := fragmentRound_run hr
    rw [Recovery.fragment_cons]
    by_cases hs : level = 0 ∧ (t.kind = .comma ∨ t.kind.closes)
    · rw [if_pos hs] at hrun ⊢
      exact loop_of_inr fragmentRound_advances he hrun
    · rw [if_neg hs] at hrun ⊢
      by_cases hl : t.kind.closes ∧ level = 1
      · rw [if_pos hl] at hrun ⊢
        rw [loop_of_inr fragmentRound_advances he hrun, skip_cons hr]
        rfl
      · rw [if_neg hl] at hrun ⊢
        rw [loop_of_inl fragmentRound_advances he hrun, skip_cons hr]
        exact ih _ (past c t ts) rfl

/-- As many as the gap of an element has, and the answer is the gap's. -/
theorem loop_elementRound (he : src.Ended) (level : Nat) (c : Cursor) :
    loop elementRound level src c = (do
      let gap := Recovery.elementGap level c.rest
      skip gap.length
      pure gap.closed) src c := by
  induction hr : c.rest generalizing c level with
  | nil =>
    refine (loop_of_inr elementRound_advances he (b := false) (d := c) ?_).trans rfl
    simp [elementRound, ahead_bind, hr, pure_run]
  | cons t ts ih =>
    have hrun : elementRound level src c = _ := elementRound_run hr
    rw [Recovery.elementGap_cons]
    by_cases hs : level = 0 ∧ (t.kind = .comma ∨ t.kind.closes)
    · rw [if_pos hs] at hrun ⊢
      exact loop_of_inr elementRound_advances he hrun
    · rw [if_neg hs] at hrun ⊢
      rw [loop_of_inl elementRound_advances he hrun, ih _ (past c t ts) rfl]
      exact (bind_of_eq (skip_cons hr _)).symm

/-- As many as the gap of an entry has. -/
theorem loop_entryRound (he : src.Ended) (level : Nat) (c : Cursor) :
    loop entryRound level src c = (do
      let gap := Recovery.entryGap level c.rest
      skip gap.length
      pure gap.closed) src c := by
  induction hr : c.rest generalizing c level with
  | nil =>
    refine (loop_of_inr entryRound_advances he (b := false) (d := c) ?_).trans rfl
    simp [entryRound, ahead_bind, hr, pure_run]
  | cons t ts ih =>
    have hrun : entryRound level src c = _ := entryRound_run hr
    rw [Recovery.entryGap_cons]
    by_cases hs : level = 0 ∧ (t.kind = .rparen ∨
      ¬ t.kind.opens ∧ ¬ t.kind.closes ∧ Lookahead.startsEntry (t :: ts))
    · rw [if_pos hs] at hrun ⊢
      exact loop_of_inr entryRound_advances he hrun
    · rw [if_neg hs] at hrun ⊢
      rw [loop_of_inl entryRound_advances he hrun, ih _ (past c t ts) rfl]
      exact (bind_of_eq (skip_cons hr _)).symm

/-! ### Recovery -/

variable {m : Mark}

/-- Cuts out a broken item token by token. -/
def scanItem (m : Mark) : Parser ErrorNode := do
  leave m none
  loop itemRound ()
  let node ← errorFrom m
  emit (.recoveredItem node.span)
  pure node

/-- Cuts out a broken element of a list token by token. -/
def scanElement (m : Mark) : Parser ErrorNode := do
  leave m (some .rparen)
  if ← loop elementRound 0 then errorFrom m else abort

/-- Cuts out a broken entry of an object token by token. -/
def scanEntry (m : Mark) : Parser ErrorNode := do
  leave m (some .rparen)
  if ← loop entryRound 0 then
    let node ← errorFrom m
    emit (.recoveredEntry node.span)
    pure node
  else abort

/-- Cuts out and reports a fragment token by token. -/
def scanFragment : Parser ErrorNode := do
  let m ← mark
  loop fragmentRound 0
  let node ← errorFrom m
  emit (.skipped node.span)
  report (.tooDeep maxNesting) node.span
  if ← movedFrom m then pure node else abort

/-- What comes behind a cut, given how the cut ended. -/
theorem skip_pure_bind (n : Nat) (b : β) (f : β → Parser α) :
    (skip n >>= fun _ => f b) src c = ((skip n >>= fun _ => pure b) >>= f) src c := by
  have hrun : (skip n >>= fun _ => pure b) src c = ⟨some b, (skip n src c).cursor,
      (skip n src c).notes ++ []⟩ := by
    rw [bind_of_some (skip_value n src c)]
    rfl
  rw [bind_of_some (skip_value n src c), bind_of_some (congrArg Outcome.value hrun), hrun,
    List.append_nil]

/-- So the cut of an item is the one that the loop makes. -/
theorem recoverItem_eq (he : src.Ended) : recoverItem m src c = scanItem m src c :=
  bind_congr rfl fun _ _ => bind_congr (loop_itemRound he _).symm fun _ _ => rfl

/-- So is that of an element. -/
theorem recoverElement_eq (he : src.Ended) : recoverElement m src c = scanElement m src c := by
  refine bind_congr rfl fun _ _ => ?_
  rw [ahead_bind, bind_of_eq (loop_elementRound he 0 _)]
  exact skip_pure_bind _ _ fun closed : Bool => if closed then errorFrom m else abort

/-- So is that of an entry. -/
theorem recoverEntry_eq (he : src.Ended) : recoverEntry m src c = scanEntry m src c := by
  refine bind_congr rfl fun _ _ => ?_
  rw [ahead_bind, bind_of_eq (loop_entryRound he 0 _)]
  exact skip_pure_bind _ _ fun closed : Bool => if closed then
    errorFrom m >>= fun node => emit (.recoveredEntry node.span) >>= fun _ => pure node else abort

/-- So is that below the last level. -/
theorem tooDeep_eq (he : src.Ended) : tooDeep src c = scanFragment src c :=
  bind_congr rfl fun _ _ => bind_congr (loop_fragmentRound he 0 _).symm fun _ _ => rfl

end Parser
end Ndf
