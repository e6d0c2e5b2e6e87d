/-
# The items of a source and of a longer one

Items are read one after another, so the two runs go side by side from item to item until the
shorter one is used up (`Parser.items_late`).  In front of `unnamed` and a name at its end the runs
part, as the shorter one reads two items there and the longer one reads one.  Each of the two is a
word alone, which is read without a problem.
-/

import Ndf.Proofs.Unfinished.Grammar

namespace Ndf

open Lookahead

namespace Parser

variable {S : Sequel} {g : Grammar} {c : Cursor} {t u : Token} {ts : List Token}

/-! ### A word alone -/

/-- A word alone is an operand. -/
theorem unary_alone (hg : Advancing g) {src : Source} (he : src.Ended) (hr : c.rest = t :: ts)
    (hw : isWord [t] 0 = true) (h : Alone (t :: ts)) :
    ∃ e, unary g src c = ⟨some e, past c t ts, []⟩ := by
  obtain ⟨kind, span, joined⟩ := t
  cases kind with
  | word text wordClass =>
    obtain ⟨e, hrun⟩ := wordLed_alone hg he hr hw h wordClass
    refine ⟨e, ?_⟩
    rw [unary, bind_of_run (show mark src c = ⟨some _, c, []⟩ from rfl), peek_bind, hr,
      List.headD_cons]
    show primary g src c = _
    rw [primary, peek_bind, hr, List.headD_cons]
    exact hrun
  | _ => cases hw

/-- Another word than `div` is no operator. -/
theorem operator?_word (hw : isWord [u] 0 = true) (hu : u.kind.keyword? ≠ some .div) :
    operator? [u] = none := by
  obtain ⟨kind, span, joined⟩ := u
  cases kind with
  | word text wordClass =>
    cases wordClass with
    | keyword k =>
      cases k with
      | div => exact absurd rfl hu
      | _ => rfl
    | _ => rfl
  | _ => cases hw

/-- A word that is read alone with no more than a word behind it: if that is an operator the tokens
are used up. -/
theorem expression_alone (hg : Trailing S g) (hr : c.rest = t :: ts) (hw : isWord [t] 0 = true)
    (h : Alone (t :: ts)) (hts : ∀ u ∈ ts.head?, ts = [u] ∧ isWord [u] 0 = true) :
    S.Ends c (expression g) ∨
      ∃ u e, ts = [u] ∧ expression g S.source c = ⟨some e, past c t [u], []⟩ := by
  obtain ⟨e, hrun⟩ := unary_alone hg.advancing S.ended hr hw h
  let m : Mark := ⟨c.count, (c.rest.headD S.source.stop).span⟩
  have hadvances : Advances (operation g (climb g 5) 0 m) :=
    operation_advances hg.advancing (climb_steady hg.advancing 5) 0 m
  have hloop (left : Expr) : S.Trails (loop (operation g (climb g 5) 0 m) left) :=
    .loop hadvances (operation_trails hg (climb_trails hg 5) 0 m) left
  have hexpr : expression g S.source c =
      loop (operation g (climb g 5) 0 m) e S.source (past c t ts) := by
    rw [expression, show ranks = 5 + 1 from rfl, climb,
      bind_of_run (show mark S.source c = ⟨some m, c, []⟩ from rfl), bind_of_run hrun]
  cases ts with
  | nil =>
    left
    rw [Sequel.Ends, hexpr]
    exact (hloop e).spent _ (.of_nil rfl)
  | cons u us =>
    obtain ⟨hus, hu⟩ := hts u rfl
    rw [hus] at hexpr
    by_cases hdiv : u.kind.keyword? = some .div
    · left
      rw [Sequel.Ends, hexpr, loop_eq hadvances S.ended]
      refine (operation_ends (climb_trails hg 5) m e rfl hdiv (Nat.zero_le _)).bind
        fun r d hd => ?_
      cases r with
      | inl left => exact (hloop left).spent d hd
      | inr left => exact .of_quiet hd quiet_nil
    · right
      refine ⟨u, e, hus, hexpr.trans (loop_of_inr hadvances S.ended ?_)⟩
      rw [operation, ahead_bind, show (past c t [u]).rest = [u] from rfl, operator?_word hu hdiv]
      rfl

/-- The same one level up. -/
theorem above_alone (hg : Trailing S g) (hd : c.depth < maxNesting) (hr : c.rest = t :: ts)
    (hw : isWord [t] 0 = true) (h : Alone (t :: ts))
    (hts : ∀ u ∈ ts.head?, ts = [u] ∧ isWord [u] 0 = true) :
    S.Ends c (Grammar.above g).expr ∨
      ∃ u e, ts = [u] ∧ (Grammar.above g).expr S.source c = ⟨some e, past c t [u], []⟩ := by
  have hrun : (Grammar.above g).expr S.source c = _ :=
    nested_of_lt (expression_steady hg.advancing).sound S.ended hd
  rw [Sequel.Ends, hrun]
  rcases expression_alone (c := c.down) hg hr hw h hts with hends | ⟨u, e, hus, hrun⟩
  · exact .inl ⟨hends.rest, hends.late⟩
  · exact .inr ⟨u, e, hus, by rw [hrun]; rfl⟩

/-! ### Items -/

/-- The last two tokens are `unnamed` and a name, which are read as two items. -/
def Unfolds (ts : List Token) : Prop :=
  ∃ t u, ts = [t, u] ∧ t.kind.keyword? = some .unnamed ∧ isWord [u] 0 = true

/-- Whether an object without a name starts here is settled, unless it unfolds. -/
theorem startsUnnamed_append {more : List Token} (h : ¬ Unfolds (t :: ts))
    (hb : ¬ Begun (t :: ts)) :
    startsUnnamed (t :: ts ++ more) 0 = startsUnnamed (t :: ts) 0 := by
  match ts with
  | [] =>
    have hw : isWord [t] 0 = false := Bool.eq_false_iff.2 fun hw => hb (.name t hw)
    have hw' : isWord ([t] ++ more) 0 = false := hw
    rw [startsUnnamed, startsUnnamed, isKeyword_of_not_isWord hw, isKeyword_of_not_isWord hw']
    rfl
  | [u] =>
    have hfold : (isKeyword [t, u] 0 .unnamed && isWord [t, u] 1) = false := by
      refine Bool.eq_false_iff.2 fun hf => ?_
      rw [Bool.and_eq_true] at hf
      exact h ⟨t, u, rfl, (isKeyword_iff 0).1 hf.1, hf.2⟩
    rw [startsUnnamed, startsUnnamed, isKeyword_append (by simp), isWord_append (by simp), hfold]
    rfl
  | u :: v :: ts => rfl

/-- An item that is undecided is reported at the end. -/
theorem item_ends (hg : Trailing S g) (hd : c.depth < maxNesting) (h : Undecided c.rest) :
    S.Ends c (item (.above g)) := by
  generalize hr : c.rest = us at h
  refine .ahead ?_
  rw [hr]
  -- The few tokens that are left decide what the item is, one case for each way to end.
  cases h with
  | begun h =>
    cases h with
    | name t ht =>
      obtain ⟨ha, -, hm⟩ := starts_one t
      have hmodifier : (isModifier [t] 0 && isWord [t] 1) = false := Bool.and_false _
      have htemplate : startsTemplate [t] 0 = false := startsTemplate_begun (.name t ht)
      have hunnamed : startsUnnamed [t] 0 = false := Bool.and_false _
      rw [if_neg (by simp [ha]), if_neg (by simp [hmodifier]), if_neg (by simp [htemplate]),
        if_neg (by simp [hunnamed]), if_neg (by simp [hm])]
      rcases above_alone hg hd hr ht (alone_one t) (fun u hu => by cases hu) with
        hends | ⟨u, e, hu, -⟩
      · exact hends.map _
      · cases hu
    | is t u ht hu =>
      rw [if_pos (startsAssignment_is ht hu)]
      exact (assignment_ends hg.above (hr ▸ .is t u ht hu)).map _
  | modified t u v ht hu hv =>
    have hmodifier : (isModifier [t, u, v] 0 && isWord [t, u, v] 1) = true :=
      Bool.and_eq_true_iff.2 ⟨ht, hu⟩
    rw [if_neg (by simp [(starts_modified ht hu hv).1]), if_pos hmodifier]
    exact (visibility_ends hg.above hr ht (.is u v hu hv)).map _
  | payload t u ht hu =>
    obtain ⟨ha, -, hm⟩ := starts_payload ht hu
    have hguid : keyword? [t, u] 0 = some .guid := ht
    have hmodifier : isModifier [t, u] 0 = false := by rw [isModifier, hguid]
    have htemplate : startsTemplate [t, u] 0 = false := by
      rw [startsTemplate, isKeyword, hguid]
      rfl
    have hunnamed : startsUnnamed [t, u] 0 = false := by
      rw [startsUnnamed, isKeyword, hguid]
      rfl
    have hw : isWord [t] 0 = true := isWord_of_isKeyword ((isKeyword_iff 0).2 ht)
    rw [if_neg (by simp [ha]), if_neg (by simp [hmodifier]), if_neg (by simp [htemplate]),
      if_neg (by simp [hunnamed]), if_pos hm]
    exact (member_ends hg.above hr hw hu).map _

/-- Whatever the last words are taken for is used up. -/
theorem item_spent (hg : Trailing S g) (hs : S.Spent c) : S.Ends c (item (.above g)) := by
  have hobject := object_trails hg.above
  exact .ahead (.ite (((assignment_trails hg.above).map _).spent c hs)
    (.ite (((visibility_trails hg.above hobject).map _).spent c hs)
      (.ite (((template_trails hg.above hobject).map _).spent c hs)
        (.ite (((unnamed_trails hg.above).map _).spent c hs)
          (.ite (((member_trails hg.above).map _).spent c hs)
            ((hg.above.expr.map _).spent c hs))))))

/-- Another one is read alike. -/
theorem item_follows (hg : Trailing S g) (hd : c.depth < maxNesting) (hc : S.Ready c)
    (hs : ¬ S.Spent c) (hr : c.rest = t :: ts) (hunfolds : ¬ Unfolds (t :: ts)) :
    S.FollowsAt c (item (.above g)) := by
  by_cases hopen : Undecided (t :: ts)
  · exact (item_ends hg hd (hr ▸ hopen)).follows
  · have h : Decided S.more (t :: ts) := decided hopen (hc.apart hs hr)
    have hunnamed : startsUnnamed (t :: ts ++ S.more) 0 = startsUnnamed (t :: ts) 0 :=
      startsUnnamed_append hunfolds fun hb => hopen (.begun hb)
    have hobject := object_trails hg.above
    refine .ahead ?_ (.ite (((assignment_trails hg.above).map _).at hc)
      (.ite (((visibility_trails hg.above hobject).map _).at hc)
        (.ite (((template_trails hg.above hobject).map _).at hc)
          (.ite (((unnamed_trails hg.above).map _).at hc)
            (.ite (((member_trails hg.above).map _).at hc) ((hg.above.expr.map _).at hc))))))
    simp only [hr, h.assignment, h.modifier, h.template, hunnamed, h.member]

/-- In front of `unnamed` and a name at the end, `unnamed` is read, or both. -/
theorem item_unfolds (hg : Trailing S g) (hd : c.depth < maxNesting) (hopen : ¬ Undecided c.rest)
    (h : Unfolds c.rest) : S.Ends c (item (.above g)) ∨
      ∃ t u i, isWord [u] 0 = true ∧ item (.above g) S.source c = ⟨some i, past c t [u], []⟩ := by
  obtain ⟨t, u, hr, ht, hu⟩ := h
  have hunnamed : keyword? [t, u] 0 = some .unnamed := ht
  have hw : isWord [t] 0 = true := isWord_of_isKeyword ((isKeyword_iff 0).2 ht)
  have his : isKeyword [u] 0 .is = false := Bool.eq_false_iff.2 fun hi =>
    hopen (hr ▸ .begun (.is t u hw ((isKeyword_iff 0).1 hi)))
  have hmodifier : isModifier [t, u] 0 = false := by rw [isModifier, hunnamed]
  have halone : Alone [t, u] := alone_two hmodifier hu his
  have htemplate : startsTemplate [t, u] 0 = false := by
    rw [startsTemplate, isKeyword, hunnamed]
    rfl
  have hobject : startsUnnamed [t, u] 0 = false := Bool.and_false _
  have hmember : startsMember [t, u] 0 = false := by
    rw [startsMember, halone.payload, show isKind [t, u] 1 .eq = false from isKind_of_isWord hu rfl]
    exact Bool.and_false _
  have hitem : item (.above g) S.source c =
      (Item.ofExpr <$> (Grammar.above g).expr) S.source c := by
    rw [item, ahead_bind, hr, if_neg (by simp [halone.assignment]), if_neg (by simp [hmodifier]),
      if_neg (by simp [htemplate]), if_neg (by simp [hobject]), if_neg (by simp [hmember])]
  rw [Sequel.Ends, hitem]
  rcases above_alone hg hd hr hw halone (fun v hv => by
    obtain rfl : u = v := by simpa using hv
    exact ⟨rfl, hu⟩) with hends | ⟨v, e, hv, hrun⟩
  · exact .inl (hends.map _)
  · obtain rfl : u = v := by simpa using hv
    exact .inr ⟨t, u, .ofExpr e, hu, by rw [map_run, hrun]; rfl⟩

/-- So one more item is reported at the end. -/
theorem nextItem_ends {read : List Item} (hne : c.rest ≠ [])
    (h : S.Ends c (item (.above g))) : S.Ends c (nextItem (.above g) read) := by
  rw [Sequel.Ends, nextItem_cons hne]
  refine Sequel.Ends.bind ?_ fun _ _ hd => .pure hd _
  refine .mark fun m => (h.orRecover fun d hd => ?_).bind fun _ _ hd =>
    (Sequel.Ends.emit hd _).bind fun _ _ he => .pure he _
  exact (Sequel.Ends.recoverItem hd m).map _

/-- Where no token is left there is none. -/
theorem nextItem_spent (hg : Trailing S g) (read : List Item) (hs : S.Spent c) :
    S.Ends c (nextItem (.above g) read) := by
  by_cases hne : c.rest = []
  · rw [Sequel.Ends, nextItem_nil hne read]
    exact ⟨hs, Sequel.late_of_quiet quiet_nil⟩
  · exact nextItem_ends hne (item_spent hg hs)

/-- Otherwise it is read alike. -/
theorem nextItem_follows (hg : Trailing S g) {read : List Item} (hd : c.depth < maxNesting)
    (hc : S.Ready c) (hs : ¬ S.Spent c) (hr : c.rest = t :: ts) (hunfolds : ¬ Unfolds (t :: ts)) :
    S.FollowsAt c (nextItem (.above g) read) := by
  have hne : c.rest ≠ [] := Sequel.rest_ne_nil hs
  have hne' : (S.extend c).rest ≠ [] := by
    rw [Sequel.extend_rest hr]
    exact List.cons_ne_nil t _
  rw [Sequel.FollowsAt, Sequel.Ends, nextItem_cons hne, nextItem_cons hne']
  refine Sequel.FollowsAt.bind (.mark hne fun m => ?_) fun _ => .pure _
  refine Sequel.FollowsAt.bind ((item_follows hg hd hc hs hr hunfolds).orRecover fun d hd => ?_)
    fun _ => .bind (.emit _) fun _ => .pure _
  exact (Sequel.Ends.recoverItem hd m).map _

/-- An item that is read is not cut out. -/
theorem nextItem_run (read : List Item) (hne : c.rest ≠ []) {i : Item} {d : Cursor}
    (h : item g S.source c = ⟨some i, d, []⟩) : nextItem g read S.source c =
      ⟨some (.inl (i :: read)), d, [.event (.item i.span.line i.span.column i.isError)]⟩ := by
  have hor (q : Parser Item) : orRecover (item g) q S.source c = ⟨some i, d, []⟩ := by
    rw [orRecover_of_some (by rw [h]), h]
  have hitem : itemOrError g S.source c =
      ⟨some i, d, [.event (.item i.span.line i.span.column i.isError)]⟩ := by
    rw [itemOrError, bind_of_run (show mark S.source c = ⟨some _, c, []⟩ from rfl),
      bind_of_run (hor _)]
    rfl
  rw [nextItem_cons hne, bind_of_some (by rw [hitem]), hitem]
  rfl

/-- **Where the longer source has no problem, those of the shorter one lie at its end.** -/
theorem items_late (hg : Trailing S g) (read : List Item) (c : Cursor) (hc : S.Ready c)
    (hd : c.depth < maxNesting)
    (hq : Quiet (loop (nextItem (.above g)) read S.longer (S.extend c)).notes) :
    S.Late (loop (nextItem (.above g)) read S.source c).notes := by
  have hadvances : Advances (nextItem (.above g)) := nextItem_advances hg.above.advancing
  -- A round that uses up the tokens leaves a loop that ends at the end of the source.
  have hend (read : List Item) (d : Cursor) (hs : S.Spent d) :
      S.Ends d (loop (nextItem (.above g)) read) :=
    .loop hadvances (fun read _ hs => nextItem_spent hg read hs) read hs
  have hafter (read : List Item) (d : Cursor) (h : S.Ends d (nextItem (.above g) read)) :
      S.Ends d (loop (nextItem (.above g)) read) := by
    rw [Sequel.Ends, loop_eq hadvances S.ended]
    refine h.bind fun r e he => ?_
    cases r with
    | inl read => exact hend read e he
    | inr items => exact .of_quiet he quiet_nil
  -- On the tokens left, since each round of the loop takes at least one.
  induction hn : c.rest.length using Nat.strongRecOn generalizing read c with
  | ind n ih =>
    by_cases hs : S.Spent c
    · exact (hend read c hs).late
    have hne : c.rest ≠ [] := Sequel.rest_ne_nil hs
    obtain ⟨t, ts, hr⟩ := List.exists_cons_of_ne_nil hne
    by_cases hopen : Undecided c.rest
    · exact (hafter read c (nextItem_ends hne (item_ends hg hd hopen))).late
    -- What is left may still be read as two items, of which the last is a lone name.
    by_cases hunfolds : Unfolds c.rest
    · rcases item_unfolds hg hd hopen hunfolds with hends | ⟨t, u, i, hu, hrun⟩
      · exact (hafter read c (nextItem_ends hne hends)).late
      · have hstep := nextItem_run read hne hrun
        have hlast : S.Ends (past c t [u]) (nextItem (.above g) (i :: read)) :=
          nextItem_ends (List.cons_ne_nil u []) (item_ends hg hd (.begun (.name u hu)))
        have hends :
            S.Ends c (nextItem (.above g) read >>= again (loop (nextItem (.above g)))) := by
          refine .after (a := .inl (i :: read)) (by rw [hstep]) ?_ ?_
          · rw [hstep]
            exact quiet_nil
          · rw [hstep]
            exact hafter _ _ hlast
        rw [loop_eq hadvances S.ended]
        exact hends.late
    · -- The longer source reads the same item here, unless this one fails at its end.
      have hdepth : (nextItem (.above g) read S.source c).cursor.depth < maxNesting := by
        have hmoves := (itemStep_steady hg.above.advancing (fun _ => false) read).moves S.ended c
        exact hmoves.depth.symm ▸ hd
      rw [loop_eq hadvances S.ended'] at hq
      rcases nextItem_follows hg hd hc hs hr (hr ▸ hunfolds) (quiet_of_bind hq) with
        ⟨⟨r, hv, hv'⟩, hcursor, hready, hquiet⟩ | hends
      · rw [bind_of_some hv', hcursor, quiet_append] at hq
        rw [loop_eq hadvances S.ended, bind_of_some hv]
        refine (Sequel.late_of_quiet hquiet).append ?_
        cases r with
        | inl read' =>
          exact ih _ (hn ▸ hadvances S.ended read read' c hv) read' _ hready hdepth hq.2 rfl
        | inr items => exact Sequel.late_of_quiet quiet_nil
      · exact (hafter read c hends).late

end Parser
end Ndf
