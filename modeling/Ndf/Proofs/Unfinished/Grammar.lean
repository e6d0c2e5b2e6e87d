/-
# The grammar on a source and a longer one

Every parser of the grammar trails (`Sequel.Trails`), level by level (`Parser.trailing_levels`).
Where a test ahead is open, as the tokens end too soon, the shorter run takes the last of them for
what they could be on their own and is used up: these are the lemmas on `Ends`.  A word alone is
read as a reference (`wordLed_alone`), so it is used up without a problem.
-/

import Ndf.Proofs.Unfinished.Undecided

namespace Ndf

open Lookahead

namespace Parser

variable {S : Sequel} {g : Grammar} {α : Type} {c : Cursor}

/-- What the level below has to do so that a level trails. -/
structure Trailing (S : Sequel) (g : Grammar) : Prop where
  advancing : Advancing g
  expr : S.Trails g.expr
  operand : S.Trails g.operand
  type : S.Trails g.type

section Tests

variable {ts : List Token}

/-- A test of the next token and its joint is settled by that token. -/
theorem sign_test (kind : TokenKind) (hts : ts ≠ []) :
    (isKind (ts ++ S.more) 0 kind && isJoined (ts ++ S.more) 0) =
      (isKind ts 0 kind && isJoined ts 0) := by
  have hlen := List.length_pos_iff.2 hts
  rw [isKind_append hlen, isJoined_append S.apart (Nat.le_of_lt hlen)]

/-- So is the same test of a word. -/
theorem word_test (hts : ts ≠ []) :
    (isWord (ts ++ S.more) 0 && isJoined (ts ++ S.more) 0) = (isWord ts 0 && isJoined ts 0) := by
  have hlen := List.length_pos_iff.2 hts
  rw [isWord_append hlen, isJoined_append S.apart (Nat.le_of_lt hlen)]

end Tests

/-! ### Types -/

/-- The parameters of a type are read alike where more follows. -/
theorem typeParams_trails (hg : Trailing S g) : S.Trails (typeParams g) := by
  refine .loop (Eats.advances (typeParamStep_eats hg.advancing)) (fun read => ?_) []
  refine .bind hg.type fun param => .bind (.eat _) fun _ =>
    .peek (fun t ht hstart d hd => ?_) fun c t ts hc _ hr => ?_
  · split
    · exact (Sequel.Ends.bump hd).bind fun _ _ he => .pure he _
    · -- A sign of two halves is no word.
      rename_i hk
      rw [hk] at ht
      exact absurd ht (by decide)
    · exact .pure hd _
    · exact .unexpected hd _
  · split
    · exact (Sequel.Trails.bump.at hc).bind fun _ => .pure _
    · exact (Sequel.FollowsAt.bumpHalf hc hr).bind fun _ => .pure _
    · exact .pure hc _
    · exact (Sequel.Trails.unexpected _).at hc

/-- So is a type. -/
theorem typeRef_trails (hg : Trailing S g) : S.Trails (typeRef g) := by
  refine .mark fun m => ?_
  refine .look fun _ => .bind (.name _) fun name => ?_
  exact .test (fun _ => sign_test _)
    (.bind .bump fun _ => .bind (typeParams_trails hg) fun _ => .close m _)
    (.bind (.pure _) fun _ => .close m _)

/-! ### Elements and paths -/

/-- So is one round of the elements. -/
theorem element_trails (hg : Trailing S g) (e : Elements) : S.Trails (element g e) := by
  have item : S.Trails (do
      let m ← mark
      let item ← orRecover g.expr (Expr.error <$> recoverElement m)
      pure (.inl { e with reversed := item :: e.reversed, commaDue := true }) :
        Parser (Elements ⊕ Elements)) :=
    .mark fun m => .bind (.orRecover hg.expr fun d hd =>
      (Sequel.Ends.recoverElement hd m).map _) fun _ => .pure _
  refine .peek (fun t ht hstart d hd => ?_) fun c t ts hc hs hr => ?_
  · dsimp only
    split
    · exact .pure hd _
    · exact .pure hd _
    · exact (Sequel.Ends.bump hd).bind fun _ _ he => .pure he _
    · exact .ite ((Sequel.Ends.report hd hstart (.inl rfl)).bind fun _ => item.spent)
        (item.spent d hd)
  · dsimp only
    split
    · exact .pure hc _
    · exact .pure hc _
    · exact (Sequel.Trails.bump.at hc).bind fun _ => .pure _
    · exact .ite (.of_loud (Loud.bind (fun _ _ => not_quiet_problem _ _) _ _))
        (item.at hc)

/-- So are the elements between brackets. -/
theorem bracketed_trails (hg : Trailing S g) : S.Trails (bracketed g) := by
  refine .bind (.expect _ _) fun _ => ?_
  refine .bind (.loop (element_advances hg.advancing) (element_trails hg) _) fun _ => ?_
  refine .bind (.expect _ _) fun _ => ?_
  exact .pure _

/-- So is one step of a path. -/
theorem suffix_trails (hg : Trailing S g) (read : List Suffix) : S.Trails (suffix g read) := by
  refine .test (fun _ => continuesPath_append S.apart) (.look fun t => ?_) (.pure _)
  split
  · exact .bind .bump fun _ => .bind hg.expr fun _ => .bind (.expect _ _) fun _ => .pure _
  · exact .bind .bump fun _ => .bind (.name _) fun _ => .pure _
  · exact .bind .bump fun _ => .bind (.name _) fun _ => .pure _

/-- So are all steps. -/
theorem suffixes_trails (hg : Trailing S g) : S.Trails (suffixes g) :=
  .loop (suffix_advances hg.advancing) (suffix_trails hg) []

/-- So is the sign of a scope. -/
theorem scopeMark_trails : S.Trails scopeMark := by
  refine .bind .bump fun _ => ?_
  refine .test (fun _ => sign_test _)
    (.bind .bump fun _ => .test (fun _ => word_test) (.pure _) (.unexpected _)) ?_
  exact .bind (.unexpected _) fun _ => .test (fun _ => word_test) (.pure _) (.unexpected _)

/-- So is a path. -/
theorem reference_trails (hg : Trailing S g) : S.Trails (reference g) := by
  have key (scope : Scope) (m : Mark) : S.Trails (do
      let name ← name "a reference name"
      let suffixes ← suffixes g
      let kind : SegmentKind := if scope = .none then .terminal else .nested
      pure (⟨scope, Reference.segmentsOf name kind suffixes, ← spanFrom m⟩ : Reference)) :=
    .bind (.name _) fun _ => .bind (suffixes_trails hg) fun _ => .close m _
  exact .mark fun m => .look fun t => .ite (.bind scopeMark_trails fun _ => key _ m) (key _ m)

/-- So is whatever a name and a bracket start. -/
theorem vectorOrPath_trails (hg : Trailing S g) : S.Trails (vectorOrPath g) := by
  refine .mark fun m => .bind (.name _) fun name => .bind (bracketed_trails hg) fun e =>
    .bind (.spanFrom m) fun span => .ahead (fun ts hts => ?_) fun ts => ?_
  · simp only [continuesPath_append S.apart hts]
  · split
    · exact .ite (.bind (suffixes_trails hg) fun _ => .close m _) (.pure _)
    · exact .pure _

/-! ### Declarations -/

/-- So is an assignment. -/
theorem assignment_trails (hg : Trailing S g) : S.Trails (assignment g) := by
  refine .mark fun m => ?_
  refine .bind (.name _) fun name => .bind (.expectKeyword _) fun _ => .bind hg.expr fun value => ?_
  exact .close m _

/-- What follows the colon of a member. -/
theorem memberType_trails (hg : Trailing S g) (m : Mark) (name : Name) : S.Trails (do
    if ← eat .eq then
      let value ← g.expr
      pure ⟨name, none, some value, true, ← spanFrom m⟩
    else
      let type ← typeRef g
      if ← eat .eq then
        let value ← g.expr
        pure ⟨name, some type, some value, false, ← spanFrom m⟩
      else pure ⟨name, some type, none, false, ← spanFrom m⟩ : Parser Member) := by
  refine .bind (.eat _) fun _ => ?_
  refine .ite (.bind hg.expr fun _ => .close m _) ?_
  refine .bind (typeRef_trails hg) fun type => .bind (.eat _) fun _ => ?_
  exact .ite (.bind hg.expr fun _ => .close m _) (.close m _)

/-- So is what follows the name of a member. -/
theorem memberTail_trails (hg : Trailing S g) (m : Mark) (name : Name) :
    S.Trails (memberTail g m name) := by
  refine .bind (.eat _) fun _ => ?_
  exact .ite (memberType_trails hg m name)
    (.bind (.expect _ _) fun _ => .bind hg.expr fun _ => .close m _)

/-- So is a member. -/
theorem member_trails (hg : Trailing S g) : S.Trails (member g) :=
  .mark fun m => .bind (.name _) fun name => memberTail_trails hg m name

/-- So are the parameters of a template. -/
theorem params_trails (hg : Trailing S g) : S.Trails (params g) := by
  have param : S.Trails (param g) := by
    refine .mark fun m => .bind (.name _) fun name => .look fun t => ?_
    split
    · exact memberTail_trails hg m name
    · exact memberTail_trails hg m name
    · exact .close m _
  refine .loop (paramStep_advances hg.advancing) (fun read => .look fun t => ?_) []
  split
  · exact .pure _
  · exact .pure _
  · exact .bind .bump fun _ => .pure _
  · exact .bind param fun _ => .pure _
  · exact .unexpected _

variable {body : Parser Object}

/-- So is a template, if its body is. -/
theorem template_trails (hg : Trailing S g) (hb : S.Trails body) : S.Trails (template g body) := by
  refine .mark fun m => ?_
  refine .bind (.expectKeyword _) fun _ => .bind (.name _) fun name => ?_
  refine .bind (.expect _ _) fun _ => .bind (params_trails hg) fun params => ?_
  refine .bind (.expect _ _) fun _ => .bind (.expectKeyword _) fun _ => .bind hb fun object => ?_
  exact .close m _

/-! ### The last words

In front of the last tokens the shorter run takes one of the ways that are open, whichever the
longer one takes, and is used up on it. -/

section LastWords

variable {t u v : Token} {ts : List Token}

/-- Reading a word. -/
theorem name_run (hr : c.rest = t :: ts) (hw : isWord [t] 0 = true) (due : String) (src : Source) :
    ∃ n, name due src c = ⟨some n, past c t ts, []⟩ := by
  obtain ⟨kind, span, joined⟩ := t
  cases kind with
  | word text wordClass =>
    exact ⟨_, (name_run_word (by rw [hr, List.headD_cons]) due).trans (bump_pure_run hr _)⟩
  | _ => cases hw

/-- The name is the last but the tokens behind it, where the rest is late. -/
theorem name_ends {f : Name → Parser α} (hr : c.rest = t :: ts) (hw : isWord [t] 0 = true)
    (due : String) (hf : ∀ n d, d.rest = ts → S.Ends d (f n)) :
    S.Ends c (Parser.name due >>= f) := by
  obtain ⟨n, hrun⟩ := name_run hr hw due S.source
  exact Sequel.Ends.run hrun (hf n _ rfl)

/-- A word that no path goes on behind. -/
theorem reference_alone (hg : Advancing g) {src : Source} (he : src.Ended) (hr : c.rest = t :: ts)
    (hw : isWord [t] 0 = true) (hn : continuesPath ts = false) :
    ∃ r, reference g src c = ⟨some r, past c t ts, []⟩ := by
  have hscope : scopeOf t.kind = .none := by
    obtain ⟨kind, span, joined⟩ := t
    cases kind <;> first | rfl | cases hw
  obtain ⟨n, hname⟩ := name_run hr hw "a reference name" src
  have hsuffixes : suffixes g src (past c t ts) = ⟨some [], past c t ts, []⟩ := by
    refine loop_of_inr (suffix_advances hg) he ?_
    rw [suffix, ahead_bind, if_neg (by simp [past, hn])]
    rfl
  apply Exists.intro
  rw [reference]
  rw [bind_of_run (show mark src c = ⟨some _, c, []⟩ from rfl), peek_bind, hr, List.headD_cons,
    hscope]
  show (name "a reference name" >>= _) src c = _
  rw [bind_of_run hname, bind_of_run hsuffixes]
  rfl

/-- A keyword that is there is taken. -/
theorem expectKeyword_read (hr : c.rest = t :: ts) {k : Keyword} (hk : t.kind.keyword? = some k)
    (src : Source) : expectKeyword k src c = ⟨some (), past c t ts, []⟩ := by
  rw [expectKeyword_run, hr, List.headD_cons, hk, if_pos (beq_self_eq_true _), bump_run hr]
  rfl

/-- An assignment without a value is reported at the end. -/
theorem assignment_ends (hg : Trailing S g) (h : Begun c.rest) : S.Ends c (assignment g) := by
  have value (m : Mark) (n : Name) : S.Trails (do
      let value ← g.expr
      pure (⟨n, value, ← spanFrom m⟩ : Assignment)) := .bind hg.expr fun _ => .close m _
  generalize hr : c.rest = ts at h
  refine .mark fun m => ?_
  cases h with
  | name t word =>
    exact name_ends hr word _ fun n d hd =>
      (Sequel.Trails.bind (.expectKeyword .is) fun _ => value m n).spent d (.of_nil hd)
  | is t u word his =>
    exact name_ends hr word _ fun n d hd =>
      Sequel.Ends.run (expectKeyword_read hd his _) ((value m n).spent _ (.of_nil rfl))

/-- A path of one word ends there. -/
theorem reference_ends (hg : Trailing S g) (hr : c.rest = [t]) (hw : isWord [t] 0 = true) :
    S.Ends c (reference g) := by
  obtain ⟨r, hrun⟩ := reference_alone hg.advancing S.ended hr hw rfl
  exact .of_run hrun (.of_nil rfl)

/-- A declaration that has only begun is reported at the end. -/
theorem declaration_ends (hg : Trailing S g) (h : Begun c.rest) {k : Declaration → Parser α}
    (hk : ∀ d, S.Trails (k d)) : S.Ends c (do
      if Lookahead.startsTemplate (← ahead) 0 then
        let d ← Declaration.template <$> template g body
        k d
      else
        let d ← Declaration.assignment <$> assignment g
        k d) := by
  refine .ahead ?_
  rw [if_neg (by simp [startsTemplate_begun h])]
  exact ((assignment_ends hg h).map _).bind fun d _ hd => (hk d).spent _ hd

/-- Otherwise it is read alike. -/
theorem declaration_trails (hg : Trailing S g) (hb : S.Trails body) {k : Declaration → Parser α}
    (hk : ∀ d, S.Trails (k d)) : S.Trails (do
      if Lookahead.startsTemplate (← ahead) 0 then
        let d ← Declaration.template <$> template g body
        k d
      else
        let d ← Declaration.assignment <$> assignment g
        k d) := by
  refine .aheadOr (fun ts => .ite (((template_trails hg hb).map _).bind hk)
    (((assignment_trails hg).map _).bind hk)) fun c t ts _ _ hr => ?_
  by_cases hbegun : Begun c.rest
  · exact .inl (declaration_ends hg hbegun hk)
  · rw [hr] at hbegun
    exact .inr (by simp only [startsTemplate_of_not_begun hbegun])

/-- A word that looks like a modifier is one. -/
theorem modifier?_of_isModifier (h : isModifier [t] 0 = true) :
    ∃ modifier, t.kind.keyword?.bind modifier? = some modifier := by
  have hk : keyword? [t] 0 = t.kind.keyword? := rfl
  rw [isModifier, hk] at h
  split at h
  · rename_i he; exact ⟨.export, by rw [he]; rfl⟩
  · rename_i he; exact ⟨.private, by rw [he]; rfl⟩
  · rename_i he; exact ⟨.public, by rw [he]; rfl⟩
  · cases h

/-- A modifier with what follows is read alike. -/
theorem visibility_trails (hg : Trailing S g) (hb : S.Trails body) :
    S.Trails (visibility g body) := by
  refine .mark fun m => .look fun t => ?_
  split
  · exact .unexpected _
  · exact .bind (.name _) fun _ => declaration_trails hg hb fun _ => .close m _

/-- One whose declaration has only begun is reported at the end. -/
theorem visibility_ends (hg : Trailing S g) (hr : c.rest = t :: ts) (ht : isModifier [t] 0 = true)
    (h : Begun ts) : S.Ends c (visibility g body) := by
  refine .mark fun m => ?_
  obtain ⟨modifier, hm⟩ := modifier?_of_isModifier ht
  rw [Sequel.Ends, peek_bind, hr, List.headD_cons, hm]
  exact name_ends hr (isWord_of_isModifier ht) _ fun n d hd =>
    declaration_ends hg (hd ▸ h) fun _ => .close m _

/-- So is a member without anything behind its colon. -/
theorem member_ends (hg : Trailing S g) (hr : c.rest = [t, u]) (ht : isWord [t] 0 = true)
    (hu : u.kind = .colon) : S.Ends c (member g) := by
  refine .mark fun m => name_ends hr ht _ fun n d hd => ?_
  have heat : eat .colon S.source d = ⟨some true, past d u [], []⟩ := by
    rw [eat_run, hd, List.headD_cons, hu, if_pos (beq_self_eq_true _), bump_pure_run hd]
  exact Sequel.Ends.run heat ((memberType_trails hg m n).spent _ (.of_nil rfl))

/-! ### Entries and objects -/

/-- So is an entry that is undecided. -/
theorem entry_ends (hg : Trailing S g) (h : Undecided c.rest) : S.Ends c (entry g body) := by
  generalize hr : c.rest = us at h
  refine .ahead ?_
  rw [hr]
  cases h with
  | begun h =>
    cases h with
    | name t ht =>
      obtain ⟨ha, hv, hm⟩ := starts_one t
      rw [if_neg (by simp [ha]), if_neg (by simp [hv]), if_neg (by simp [hm]),
        if_pos (by simp [ht])]
      exact (reference_ends hg hr ht).map _
    | is t u ht hu =>
      rw [if_pos (startsAssignment_is ht hu)]
      exact (assignment_ends hg (hr ▸ .is t u ht hu)).map _
  | modified t u v ht hu hv =>
    obtain ⟨ha, hvisibility⟩ := starts_modified ht hu hv
    rw [if_neg (by simp [ha]), if_pos hvisibility]
    exact (visibility_ends hg hr ht (.is u v hu hv)).map _
  | payload t u ht hu =>
    obtain ⟨ha, hv, hm⟩ := starts_payload ht hu
    have hw : isWord [t] 0 = true := isWord_of_isKeyword ((isKeyword_iff 0).2 ht)
    rw [if_neg (by simp [ha]), if_neg (by simp [hv]), if_pos hm]
    exact (member_ends hg hr hw hu).map _

/-- Another one is read alike. -/
theorem entry_trails (hg : Trailing S g) (hb : S.Trails body) : S.Trails (entry g body) := by
  refine .aheadOr (fun ts => .ite ((assignment_trails hg).map _)
    (.ite ((visibility_trails hg hb).map _) (.ite ((member_trails hg).map _)
      (.ite ((reference_trails hg).map _) (.abortHere fun _ => .inr rfl)))))
    fun c t ts hc hs hr => ?_
  by_cases hopen : Undecided c.rest
  · exact .inl (entry_ends hg hopen)
  · rw [hr] at hopen
    have hd : Decided S.more (t :: ts) := decided hopen (hc.apart hs hr)
    have hword : isWord (t :: ts ++ S.more) 0 = isWord (t :: ts) 0 := rfl
    have hscoped := startsScoped_append S.apart (List.cons_ne_nil t ts)
    exact .inr (by simp only [hd.assignment, hd.visibility, hd.member, hword, hscoped])

/-- So is an object, if its templates are. -/
theorem objectWith_trails (hg : Trailing S g) (hs : Steady body) (hb : S.Trails body) :
    S.Trails (objectWith g body) := by
  have entries : S.Trails (loop (entryStep g body) []) := by
    have next (read : List Entry) : S.Trails (do
        let m ← mark
        let next ← orRecover (entry g body) (Entry.error <$> recoverEntry m)
        pure (.inl (next :: read)) : Parser (List Entry ⊕ List Entry)) :=
      .mark fun m => .bind (.orRecover (entry_trails hg hb) fun d hd =>
        (Sequel.Ends.recoverEntry hd m).map _) fun _ => .pure _
    refine .loop (entryStep_advances hg.advancing hs) (fun read =>
      .peek (fun t ht hstart d hd => ?_) fun c t ts hc _ hr => ?_) []
    · split
      · exact (Sequel.Ends.bump hd).bind fun _ _ he => .pure he _
      · exact .unexpected hd _
      · exact (Sequel.Ends.report hd hstart (.inl rfl)).bind fun _ _ he =>
          (Sequel.Ends.bump he).bind fun _ _ hf => .pure hf _
      · exact (next read).spent d hd
    · split
      · exact (Sequel.Trails.bump.at hc).bind fun _ => .pure _
      · exact (Sequel.Trails.unexpected _).at hc
      · exact .of_loud (Loud.bind (fun _ _ => not_quiet_problem _ _) _ _)
      · exact (next read).at hc
  exact .mark fun m => .bind (.name _) fun _ => .bind (.expect _ _) fun _ => .bind entries
    fun _ => .close m _

/-- So is any object. -/
theorem object_trails (hg : Trailing S g) : S.Trails (object g) := by
  have hbase := Steady.unexpected (α := Object) ""
  have nest (n : Nat) : S.Trails (objectNest g (unexpected "") n) := by
    induction n with
    | zero => exact objectWith_trails hg hbase (.unexpected _)
    | succ n ih => exact objectWith_trails hg (objectNest_steady hg.advancing hbase n) ih
  have hrun (n : Nat) (src : Source) (he : src.Ended) (c : Cursor) (hn : c.rest.length ≤ n) :
      object g src c = objectNest g (unexpected "") n src c :=
    object_eq_nest hg.advancing hbase he hn
  constructor
  · intro c hr
    rw [Sequel.Ends, hrun _ _ S.ended c (Nat.le_refl _)]
    exact (nest _).spent c hr
  · -- As many levels as there are tokens in the longer run are enough for both.
    intro c hc hr
    have hle : c.rest.length ≤ (S.extend c).rest.length := by
      rw [Sequel.extend, List.length_append]
      exact Nat.le_add_right _ _
    rw [Sequel.FollowsAt, Sequel.Ends, hrun _ _ S.ended c hle,
      hrun _ _ S.ended' (S.extend c) (Nat.le_refl _)]
    exact (nest _).follows c hc hr

/-- So is an unnamed one. -/
theorem unnamed_trails (hg : Trailing S g) : S.Trails (unnamed g) :=
  .mark fun m => .bind (.expectKeyword _) fun _ => .bind (object_trails hg) fun _ => .close m _

end LastWords

/-! ### Operands -/

/-- So is a list. -/
theorem list_trails (hg : Trailing S g) : S.Trails (list g) :=
  .mark fun m => .bind (bracketed_trails hg) fun _ => .close m _

/-- So is a vector. -/
theorem vector_trails (hg : Trailing S g) (type : VectorType) : S.Trails (vector g type) :=
  .mark fun m => .bind (.name _) fun _ => .bind (bracketed_trails hg) fun _ => .close m _

/-- So is what stands in parentheses. -/
theorem parenthesised_trails (hg : Trailing S g) : S.Trails (parenthesised g) := by
  refine .mark fun m => ?_
  refine .bind (.expect _ _) fun _ => .bind (.eat _) fun _ => ?_
  refine .ite (.close m _) ?_
  refine .bind hg.expr fun value => .bind (.eat _) fun _ => ?_
  exact .ite (.bind hg.expr fun _ => .bind (.expect _ _) fun _ => .close m _)
    (.bind (.expect _ _) fun _ => .close m _)

/-- So is an index. -/
theorem index?_trails (hg : Trailing S g) : S.Trails (index? g) :=
  .test (fun _ => sign_test _) (.bind .bump fun _ => .bind hg.expr fun _ => .bind (.expect _ _)
    fun _ => .pure _) (.pure _)

/-- So is a generic type. -/
theorem generic_trails (hg : Trailing S g) : S.Trails (generic g) := by
  refine .mark fun m => ?_
  refine .bind (.expect _ _) fun _ => ?_
  refine .test (fun _ => word_test) ?_ (.unexpected _)
  refine .bind (.name _) fun name => ?_
  exact .test (fun _ => sign_test _)
    (.bind .bump fun _ => .bind (index?_trails hg) fun _ => .close m _) (.unexpected _)

/-- So is a constant. -/
theorem constant_trails (value : Span → Expr) : S.Trails (constant value) :=
  .look fun _ => .bind .bump fun _ => .pure _

/-- What is no pair the longer run reports. -/
theorem pairs_follows (hc : S.Ready c) (items : List Expr) : S.FollowsAt c (pairs items) := by
  induction items with
  | nil => exact .pure hc _
  | cons item items ih =>
    unfold pairs
    split
    · exact ih.bind fun _ => .pure _
    · exact ih.bind fun _ => .pure _
    · exact .of_loud (Loud.bind (fun _ _ => not_quiet_problem _ _) _ _)

/-- Sequences in either order. -/
theorem bind_bind {β γ : Type} (p : Parser α) (f : α → Parser β) (h : β → Parser γ) :
    (p >>= f) >>= h = p >>= fun a => f a >>= h := by
  funext src c
  cases hv : (p src c).value with
  | none =>
    have hrun := bind_of_none (f := f) hv
    rw [bind_of_none hv, bind_of_none (by rw [hrun]), hrun]
  | some a =>
    have hrun := bind_of_some (f := f) hv
    cases hv' : (f a src (p src c).cursor).value with
    | none =>
      rw [bind_of_some hv, bind_of_none hv', bind_of_none (by rw [hrun, hv']), hrun]
    | some b =>
      rw [bind_of_some hv, bind_of_some hv', bind_of_some (by rw [hrun, hv']), hrun,
        List.append_assoc]

/-- What follows a closing bracket needs no care where the bracket is missing. -/
theorem bracketed_then (hg : Trailing S g) {f : Elements → Parser α}
    (hf : ∀ (e : Elements) (d : Cursor), S.Ready d → S.FollowsAt d (f e)) :
    S.Trails (bracketed g >>= f) := by
  rw [bracketed, bind_bind]
  refine .bind (.expect _ _) fun _ => ?_
  rw [bind_bind]
  refine .bind (.loop (element_advances hg.advancing) (element_trails hg) _) fun e => ?_
  rw [bind_bind]
  exact .expectThen (by simp) rfl _ fun d hd => hf e d hd

/-- So is a map. -/
theorem map_trails (hg : Trailing S g) : S.Trails (map g) := by
  refine .mark fun m => ?_
  refine .bind (.name _) fun name => bracketed_then hg fun e _ hd => ?_
  exact (pairs_follows hd e.items).bind fun _ => .close m _

/-- So is a payload. -/
theorem guid_trails : S.Trails guid := by
  refine .mark fun m => .bind .bump fun _ => .bind (.expect _ _) fun _ =>
    .peek (fun t ht _ d hd => ?_) fun c t ts hc _ hr => ?_
  · split
    · exact (Sequel.Ends.bump hd).bind fun _ => (Sequel.Trails.close m _).spent
    · -- A broken token is no word.
      rename_i hk
      rw [hk] at ht
      exact absurd ht (by decide)
    · exact .unexpected hd _
  · split
    · exact (Sequel.Trails.bump.at hc).bind fun _ => .close m _
    · rename_i hk
      cases hc.fair t (hr ▸ List.mem_cons_self ..) _ hk
    · exact (Sequel.Trails.unexpected _).at hc

section Word

variable {t : Token} {ts : List Token} {src : Source}

/-- A word alone is read as such. -/
theorem wordLed_alone (hg : Advancing g) (he : src.Ended) (hr : c.rest = t :: ts)
    (hw : isWord [t] 0 = true) (h : Alone (t :: ts)) (wordClass : WordClass) :
    ∃ e, wordLed g wordClass src c = ⟨some e, past c t ts, []⟩ := by
  have named : ∃ e, nameLed g src c = ⟨some e, past c t ts, []⟩ := by
    obtain ⟨r, hrun⟩ := reference_alone hg he hr hw h.path
    refine ⟨.reference r, ?_⟩
    rw [nameLed, ahead_bind, hr, h.object, h.bracket, if_neg (by simp), if_neg (by simp), map_run,
      hrun]
    rfl
  have constant (value : Span → Expr) : ∃ e, constant value src c = ⟨some e, past c t ts, []⟩ :=
    ⟨_, bump_pure_run hr _⟩
  rw [wordLed, ahead_bind, hr, h.assignment, h.visibility, h.payload, h.bracket]
  simp only [Bool.false_eq_true, if_false]
  split
  · exact constant _
  · exact constant _
  · exact constant _
  · exact named
  · exact named
  · exact named
  · exact named

/-- A payload that is missing is reported at the end. -/
theorem guid_ends {u : Token} (hr : c.rest = [t, u]) (hu : u.kind = .colon) : S.Ends c guid := by
  have hcolon : expect .colon "':'" S.source (past c t [u]) =
      ⟨some (), past (past c t [u]) u [], []⟩ := by
    rw [expect_run, show (past c t [u]).rest = [u] from rfl, List.headD_cons, hu,
      if_pos (beq_self_eq_true _), bump_run (show (past c t [u]).rest = [u] from rfl)]
    rfl
  refine .mark fun m => Sequel.Ends.run (bump_run hr) (Sequel.Ends.run hcolon ?_)
  have hstop : S.source.stop.kind = .eof := S.ended
  rw [Sequel.Ends, peek_bind, show (past (past c t [u]) u []).rest = [] from rfl, List.headD_nil,
    hstop]
  exact Sequel.Ends.unexpected (.of_nil rfl) _

/-- What a word starts ends late where nothing tells what it is. -/
theorem wordLed_ends (hg : Trailing S g) {text : String} {wordClass : WordClass}
    (hr : c.rest = t :: ts) (ht : t.kind = .word text wordClass) (h : Undecided (t :: ts)) :
    S.Ends c (wordLed g wordClass) := by
  generalize hus : t :: ts = us at h
  rw [hus] at hr
  cases h with
  | begun h =>
    cases h with
    | name t hw =>
      obtain ⟨e, hrun⟩ := wordLed_alone hg.advancing S.ended hr hw (alone_one t) wordClass
      exact .of_run hrun (.of_nil rfl)
    | is t u hw hu =>
      refine .ahead ?_
      rw [hr, if_pos (startsAssignment_is hw hu)]
      exact (assignment_ends hg (hr ▸ .is t u hw hu)).map _
  | modified t u v hm hu hv =>
    obtain ⟨ha, hvisibility⟩ := starts_modified hm hu hv
    refine .ahead ?_
    rw [hr, if_neg (by simp [ha]), if_pos hvisibility]
    exact (visibility_ends hg hr hm (.is u v hu hv)).map _
  | payload t u hguid hu =>
    obtain ⟨ha, hv, -⟩ := starts_payload hguid hu
    obtain ⟨rfl, rfl⟩ := List.cons.inj hus
    have hclass : wordClass = .keyword .guid := by
      have hkeyword : wordClass.keyword? = some .guid := by rw [← hguid, ht]; rfl
      cases wordClass with
      | keyword k => cases hkeyword; rfl
      | _ => cases hkeyword
    refine .ahead ?_
    rw [hr, if_neg (by simp [ha]), if_neg (by simp [hv]), hclass]
    dsimp only
    rw [if_pos (by simp [isKind, hu])]
    exact guid_ends hr hu

/-- With a token behind the name both runs go the same way. -/
theorem nameLed_follows (hg : Trailing S g) {u : Token} (hc : S.Ready c)
    (hr : c.rest = t :: u :: ts) : S.FollowsAt c (nameLed g) := by
  have hobject : isKind (c.rest ++ S.more) 1 .lparen = isKind c.rest 1 .lparen :=
    isKind_append (by simp [hr]) _
  have hbracket : isKind (c.rest ++ S.more) 1 .lbracket = isKind c.rest 1 .lbracket :=
    isKind_append (by simp [hr]) _
  have hjoined : isJoined (c.rest ++ S.more) 1 = isJoined c.rest 1 :=
    isJoined_append S.apart (by simp [hr])
  refine .ahead (by simp only [hobject, hbracket, hjoined]) ?_
  exact .ite (((object_trails hg).map _).at hc) (.ite ((vectorOrPath_trails hg).at hc)
    (((reference_trails hg).map _).at hc))

/-- At the end there is no name. -/
theorem nameLed_spent (hg : Trailing S g) (hs : S.Spent c) : S.Ends c (nameLed g) :=
  .ahead (.ite (((object_trails hg).map _).spent c hs) (.ite ((vectorOrPath_trails hg).spent c hs)
    (((reference_trails hg).map _).spent c hs)))

/-- Whatever the last words are taken for is used up. -/
theorem wordLed_spent (hg : Trailing S g) (wordClass : WordClass) (hs : S.Spent c) :
    S.Ends c (wordLed g wordClass) := by
  have named := nameLed_spent hg hs
  refine .ahead (.ite (((assignment_trails hg).map _).spent c hs)
    (.ite (((visibility_trails hg (object_trails hg)).map _).spent c hs) ?_))
  split
  · exact (constant_trails _).spent c hs
  · exact (constant_trails _).spent c hs
  · exact (constant_trails _).spent c hs
  · exact .ite (guid_trails.spent c hs) named
  · exact .ite ((map_trails hg).spent c hs) named
  · exact .ite ((vector_trails hg _).spent c hs) named
  · exact named

/-- With a word ahead both runs go the same way, or the shorter one is late. -/
theorem wordLed_follows (hg : Trailing S g) {text : String} {wordClass : WordClass}
    (hc : S.Ready c) (hs : ¬ S.Spent c) (hr : c.rest = t :: ts)
    (ht : t.kind = .word text wordClass) : S.FollowsAt c (wordLed g wordClass) := by
  by_cases hopen : Undecided (t :: ts)
  · exact (wordLed_ends hg hr ht hopen).follows
  · have hw : isWord [t] 0 = true := by
      show t.kind.isWord = true
      rw [ht]
      rfl
    obtain ⟨u, us, rfl⟩ := List.exists_cons_of_ne_nil (l := ts) (by
      rintro rfl
      exact hopen (.begun (.name t hw)))
    have hd : Decided S.more (t :: u :: us) := decided hopen (hc.apart hs hr)
    have hkind (kind : TokenKind) :
        isKind (t :: u :: us ++ S.more) 1 kind = isKind (t :: u :: us) 1 kind := rfl
    have named := nameLed_follows hg hc hr
    refine .ahead (by simp only [hr, hd.assignment, hd.visibility, hkind]) ?_
    refine .ite (((assignment_trails hg).map _).at hc)
      (.ite (((visibility_trails hg (object_trails hg)).map _).at hc) ?_)
    split
    · exact (constant_trails _).at hc
    · exact (constant_trails _).at hc
    · exact (constant_trails _).at hc
    · exact .ite (guid_trails.at hc) named
    · exact .ite ((map_trails hg).at hc) named
    · exact .ite ((vector_trails hg _).at hc) named
    · exact named

end Word

/-- A broken token is a fragment in both. -/
theorem brokenToken_follows {t : Token} {ts : List Token} (hc : S.Ready c)
    (hr : c.rest = t :: ts) {e : LexError} (hk : t.kind = .error e) :
    S.FollowsAt c (brokenToken e) := by
  have he := hc.fair t (hr ▸ List.mem_cons_self ..) e hk
  cases e with
  | unexpectedChar char =>
    have hloud : Loud (brokenToken (.unexpectedChar char)) :=
      .bind_right Still.mark.returns fun m => .bind_right Still.peek.returns fun _ =>
        .bind_right .bump fun _ => .bind fun _ _ => not_quiet_problem _ _
    exact .of_loud (hloud _ _)
  | _ => cases he

/-- So an operand is read alike. -/
theorem primary_trails (hg : Trailing S g) : S.Trails (primary g) := by
  have path : S.Trails (do
      if Lookahead.startsScoped (← ahead) then Expr.reference <$> reference g
      else noExpression : Parser Expr) :=
    .test (fun _ => startsScoped_append S.apart) ((reference_trails hg).map _)
      (.abortHere fun _ => .inr rfl)
  refine .peek (fun t ht _ d hd => ?_) fun c t ts hc hs hr => ?_
  · have literal (value : Expr) : S.Ends d (bump >>= fun _ => pure value) :=
      (Sequel.Ends.bump hd).bind fun _ _ he => .pure he _
    split
    · exact literal _
    · exact literal _
    · exact (list_trails hg).spent d hd
    · exact (parenthesised_trails hg).spent d hd
    · exact (generic_trails hg).spent d hd
    · exact wordLed_spent hg _ hd
    · -- A broken token is no word.
      rename_i hk
      rw [hk] at ht
      exact absurd ht (by simp [TokenKind.isWord, TokenKind.wordClass?])
    · exact .unexpected hd _
    · exact path.spent d hd
  · have literal (value : Expr) : S.FollowsAt c (bump >>= fun _ => pure value) :=
      (Sequel.Trails.bump.at hc).bind fun _ => .pure _
    split
    · exact literal _
    · exact literal _
    · exact (list_trails hg).at hc
    · exact (parenthesised_trails hg).at hc
    · exact (generic_trails hg).at hc
    · rename_i hk
      exact wordLed_follows hg hc hs hr hk
    · rename_i hk
      exact brokenToken_follows hc hr hk
    · exact (Sequel.Trails.unexpected _).at hc
    · exact path.at hc

/-- So it is with signs in front. -/
theorem unary_trails (hg : Trailing S g) : S.Trails (unary g) := by
  refine .mark fun m => .look fun t => ?_
  split
  · exact .bind .bump fun _ => .bind hg.operand fun _ => .close m _
  · exact .bind .bump fun _ => .bind hg.operand fun _ => .close m _
  · exact primary_trails hg

/-! ### Operators -/

section Div

variable {t : Token} {ts : List Token}

/-- The word `div` is an operator unless it starts an assignment or a member. -/
theorem operator?_div (ht : t.kind.keyword? = some .div) (ts : List Token) :
    operator? (t :: ts) = if Lookahead.startsAssignment (t :: ts) 0 ||
      Lookahead.startsMember (t :: ts) 0 then none else some (.binary .div) := by
  have hkind : ∃ text, t.kind = .word text (.keyword .div) := by
    obtain ⟨kind, span, joined⟩ := t
    cases kind with
    | word text wordClass =>
      cases wordClass with
      | keyword k =>
        obtain rfl : k = .div := Option.some.inj ht
        exact ⟨text, rfl⟩
      | _ => cases ht
    | _ => cases ht
  obtain ⟨text, hk⟩ := hkind
  rw [operator?, kind?_zero, hk]

/-- Only `div` asks for more than the next token. -/
theorem operator?_other (ht : t.kind.keyword? ≠ some .div) (us : List Token) :
    operator? (t :: us) = operator? [t] := by
  unfold operator?
  rw [kind?_zero, kind?_zero]
  split
  all_goals try rfl
  rename_i text hk
  exact absurd (by rw [Option.some.inj hk]; rfl) ht

/-- An operator is told by the next tokens, if they do not dangle. -/
theorem operator?_append (hd : ∀ u, ts = [u] → dangles t u = false)
    (hne : ts = [] → t.kind.keyword? ≠ some .div) :
    operator? (t :: ts ++ S.more) = operator? (t :: ts) := by
  rw [List.cons_append]
  by_cases ht : t.kind.keyword? = some .div
  · have h : Decided S.more (t :: ts) :=
      decided (not_undecided_of_div ht (fun hts => hne hts ht) hd) hd
    have hassignment := h.assignment
    have hmember := h.member
    rw [List.cons_append] at hassignment hmember
    rw [operator?_div ht, operator?_div ht, hassignment, hmember]
  · rw [operator?_other ht (ts ++ S.more), operator?_other ht ts]

/-- A `div` without an operand is reported at the end. -/
theorem operation_ends {right : Nat → Parser Expr} (hr : ∀ rank, S.Trails (right rank))
    {loosest : Nat} (m : Mark) (left : Expr) (hrest : c.rest = [t])
    (ht : t.kind.keyword? = some .div) (hl : loosest ≤ BinaryOp.div.rank) :
    S.Ends c (operation g right loosest m left) := by
  have hop : operator? [t] = some (.binary .div) := by
    rw [operator?_div ht, (starts_one t).1, (starts_one t).2.2]
    rfl
  refine .ahead ?_
  rw [hrest, hop]
  dsimp only
  rw [if_pos hl]
  refine Sequel.Ends.run (bump_run hrest) ?_
  exact Sequel.Trails.spent (.bind (hr _) fun _ => .close m _) _ (.of_nil rfl)

end Div

/-- One round of the operators is read alike. -/
theorem operation_trails (hg : Trailing S g) {right : Nat → Parser Expr}
    (hr : ∀ rank, S.Trails (right rank)) (loosest : Nat) (m : Mark) (left : Expr) :
    S.Trails (operation g right loosest m left) := by
  refine .aheadOr (fun ts => ?_) fun c t ts hc hs hrest => ?_
  · split
    · exact .pure _
    · exact .ite (.bind .bump fun _ => .bind hg.expr fun _ => .bind (.expect _ _) fun _ =>
        .bind hg.expr fun _ => .close m _) (.pure _)
    · exact .ite (.bind .bump fun _ => .bind (hr _) fun _ => .close m _) (.pure _)
  · by_cases hlast : ts = [] ∧ t.kind.keyword? = some .div
    · obtain ⟨rfl, ht⟩ := hlast
      by_cases hl : loosest ≤ BinaryOp.div.rank
      · exact .inl (operation_ends hr m left hrest ht hl)
      · -- `div` is left alone, be it an operator or a name.
        have hleft (us : List Token) : operator? (t :: us) = none ∨
            operator? (t :: us) = some (.binary .div) := by
          rw [operator?_div ht]
          split
          · exact .inl rfl
          · exact .inr rfl
        right
        rcases hleft [] with h | h <;> rcases hleft S.more with h' | h' <;>
          rw [List.cons_append, List.nil_append, h, h'] <;> simp only [if_neg hl]
    · right
      rw [operator?_append (hc.apart hs hrest) fun hts ht => hlast ⟨hts, ht⟩]

/-- So is an expression. -/
theorem climb_trails (hg : Trailing S g) (steps loosest : Nat) :
    S.Trails (climb g steps loosest) := by
  induction steps generalizing loosest with
  | zero => exact unary_trails hg
  | succ steps ih =>
    exact .mark fun m => .bind (unary_trails hg) fun left =>
      .loop (operation_advances hg.advancing (climb_steady hg.advancing steps) loosest m)
        (operation_trails hg ih loosest m) left

/-- So it is from the loosest rank on. -/
theorem expression_trails (hg : Trailing S g) : S.Trails (expression g) := climb_trails hg _ _

/-! ### Levels -/

/-- Below the last level a fragment at the end is late. -/
theorem deepExpr_ends (hs : S.Spent c) : S.Ends c Grammar.deepExpr :=
  (Sequel.Ends.tooDeep hs).bind fun _ _ hd => .pure hd _

/-- A level is read alike if the one below is. -/
theorem Trailing.above (hg : Trailing S g) : Trailing S (.above g) where
  advancing := hg.advancing.above
  expr := .nested (expression_steady hg.advancing).sound (fun _ => deepExpr_ends)
    (fun _ => tooDeep_loud.bind _ _) (expression_trails hg)
  operand := .nested (unary_steady hg.advancing).sound (fun _ => deepExpr_ends)
    (fun _ => tooDeep_loud.bind _ _) (unary_trails hg)
  type := .nested (typeRef_sound hg.advancing)
    (fun _ hs => (Sequel.Ends.tooDeep hs).bind fun _ _ hd => .abort hd)
    (fun _ => tooDeep_loud.bind _ _) (typeRef_trails hg)

/-- **All levels are read alike** where more follows. -/
theorem trailing_levels (S : Sequel) (n : Nat) : Trailing S (.levels n) := by
  induction n with
  | zero =>
    exact {
      advancing := advancing_bottom
      expr := ⟨fun _ => deepExpr_ends, fun _ _ _ => .of_loud (tooDeep_loud.bind _ _)⟩
      operand := ⟨fun _ => deepExpr_ends, fun _ _ _ => .of_loud (tooDeep_loud.bind _ _)⟩
      type := ⟨fun _ hs => (Sequel.Ends.tooDeep hs).bind fun _ _ hd => .abort hd,
        fun _ _ _ => .of_loud (tooDeep_loud.bind _ _)⟩ }
  | succ n ih => exact ih.above

end Parser
end Ndf
