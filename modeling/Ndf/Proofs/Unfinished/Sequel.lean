/-
# Reading the same tokens with more behind them

A `Sequel` is a source and a longer one, whose tokens are those of the source and then some more.
Its second run sees what its first run sees, up to the end of the shorter source.  So if the longer
run meets no problem, then from any place (`Sequel.FollowsAt`) the shorter one

* does the same (`Sequel.Along`): it returns the same value, the same tokens read, or
* is used up (`Sequel.Ends`): it has no token left, and all problems it meets lie at the end.

There is one exception.  Two tokens at the end can be such that a third one binds them, and are read
one by one without it: a modifier and a name, or `div is` (`Lookahead.dangles`).  A sequel names
them (`Sequel.last`), and what reaches them counts as used up, the problems at them as problems at
the end.

`Sequel.Trails p` says so of a parser from all places, together with what carries it on: where the
tokens are used up, `p` meets no problem but at the end.  It is composed along the definition of a
parser.  Only a test of several tokens ahead can break it, where it is made so near to the end that
the tokens of the longer source decide it; `Ndf.Proofs.Unfinished.Undecided` is about those.
-/

import Ndf.Proofs.Parser.Scans

namespace Ndf

namespace Lookahead

/-- Two tokens that are read one by one, but as one thing with a third behind them: a modifier and a
name, or `div is`. -/
def dangles (t u : Token) : Bool :=
  isModifier [t, u] 0 && isWord [t, u] 1 && !isKeyword [t, u] 1 .is ||
    isKeyword [t, u] 0 .div && isKeyword [t, u] 1 .is

/-- Both of them are words. -/
theorem isWord_of_dangles {t u : Token} (h : dangles t u = true) :
    t.kind.isWord = true ∧ u.kind.isWord = true := by
  simp only [dangles, Bool.or_eq_true, Bool.and_eq_true] at h
  rcases h with ⟨⟨ht, hu⟩, -⟩ | ⟨ht, hu⟩
  · exact ⟨isWord_of_isModifier ht, hu⟩
  · exact ⟨isWord_of_isKeyword ht, isWord_of_isKeyword hu⟩

end Lookahead

/-- Among notes that hold a problem there is one that is reported. -/
theorem not_quiet_of_mem {notes : List Note} {d : Diagnostic}
    (h : .problem d ∈ notes ∨ .atEnd d ∈ notes) : ¬ Quiet notes := by
  induction notes with
  | nil => simp at h
  | cons n notes ih => cases n <;> simp_all

/-- A source and a longer one: behind the tokens of the one there are more in the other, and the
first of these is not joined. -/
structure Sequel where
  source : Source
  ended : source.Ended
  longer : Source
  ended' : longer.Ended
  more : List Token
  apart : ∀ t ∈ more.head?, t.joined = false
  /-- The last tokens, if a third one binds them. -/
  last : List Token
  words : ∀ t ∈ last, t.kind.isWord = true
  /-- Where these start, or the source ends. -/
  start : Nat
  start_le : ∀ t ∈ last, start ≤ t.span.start
  start_le_stop : start ≤ source.stop.span.start

/-- What a parser reads without a note is read on from behind it. -/
theorem Parser.bind_of_run {α β : Type} {p : Parser α} {f : α → Parser β} {src : Source}
    {c d : Cursor} {a : α} (h : p src c = ⟨some a, d, []⟩) : (p >>= f) src c = f a src d := by
  rw [bind_of_some (congrArg Outcome.value h), h]
  rfl

/-- The first part of a run without problems has none. -/
theorem Parser.quiet_of_bind {α β : Type} {p : Parser α} {f : α → Parser β} {src : Source}
    {c : Cursor} (h : Quiet ((p >>= f) src c).notes) : Quiet (p src c).notes := by
  cases hv : (p src c).value with
  | none => rwa [bind_of_none hv] at h
  | some a =>
    rw [bind_of_some hv, quiet_append] at h
    exact h.1

namespace Sequel

open Ndf.Parser

/-! ### Places -/

/-- No token is left but such as a further one binds. -/
def Spent (S : Sequel) (c : Cursor) : Prop := c.rest <:+ S.last

/-- A place that the source can be read on from: no broken token is left that tokenizing reported,
and if the last two tokens are such that a third one binds them, they are known. -/
structure Ready (S : Sequel) (c : Cursor) : Prop where
  fair : c.Fair
  settled : ∀ t u, [t, u] <:+ c.rest → Lookahead.dangles t u = true → S.last = [t, u]

variable {S : Sequel} {α β σ : Type} {p q : Parser α} {f : α → Parser β} {c d : Cursor}
  {t : Token} {ts : List Token}

/-- Without tokens they are used up. -/
theorem Spent.of_nil (h : c.rest = []) : S.Spent c := by
  rw [Spent, h]
  exact List.nil_suffix

/-- Fewer of the last tokens are left. -/
theorem Spent.of_suffix (h : S.Spent c) (hd : d.rest <:+ c.rest) : S.Spent d := hd.trans h

/-- Where they are not some are left. -/
theorem rest_ne_nil (h : ¬ S.Spent c) : c.rest ≠ [] := fun hr => h (.of_nil hr)

/-- Next comes the end of the source or one of the last words. -/
theorem Spent.next (h : S.Spent c) : ((c.rest.headD S.source.stop).kind = .eof ∨
    (c.rest.headD S.source.stop).kind.isWord = true) ∧
      S.start ≤ (c.rest.headD S.source.stop).span.start := by
  cases hr : c.rest with
  | nil => exact ⟨.inl S.ended, S.start_le_stop⟩
  | cons t ts =>
    have ht : t ∈ S.last := h.subset (hr ▸ List.mem_cons_self ..)
    exact ⟨.inr (S.words t ht), S.start_le t ht⟩

/-- Reading a token. -/
theorem Ready.tail (h : S.Ready c) (hc : c.rest = t :: d.rest) : S.Ready d where
  fair u hu := h.fair u (hc ▸ List.mem_cons_of_mem t hu)
  settled u v hs := h.settled u v (hc ▸ hs.trans (List.suffix_cons t d.rest))

/-- Reading the first half of a token: an equals sign binds nothing. -/
theorem Ready.half (h : S.Ready c) (hc : c.rest = t :: ts) (hd : d.rest = t.secondHalf :: ts) :
    S.Ready d where
  fair u hu e hk := by
    rw [hd, List.mem_cons] at hu
    rcases hu with rfl | hu
    · cases hk
    · exact h.fair u (hc ▸ List.mem_cons_of_mem t hu) e hk
  settled u v hs hdangles := by
    rw [hd, List.suffix_cons_iff] at hs
    rcases hs with hs | hs
    · obtain ⟨rfl, -⟩ := List.cons.inj hs
      exact absurd (Lookahead.isWord_of_dangles hdangles).1 Bool.false_ne_true
    · exact h.settled u v (hc ▸ hs.trans (List.suffix_cons t ts)) hdangles

/-- In front of the last tokens no two others are left that a third one binds. -/
theorem Ready.apart (h : S.Ready c) (hs : ¬ S.Spent c) (hr : c.rest = t :: ts) :
    ∀ u, ts = [u] → Lookahead.dangles t u = false := by
  rintro u rfl
  refine Bool.eq_false_iff.2 fun hdangles => hs ?_
  have hlast : S.last = [t, u] := h.settled t u (hr ▸ List.suffix_refl _) hdangles
  show c.rest <:+ S.last
  exact ⟨[], hr.trans hlast.symm⟩

/-! ### Runs -/

/-- All problems among the notes lie at the end of the source, or at its last tokens. -/
def Late (S : Sequel) (notes : List Note) : Prop :=
  ∀ d, .problem d ∈ notes ∨ .atEnd d ∈ notes → S.start ≤ d.span.start ∧
    (d.kind = .unexpectedToken ∨ d.kind = .unrecoverableFragment)

section Late

variable {a b : List Note}

/-- Without problems none is early. -/
theorem late_of_quiet (h : Quiet a) : S.Late a := fun _ hd => absurd h (not_quiet_of_mem hd)

/-- Late problems behind late ones. -/
theorem Late.append (ha : S.Late a) (hb : S.Late b) : S.Late (a ++ b) := by
  intro d hd
  simp only [List.mem_append] at hd
  rcases hd with (hd | hd) | (hd | hd)
  · exact ha d (.inl hd)
  · exact hb d (.inl hd)
  · exact ha d (.inr hd)
  · exact hb d (.inr hd)

/-- A problem at a token that is not in front of the end. -/
theorem late_notesAt {cause : Diagnostic.Cause} (ht : S.start ≤ t.span.start)
    (hk : cause.kind = .unexpectedToken ∨ cause.kind = .unrecoverableFragment) :
    S.Late (notesAt t cause) := by
  intro d hd
  have hd : d = .ofCause cause t.span := by
    unfold notesAt at hd
    split at hd
    · simpa using hd
    · split at hd
      · simp at hd
      · simpa using hd
    · simpa using hd
  subst hd
  exact ⟨ht, hk⟩

end Late

/-- A place in the shorter source as a place in the longer one. -/
def extend (S : Sequel) (c : Cursor) : Cursor := { c with rest := c.rest ++ S.more }

/-- The shorter run is used up: no token is left but the last ones, and all problems met lie at the
end. -/
structure Over {α : Type} (S : Sequel) (o : Outcome α) : Prop where
  rest : S.Spent o.cursor
  late : S.Late o.notes

/-- From this place the shorter run of a parser is used up. -/
def Ends {α : Type} (S : Sequel) (c : Cursor) (p : Parser α) : Prop := S.Over (p S.source c)

/-- Both runs did the same and met no problem. -/
structure Along {α : Type} (S : Sequel) (o o' : Outcome α) : Prop where
  value : ∃ a, o.value = some a ∧ o'.value = some a
  cursor : o'.cursor = S.extend o.cursor
  ready : S.Ready o.cursor
  quiet : Quiet o.notes

/-- From this place, if the longer run of a parser meets no problem, then the shorter one does the
same or is used up. -/
def FollowsAt {α : Type} (S : Sequel) (c : Cursor) (p : Parser α) : Prop :=
  Quiet (p S.longer (S.extend c)).notes →
    S.Along (p S.source c) (p S.longer (S.extend c)) ∨ S.Ends c p

/-- Where the tokens are used up, the shorter run meets no problem but at the end; where some are
left, it follows the longer one. -/
structure Trails {α : Type} (S : Sequel) (p : Parser α) : Prop where
  spent : ∀ c, S.Spent c → S.Ends c p
  follows : ∀ c, S.Ready c → ¬ S.Spent c → S.FollowsAt c p

/-- A run at the end has nothing to follow. -/
theorem Ends.follows (h : S.Ends c p) : S.FollowsAt c p := fun _ => .inr h

/-- What is read alike everywhere is so from here. -/
theorem Trails.at (h : S.Trails p) (hc : S.Ready c) : S.FollowsAt c p := by
  by_cases hs : S.Spent c
  · exact (h.spent c hs).follows
  · exact h.follows c hc hs

/-- Nothing is to be shown where the longer run meets a problem. -/
theorem FollowsAt.of_loud (h : ¬ Quiet (p S.longer (S.extend c)).notes) : S.FollowsAt c p :=
  fun hq => absurd hq h

/-! ### Where the tokens are used up -/

/-- A run without problems that leaves no more tokens. -/
theorem Ends.of_quiet (hs : S.Spent (p S.source c).cursor) (hq : Quiet (p S.source c).notes) :
    S.Ends c p := ⟨hs, late_of_quiet hq⟩

/-- What reads the last tokens without a note. -/
theorem Ends.of_run {a : α} (h : p S.source c = ⟨some a, d, []⟩) (hd : S.Spent d) :
    S.Ends c p := .of_quiet (by rwa [h]) (by rw [h]; exact quiet_nil)

/-- A run at the end with another behind it. -/
theorem Ends.bindAt (hp : S.Ends c p) (hf : ∀ a, (p S.source c).value = some a →
    S.Ends (p S.source c).cursor (f a)) : S.Ends c (p >>= f) := by
  cases hv : (p S.source c).value with
  | none =>
    rw [Ends, bind_of_none hv]
    exact ⟨hp.rest, hp.late⟩
  | some a =>
    have hnext := hf a hv
    rw [Ends, bind_of_some hv]
    exact ⟨hnext.rest, hp.late.append hnext.late⟩

/-- One parser behind the other. -/
theorem Ends.bind (hp : S.Ends c p) (hf : ∀ a d, S.Spent d → S.Ends d (f a)) :
    S.Ends c (p >>= f) := hp.bindAt fun a _ => hf a _ hp.rest

/-- Returning a value reports nothing. -/
theorem Ends.pure (hs : S.Spent c) (a : α) : S.Ends c (Pure.pure a) := .of_quiet hs quiet_nil

/-- A function of the value changes nothing else. -/
theorem Ends.map (h : α → β) (hp : S.Ends c p) : S.Ends c (h <$> p) :=
  hp.bind fun a _ hd => .pure hd (h a)

/-- Giving up reports nothing. -/
theorem Ends.abort (hs : S.Spent c) : S.Ends c (Parser.abort : Parser α) :=
  .of_quiet hs quiet_nil

/-- Nor does an event. -/
theorem Ends.emit (hs : S.Spent c) (e : ParseEvent) : S.Ends c (Parser.emit e) :=
  .of_quiet hs quiet_nil

/-- Behind what the shorter run read without a note. -/
theorem Ends.run {a : α} (h : p S.source c = ⟨some a, d, []⟩) (hf : S.Ends d (f a)) :
    S.Ends c (p >>= f) := by
  rw [Ends, bind_of_run h]
  exact hf

/-- Behind what the shorter run read without a problem. -/
theorem Ends.after {a : α} (hv : (p S.source c).value = some a) (hq : Quiet (p S.source c).notes)
    (h : S.Ends (p S.source c).cursor (f a)) : S.Ends c (p >>= f) := by
  rw [Ends, bind_of_some hv]
  exact ⟨h.rest, (late_of_quiet hq).append h.late⟩

/-- What is not read on with needs no care. -/
theorem Ends.bind_none (hp : S.Ends c p) (hv : (p S.source c).value = none) :
    S.Ends c (p >>= f) := hp.bindAt fun a ha => absurd (hv.symm.trans ha) (by simp)

/-- Recovery is tried where the tokens are used up, too. -/
theorem Ends.orRecover (hp : S.Ends c p) (hq : ∀ d, S.Spent d → S.Ends d q) :
    S.Ends c (Parser.orRecover p q) := by
  cases hv : (p S.source c).value with
  | none =>
    have hnext := hq _ hp.rest
    rw [Ends, orRecover_of_none hv]
    exact ⟨hnext.rest, hp.late.append hnext.late⟩
  | some a => rwa [Ends, orRecover_of_some hv]

/-- Of two branches only the one taken counts. -/
theorem Ends.ite {P : Prop} [Decidable P] (hp : S.Ends c p) (hq : S.Ends c q) :
    S.Ends c (if P then p else q) := by
  split
  · exact hp
  · exact hq

/-- The next token is the end of the source or a word. -/
theorem Ends.peek {k : Token → Parser β} (hs : S.Spent c)
    (h : ∀ t, t.kind = .eof ∨ t.kind.isWord = true → S.start ≤ t.span.start → S.Ends c (k t)) :
    S.Ends c (Parser.peek >>= k) := by
  rw [Ends, peek_bind]
  exact h _ hs.next.1 hs.next.2

/-- The tokens ahead are known. -/
theorem Ends.ahead {k : List Token → Parser β} (h : S.Ends c (k c.rest)) :
    S.Ends c (Parser.ahead >>= k) := h

/-- A mark reports nothing. -/
theorem Ends.mark {k : Mark → Parser β} (h : ∀ m, S.Ends c (k m)) :
    S.Ends c (Parser.mark >>= k) := h _

/-- Giving up at the end of the input. -/
theorem Ends.abortHere (hs : S.Spent c) {cause : Token → Diagnostic.Cause}
    (hk : ∀ t, (cause t).kind = .unexpectedToken ∨ (cause t).kind = .unrecoverableFragment) :
    S.Ends c (do reportHere (cause (← Parser.peek)); (Parser.abort : Parser α)) := by
  refine ⟨hs, ?_⟩
  show S.Late (notesAt (c.rest.headD S.source.stop) (cause (c.rest.headD S.source.stop)) ++ [])
  rw [List.append_nil]
  exact late_notesAt hs.next.2 (hk _)

/-- A complaint at the end is late. -/
theorem Ends.unexpected (hs : S.Spent c) (due : String) :
    S.Ends c (Parser.unexpected due : Parser α) := .abortHere hs fun _ => .inl rfl

/-- Taking the last token reports nothing. -/
theorem Ends.bump (hs : S.Spent c) : S.Ends c Parser.bump := by
  refine .of_quiet (hs.of_suffix (by rw [bump_rest]; exact List.tail_suffix _)) ?_
  cases hr : c.rest with
  | nil =>
    rw [bump_run_nil hr]
    exact quiet_nil
  | cons t ts =>
    rw [bump_run hr]
    exact quiet_nil

/-! ### Recovery where the tokens are used up

Only a level too deep is reported, and not in front of the last tokens. -/

/-- Nor does skipping. -/
theorem Ends.skip (hs : S.Spent c) (n : Nat) : S.Ends c (Parser.skip n) := by
  induction n generalizing c with
  | zero => exact .of_quiet hs quiet_nil
  | succ n ih => exact (Ends.bump hs).bind fun _ _ hd => ih hd

/-- Nor does leaving a place. -/
theorem Ends.leave (hs : S.Spent c) (m : Mark) (keep : Option TokenKind) :
    S.Ends c (Parser.leave m keep) :=
  Ends.bind (.of_quiet hs quiet_nil) fun _ _ hd => .ite (.of_quiet hd quiet_nil)
    (.peek hd fun _ _ _ => .ite (.of_quiet hd quiet_nil) (.bump hd))

/-- Cutting out a fragment reports nothing. -/
theorem quiet_errorFrom (m : Mark) (src : Source) (c : Cursor) :
    Quiet (Parser.errorFrom m src c).notes := by
  have key (s : Span) : Quiet (Parser.errorAt s src c).notes := by
    rw [Parser.errorAt]
    dsimp only
    split
    · exact quiet_nil
    · exact quiet_nil
  exact key _

/-- Nor does the node of a fragment. -/
theorem Ends.errorFrom (hs : S.Spent c) (m : Mark) : S.Ends c (Parser.errorFrom m) :=
  .of_quiet hs (quiet_errorFrom m _ c)

/-- The cut of an item takes what is left. -/
theorem Ends.recoverItem (hs : S.Spent c) (m : Mark) : S.Ends c (Parser.recoverItem m) := by
  refine (Ends.leave hs m none).bind fun _ _ hd => ?_
  refine .ahead <| (Ends.skip hd _).bind fun _ _ he => ?_
  refine (Ends.errorFrom he m).bind fun _ _ hf => ?_
  refine (Ends.emit hf _).bind fun _ _ hi => ?_
  exact .pure hi _

/-- So does that of an element. -/
theorem Ends.recoverElement (hs : S.Spent c) (m : Mark) : S.Ends c (Parser.recoverElement m) :=
  (Ends.leave hs m _).bind fun _ _ hd => .ahead <| (Ends.skip hd _).bind fun _ _ he =>
    .ite (.errorFrom he m) (.abort he)

/-- So does that of an entry. -/
theorem Ends.recoverEntry (hs : S.Spent c) (m : Mark) : S.Ends c (Parser.recoverEntry m) := by
  refine (Ends.leave hs m _).bind fun _ _ hd => ?_
  refine .ahead <| (Ends.skip hd _).bind fun _ _ he => ?_
  exact .ite ((Ends.errorFrom he m).bind fun _ _ hf => (Ends.emit hf _).bind fun _ _ hi =>
    .pure hi _) (.abort he)

/-- A report there is late. -/
theorem Ends.report (hs : S.Spent c) {cause : Diagnostic.Cause} {s : Span}
    (hstart : S.start ≤ s.start)
    (hk : cause.kind = .unexpectedToken ∨ cause.kind = .unrecoverableFragment) :
    S.Ends c (Parser.report cause s) := by
  refine ⟨hs, fun d hd => ?_⟩
  have hd' : Note.problem d ∈ [Note.problem (.ofCause cause s)] ∨
      Note.atEnd d ∈ [Note.problem (.ofCause cause s)] := hd
  simp only [List.mem_singleton, reduceCtorEq, Note.problem.injEq, or_false] at hd'
  subst hd'
  exact ⟨hstart, hk⟩

/-- A fragment starts where the mark is that it is cut out from. -/
theorem start_errorFrom {m : Mark} {src : Source} {c : Cursor} {e : ErrorNode}
    (h : (Parser.errorFrom m src c).value = some e) : e.span.start = m.first.start := by
  have hspan : e.span = if m.count < c.count then m.first.through c.last else m.first.atStart :=
    (congrArg ErrorNode.span (Option.some.inj h)).symm
  rw [hspan]
  split
  · rfl
  · rfl

/-- So is the one below the last level. -/
theorem Ends.tooDeep (hs : S.Spent c) : S.Ends c Parser.tooDeep := by
  let m : Mark := ⟨c.count, (c.rest.headD S.source.stop).span⟩
  have report (e : ErrorNode) (he : e.span.start = m.first.start) (d : Cursor) (hd : S.Spent d) :
      S.Ends d (do
        Parser.emit (.skipped e.span)
        Parser.report (.tooDeep maxNesting) e.span
        if ← movedFrom m then Pure.pure e else Parser.abort) :=
    (Ends.emit hd _).bind fun _ _ hf =>
      (Ends.report hf (he ▸ hs.next.2) (.inr rfl)).bind fun _ _ hg =>
        Ends.bind (.of_quiet hg quiet_nil) fun _ _ hh => .ite (.pure hh e) (.abort hh)
  show S.Ends c (Parser.skip (Recovery.fragment 0 c.rest) >>= fun _ => Parser.errorFrom m >>= _)
  refine (Ends.skip hs _).bind fun _ d hd => ?_
  cases hv : (Parser.errorFrom m S.source d).value with
  | none => exact (Ends.errorFrom hd m).bind_none hv
  | some e => exact .after hv (quiet_errorFrom m _ d) (report e (start_errorFrom hv) d hd)

/-! ### Both runs -/

/-- A run behind a run, both alike, or late once the tokens are used up. -/
theorem FollowsAt.bindAt (hp : S.FollowsAt c p)
    (hf : ∀ a, (p S.source c).value = some a → S.Ready (p S.source c).cursor →
      S.FollowsAt (p S.source c).cursor (f a))
    (hs : ∀ a d, S.Spent d → S.Ends d (f a)) : S.FollowsAt c (p >>= f) := by
  intro hq
  rcases hp (quiet_of_bind hq) with ⟨⟨a, hv, hv'⟩, hcursor, hready, hquiet⟩ | hends
  · rw [bind_of_some hv', hcursor, quiet_append] at hq
    rw [Ends, bind_of_some hv, bind_of_some hv', hcursor]
    rcases hf a hv hready hq.2 with ⟨hvalue, hcursor, hready, hquiet'⟩ | hends
    · exact .inl ⟨hvalue, hcursor, hready, (quiet_append _ _).2 ⟨hquiet, hquiet'⟩⟩
    · exact .inr ⟨hends.rest, (late_of_quiet hquiet).append hends.late⟩
  · exact .inr (hends.bind hs)

/-- The same where the second is read alike from everywhere. -/
theorem FollowsAt.bind (hp : S.FollowsAt c p) (hf : ∀ a, S.Trails (f a)) :
    S.FollowsAt c (p >>= f) :=
  hp.bindAt (fun a _ hd => (hf a).at hd) fun a d hd => (hf a).spent d hd

/-- The same of both. -/
theorem Trails.bind (hp : S.Trails p) (hf : ∀ a, S.Trails (f a)) : S.Trails (p >>= f) where
  spent c hr := (hp.spent c hr).bind fun a d hd => (hf a).spent d hd
  follows c hc hr := (hp.follows c hc hr).bind hf

/-- Behind what both runs read alike. -/
theorem FollowsAt.after {a : α} {d : Cursor} (hrun : p S.source c = ⟨some a, d, []⟩)
    (hrun' : p S.longer (S.extend c) = ⟨some a, S.extend d, []⟩) (hf : S.FollowsAt d (f a)) :
    S.FollowsAt c (p >>= f) := by
  rw [FollowsAt, Ends, bind_of_run hrun, bind_of_run hrun']
  exact hf

/-- Returning a value is the same here and there. -/
theorem FollowsAt.pure (hc : S.Ready c) (a : α) : S.FollowsAt c (Pure.pure a) :=
  fun _ => .inl ⟨⟨a, rfl, rfl⟩, rfl, hc, quiet_nil⟩

/-- So it is from everywhere. -/
theorem Trails.pure (a : α) : S.Trails (Pure.pure a : Parser α) where
  spent _ hr := .pure hr a
  follows _ hc _ := .pure hc a

/-- A function of the value changes nothing else. -/
theorem Trails.map (h : α → β) (hp : S.Trails p) : S.Trails (h <$> p) :=
  hp.bind fun a => .pure (h a)

/-- Of two branches only the one taken counts. -/
theorem FollowsAt.ite {P : Prop} [Decidable P] (hp : S.FollowsAt c p) (hq : S.FollowsAt c q) :
    S.FollowsAt c (if P then p else q) := by
  split
  · exact hp
  · exact hq

/-- So it does from everywhere. -/
theorem Trails.ite {P : Prop} [Decidable P] (hp : S.Trails p) (hq : S.Trails q) :
    S.Trails (if P then p else q) := by
  split
  · exact hp
  · exact hq

/-- What the longer run does not give up the shorter one does not cut out. -/
theorem FollowsAt.orRecover (hp : S.FollowsAt c p) (hq : ∀ d, S.Spent d → S.Ends d q) :
    S.FollowsAt c (Parser.orRecover p q) := by
  intro hquiet
  have hfirst : Quiet (p S.longer (S.extend c)).notes := by
    cases hv : (p S.longer (S.extend c)).value with
    | none =>
      rw [orRecover_of_none hv, quiet_append] at hquiet
      exact hquiet.1
    | some a => rwa [orRecover_of_some hv] at hquiet
  rcases hp hfirst with h | hends
  · obtain ⟨a, hv, hv'⟩ := h.value
    rw [orRecover_of_some hv, orRecover_of_some hv']
    exact .inl h
  · exact .inr (hends.orRecover hq)

/-- Recovery is late where the tokens are used up. -/
theorem Trails.orRecover (hp : S.Trails p) (hq : ∀ d, S.Spent d → S.Ends d q) :
    S.Trails (Parser.orRecover p q) where
  spent c hr := (hp.spent c hr).orRecover hq
  follows c hc hr := (hp.follows c hc hr).orRecover hq

/-! ### Looking at what comes next -/

/-- As long as a token is left, both runs see the same one next. -/
theorem headD_extend {t : Token} {ts : List Token} (hr : c.rest = t :: ts) (stop : Token) :
    (S.extend c).rest.headD stop = t := by
  show (c.rest ++ S.more).headD stop = t
  rw [hr, List.cons_append, List.headD_cons]

/-- The next token is the same. -/
theorem FollowsAt.peek {k : Token → Parser β} {t : Token} {ts : List Token} (hr : c.rest = t :: ts)
    (h : S.FollowsAt c (k t)) : S.FollowsAt c (Parser.peek >>= k) := by
  rw [FollowsAt, Ends, peek_bind, peek_bind, headD_extend hr, hr, List.headD_cons]
  exact h

/-- So it is unless the tokens are used up. -/
theorem Trails.peek {k : Token → Parser β}
    (hend : ∀ t, t.kind = .eof ∨ t.kind.isWord = true → S.start ≤ t.span.start →
      ∀ d, S.Spent d → S.Ends d (k t))
    (hk : ∀ (c : Cursor) t ts, S.Ready c → ¬ S.Spent c → c.rest = t :: ts →
      S.FollowsAt c (k t)) : S.Trails (Parser.peek >>= k) where
  spent c hs := .peek hs fun t ht hstart => hend t ht hstart c hs
  follows c hc hs := by
    obtain ⟨t, ts, hr⟩ := List.exists_cons_of_ne_nil (rest_ne_nil hs)
    exact .peek hr (hk c t ts hc hs hr)

/-- What is read alike whatever comes next. -/
theorem Trails.look {k : Token → Parser β} (hk : ∀ t, S.Trails (k t)) :
    S.Trails (Parser.peek >>= k) :=
  .peek (fun t _ _ d hd => (hk t).spent d hd) fun _ t _ hc _ _ => (hk t).at hc

/-- A mark in front of a token is the same. -/
theorem FollowsAt.mark {k : Mark → Parser β} (hr : c.rest ≠ []) (h : ∀ m, S.FollowsAt c (k m)) :
    S.FollowsAt c (Parser.mark >>= k) := by
  obtain ⟨t, ts, hr⟩ := List.exists_cons_of_ne_nil hr
  have hmark : (⟨(S.extend c).count, ((S.extend c).rest.headD S.longer.stop).span⟩ : Mark) =
      ⟨c.count, (c.rest.headD S.source.stop).span⟩ := by
    rw [headD_extend hr, hr, List.headD_cons, extend]
  show Quiet (k ⟨(S.extend c).count, ((S.extend c).rest.headD S.longer.stop).span⟩ _ _).notes →
    S.Along (k ⟨c.count, (c.rest.headD S.source.stop).span⟩ S.source c)
      (k ⟨(S.extend c).count, ((S.extend c).rest.headD S.longer.stop).span⟩ _ _) ∨ _
  rw [hmark]
  exact h _

/-- What is read alike whatever the mark. -/
theorem Trails.mark {k : Mark → Parser β} (hk : ∀ m, S.Trails (k m)) :
    S.Trails (Parser.mark >>= k) where
  spent c hs := .mark fun m => (hk m).spent c hs
  follows _ hc hs := .mark (rest_ne_nil hs) fun m => (hk m).follows _ hc hs

/-- Looking ahead where both runs decide alike. -/
theorem FollowsAt.ahead {k : List Token → Parser β} (hk : k (c.rest ++ S.more) = k c.rest)
    (h : S.FollowsAt c (k c.rest)) : S.FollowsAt c (Parser.ahead >>= k) := by
  show Quiet (k (c.rest ++ S.more) _ _).notes →
    S.Along (k c.rest S.source c) (k (c.rest ++ S.more) _ _) ∨ _
  rw [hk]
  exact h

/-- Looking ahead where both runs decide alike, or the shorter one is used up whatever it takes to
stand ahead. -/
theorem Trails.aheadOr {k : List Token → Parser β} (h : ∀ ts, S.Trails (k ts))
    (hk : ∀ (c : Cursor) t ts, S.Ready c → ¬ S.Spent c → c.rest = t :: ts →
      S.Ends c (Parser.ahead >>= k) ∨ k (t :: ts ++ S.more) = k (t :: ts)) :
    S.Trails (Parser.ahead >>= k) where
  spent c hs := .ahead ((h c.rest).spent c hs)
  follows c hc hs := by
    obtain ⟨t, ts, hr⟩ := List.exists_cons_of_ne_nil (rest_ne_nil hs)
    rcases hk c t ts hc hs hr with hends | hsame
    · exact hends.follows
    · exact .ahead (hr ▸ hsame) ((h c.rest).at hc)

/-- What depends on the tokens ahead only as far as they go. -/
theorem Trails.ahead {k : List Token → Parser β}
    (hk : ∀ ts, ts ≠ [] → k (ts ++ S.more) = k ts) (h : ∀ ts, S.Trails (k ts)) :
    S.Trails (Parser.ahead >>= k) :=
  .aheadOr h fun _ t ts _ _ _ => .inr (hk (t :: ts) (List.cons_ne_nil t ts))

/-- A test of what lies ahead that no more tokens behind can change. -/
theorem Trails.test {b : List Token → Bool} (hb : ∀ ts, ts ≠ [] → b (ts ++ S.more) = b ts)
    (hp : S.Trails p) (hq : S.Trails q) :
    S.Trails (Parser.ahead >>= fun ts => if b ts then p else q) :=
  .ahead (fun ts hts => by simp only [hb ts hts]) fun _ => .ite hp hq

/-! ### Single tokens -/

/-- With more behind, the next token is the same. -/
theorem extend_rest (hr : c.rest = t :: ts) : (S.extend c).rest = t :: (ts ++ S.more) := by
  rw [extend, hr, List.cons_append]

/-- Taking a token is the same. -/
theorem Trails.bump : S.Trails Parser.bump where
  spent _ hs := .bump hs
  follows c hc hs _ := by
    obtain ⟨t, ts, hr⟩ := List.exists_cons_of_ne_nil (rest_ne_nil hs)
    rw [bump_run hr, bump_run (extend_rest hr)]
    exact .inl ⟨⟨(), rfl, rfl⟩, rfl, hc.tail hr, quiet_nil⟩

/-- The first half of a token that is there. -/
theorem FollowsAt.bumpHalf (hc : S.Ready c) (hr : c.rest = t :: ts) :
    S.FollowsAt c Parser.bumpHalf := by
  intro _
  simp only [Parser.bumpHalf, hr, extend_rest hr]
  exact .inl ⟨⟨(), rfl, rfl⟩, rfl, hc.half hr rfl, quiet_nil⟩

/-- Giving up in front of a token is a problem of the longer run. -/
theorem loud_abortHere (hc : S.Ready c) (hr : c.rest ≠ []) (cause : Token → Diagnostic.Cause) :
    ¬ Quiet ((do reportHere (cause (← Parser.peek)); (Parser.abort : Parser α)) S.longer
      (S.extend c)).notes := by
  obtain ⟨t, ts, hr⟩ := List.exists_cons_of_ne_nil hr
  have hhead : c.rest.headD S.source.stop = t := by rw [hr, List.headD_cons]
  show ¬ Quiet (notesAt ((S.extend c).rest.headD S.longer.stop)
    (cause ((S.extend c).rest.headD S.longer.stop)) ++ [])
  rw [List.append_nil, headD_extend hr, ← hhead]
  exact not_quiet_notesAt S.ended hc.fair _

/-- A report at the next token, or a late one at the end. -/
theorem Trails.abortHere {cause : Token → Diagnostic.Cause}
    (hk : ∀ t, (cause t).kind = .unexpectedToken ∨ (cause t).kind = .unrecoverableFragment) :
    S.Trails (do reportHere (cause (← Parser.peek)); (Parser.abort : Parser α)) where
  spent _ hs := .abortHere hs hk
  follows _ hc hs := .of_loud (loud_abortHere hc (rest_ne_nil hs) cause)

/-- A complaint is the same, or late. -/
theorem Trails.unexpected (due : String) : S.Trails (Parser.unexpected due : Parser α) :=
  .abortHere fun _ => .inl rfl

/-- The question for a kind of token has the same answer. -/
theorem Trails.sees (kind : TokenKind) : S.Trails (Parser.sees kind) := .look fun _ => .pure _

/-- So it has where the token is taken. -/
theorem Trails.eat (kind : TokenKind) : S.Trails (Parser.eat kind) :=
  .bind (.sees kind) fun _ => .ite (.bind .bump fun _ => .pure _) (.pure _)

/-- So it has where it is asked for. -/
theorem Trails.expect (kind : TokenKind) (due : String) : S.Trails (Parser.expect kind due) :=
  .bind (.sees kind) fun _ => .ite .bump (.unexpected due)

/-- Behind a sign that is due nothing has to be shown where the tokens are used up in front of
it. -/
theorem Trails.expectThen {kind : TokenKind} (hk : kind ≠ .eof) (hw : kind.isWord = false)
    (due : String) {f : Unit → Parser β} (hf : ∀ d : Cursor, S.Ready d → S.FollowsAt d (f ())) :
    S.Trails (Parser.expect kind due >>= f) where
  spent c hs := by
    have hne : (c.rest.headD S.source.stop).kind ≠ kind := by
      rintro rfl
      exact hs.next.1.elim hk fun h => Bool.false_ne_true (hw.symm.trans h)
    have hrun : Parser.expect kind due S.source c =
        (Parser.unexpected due : Parser Unit) S.source c := by
      rw [expect_run, if_neg (by simpa using hne)]
    refine Ends.bind_none ?_ (by rw [hrun]; rfl)
    rw [Ends, hrun]
    exact Ends.unexpected hs due
  follows c hc hs := by
    obtain ⟨t, ts, hr⟩ := List.exists_cons_of_ne_nil (rest_ne_nil hs)
    by_cases ht : t.kind = kind
    · have hr' := extend_rest (S := S) hr
      have hrun : Parser.expect kind due S.source c =
          ⟨some (), ⟨ts, c.count + 1, t.span, c.depth⟩, []⟩ := by
        rw [expect_run, hr, List.headD_cons, if_pos (by simpa using ht), bump_run hr]
      have hrun' : Parser.expect kind due S.longer (S.extend c) =
          ⟨some (), S.extend ⟨ts, c.count + 1, t.span, c.depth⟩, []⟩ := by
        rw [expect_run, hr', List.headD_cons, if_pos (by simpa using ht), bump_run hr']
        rfl
      exact .after hrun hrun' (hf _ (hc.tail hr))
    · refine .of_loud ?_
      have hrun : Parser.expect kind due S.longer (S.extend c) =
          (Parser.unexpected due : Parser Unit) S.longer (S.extend c) := by
        rw [expect_run, headD_extend hr, if_neg (by simpa using ht)]
      rw [bind_of_none (by rw [hrun]; rfl), hrun]
      exact loud_abortHere hc (hr ▸ List.cons_ne_nil t ts) fun t => .expected due t.kind.name

/-- So it is with a keyword. -/
theorem Trails.expectKeyword (keyword : Keyword) : S.Trails (Parser.expectKeyword keyword) :=
  .look fun _ => .ite .bump (.unexpected _)

/-- So it is with a name. -/
theorem Trails.name (due : String) : S.Trails (Parser.name due) := by
  refine .look fun t => ?_
  split
  · exact .bind .bump fun _ => .pure _
  · exact .unexpected due

/-- A span is that of the same tokens. -/
theorem Trails.spanFrom (m : Mark) : S.Trails (Parser.spanFrom m) where
  spent _ hs := .of_quiet hs quiet_nil
  follows _ hc _ _ := .inl ⟨⟨_, rfl, rfl⟩, rfl, hc, quiet_nil⟩

/-- An event is the same. -/
theorem Trails.emit (e : ParseEvent) : S.Trails (Parser.emit e) where
  spent _ hs := .emit hs e
  follows _ hc _ _ := .inl ⟨⟨(), rfl, rfl⟩, rfl, hc, quiet_nil⟩

/-- Closing a node. -/
theorem Trails.close (m : Mark) (h : Span → α) : S.Trails (do return h (← Parser.spanFrom m)) :=
  .bind (.spanFrom m) fun _ => .pure _

/-! ### Levels and loops -/

/-- Where no further level is allowed, the longer run meets a problem. -/
theorem Trails.nested {deep : Parser α} (hsound : Sound p)
    (hd : ∀ c, S.Spent c → S.Ends c deep) (hl : ∀ c, ¬ Quiet (deep S.longer c).notes)
    (hp : S.Trails p) : S.Trails (Parser.nested deep p) where
  spent c hs := by
    rcases Nat.lt_or_ge c.depth maxNesting with hc | hc
    · have h := hp.spent c.down hs
      rw [Ends, nested_of_lt hsound S.ended hc]
      exact ⟨h.rest, h.late⟩
    · rw [Ends, nested_of_le hc]
      exact hd c hs
  follows c hc hs := by
    rcases Nat.lt_or_ge c.depth maxNesting with hlt | hge
    · intro hq
      rw [nested_of_lt hsound S.ended' (show (S.extend c).depth < _ from hlt)] at hq ⊢
      rw [Ends, nested_of_lt hsound S.ended hlt]
      rcases hp.follows c.down ⟨hc.fair, hc.settled⟩ hs hq with h | h
      · refine .inl ⟨h.value, ?_, ⟨h.ready.fair, h.ready.settled⟩, h.quiet⟩
        exact congrArg Cursor.up h.cursor
      · exact .inr ⟨h.rest, h.late⟩
    · refine .of_loud ?_
      rw [nested_of_le (show _ ≤ (S.extend c).depth from hge)]
      exact hl _

variable {step : σ → Parser (σ ⊕ β)}

/-- The rounds that the last tokens leave. -/
theorem Ends.loop (ha : Advances step) (hstep : ∀ s d, S.Spent d → S.Ends d (step s)) (s : σ)
    (hs : S.Spent c) : S.Ends c (Parser.loop step s) := by
  induction hn : c.rest.length using Nat.strongRecOn generalizing s c with
  | ind n ih =>
    rw [Ends, loop_eq ha S.ended]
    have hround := hstep s c hs
    refine Ends.bindAt hround fun r hv => ?_
    cases r with
    | inl s' => exact ih _ (hn ▸ ha S.ended s s' c hv) s' hround.rest rfl
    | inr b => exact .of_quiet hround.rest quiet_nil

/-- A loop whose rounds are read alike. -/
theorem Trails.loop (ha : Advances step) (hstep : ∀ s, S.Trails (step s)) (s : σ) :
    S.Trails (Parser.loop step s) := by
  have spent (s : σ) (c : Cursor) (hs : S.Spent c) : S.Ends c (Parser.loop step s) :=
    .loop ha (fun s d hd => (hstep s).spent d hd) s hs
  refine ⟨spent s, fun c hc hs => ?_⟩
  -- The rounds of both runs go side by side until the shorter one is used up.
  induction hn : c.rest.length using Nat.strongRecOn generalizing s c with
  | ind n ih =>
    intro hq
    rw [loop_eq ha S.ended'] at hq ⊢
    rw [Ends, loop_eq ha S.ended]
    refine FollowsAt.bindAt ((hstep s).follows c hc hs) (fun r hv hd => ?_)
      (fun r d hd => ?_) hq
    · cases r with
      | inl s' =>
        by_cases hs' : S.Spent (step s S.source c).cursor
        · exact (spent s' _ hs').follows
        · exact ih _ (hn ▸ ha S.ended s s' c hv) s' _ hd hs' rfl
      | inr b => exact .pure hd b
    · cases r with
      | inl s' => exact spent s' d hd
      | inr b => exact .of_quiet hd quiet_nil

end Sequel

end Ndf
