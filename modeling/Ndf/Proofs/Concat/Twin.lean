/-
# Reading the same tokens elsewhere

A `Twin` says how a source is found in a longer one: all its tokens are moved by so many bytes and
lines, and more tokens may follow.  `Alike` says of two parsers that they do the same on the tokens
of a source and on those of its twin, up to the move.  It holds of every run if nothing follows.
If more tokens follow, it holds of every run that ends with a value and finds no problem: what
follows starts with a plain name that is not joined, so nothing that is complete reads into it.

Whether the next token is joined makes no difference if it is a word, since no parser asks before
it has read another token.  So the first token of a source may be joined here and not there.
-/

import Ndf.Proofs.Concat.Near
import Ndf.Proofs.Parser.Levels
import Ndf.Proofs.Token.Append
import Ndf.Proofs.Tree.Relabel

namespace Ndf

/-- A tree in a text that something was put in front of. -/
def Relabel.shift (bytes lines : Nat) : Relabel := ⟨Span.shift bytes lines, fun n => n⟩

/-- How a source is found in a longer one. -/
structure Twin where
  bytes : Nat
  lines : Nat
  /-- The number of tokens in front. -/
  drift : Nat
  /-- The tokens behind. -/
  more : List Token

namespace Twin

variable (w : Twin)

/-- A span, moved. -/
def span (s : Span) : Span := s.shift w.bytes w.lines

/-- A tree, moved. -/
def relabel : Relabel := .shift w.bytes w.lines

/-- A token, moved. -/
def token (t : Token) : Token := t.shift w.bytes w.lines

/-- A mark, moved; more tokens may have been read in front of it. -/
def mark (m : Parser.Mark) : Parser.Mark := ⟨m.count + w.drift, w.span m.first⟩

/-- An event, moved. -/
def event : ParseEvent → ParseEvent
  | .item line column error => .item (line + w.lines) column error
  | .recoveredItem s => .recoveredItem (w.span s)
  | .recoveredEntry s => .recoveredEntry (w.span s)
  | .skipped s => .skipped (w.span s)
  | .cancelled position => .cancelled (position + w.drift)

/-- A breach, moved. -/
def breach : Breach → Breach
  | .slice s => .slice (w.span s)
  | b => b

/-- A note, moved. -/
def note : Note → Note
  | .problem d => .problem (d.shift w.bytes w.lines)
  | .atEnd d => .atEnd (d.shift w.bytes w.lines)
  | .event e => .event (w.event e)
  | .breach b => .breach (w.breach b)

/-- The tokens of a place and those of its twin.  A word at the front may be joined in one and not
in the other. -/
def Rests : List Token → List Token → Prop
  | [], us => us = w.more
  | t :: ts, us => ∃ joined, (joined = t.joined ∨ t.kind.isWord = true) ∧
      us = ⟨t.kind, w.span t.span, joined⟩ :: (ts.map w.token ++ w.more)

/-- A place and its twin. -/
structure Linked (c c' : Cursor) : Prop where
  rests : w.Rests c.rest c'.rest
  count : c'.count = c.count + w.drift
  last : 0 < c.count → c'.last = w.span c.last
  safe : w.more ≠ [] → c.Fair ∧ Lookahead.Loose c.rest
  depth : c'.depth = c.depth

/-- A source and its twin. -/
structure Sees (src src' : Source) : Prop where
  ended : src.Ended
  ended' : src'.Ended
  stop : w.more = [] → src'.stop = w.token src.stop
  text : w.more = [] → ∀ s, Text.slice? src'.text (w.span s).start (w.span s).stop =
    Text.slice? src.text s.start s.stop
  tail : w.more ≠ [] → ∃ t ts text, w.more = t :: ts ∧ t.kind = .word text .name ∧ t.joined = false

/-- No run reads into the tokens behind: there are none, or something is left in front of them. -/
def Inside (c : Cursor) : Prop := w.more ≠ [] → c.rest ≠ []

variable {w} {src src' : Source} {c c' : Cursor}

/-- The tokens left and those left in the twin, with what follows there. -/
theorem Rests.same (ts : List Token) : w.Rests ts (ts.map w.token ++ w.more) := by
  cases ts with
  | nil => rfl
  | cons t ts => exact ⟨t.joined, .inl rfl, rfl⟩

/-- As many are left, and those that follow. -/
theorem Rests.length_eq {ts us : List Token} (h : w.Rests ts us) :
    us.length = ts.length + w.more.length := by
  cases ts with
  | nil => simp [show us = w.more from h]
  | cons t ts =>
    obtain ⟨joined, -, rfl⟩ := h
    simp only [List.length_cons, List.length_append, List.length_map]
    omega

/-- A token that both have ahead is of the same kind and joined alike, but for a word in front. -/
theorem Rests.getElem? {ts us : List Token} (h : w.Rests ts us) {n : Nat} (hn : n < ts.length) :
    (us[n]?.map Token.kind = ts[n]?.map Token.kind) ∧
      ((n = 0 → Lookahead.isWord ts 0 = false) →
        us[n]?.map Token.joined = ts[n]?.map Token.joined) := by
  cases ts with
  | nil => cases hn
  | cons t ts =>
    obtain ⟨joined, hj, rfl⟩ := h
    cases n with
    | zero =>
      refine ⟨rfl, fun hw => ?_⟩
      have hword : t.kind.isWord = false := by simpa [Lookahead.isWord] using hw rfl
      rw [hword] at hj
      simpa using hj
    | succ n =>
      have hn : n < ts.length := by simpa using hn
      rw [List.getElem?_cons_succ, List.getElem?_cons_succ, List.getElem?_append_left (by simpa),
        List.getElem?_map, List.getElem?_eq_getElem hn]
      exact ⟨rfl, fun _ => rfl⟩

/-- Lookahead does not tell a place from its twin. -/
theorem Linked.near (hs : w.Sees src src') (h : w.Linked c c') :
    Lookahead.Near c.rest c'.rest where
  kind n hn := (h.rests.getElem? hn).1
  joined n hn hw := by
    have := (h.rests.getElem? hn).2 hw
    unfold Lookahead.isJoined
    cases hu : c'.rest[n]? <;> cases ht : c.rest[n]? <;> simp_all
  behind := by
    by_cases hm : w.more = []
    · left
      rw [h.rests.length_eq, hm, List.length_nil, Nat.add_zero]
    · right
      obtain ⟨t, ts, text, hmore, hk, hj⟩ := hs.tail hm
      have hat : c'.rest[c.rest.length]? = some t := by
        have hr := h.rests
        cases hc : c.rest with
        | nil =>
          rw [hc] at hr
          rw [show c'.rest = w.more from hr, hmore]
          rfl
        | cons u us =>
          rw [hc] at hr
          obtain ⟨joined, -, hc'⟩ := hr
          rw [hc', List.length_cons, List.getElem?_cons_succ,
            List.getElem?_append_right (by simp), hmore]
          simp
      refine ⟨⟨text, ?_⟩, ?_, (h.safe hm).2⟩
      · rw [Lookahead.kind?, hat, Option.map_some, hk]
      · rw [Lookahead.isJoined, hat, Option.any_some, hj]

/-- Inside, a token is left or none follows. -/
theorem Linked.seen (h : w.Linked c c') (hne : w.Inside c) :
    0 < c.rest.length ∨ c'.rest.length = c.rest.length := by
  by_cases hm : w.more = []
  · right
    rw [h.rests.length_eq, hm, List.length_nil, Nat.add_zero]
  · exact .inl (List.length_pos_iff.2 (hne hm))

/-- One level deeper a place and its twin are linked as before. -/
theorem Linked.down (hl : w.Linked c c') : w.Linked c.down c'.down :=
  ⟨hl.rests, hl.count, hl.last, hl.safe, congrArg (· + 1) hl.depth⟩

/-- One level up the places are linked as well. -/
theorem Linked.up (hl : w.Linked c c') : w.Linked c.up c'.up :=
  ⟨hl.rests, hl.count, hl.last, hl.safe, congrArg (· - 1) hl.depth⟩

/-- The next token and its twin. -/
theorem Linked.head (hs : w.Sees src src') (h : w.Linked c c') (hne : w.Inside c) :
    (c'.rest.headD src'.stop).kind = (c.rest.headD src.stop).kind ∧
      (c'.rest.headD src'.stop).span = w.span (c.rest.headD src.stop).span := by
  have hr := h.rests
  cases hc : c.rest with
  | nil =>
    have hm : w.more = [] := by
      by_cases hm : w.more = []
      · exact hm
      · exact absurd hc (hne hm)
    rw [hc] at hr
    rw [show c'.rest = w.more from hr, hm, List.headD_nil, List.headD_nil, hs.stop hm]
    exact ⟨rfl, rfl⟩
  | cons t ts =>
    rw [hc] at hr
    obtain ⟨joined, -, hc'⟩ := hr
    rw [hc']
    exact ⟨rfl, rfl⟩

end Twin

namespace Parser

open Twin

variable {w : Twin} {src src' : Source} {c c' : Cursor} {α α' β β' : Type} {f : α → α'}
  {h : β → β'} {p : Parser α} {p' : Parser α'} {k : α → Parser β} {k' : α' → Parser β'}

/-- A run that ends with a value and finds no problem. -/
def Clean (o : Outcome α) : Prop := o.value ≠ none ∧ Quiet o.notes

/-- A run and its twin end alike. -/
structure Matches (w : Twin) (f : α → α') (o : Outcome α) (o' : Outcome α') : Prop where
  value : o'.value = o.value.map f
  cursor : w.Linked o.cursor o'.cursor
  notes : o'.notes = o.notes.map w.note

/-- From here two parsers do the same: always if nothing follows, else if the run is clean. -/
def AlikeAt (w : Twin) (src src' : Source) (c c' : Cursor) (f : α → α') (p : Parser α)
    (p' : Parser α') : Prop :=
  (w.more = [] ∨ Clean (p src c)) → Matches w f (p src c) (p' src' c')

/-- Two parsers do the same on a source and on its twin. -/
def Alike (w : Twin) (f : α → α') (p : Parser α) (p' : Parser α') : Prop :=
  ∀ ⦃src src' : Source⦄, w.Sees src src' → ∀ ⦃c c' : Cursor⦄, w.Linked c c' →
    AlikeAt w src src' c c' f p p'

/-- A clean sequence starts with a clean run. -/
theorem Clean.of_bind_left (hc : Clean ((p >>= k) src c)) : Clean (p src c) := by
  cases hv : (p src c).value with
  | none =>
    rw [bind_of_none hv] at hc
    exact absurd rfl hc.1
  | some a =>
    rw [bind_of_some hv] at hc
    exact ⟨hv ▸ Option.some_ne_none a, ((quiet_append _ _).1 hc.2).1⟩

/-- And goes on with one. -/
theorem Clean.of_bind_right {a : α} (hv : (p src c).value = some a) (hc : Clean ((p >>= k) src c)) :
    Clean (k a src (p src c).cursor) := by
  rw [bind_of_some hv] at hc
  exact ⟨hc.1, ((quiet_append _ _).1 hc.2).2⟩

/-- Going on from where the two runs have got to. -/
theorem AlikeAt.bind_run (hp : AlikeAt w src src' c c' f p p')
    (hk : ∀ a, (p src c).value = some a → w.Linked (p src c).cursor (p' src' c').cursor →
      AlikeAt w src src' (p src c).cursor (p' src' c').cursor h (k a) (k' (f a))) :
    AlikeAt w src src' c c' h (p >>= k) (p' >>= k') := by
  intro hm
  have hfirst := hp (hm.imp_right Clean.of_bind_left)
  cases hv : (p src c).value with
  | none =>
    have hv' : (p' src' c').value = none := by rw [hfirst.value, hv, Option.map_none]
    rw [bind_of_none hv, bind_of_none hv']
    exact ⟨rfl, hfirst.cursor, hfirst.notes⟩
  | some a =>
    have hv' : (p' src' c').value = some (f a) := by rw [hfirst.value, hv, Option.map_some]
    have hnext := hk a hv hfirst.cursor (hm.imp_right (Clean.of_bind_right hv))
    rw [bind_of_some hv, bind_of_some hv']
    refine ⟨hnext.value, hnext.cursor, ?_⟩
    rw [List.map_append, hfirst.notes, hnext.notes]

/-- Two sequences are alike if their parts are. -/
theorem AlikeAt.bind (hp : AlikeAt w src src' c c' f p p')
    (hk : ∀ a, (p src c).value = some a → ∀ d', w.Linked (p src c).cursor d' →
      AlikeAt w src src' (p src c).cursor d' h (k a) (k' (f a))) :
    AlikeAt w src src' c c' h (p >>= k) (p' >>= k') :=
  hp.bind_run fun a hv => hk a hv _

/-- The same from all places. -/
theorem Alike.bind (hp : Alike w f p p') (hk : ∀ a, Alike w h (k a) (k' (f a))) :
    Alike w h (p >>= k) (p' >>= k') := fun _ _ hs _ _ hl =>
  (hp hs hl).bind fun a _ _ hl' => hk a hs hl'

/-- Returning a value and its image is alike. -/
theorem Alike.pure {b : β} {b' : β'} (hb : b' = h b) :
    Alike w h (pure b : Parser β) (pure b' : Parser β') := by
  subst hb
  exact fun _ _ _ _ _ hl _ => ⟨rfl, hl, rfl⟩

/-- Giving up is alike. -/
theorem Alike.abort : Alike w h (abort : Parser β) (abort : Parser β') :=
  fun _ _ _ _ _ hl _ => ⟨rfl, hl, rfl⟩

/-- Functions that agree up to the move keep parsers alike. -/
theorem Alike.map {u : α → β} {u' : α' → β'} (hp : Alike w f p p') (hu : ∀ a, u' (f a) = h (u a)) :
    Alike w h (u <$> p) (u' <$> p') := hp.bind fun a => .pure (hu a)

/-- The same at one pair of places. -/
theorem AlikeAt.map {u : α → β} {u' : α' → β'} (hp : AlikeAt w src src' c c' f p p')
    (hu : ∀ a, u' (f a) = h (u a)) : AlikeAt w src src' c c' h (u <$> p) (u' <$> p') :=
  hp.bind fun a _ _ hl' _ => ⟨congrArg some (hu a), hl', rfl⟩

/-- Two branches are alike if both sides take the same one. -/
theorem AlikeAt.ite {P P' : Prop} [Decidable P] [Decidable P'] {p q : Parser β} {p' q' : Parser β'}
    (hP : P' ↔ P) (hp : P → AlikeAt w src src' c c' h p p')
    (hq : ¬ P → AlikeAt w src src' c c' h q q') :
    AlikeAt w src src' c c' h (if P then p else q) (if P' then p' else q') := by
  by_cases hc : P
  · rw [if_pos hc, if_pos (hP.2 hc)]
    exact hp hc
  · rw [if_neg hc, if_neg (fun h => hc (hP.1 h))]
    exact hq hc

/-- The same from all places. -/
theorem Alike.ite {P P' : Prop} [Decidable P] [Decidable P'] {p q : Parser β} {p' q' : Parser β'}
    (hP : P' ↔ P) (hp : Alike w h p p') (hq : Alike w h q q') :
    Alike w h (if P then p else q) (if P' then p' else q') := by
  intro _ _ hs _ _ hl
  exact .ite hP (fun _ => hp hs hl) fun _ => hq hs hl

/-- Where a run is not clean nothing is to be shown if more tokens follow. -/
theorem AlikeAt.of_not_clean {p : Parser β} {p' : Parser β'} (hn : ¬ Clean (p src c))
    (hm : w.more = [] → Matches w h (p src c) (p' src' c')) :
    AlikeAt w src src' c c' h p p' := fun hm' => hm (hm'.resolve_right hn)

/-- Where a run gives up nothing is to be shown if more tokens follow. -/
theorem AlikeAt.of_none {p : Parser β} {p' : Parser β'} (hm : w.more ≠ [])
    (hn : (p src c).value = none) : AlikeAt w src src' c c' h p p' :=
  .of_not_clean (fun hc => hc.1 hn) fun hm' => absurd hm' hm

/-- A parser that reads a token has one to read. -/
theorem AlikeAt.inside {p : Parser β} {p' : Parser β'} (he : EatsAt src c p)
    (hi : w.Inside c → AlikeAt w src src' c c' h p p') : AlikeAt w src src' c c' h p p' := by
  intro hm
  refine hi (fun hmore hr => ?_) hm
  have hc := he (hm.resolve_left hmore).1
  rw [hr] at hc
  exact absurd hc (Nat.not_lt_zero _)

/-- Whoever reads a token has to be followed from inside only: at the end a clean run reads none. -/
theorem Alike.inside {p : Parser β} {p' : Parser β'} (he : Eats p)
    (hi : ∀ ⦃src src' : Source⦄, w.Sees src src' → ∀ ⦃c c' : Cursor⦄, w.Linked c c' → w.Inside c →
      AlikeAt w src src' c c' h p p') : Alike w h p p' := fun _ _ hs _ _ hl =>
  .inside (he hs.ended _) fun hne => hi hs hl hne

/-! ### Single steps -/

/-- Reading a token moves both places on, and in front of the next one they look alike. -/
theorem bump_linked (hl : w.Linked c c') {t : Token} {ts : List Token} (hr : c.rest = t :: ts) :
    ∃ t', c'.rest = t' :: (ts.map w.token ++ w.more) ∧ t'.kind = t.kind ∧
      t'.span = w.span t.span ∧
      w.Linked ⟨ts, c.count + 1, t.span, c.depth⟩
        ⟨ts.map w.token ++ w.more, c'.count + 1, t'.span, c'.depth⟩ := by
  have hrests := hl.rests
  rw [hr] at hrests
  obtain ⟨joined, -, hc'⟩ := hrests
  refine ⟨_, hc', rfl, rfl, .same ts, ?_, fun _ => rfl, fun hm => ?_, hl.depth⟩
  · show c'.count + 1 = c.count + 1 + w.drift
    rw [hl.count]
    omega
  · obtain ⟨hfair, hloose⟩ := hl.safe hm
    rw [hr] at hloose
    exact ⟨fun u hu => hfair u (by rw [hr]; exact List.mem_cons_of_mem t hu), hloose.tail⟩

/-- Reading a token is alike inside. -/
theorem AlikeAt.bump (hl : w.Linked c c') (hne : w.Inside c) :
    AlikeAt w src src' c c' id Parser.bump Parser.bump := by
  intro _
  cases hr : c.rest with
  | nil =>
    have hm : w.more = [] := by
      by_cases hm : w.more = []
      · exact hm
      · exact absurd hr (hne hm)
    have hr' : c'.rest = [] := by
      have := hl.rests.length_eq
      rw [hr, hm] at this
      exact List.length_eq_zero_iff.1 this
    rw [bump_run_nil hr, bump_run_nil hr']
    exact ⟨rfl, hl, rfl⟩
  | cons t ts =>
    obtain ⟨t', hc', -, -, hl'⟩ := bump_linked hl hr
    rw [bump_run hr, bump_run hc']
    exact ⟨rfl, hl', rfl⟩

/-- Behind a token that has been read, whether a word is joined is the same. -/
theorem bump_behind (hs : w.Sees src src') (hl : w.Linked c c') (hne : w.Inside c) :
    (Lookahead.isWord (Parser.bump src' c').cursor.rest 0 &&
        Lookahead.isJoined (Parser.bump src' c').cursor.rest 0) =
      (Lookahead.isWord (Parser.bump src c).cursor.rest 0 &&
        Lookahead.isJoined (Parser.bump src c).cursor.rest 0) := by
  cases hr : c.rest with
  | nil =>
    have hm : w.more = [] := by
      by_cases hm : w.more = []
      · exact hm
      · exact absurd hr (hne hm)
    have hr' : c'.rest = [] := by
      have := hl.rests.length_eq
      rw [hr, hm] at this
      exact List.length_eq_zero_iff.1 this
    rw [bump_run_nil hr, bump_run_nil hr', hr, hr']
  | cons t ts =>
    obtain ⟨t', hc', -, -, -⟩ := bump_linked hl hr
    rw [bump_run hr, bump_run hc']
    cases ts with
    | nil =>
      by_cases hm : w.more = []
      · simp [hm]
      · obtain ⟨u, us, text, hmore, -, hj⟩ := hs.tail hm
        simp [hmore, hj]
    | cons u us => rfl

/-- Reading half of one is alike. -/
theorem AlikeAt.bumpHalf (hl : w.Linked c c') (hne : c.rest ≠ []) :
    AlikeAt w src src' c c' id Parser.bumpHalf Parser.bumpHalf := by
  intro _
  obtain ⟨t, ts, hr⟩ := List.exists_cons_of_ne_nil hne
  obtain ⟨t', hc', -, hspan, hl'⟩ := bump_linked hl hr
  simp only [Parser.bumpHalf, hr, hc']
  refine ⟨rfl, ⟨⟨true, .inl rfl, ?_⟩, hl'.count, fun _ => ?_, fun hm => ?_, hl.depth⟩, rfl⟩
  · simp only [Token.secondHalf, hspan, Twin.span, Span.shift, List.cons.injEq, Token.mk.injEq,
      Span.mk.injEq, and_true, true_and]
    omega
  · simp only [Token.firstHalf, hspan, Twin.span, Span.shift, Span.mk.injEq, and_true, true_and]
    omega
  · obtain ⟨hfair, hloose⟩ := hl.safe hm
    rw [hr] at hloose
    refine ⟨fun u hu e hk => ?_, hloose.replace rfl⟩
    rcases List.mem_cons.1 hu with rfl | hu
    · cases hk
    · exact hfair u (by rw [hr]; exact List.mem_cons_of_mem t hu) e hk

/-- The span from one to another moves with both. -/
theorem span_through (a b : Span) : w.span (a.through b) = (w.span a).through (w.span b) := by
  simp only [Twin.span, Span.shift, Span.through, Span.mk.injEq, and_true, true_and]
  omega

/-- Taking the span from a mark is alike. -/
theorem Alike.span {m : Mark} :
    Alike w w.span (Parser.spanFrom m) (Parser.spanFrom (w.mark m)) := by
  intro src src' _ c c' hl _
  refine ⟨?_, hl, rfl⟩
  show some (if m.count + w.drift < c'.count then (w.span m.first).through c'.last
    else (w.span m.first).atStart) = some (w.span (if m.count < c.count then m.first.through c.last
      else m.first.atStart))
  rw [hl.count]
  by_cases hm : m.count < c.count
  · rw [if_pos hm, if_pos (by omega), hl.last (by omega), span_through]
  · rw [if_neg hm, if_neg (by omega)]
    rfl

/-- So is closing a node with it. -/
theorem Alike.spanFrom {m : Mark} {v : Span → β} {v' : Span → β'}
    (hv : ∀ s, v' (w.span s) = h (v s)) :
    Alike w h (do return v (← Parser.spanFrom m)) (do return v' (← Parser.spanFrom (w.mark m))) :=
  .bind .span fun s => .pure (hv s)

/-- Reporting a problem is alike. -/
theorem Alike.report {cause : Diagnostic.Cause} {s : Span} :
    Alike w id (Parser.report cause s) (Parser.report cause (w.span s)) :=
  fun _ _ _ _ _ hl _ => ⟨rfl, hl, rfl⟩

/-- Emitting an event is alike. -/
theorem Alike.emit {e : ParseEvent} : Alike w id (Parser.emit e) (Parser.emit (w.event e)) :=
  fun _ _ _ _ _ hl _ => ⟨rfl, hl, rfl⟩

/-- Asking whether a token was read is alike. -/
theorem Alike.movedFrom {m : Mark} :
    Alike w id (Parser.movedFrom m) (Parser.movedFrom (w.mark m)) := by
  intro _ _ _ c c' hl _
  refine ⟨?_, hl, rfl⟩
  show some (decide (m.count + w.drift < c'.count)) = some (decide (m.count < c.count))
  rw [hl.count, decide_eq_decide.2 (Nat.add_lt_add_iff_right ..)]

/-- A problem at a token is noted at the moved token. -/
theorem notesAt_eq {t t' : Token} (hk : t'.kind = t.kind) (hs : t'.span = w.span t.span)
    (cause : Diagnostic.Cause) : notesAt t' cause = (notesAt t cause).map w.note := by
  unfold notesAt
  rw [hk, hs]
  split
  · rfl
  · split <;> rfl
  · rfl

/-- Giving up at the next token. -/
theorem Alike.abortHere (cause : String → Diagnostic.Cause) : Alike w h
    (do reportHere (cause (← Parser.peek).kind.name); (Parser.abort : Parser β))
    (do reportHere (cause (← Parser.peek).kind.name); (Parser.abort : Parser β')) := by
  intro src src' hs c c' hl
  refine .of_not_clean (fun hc => hc.1 rfl) fun hm => ⟨rfl, hl, ?_⟩
  obtain ⟨hk, hspan⟩ := hl.head hs (fun hmore => absurd hm hmore)
  show notesAt (c'.rest.headD src'.stop) (cause (c'.rest.headD src'.stop).kind.name) ++ [] =
    List.map w.note
      (notesAt (c.rest.headD src.stop) (cause (c.rest.headD src.stop).kind.name) ++ [])
  rw [List.append_nil, List.append_nil, hk, notesAt_eq hk hspan]

/-- What gives up at the next token gives up in both runs, or in an unclean one. -/
theorem Alike.unexpected (due : String) :
    Alike w h (Parser.unexpected due : Parser β) (Parser.unexpected due : Parser β') :=
  .abortHere fun found => .expected due found

/-- Inside, both runs see the same token next, moved. -/
theorem AlikeAt.peek (hs : w.Sees src src') (hl : w.Linked c c') (hne : w.Inside c)
    {k : Token → Parser β} {k' : Token → Parser β'}
    (hk : ∀ t t', c.rest.headD src.stop = t → t'.kind = t.kind → t'.span = w.span t.span →
      AlikeAt w src src' c c' h (k t) (k' t')) :
    AlikeAt w src src' c c' h (Parser.peek >>= k) (Parser.peek >>= k') :=
  let ⟨hkind, hspan⟩ := hl.head hs hne
  hk _ _ rfl hkind hspan

/-- Looking at the next token where more may follow: behind the last one of a source the source
ends, and in its twin there is a plain name. -/
theorem AlikeAt.peekEnd (hs : w.Sees src src') (hl : w.Linked c c')
    {k : Token → Parser β} {k' : Token → Parser β'}
    (hk : ∀ t t', c.rest.headD src.stop = t → t'.kind = t.kind → t'.span = w.span t.span →
      w.Inside c → AlikeAt w src src' c c' h (k t) (k' t'))
    (hend : w.more ≠ [] → ∀ t t' text, t.kind = .eof → t'.kind = .word text .name →
      AlikeAt w src src' c c' h (k t) (k' t')) :
    AlikeAt w src src' c c' h (Parser.peek >>= k) (Parser.peek >>= k') := by
  by_cases hne : w.Inside c
  · exact .peek hs hl hne fun t t' ht hk' hspan => hk t t' ht hk' hspan hne
  · simp only [Twin.Inside, Classical.not_imp, Classical.not_not] at hne
    obtain ⟨hm, hr⟩ := hne
    obtain ⟨t', ts', text, hmore, hk', -⟩ := hs.tail hm
    have hr' : c'.rest = t' :: ts' := by
      have hrests := hl.rests
      rw [hr] at hrests
      exact (show c'.rest = w.more from hrests).trans hmore
    have hhead : c'.rest.headD src'.stop = t' := by rw [hr', List.headD_cons]
    have hstop : c.rest.headD src.stop = src.stop := by rw [hr, List.headD_nil]
    have := hend hm src.stop t' text hs.ended hk'
    rw [← hstop, ← hhead] at this
    exact this

/-- Inside, both set the same mark, moved. -/
theorem AlikeAt.mark (hs : w.Sees src src') (hl : w.Linked c c') (hne : w.Inside c)
    {k : Mark → Parser β} {k' : Mark → Parser β'}
    (hk : ∀ m, m.count = c.count → AlikeAt w src src' c c' h (k m) (k' (w.mark m))) :
    AlikeAt w src src' c c' h (Parser.mark >>= k) (Parser.mark >>= k') := by
  obtain ⟨-, hspan⟩ := hl.head hs hne
  have hmark : (⟨c'.count, (c'.rest.headD src'.stop).span⟩ : Mark) =
      w.mark ⟨c.count, (c.rest.headD src.stop).span⟩ := by
    rw [Twin.mark, hspan, hl.count]
  show AlikeAt w src src' c c' h (k ⟨c.count, (c.rest.headD src.stop).span⟩)
    (k' ⟨c'.count, (c'.rest.headD src'.stop).span⟩)
  rw [hmark]
  exact hk _ rfl

/-- What reads a token behind its mark starts inside. -/
theorem Alike.mark {k : Mark → Parser β} {k' : Mark → Parser β'} (he : Eats (Parser.mark >>= k))
    (hk : ∀ m, Alike w h (k m) (k' (w.mark m))) :
    Alike w h (Parser.mark >>= k) (Parser.mark >>= k') :=
  .inside he fun _ _ hs _ _ hl hne => .mark hs hl hne fun m _ => hk m hs hl

/-- Setting a mark and looking at the next token. -/
theorem Alike.markPeek {k : Mark → Token → Parser β} {k' : Mark → Token → Parser β'}
    (he : Eats (Parser.mark >>= fun m => Parser.peek >>= k m))
    (hk : ∀ m t t', t'.kind = t.kind → t'.span = w.span t.span →
      Alike w h (k m t) (k' (w.mark m) t')) :
    Alike w h (Parser.mark >>= fun m => Parser.peek >>= k m)
      (Parser.mark >>= fun m => Parser.peek >>= k' m) := by
  refine .inside he fun _ _ hs _ _ hl hne => ?_
  refine .mark hs hl hne fun m _ => ?_
  refine .peek hs hl hne fun t t' _ hkind hspan => ?_
  exact hk m t t' hkind hspan hs hl

/-- Whether the next token is a certain sign is the same, also at the end. -/
theorem head_beq (hs : w.Sees src src') (hl : w.Linked c c') {kind : TokenKind}
    (hw : kind.isWord = false) (he : kind ≠ .eof) :
    (c'.rest.headD src'.stop).kind = kind ↔ (c.rest.headD src.stop).kind = kind := by
  by_cases hne : w.Inside c
  · rw [(hl.head hs hne).1]
  · simp only [Twin.Inside, Classical.not_imp, Classical.not_not] at hne
    obtain ⟨hm, hr⟩ := hne
    obtain ⟨t', ts', text, hmore, hk', -⟩ := hs.tail hm
    have hrests := hl.rests
    rw [hr] at hrests
    rw [show c'.rest = w.more from hrests, hmore, List.headD_cons, hk', hr, List.headD_nil,
      hs.ended]
    constructor
    · rintro rfl
      cases hw
    · rintro rfl
      exact absurd rfl he

/-- In front of a token that is not the end one is inside. -/
theorem inside_of_head (hs : w.Sees src src') (hk : (c.rest.headD src.stop).kind ≠ .eof) :
    w.Inside c := fun _ => rest_ne_nil hs.ended hk

/-- Trying for a sign is alike, since the name behind the end is none. -/
theorem Alike.eat {kind : TokenKind} (hw : kind.isWord = false) (he : kind ≠ .eof) :
    Alike w id (Parser.eat kind) (Parser.eat kind) := by
  intro src src' hs c c' hl
  show AlikeAt w src src' c c' id
    (if (c.rest.headD src.stop).kind == kind then do Parser.bump; return true else return false)
    (if (c'.rest.headD src'.stop).kind == kind then do Parser.bump; return true else return false)
  refine .ite (by simpa using head_beq hs hl hw he) (fun hk => ?_) fun _ => Alike.pure rfl hs hl
  have hne := inside_of_head hs (beq_iff_eq.1 hk ▸ he)
  exact (AlikeAt.bump hl hne).bind fun _ _ _ hl' => Alike.pure rfl hs hl'

/-- So is a sign that is due. -/
theorem Alike.expect {kind : TokenKind} (hw : kind.isWord = false) (he : kind ≠ .eof)
    (due : String) : Alike w id (Parser.expect kind due) (Parser.expect kind due) := by
  intro src src' hs c c' hl
  show AlikeAt w src src' c c' id
    (if (c.rest.headD src.stop).kind == kind then Parser.bump else Parser.unexpected due)
    (if (c'.rest.headD src'.stop).kind == kind then Parser.bump else Parser.unexpected due)
  refine .ite (by simpa using head_beq hs hl hw he) (fun hk => ?_)
    fun _ => Alike.unexpected due hs hl
  exact .bump hl (inside_of_head hs (beq_iff_eq.1 hk ▸ he))

/-- And a keyword. -/
theorem Alike.expectKeyword (keyword : Keyword) :
    Alike w id (Parser.expectKeyword keyword) (Parser.expectKeyword keyword) := by
  refine .inside (.expectKeyword keyword) fun src src' hs c c' hl hne => ?_
  refine .peek hs hl hne fun t t' _ hk _ => ?_
  rw [hk]
  exact .ite Iff.rfl (fun _ => .bump hl hne) fun _ => Alike.unexpected _ hs hl

/-- Behind a sign that was due, whether a word is joined is the same. -/
theorem expect_behind (hs : w.Sees src src') (hl : w.Linked c c') {kind : TokenKind}
    (hw : kind.isWord = false) (he : kind ≠ .eof) {due : String}
    (hv : (Parser.expect kind due src c).value = some ()) :
    (Lookahead.isWord (Parser.expect kind due src' c').cursor.rest 0 &&
        Lookahead.isJoined (Parser.expect kind due src' c').cursor.rest 0) =
      (Lookahead.isWord (Parser.expect kind due src c).cursor.rest 0 &&
        Lookahead.isJoined (Parser.expect kind due src c).cursor.rest 0) := by
  have hiff := head_beq hs hl hw he
  by_cases hk : (c.rest.headD src.stop).kind = kind
  · rw [expect_run, expect_run, if_pos (by simpa using hiff.2 hk), if_pos (by simpa using hk)]
    exact bump_behind hs hl (inside_of_head hs (hk ▸ he))
  · rw [expect_run, if_neg (by simpa using hk)] at hv
    cases hv

/-- And a name. -/
theorem Alike.name (due : String) :
    Alike w w.relabel.name (Parser.name due) (Parser.name due) := by
  refine .inside (.name due) fun src src' hs c c' hl hne => ?_
  refine .peek hs hl hne fun t t' _ hk hspan => ?_
  rw [hk, hspan]
  split
  · exact (AlikeAt.bump hl hne).bind fun _ _ _ hl' => Alike.pure rfl hs hl'
  · exact Alike.unexpected due hs hl

/-- Looking ahead, and going on by what is seen. -/
theorem Alike.ahead {k : List Token → Parser β} {k' : List Token → Parser β'}
    (hk : ∀ ts us, Lookahead.Near ts us → Alike w h (k ts) (k' us)) :
    Alike w h (Parser.ahead >>= k) (Parser.ahead >>= k') :=
  fun _ _ hs _ _ hl => hk _ _ (hl.near hs) hs hl

/-- Looking ahead where the next token is no matter of doubt. -/
theorem AlikeAt.ahead (hs : w.Sees src src') (hl : w.Linked c c') (hne : w.Inside c)
    {k : List Token → Parser β} {k' : List Token → Parser β'}
    (hk : ∀ ts us, Lookahead.Near ts us → 0 < ts.length ∨ us.length = ts.length →
      AlikeAt w src src' c c' h (k ts) (k' us)) :
    AlikeAt w src src' c c' h (Parser.ahead >>= k) (Parser.ahead >>= k') :=
  hk _ _ (hl.near hs) (hl.seen hne)

/-! ### Levels, recovery and loops -/

/-- A level deeper both runs are alike, and below the last one too. -/
theorem Alike.nested {deep : Parser α} {deep' : Parser α'} (hs : Sound p) (hs' : Sound p')
    (hd : Alike w f deep deep') (hp : Alike w f p p') :
    Alike w f (nested deep p) (nested deep' p') := by
  intro src src' hsees c c' hl
  rcases Nat.lt_or_ge c.depth maxNesting with hc | hc
  · have h := hp hsees hl.down
    rw [AlikeAt, nested_of_lt hs hsees.ended hc, nested_of_lt hs' hsees.ended' (hl.depth ▸ hc)]
    intro hm
    obtain ⟨hvalue, hcursor, hnotes⟩ := h hm
    exact ⟨hvalue, hcursor.up, hnotes⟩
  · rw [AlikeAt, nested_of_le hc, nested_of_le (hl.depth ▸ hc)]
    exact hd hsees hl

/-- What recovers in the source recovers in the twin, unless more tokens follow there. -/
theorem AlikeAt.orRecover {q : Parser α} {q' : Parser α'} (hsound : Sound p)
    (hs : w.Sees src src') (hl : w.Linked c c') (hp : AlikeAt w src src' c c' f p p')
    (hq : w.more = [] → ∀ d', w.Linked (p src c).cursor d' →
      AlikeAt w src src' (p src c).cursor d' f q q') :
    AlikeAt w src src' c c' f (Parser.orRecover p q) (Parser.orRecover p' q') := by
  intro hm
  cases hv : (p src c).value with
  | some a =>
    rw [orRecover_of_some hv] at hm ⊢
    have hfirst := hp hm
    rw [orRecover_of_some (by rw [hfirst.value, hv, Option.map_some])]
    exact hfirst
  | none =>
    have hmore : w.more = [] := by
      rcases hm with hm | hc
      · exact hm
      · by_cases hmore : w.more = []
        · exact hmore
        · refine absurd hc.2 ?_
          rw [orRecover_of_none hv, quiet_append]
          exact fun hq => hsound.loud hs.ended c (hl.safe hmore).1 hv hq.1
    have hfirst := hp (.inl hmore)
    have hnext := hq hmore _ hfirst.cursor (.inl hmore)
    rw [orRecover_of_none hv, orRecover_of_none (by rw [hfirst.value, hv, Option.map_none])]
    refine ⟨hnext.value, hnext.cursor, ?_⟩
    rw [List.map_append, hfirst.notes, hnext.notes]

variable {σ σ' : Type} {u : σ → σ'} {step : σ → Parser (σ ⊕ β)} {step' : σ' → Parser (σ' ⊕ β')}

/-- Two loops are alike if their rounds are. -/
theorem Alike.loop (ha : Advances step) (ha' : Advances step')
    (hstep : ∀ s, Alike w (Sum.map u h) (step s) (step' (u s))) (s : σ) :
    Alike w h (Parser.loop step s) (Parser.loop step' (u s)) := by
  intro src src' hs c c' hl
  revert c'
  refine loop_rec ha hs.ended (P := fun s c o => ∀ ⦃c'⦄, w.Linked c c' → (w.more = [] ∨ Clean o) →
    Matches w h o (Parser.loop step' (u s) src' c')) (fun s c ih c' hl => ?_) s c
  rw [loop_eq ha' hs.ended']
  refine (hstep s hs hl).bind fun r hr d' hl' => ?_
  cases r with
  | inl s' => exact ih s' hr hl'
  | inr b => exact Alike.pure rfl hs hl'

/-! ### Between brackets -/

/-- As `AlikeAt`, but of runs that stop in front of a token if more tokens follow. -/
def AlikeOpenAt (w : Twin) (src src' : Source) (c c' : Cursor) (f : α → α') (p : Parser α)
    (p' : Parser α') : Prop :=
  (w.more = [] ∨ Clean (p src c) ∧ (p src c).cursor.rest ≠ []) →
    Matches w f (p src c) (p' src' c')

/-- Two parsers do the same in front of a closing sign. -/
def AlikeOpen (w : Twin) (f : α → α') (p : Parser α) (p' : Parser α') : Prop :=
  ∀ ⦃src src' : Source⦄, w.Sees src src' → ∀ ⦃c c' : Cursor⦄, w.Linked c c' →
    AlikeOpenAt w src src' c c' f p p'

/-- What is alike is alike up to the end. -/
theorem AlikeAt.open (hp : AlikeAt w src src' c c' f p p') : AlikeOpenAt w src src' c c' f p p' :=
  fun hm => hp (hm.imp_right And.left)

/-- Where no token is left nothing is to be shown if more tokens follow. -/
theorem AlikeOpenAt.of_nil (hm : w.more ≠ []) (hr : (p src c).cursor.rest = []) :
    AlikeOpenAt w src src' c c' f p p' := fun hm' => absurd hr (hm'.resolve_left hm).2

/-- What is read behind shows that a token is left. -/
theorem AlikeOpen.close (hp : AlikeOpen w f p p') (he : ∀ a, Eats (k a))
    (hk : ∀ a, Alike w h (k a) (k' (f a))) : Alike w h (p >>= k) (p' >>= k') := by
  intro src src' hs c c' hl hm
  have key : AlikeAt w src src' c c' h (p >>= k) (p' >>= k') := by
    refine AlikeAt.bind (f := f) (fun hm' => hp hs hl ?_) (fun a _ d' hl' => hk a hs hl')
    rcases hm with hm | hc
    · exact .inl hm
    · refine hm'.imp_right fun hclean => ⟨hclean, fun hr => ?_⟩
      obtain ⟨a, ha⟩ := Option.ne_none_iff_exists'.1 hclean.1
      have hlt := he a hs.ended _ (Clean.of_bind_right ha hc).1
      rw [hr] at hlt
      exact absurd hlt (Nat.not_lt_zero _)
  exact key hm

/-- The rounds still to come move forward. -/
theorem again_sound (ha : Advances step) (hsound : ∀ s, Sound (step s)) (r : σ ⊕ β) :
    Sound (again (Parser.loop step) r) := by
  cases r with
  | inl s => exact .loop ha hsound s
  | inr b => exact (Steady.pure b).sound

/-- Two loops are alike up to the end if their rounds are. -/
theorem AlikeOpen.loop (ha : Advances step) (ha' : Advances step') (hsound : ∀ s, Sound (step s))
    (hstep : ∀ s, AlikeOpen w (Sum.map u h) (step s) (step' (u s))) (s : σ) :
    AlikeOpen w h (Parser.loop step s) (Parser.loop step' (u s)) := by
  intro src src' hs c c' hl
  revert c'
  refine loop_rec ha hs.ended (P := fun s c o => ∀ ⦃c'⦄, w.Linked c c' →
    (w.more = [] ∨ Clean o ∧ o.cursor.rest ≠ []) →
    Matches w h o (Parser.loop step' (u s) src' c')) (fun s c ih c' hl hm => ?_) s c
  rw [loop_eq ha' hs.ended']
  have hopen : w.more = [] ∨ Clean (step s src c) ∧ (step s src c).cursor.rest ≠ [] := by
    refine hm.imp_right fun ⟨hclean, hr⟩ => ⟨hclean.of_bind_left, fun hnil => hr ?_⟩
    obtain ⟨r, hv⟩ := Option.ne_none_iff_exists'.1 hclean.of_bind_left.1
    have hle := ((again_sound ha hsound r).moves hs.ended (step s src c).cursor).length_le
    rw [hnil] at hle
    rw [bind_of_some hv]
    exact List.length_eq_zero_iff.1 (Nat.le_zero.1 hle)
  refine AlikeAt.bind (fun _ => hstep s hs hl hopen) (fun r hr d' hl' hm' => ?_)
    (hm.imp_right And.left)
  cases r with
  | inl s' =>
    refine ih s' hr hl' ?_
    rcases hm with hm | ⟨hclean, hrest⟩
    · exact .inl hm
    · rw [bind_of_some hr] at hrest
      exact .inr ⟨hclean.of_bind_right hr, hrest⟩
  | inr b => exact Alike.pure rfl hs hl' hm'

end Parser

end Ndf
