/-
# What a parser notes

Run at a place of a scene, a parser notes a problem in one of few ways: at a token that it meets
and that tokenizing has not reported, at the end of the source, or directly, without a look at what
was reported before (`Diagnostic.Direct`).  Once it has noted something at the end, it gives up
there.  `Scene.Tidy` says so of the outcome of one run, `Tidies` and `Tidy` of all runs of a parser.

Nothing noted at the end is worth more than one report: there no cut of an element or an entry is
possible (`Tidies.orCut`), so all that is open gives up.
-/

import Ndf.Proofs.Parser.Explained
import Ndf.Proofs.Text.Quoted

namespace Ndf

/-! ### Messages -/

/-- A text without a line feed. -/
def OneLine (text : String) : Prop := '\n' ∉ text.toList

instance : DecidablePred OneLine := fun text => inferInstanceAs (Decidable ('\n' ∉ text.toList))

/-- Lines behind each other are one line. -/
theorem OneLine.append {a b : String} (ha : OneLine a) (hb : OneLine b) : OneLine (a ++ b) := by
  simpa [OneLine] using ⟨ha, hb⟩

/-- The name of a token is one line. -/
theorem TokenKind.oneLine_name (kind : TokenKind) : OneLine kind.name := by
  unfold name
  split <;> decide

/-- So is that of an expression. -/
theorem Expr.oneLine_typeName (e : Expr) : OneLine e.typeName := by
  unfold typeName
  split <;> decide

/-- So is a character in quotes, which are escaped. -/
theorem Text.oneLine_quotedChar (c : Char) : OneLine (quotedChar c) := by
  have digits : '\n' ∉ Nat.toDigits 16 c.toNat := fun h =>
    absurd (isHexDigit_of_mem_toDigits h) (by decide)
  have escaped : '\n' ∉ escape '\'' c := by
    unfold escape
    split_ifs with _ _ _ hc
    · decide
    · decide
    · decide
    · decide
    · simp [Ne.symm hc]
    · simpa using digits
    · simpa using Ne.symm hc
  simpa [OneLine, quotedChar, quotedWith] using escaped

namespace Diagnostic.Cause

variable {due found : String}

/-- So is a message about what was expected. -/
theorem oneLine_expected (hd : OneLine due) (hf : OneLine found) :
    OneLine (expected due found).message :=
  .append (.append (.append (by decide) hd) (by decide)) hf

/-- So is one about a stray character. -/
theorem oneLine_strayCharacter (c : Char) : OneLine (strayCharacter c).message :=
  .append (by decide) (Text.oneLine_quotedChar c)

/-- So is one about a missing expression. -/
theorem oneLine_noExpression (h : OneLine found) : OneLine (noExpression found).message :=
  .append (by decide) h

/-- So is one about a missing entry. -/
theorem oneLine_noMember (h : OneLine found) : OneLine (noMember found).message :=
  .append (by decide) h

/-- So is one about an element that is no pair. -/
theorem oneLine_noPair (h : OneLine found) : OneLine (noPair found).message :=
  .append (by decide) h

end Diagnostic.Cause

/-! ### Notes -/

/-- A problem that is reported without a look at what was reported before. -/
inductive Diagnostic.Direct : Diagnostic → Prop
  /-- The comma in front of an element is missing. -/
  | separator (t : Token) : Direct (.ofCause (.expected "',' or ']'" t.kind.name) t.span)
  /-- An entry of a map is no pair. -/
  | noPair (e : Expr) : Direct (.ofCause (.noPair e.typeName) e.span)
  /-- A fragment lies below the last level. -/
  | tooDeep (span : Span) : Direct (.ofCause (.tooDeep Parser.maxNesting) span)

/-- A direct report has a message of one line. -/
theorem Diagnostic.Direct.oneLine {d : Diagnostic} (h : d.Direct) : OneLine d.message := by
  cases h with
  | separator t => exact Cause.oneLine_expected (by decide) t.kind.oneLine_name
  | noPair e => exact Cause.oneLine_noPair e.oneLine_typeName
  | tooDeep span => exact (by decide : OneLine (Cause.tooDeep Parser.maxNesting).message)

namespace Scene

variable {α β : Type} {S : Scene} {c : Cursor} {t : Token}

/-- The grammar meets a token: it is one of the source or the second half of one. -/
def Meets (S : Scene) (t : Token) : Prop :=
  t ∈ S.tokens ∨ ∃ s ∈ S.tokens, s.kind = .gtEq ∧ t = s.secondHalf

/-- A token of the grammar starts before the end. -/
theorem Meets.lt_stop (h : S.Meets t) : t.span.start < S.source.stop.span.start := by
  have bound {s : Token} (hs : s ∈ S.tokens) : s.span.stop ≤ S.source.stop.span.start := by
    obtain ⟨u, v, huv⟩ := List.append_of_mem hs
    exact stop_le_of_append huv (by simp)
  rcases h with ht | ⟨s, hs, hk, rfl⟩
  · exact Nat.lt_of_lt_of_le (S.nonempty t ht) (bound ht)
  · exact Nat.lt_of_lt_of_le (S.halves s hs hk).2 (bound hs)

/-- In front of a token the next offset lies in front of the end. -/
theorem next_lt_stop (hc : c.On S.tokens) (hr : c.rest ≠ []) :
    S.next c < S.source.stop.span.start := by
  obtain ⟨t, ts, hr⟩ := List.exists_cons_of_ne_nil hr
  rw [next_cons hr]
  exact Meets.lt_stop (hc.mem_rest (by simp [hr]))

/-- A span that starts at a token. -/
def Inner (S : Scene) (s : Span) : Prop :=
  ∃ c, c.On S.tokens ∧ c.rest ≠ [] ∧ s.start = S.next c

/-- So does a span that starts at one. -/
theorem Inner.lt_stop {s : Span} : S.Inner s → s.start < S.source.stop.span.start
  | ⟨_, hc, hr, h⟩ => h ▸ next_lt_stop hc hr

/-- A note that a run over the scene can take. -/
inductive Noted (S : Scene) : Note → Prop
  | event (e : ParseEvent) : Noted S (.event e)
  | breach (b : Breach) : Noted S (.breach b)
  | atEnd {cause : Diagnostic.Cause} (h : OneLine cause.message) :
    Noted S (.atEnd (.ofCause cause S.source.stop.span))
  | token {cause : Diagnostic.Cause} {t : Token} (ht : S.Meets t)
    (hk : ∀ e, t.kind = .error e → e.isReported = false) (h : OneLine cause.message) :
    Noted S (.problem (.ofCause cause t.span))
  | direct {d : Diagnostic} {c : Cursor} (hd : d.Direct) (hc : c.On S.tokens)
    (hs : d.span.start = S.next c) : Noted S (.problem d)

/-- Whether a note is about the end of the source. -/
def isFinal (S : Scene) : Note → Bool
  | .problem d => d.span.start == S.source.stop.span.start
  | .atEnd _ => true
  | .event _ | .breach _ => false

/-- The number of notes about the end of the source. -/
def finals (S : Scene) (notes : List Note) : Nat := notes.countP S.isFinal

@[simp] theorem finals_nil : S.finals [] = 0 := rfl

@[simp] theorem finals_append (u v : List Note) : S.finals (u ++ v) = S.finals u + S.finals v :=
  List.countP_append

/-- Events are not about the end. -/
theorem finals_eq_zero_of_events {notes : List Note} (h : ∀ note ∈ notes, ∃ e, note = .event e) :
    S.finals notes = 0 :=
  List.countP_eq_zero.2 fun note hn => by
    obtain ⟨e, rfl⟩ := h note hn
    simp [isFinal]

/-- A problem in front of it is not either. -/
theorem finals_problem {d : Diagnostic} (h : d.span.start < S.source.stop.span.start) :
    S.finals [.problem d] = 0 :=
  List.countP_eq_zero.2 fun note hn => by
    obtain rfl := List.mem_singleton.1 hn
    simpa [isFinal] using Nat.ne_of_lt h

/-- Where a run ends and what it notes: one thing at most about the end of the source, and nothing
is left to read then. -/
structure Clean (S : Scene) (o : Outcome α) : Prop where
  on : o.cursor.On S.tokens
  noted : ∀ note ∈ o.notes, S.Noted note
  ends : S.finals o.notes = 0 ∨ S.finals o.notes = 1 ∧ o.cursor.rest = []

/-- Besides, with a note about the end of the source the run gives up, and what it returns has a
property. -/
structure Tidy (S : Scene) (P : α → Prop) (o : Outcome α) : Prop extends Clean S o where
  quits : S.finals o.notes = 0 ∨ o.value = none
  good : ∀ a, o.value = some a → P a

variable {P : α → Prop} {Q : β → Prop} {o : Outcome α} {p : Parser α}

/-- With a value nothing was said about the end. -/
theorem Tidy.finals_of_some {a : α} (h : S.Tidy P o) (ha : o.value = some a) :
    S.finals o.notes = 0 :=
  h.quits.resolve_right (by simp [ha])

/-- A run without a note about the end. -/
theorem Tidy.of_finals (hc : o.cursor.On S.tokens) (hn : ∀ note ∈ o.notes, S.Noted note)
    (h0 : S.finals o.notes = 0) (h : ∀ a, o.value = some a → P a) : S.Tidy P o :=
  ⟨⟨hc, hn, .inl h0⟩, .inl h0, h⟩

/-- A run without notes. -/
theorem Tidy.silent (hc : o.cursor.On S.tokens) (hn : o.notes = [])
    (h : ∀ a, o.value = some a → P a) : S.Tidy P o :=
  .of_finals hc (by simp [hn]) (by simp [hn]) h

/-- A sequence is tidy, since behind a note about the end nothing runs. -/
theorem Tidy.bind {f : α → Parser β} (hp : S.Tidy P (p S.source c))
    (hf : ∀ a, (p S.source c).value = some a → P a →
      S.Tidy Q (f a S.source (p S.source c).cursor)) : S.Tidy Q ((p >>= f) S.source c) := by
  cases hv : (p S.source c).value with
  | none =>
    rw [Parser.bind_of_none hv]
    exact ⟨⟨hp.on, hp.noted, hp.ends⟩, .inr rfl, fun b hb => by cases hb⟩
  | some a =>
    have hq := hf a hv (hp.good a hv)
    rw [Parser.bind_of_some hv]
    refine ⟨⟨hq.on, fun note h => (List.mem_append.1 h).elim (hp.noted note) (hq.noted note), ?_⟩,
      ?_, hq.good⟩
    · simpa [hp.finals_of_some hv] using hq.ends
    · simpa [hp.finals_of_some hv] using hq.quits

/-- What follows a clean run may have nothing to add about the end. -/
theorem Clean.bind {f : α → Parser β} (hp : S.Clean (p S.source c))
    (hf : ∀ a, (p S.source c).value = some a →
      S.Clean (f a S.source (p S.source c).cursor) ∧ ((p S.source c).cursor.rest = [] →
        S.finals (f a S.source (p S.source c).cursor).notes = 0 ∧
          (f a S.source (p S.source c).cursor).cursor.rest = [])) :
    S.Clean ((p >>= f) S.source c) := by
  cases hv : (p S.source c).value with
  | none =>
    rw [Parser.bind_of_none hv]
    exact ⟨hp.on, hp.noted, hp.ends⟩
  | some a =>
    obtain ⟨hq, hend⟩ := hf a hv
    rw [Parser.bind_of_some hv]
    refine ⟨hq.on, fun note h => (List.mem_append.1 h).elim (hp.noted note) (hq.noted note), ?_⟩
    rw [finals_append]
    rcases hp.ends with h0 | ⟨h1, hr⟩
    · simpa [h0] using hq.ends
    · exact .inr ⟨by rw [h1, (hend hr).1], (hend hr).2⟩

section Cuts

variable {cut : Parser.Mark → Parser ErrorNode} {h : ErrorNode → α}

/-- A cut behind what gave up has nothing to add about the end. -/
theorem Tidy.clean_orCut (hc : c.On S.tokens) (hp : S.Tidy P (p S.source c))
    (hm : c.Reaches (p S.source c).cursor) (hcut : Parser.Patches (.whole S) cut) :
    S.Clean (Parser.orRecover p (h <$> cut (.here S.source c)) S.source c) := by
  cases hv : (p S.source c).value with
  | some a =>
    rw [Parser.orRecover_of_some hv]
    exact hp.toClean
  | none =>
    obtain ⟨hreach, hnotes⟩ := hcut.tacit (.here S.source c) _ ⟨c, hc, rfl, hm⟩
    have hquiet := finals_eq_zero_of_events (S := S) hnotes
    rw [Parser.orRecover_of_none hv, Parser.map_run]
    refine ⟨hc.reaches (hm.trans hreach), fun note hn => ?_, ?_⟩
    · refine (List.mem_append.1 hn).elim (hp.noted note) fun hn => ?_
      obtain ⟨e, rfl⟩ := hnotes note hn
      exact .event e
    · rw [finals_append, hquiet]
      refine hp.ends.imp id fun ⟨h1, hr⟩ => ⟨h1, ?_⟩
      have hlen := hreach.length_le
      rw [hr] at hlen
      exact List.eq_nil_of_length_eq_zero (Nat.le_zero.1 hlen)

/-- A cut that is not possible at the end. -/
theorem Tidy.orCut (hc : c.On S.tokens) (hp : S.Tidy P (p S.source c))
    (hm : c.Reaches (p S.source c).cursor) (hcut : Parser.Patches (.whole S) cut)
    (hend : ∀ m d, d.rest = [] → (cut m S.source d).value = none)
    (hh : ∀ e : ErrorNode, e.span.start = S.next c → P (h e)) :
    S.Tidy P (Parser.orRecover p (h <$> cut (.here S.source c)) S.source c) := by
  refine ⟨hp.clean_orCut hc hm hcut, ?_, fun b hb => ?_⟩
  all_goals cases hv : (p S.source c).value
  · obtain ⟨-, hnotes⟩ := hcut.tacit (.here S.source c) _ ⟨c, hc, rfl, hm⟩
    rw [Parser.orRecover_of_none hv, Parser.map_run, finals_append,
      finals_eq_zero_of_events hnotes]
    exact hp.ends.imp id fun ⟨_, hr⟩ => by rw [hend _ _ hr]; rfl
  · rw [Parser.orRecover_of_some hv]
    exact hv ▸ hp.quits
  · rw [Parser.orRecover_of_none hv, Parser.map_run] at hb
    obtain ⟨e, he, rfl⟩ := Option.map_eq_some_iff.1 hb
    exact hh e (by rw [hcut.covers _ _ _ e he, start_upTo])
  · rw [Parser.orRecover_of_some hv] at hb
    exact hp.good b hb

end Cuts

end Scene

namespace Parser

variable {α β σ : Type} {S : Scene} {P : α → Prop} {Q : β → Prop} {p : Parser α}
  {f : α → Parser β} {c : Cursor} {t : Token} {m : Mark}

/-- The runs of a parser in a scene are tidy, and what they return has a property. -/
def Tidies (S : Scene) (P : α → Prop) (p : Parser α) : Prop :=
  ∀ c, c.On S.tokens → S.Tidy P (p S.source c)

/-- The runs of a parser in a scene are tidy. -/
abbrev Tidy (S : Scene) (p : Parser α) : Prop := Tidies S (fun _ => True) p

/-! ### Combinators -/

/-- The same of all runs. -/
theorem Tidies.bind (hp : Tidies S P p) (hf : ∀ a, P a → Tidies S Q (f a)) :
    Tidies S Q (p >>= f) := fun c hc =>
  have hrun := hp c hc
  hrun.bind fun a _ ha => hf a ha _ hrun.on

/-- The same where nothing is known of the first value. -/
theorem Tidies.after (hp : Tidy S p) (hf : ∀ a, Tidies S Q (f a)) : Tidies S Q (p >>= f) :=
  .bind hp fun a _ => hf a

/-- Returning a value notes nothing. -/
theorem Tidies.pure {a : α} (h : P a) : Tidies S P (pure a) := fun _ hc =>
  .silent hc rfl fun b hb => by
    obtain rfl : a = b := by injection hb
    exact h

/-- Nor does giving up. -/
theorem Tidies.abort : Tidies S P abort := fun _ hc => .silent hc rfl fun a ha => by cases ha

/-- Less may be asked of the value. -/
theorem Tidies.mono {R : α → Prop} (hp : Tidies S P p) (h : ∀ a, P a → R a) : Tidies S R p :=
  fun c hc => ⟨(hp c hc).toClean, (hp c hc).quits, fun a ha => h a ((hp c hc).good a ha)⟩

/-- Of two branches only the one taken counts. -/
theorem Tidies.ite {C : Prop} [Decidable C] {p q : Parser α} (hp : Tidies S P p)
    (hq : Tidies S P q) : Tidies S P (if C then p else q) := by
  split
  · exact hp
  · exact hq

/-- A mark notes nothing. -/
theorem Tidies.mark {f : Mark → Parser β} (h : ∀ m, Tidies S Q (f m)) :
    Tidies S Q (mark >>= f) := fun c hc => h (.here S.source c) c hc

/-- What is read may depend on the next token, one that the grammar meets. -/
theorem Tidies.peek {f : Token → Parser β}
    (h : ∀ t, (t.kind ≠ .eof → S.Meets t) → Tidies S Q (f t)) : Tidies S Q (peek >>= f) :=
  fun c hc => h _ (fun hk => by
    obtain ⟨t, ts, hr, -⟩ := exists_rest S.ended hk
    rw [hr, List.headD_cons]
    exact hc.mem_rest (by simp [hr])) c hc

/-- A function of the value changes nothing else. -/
theorem Tidies.map (h : α → β) (hp : Tidy S p) : Tidy S (h <$> p) :=
  .after hp fun _ => .pure trivial

/-- A parser that leaves the cursor where it is and notes no problem. -/
theorem Tidies.of_still (hp : Still p)
    (h : ∀ src c, ∀ note ∈ (p src c).notes, (∃ e, note = .event e) ∨ ∃ b, note = .breach b) :
    Tidy S p := fun c hc => by
  refine .of_finals (by rwa [(hp _ c).1]) (fun note hn => ?_)
    (List.countP_eq_zero.2 fun note hn => ?_) fun _ _ => trivial
  · rcases h _ _ note hn with ⟨e, rfl⟩ | ⟨b, rfl⟩
    · exact .event e
    · exact .breach b
  · rcases h _ _ note hn with ⟨e, rfl⟩ | ⟨b, rfl⟩ <;> simp [Scene.isFinal]

/-- Looking at the next token notes nothing. -/
theorem Tidies.look : Tidy S Parser.peek := .of_still .peek fun _ _ _ h => by cases h

/-- Nor does looking further. -/
theorem Tidies.ahead : Tidy S ahead := .of_still .ahead fun _ _ _ h => by cases h

/-- Nor does taking a span. -/
theorem Tidies.spanFrom : Tidy S (spanFrom m) := .of_still (.spanFrom m) fun _ _ _ h => by cases h

/-- What is returned with its span. -/
theorem Tidies.spanned {h : Span → α} :
    Tidy S (Parser.spanFrom m >>= fun s => Pure.pure (h s)) := .map h .spanFrom

/-- An event is no problem. -/
theorem Tidies.emit (e : ParseEvent) : Tidy S (emit e) :=
  .of_still (.emit e) fun _ _ _ h => .inl ⟨e, List.mem_singleton.1 h⟩

/-- Nor is the node of a fragment. -/
theorem Tidies.errorAt (s : Span) : Tidy S (errorAt s) :=
  .of_still (.errorAt s) fun src _ note h => by
    have hnotes : note ∈ if (Text.slice? src.text s.start s.stop).isSome then []
      else [.breach (.slice s)] := h
    split at hnotes
    · cases hnotes
    · exact .inr ⟨_, List.mem_singleton.1 hnotes⟩

/-- Nor is that of what was read since a mark. -/
theorem Tidies.errorFrom : Tidy S (errorFrom m) := .after .spanFrom fun s => .errorAt s

/-- Nor is taking a token. -/
theorem Tidies.bump : Tidy S bump := fun c hc =>
  .silent (hc.reaches (Steady.bump.moves S.ended c)) (bump_notes _ _) fun _ _ => trivial

/-- A report in front of the end. -/
theorem Tidies.report {cause : Diagnostic.Cause} {s : Span}
    (h : S.Noted (.problem (.ofCause cause s))) (hs : s.start < S.source.stop.span.start) :
    Tidy S (report cause s) := by
  intro _ hc
  refine .of_finals hc (fun _ hn => List.mem_singleton.1 hn ▸ h) (Scene.finals_problem hs)
    fun _ _ => ?_
  exact trivial

/-- Giving up with a note at the next token, unless tokenizing has reported that one. -/
theorem Tidies.abortHere {cause : Token → Diagnostic.Cause}
    (h : ∀ t, OneLine (cause t).message) :
    Tidies S P (do reportHere (cause (← Parser.peek)); Parser.abort) := by
  intro c hc
  have hrun : (do reportHere (cause (← Parser.peek)); Parser.abort : Parser α) S.source c =
      ⟨none, c, notesAt (c.rest.headD S.source.stop) (cause (c.rest.headD S.source.stop)) ++ []⟩ :=
    rfl
  rw [hrun, List.append_nil]
  rcases hr : c.rest with _ | ⟨t, ts⟩
  · have hnotes : notesAt S.source.stop (cause S.source.stop) =
        [.atEnd (.ofCause (cause S.source.stop) S.source.stop.span)] := by
      rw [notesAt, show S.source.stop.kind = .eof from S.ended]
    rw [List.headD_nil, hnotes]
    refine ⟨⟨hc, fun note hn => ?_, .inr ⟨rfl, hr⟩⟩, .inr rfl, fun a ha => by cases ha⟩
    rw [List.mem_singleton.1 hn]
    exact .atEnd (h _)
  · have hmeets : S.Meets t := hc.mem_rest (by simp [hr])
    have problem (hk : ∀ e, t.kind = .error e → e.isReported = false) :
        S.Tidy P ⟨none, c, [.problem (.ofCause (cause t) t.span)]⟩ :=
      .of_finals hc (fun note hn => List.mem_singleton.1 hn ▸ .token hmeets hk (h t))
        (Scene.finals_problem hmeets.lt_stop) fun a ha => by cases ha
    rw [List.headD_cons]
    unfold notesAt
    split
    · rename_i hk
      rcases hmeets with ht | ⟨s, -, -, rfl⟩
      · exact absurd hk (S.seen t ht)
      · cases hk
    · rename_i e hk
      split
      · exact .silent hc rfl fun a ha => by cases ha
      · rename_i he
        exact problem fun e' hk' => by
          obtain rfl : e = e' := by simpa [hk] using hk'
          simpa using he
    · rename_i hk
      exact problem fun e he => absurd he (hk e)

/-- A complaint is silent at a token that was reported, and gives up. -/
theorem Tidies.unexpected {due : String} (h : OneLine due) : Tidies S P (unexpected due) :=
  .abortHere fun t => Diagnostic.Cause.oneLine_expected h t.kind.oneLine_name

/-- The question for a kind of token notes nothing. -/
theorem Tidies.sees (kind : TokenKind) : Tidy S (sees kind) :=
  .after .look fun _ => .pure trivial

/-- Nor does taking it where it stands. -/
theorem Tidies.eat (kind : TokenKind) : Tidy S (eat kind) :=
  .after (.sees kind) fun _ => .ite (.after .bump fun _ => .pure trivial) (.pure trivial)

/-- A token asked for is there, or there is one complaint. -/
theorem Tidies.expect (kind : TokenKind) {due : String} (h : OneLine due) :
    Tidy S (expect kind due) :=
  .after (.sees kind) fun _ => .ite .bump (.unexpected h)

/-- So it is with a keyword. -/
theorem Tidies.expectKeyword (keyword : Keyword) : Tidy S (expectKeyword keyword) :=
  .after .look fun _ => .ite .bump (.unexpected (by cases keyword <;> decide))

/-- So it is with a name. -/
theorem Tidies.name {due : String} (h : OneLine due) : Tidy S (name due) := by
  refine .after .look fun t => ?_
  split
  · exact .after .bump fun _ => .pure trivial
  · exact .unexpected h

/-! ### One level deeper, and loops -/

/-- One level deeper, or at the cut. -/
theorem Tidies.nested {deep : Parser α} (hd : Tidies S P deep) (hs : Sound p)
    (hp : Tidies S P p) : Tidies S P (nested deep p) := by
  intro c hc
  rcases Nat.lt_or_ge c.depth maxNesting with h | h
  · have hrun := hp c.down hc.down
    rw [nested_of_lt hs S.ended h]
    exact ⟨⟨hc.reaches (hs.moves S.ended c.down).up, hrun.noted, hrun.ends⟩, hrun.quits, hrun.good⟩
  · rw [nested_of_le h]
    exact hd c hc

/-- A loop is tidy if each round is. -/
theorem Tidies.loop {step : σ → Parser (σ ⊕ β)} {I : σ → Prop} (h : Advances step)
    (hstep : ∀ s, I s → Tidies S (Sum.elim I Q) (step s)) {s : σ} (hs : I s) :
    Tidies S Q (loop step s) := fun c hc => by
  refine loop_rec h S.ended (P := fun s c o => I s → c.On S.tokens → S.Tidy Q o)
    (fun s c ih hs hc => (hstep s hs c hc).bind fun r hr hgood => ?_) s c hs hc
  cases r with
  | inl s' => exact ih s' hr hgood (hstep s hs c hc).on
  | inr b => exact (Tidies.pure hgood : Tidies S Q (Pure.pure b)) _ (hstep s hs c hc).on

/-- A loop whose rounds are tidy. -/
theorem Tidies.loopAfter {step : σ → Parser (σ ⊕ β)} (h : Advances step)
    (hstep : ∀ s, Tidy S (step s)) (s : σ) : Tidy S (Parser.loop step s) :=
  .loop (I := fun _ => True) h (fun s _ => (hstep s).mono fun r _ => by cases r <;> trivial) trivial

/-- Where nothing is left, nothing can be cut out of a list or an object. -/
theorem cut_value_nil {keep : Option TokenKind} {gap : List Token → Recovery.Gap}
    {q : Parser α} {src : Source} (hgap : gap [] = ⟨0, false⟩) (hr : c.rest = []) :
    ((leave m keep >>= fun _ => ahead >>= fun ts => skip (gap ts).length >>= fun _ =>
      if (gap ts).closed then q else abort) src c).value = none := by
  have hleave : leave m keep src c = ⟨some (), c, []⟩ := by
    by_cases hm : m.count < c.count
    · exact leave_moved keep hm
    · by_cases hk : some (c.rest.headD src.stop).kind = keep
      · exact leave_kept hm hk
      · rw [leave_still hm hk, bump_run_nil hr]
  rw [bind_of_some (congrArg Outcome.value hleave), hleave, ahead_bind, hr, hgap]
  rfl

/-- At the end there is no element to cut out. -/
theorem recoverElement_value_nil {src : Source} (hr : c.rest = []) :
    (recoverElement m src c).value = none := cut_value_nil rfl hr

/-- Nor is there an entry. -/
theorem recoverEntry_value_nil {src : Source} (hr : c.rest = []) :
    (recoverEntry m src c).value = none := cut_value_nil rfl hr

end Parser
end Ndf
