/-
# What a parser has to account for

Run at a place of a scene, a parser moves forward, stays within the bounds of its operations, and
leaves a problem behind where it gives up, not in front of the place where it started nor behind the
one where it stopped.  For every error node that it returns there is a problem that explains it.
`Scene.Accounts` says so of the outcome of one run, and `Accounts R` of all runs at the places of a
region `R`.

Error nodes may have been read before and be known; so `K` lists what is known already, and `facts`
what is to be known of a value.  A sequence adds the facts of its first value to what is known by
the second parser (`Accounts.bind`).
-/

import Ndf.Proofs.Parser.Scene
import Ndf.Tree.Walk

namespace Ndf

/-- What can be known of a value. -/
inductive Fact where
  /-- A problem explains this error node of it. -/
  | error (node : ErrorNode)
  /-- This span was taken from one place to another. -/
  | placed (span : Span)

/-- The error node that is met, as a fact to be known. -/
@[simp] def Visit.fact? : Visit → Option Fact
  | .error e => some (.error e)
  | _ => none

/-- The error nodes that are met, as facts to be known. -/
def flaws (visits : List Visit) : List Fact := visits.filterMap Visit.fact?

@[simp] theorem flaws_nil : flaws [] = [] := rfl

@[simp] theorem flaws_cons (v : Visit) (visits : List Visit) :
    flaws (v :: visits) = v.fact?.toList ++ flaws visits := by
  cases v <;> rfl

@[simp] theorem flaws_append (u v : List Visit) : flaws (u ++ v) = flaws u ++ flaws v :=
  List.filterMap_append

/-- The fragments among the flaws are those that a walk meets. -/
theorem mem_flaws {visits : List Visit} {e : ErrorNode} :
    .error e ∈ flaws visits ↔ .error e ∈ visits := by
  rw [flaws, List.mem_filterMap]
  constructor
  · rintro ⟨v, hv, h⟩
    cases v <;> simp_all [Visit.fact?]
  · exact fun h => ⟨_, h, rfl⟩

namespace Scene

variable {α β : Type} {S : Scene} {c : Cursor} {K : List Fact} {facts : α → List Fact}
  {more : β → List Fact} {notes : List Note} {n : Nat}

/-- A problem stands at this offset: it is in the notes, or tokenizing reported it. -/
def Points (S : Scene) (notes : List Note) (n : Nat) : Prop :=
  S.reported n ∨ ∃ d, (.problem d ∈ notes ∨ .atEnd d ∈ notes) ∧ d.span.start = n

/-- A problem among more notes is still one. -/
theorem Points.mono {notes' : List Note} (h : S.Points notes n)
    (hn : ∀ note ∈ notes, note ∈ notes') : S.Points notes' n :=
  h.imp id fun ⟨d, hd, hs⟩ => ⟨d, hd.imp (hn _) (hn _), hs⟩

/-- A fact is true, with these notes taken. -/
def Holds (S : Scene) (notes : List Note) : Fact → Prop
  | .error e => ∃ n, S.Points notes n ∧ S.Explains n e.span
  | .placed s => S.Placed s

/-- What is known by some notes is known by more. -/
theorem Holds.mono {notes' : List Note} {f : Fact} (h : S.Holds notes f)
    (hn : ∀ note ∈ notes, note ∈ notes') : S.Holds notes' f := by
  cases f with
  | error e => exact h.imp fun _ hp => ⟨hp.1.mono hn, hp.2⟩
  | placed s => exact h

/-- The spans that are known were taken from one place to another. -/
def Grants (S : Scene) (K : List Fact) : Prop := ∀ s, .placed s ∈ K → S.Placed s

/-- What the notes of a run from a place on account for. -/
structure Tells (S : Scene) (c : Cursor) (K : List Fact) (facts : α → List Fact) (o : Outcome α) :
    Prop where
  /-- No operation is outside of its bounds. -/
  calm : ∀ b, .breach b ∉ o.notes
  /-- All that is missing is missing at the end. -/
  ends : ∀ d, .atEnd d ∈ o.notes → d.span = S.source.stop.span
  /-- Giving up leaves a problem behind. -/
  fails : o.value = none → ∃ n, S.Points o.notes n ∧ S.next c ≤ n ∧ n ≤ S.next o.cursor
  /-- What was not known before is true now. -/
  holds : ∀ a, o.value = some a → ∀ f ∈ facts a, f ∈ K ∨ S.Holds o.notes f

/-- Besides, the run moves forward. -/
structure Accounts (S : Scene) (c : Cursor) (K : List Fact) (facts : α → List Fact)
    (o : Outcome α) : Prop extends Tells S c K facts o where
  moves : c.Reaches o.cursor

/-- A run without notes that returns what is known. -/
theorem Tells.silent {o : Outcome α} {a : α} (hv : o.value = some a) (hn : o.notes = [])
    (h : ∀ f ∈ facts a, f ∈ K) : S.Tells c K facts o where
  calm b hb := by simp [hn] at hb
  ends d hd := by simp [hn] at hd
  fails hf := by simp [hv] at hf
  holds b hb f hf := .inl (h f (by simp_all))

/-- What the first of two parsers returned is granted to the second. -/
theorem Accounts.grants {o : Outcome α} {a : α} (h : S.Accounts c K facts o) (hK : S.Grants K)
    (ha : o.value = some a) : S.Grants (K ++ facts a) := fun s hs =>
  (List.mem_append.1 hs).elim (hK s) fun hs => (h.holds a ha _ hs).elim (hK s) id

/-- In a sequence the second parser may rely on what the first one told. -/
theorem Tells.bind {p : Parser α} {f : α → Parser β} (hc : c.On S.tokens)
    (hp : S.Accounts c K facts (p S.source c))
    (hf : ∀ a, (p S.source c).value = some a →
      S.Tells (p S.source c).cursor (K ++ facts a) more (f a S.source (p S.source c).cursor)) :
    S.Tells c K more ((p >>= f) S.source c) := by
  cases hv : (p S.source c).value with
  | none =>
    rw [Parser.bind_of_none hv]
    exact ⟨hp.calm, hp.ends, fun _ => hp.fails hv, fun b hb => by cases hb⟩
  | some a =>
    have hq := hf a hv
    rw [Parser.bind_of_some hv]
    refine ⟨fun b hb => ?_, fun d hd => ?_, fun hn => ?_, fun b hb g hg => ?_⟩
    · exact (List.mem_append.1 hb).elim (hp.calm b) (hq.calm b)
    · exact (List.mem_append.1 hd).elim (hp.ends d) (hq.ends d)
    · obtain ⟨n, hn, hl, hu⟩ := hq.fails hn
      exact ⟨n, hn.mono fun _ => List.mem_append_right _,
        Nat.le_trans (next_le hc hp.moves) hl, hu⟩
    · rcases hq.holds b hb g hg with hk | hh
      · rcases List.mem_append.1 hk with hk | hk
        · exact .inl hk
        · exact (hp.holds a hv g hk).imp id fun hh => hh.mono fun _ => List.mem_append_left _
      · exact .inr (hh.mono fun _ => List.mem_append_right _)

/-- A sequence accounts for both of its parts. -/
theorem Accounts.bind {p : Parser α} {f : α → Parser β} (hc : c.On S.tokens)
    (hp : S.Accounts c K facts (p S.source c))
    (hf : ∀ a, (p S.source c).value = some a →
      S.Accounts (p S.source c).cursor (K ++ facts a) more (f a S.source (p S.source c).cursor)) :
    S.Accounts c K more ((p >>= f) S.source c) where
  toTells := .bind hc hp fun a ha => (hf a ha).toTells
  moves := by
    cases hv : (p S.source c).value with
    | none => exact (Parser.bind_of_none hv).symm ▸ hp.moves
    | some a => exact (Parser.bind_of_some hv).symm ▸ hp.moves.trans (hf a hv).moves

end Scene

/-! ### Regions -/

/-- A zone of a scene: all of its places can be got to. -/
structure Region (S : Scene) extends Zone where
  on : ∀ {c}, mem c → c.On S.tokens

namespace Region

variable {S : Scene}

/-- All places that can be got to. -/
def whole (S : Scene) : Region S where
  mem c := c.On S.tokens
  step hc h := hc.reaches h
  on := id

/-- The places behind a mark. -/
def behind (R : Region S) (m : Parser.Mark) : Region S where
  mem d := ∃ c, R.mem c ∧ m = .here S.source c ∧ c.Reaches d
  on := fun ⟨_, hc, _, h⟩ => R.on (R.step hc h)
  step := fun ⟨c, hc, hm, h⟩ h' => ⟨c, hc, hm, h.trans h'⟩

end Region

namespace Parser

variable {α β σ : Type} {S : Scene} {R : Region S} {K : List Fact} {facts : α → List Fact}
  {more : β → List Fact} {p : Parser α} {f : α → Parser β} {m : Mark} {c : Cursor}

/-- A parser accounts for what it does at a place. -/
def AccountsAt (S : Scene) (c : Cursor) (K : List Fact) (facts : α → List Fact) (p : Parser α) :
    Prop :=
  S.Grants K → S.Accounts c K facts (p S.source c)

/-- A parser accounts for what it does at all places of a region. -/
def Accounts (R : Region S) (K : List Fact) (facts : α → List Fact) (p : Parser α) : Prop :=
  S.Grants K → ∀ c, R.mem c → S.Accounts c K facts (p S.source c)

/-- What accounts in a region accounts at each of its places. -/
theorem Accounts.here (h : Accounts R K facts p) (hc : R.mem c) : AccountsAt S c K facts p :=
  fun hK => h hK c hc

/-! ### Combinators -/

/-- A sequence accounts for both of its parts, from all places. -/
theorem Accounts.bind (hp : Accounts R K facts p)
    (hf : ∀ a, Accounts R (K ++ facts a) more (f a)) : Accounts R K more (p >>= f) := fun hK c hc =>
  have hrun := hp hK c hc
  .bind (R.on hc) hrun fun a ha => hf a (hrun.grants hK ha) _ (R.step hc hrun.moves)

/-- What the first parser returns holds no error node. -/
theorem Accounts.after (hp : Accounts R K (fun _ => []) p)
    (hf : ∀ a, Accounts R K more (f a)) : Accounts R K more (p >>= f) :=
  .bind hp fun a => by
    rw [List.append_nil]
    exact hf a

/-- A value accounts for what is known of it. -/
theorem Accounts.pure {a : α} (h : ∀ f ∈ facts a, f ∈ K) : Accounts R K facts (pure a) :=
  fun _ c _ => ⟨.silent rfl rfl h, .refl c⟩

/-- Less may be told than is known. -/
theorem Accounts.mono {less : α → List Fact} (hp : Accounts R K facts p)
    (h : ∀ a, ∀ f ∈ less a, f ∈ facts a) : Accounts R K less p := fun hK c hc =>
  have hrun := hp hK c hc
  ⟨⟨hrun.calm, hrun.ends, hrun.fails, fun a ha f hf => hrun.holds a ha f (h a f hf)⟩, hrun.moves⟩

/-- A function of the value may forget some of what is known. -/
theorem Accounts.map {h : α → β} (hp : Accounts R K facts p)
    (hh : ∀ a, ∀ f ∈ more (h a), f ∈ facts a) : Accounts R K more (h <$> p) :=
  .bind hp fun a => .pure fun f hf => List.mem_append_right K (hh a f hf)

/-- Of two branches only the one taken counts. -/
theorem Accounts.ite {P : Prop} [Decidable P] {p q : Parser α} (hp : Accounts R K facts p)
    (hq : Accounts R K facts q) : Accounts R K facts (if P then p else q) := by
  split
  · exact hp
  · exact hq

/-- What is read may depend on the next token. -/
theorem Accounts.peek {f : Token → Parser β} (h : ∀ c, R.mem c →
    AccountsAt S c K more (f (c.rest.headD S.source.stop))) :
    Accounts R K more (peek >>= f) := fun hK c hc => h c hc hK

/-- Behind a mark the region is that behind the mark. -/
theorem Accounts.mark {f : Mark → Parser β} (h : ∀ m, Accounts (R.behind m) K more (f m)) :
    Accounts R K more (mark >>= f) := fun hK c hc =>
  h (.here S.source c) hK c ⟨c, hc, rfl, .refl c⟩

/-- A parser that leaves the cursor where it is and takes notes of no account. -/
theorem Accounts.of_still (hp : Still p) (h : ∀ src c, ∀ note ∈ (p src c).notes,
    (∃ e, note = .event e) ∨ ∃ d, note = .problem d) : Accounts R K (fun _ => []) p := by
  intro _ c _
  obtain ⟨hcursor, hvalue⟩ := hp S.source c
  refine ⟨⟨fun b hb => ?_, fun d hd => ?_, fun hn => absurd hn hvalue, ?_⟩, ?_⟩
  · rcases h _ _ _ hb with ⟨_, he⟩ | ⟨_, he⟩ <;> cases he
  · rcases h _ _ _ hd with ⟨_, he⟩ | ⟨_, he⟩ <;> cases he
  · intro a _ f hf
    cases hf
  · rw [hcursor]
    exact .refl c

/-- Looking at the next token tells nothing. -/
theorem Accounts.look : Accounts R K (fun _ => []) Parser.peek :=
  .of_still .peek fun _ _ _ h => by cases h

/-- Looking further tells nothing. -/
theorem Accounts.ahead : Accounts R K (fun _ => []) ahead :=
  .of_still .ahead fun _ _ _ h => by cases h

/-- Taking a span tells nothing. -/
theorem Accounts.spanFrom : Accounts R K (fun _ => []) (spanFrom m) :=
  .of_still (.spanFrom m) fun _ _ _ h => by cases h

/-- Emitting an event tells nothing. -/
theorem Accounts.emit (e : ParseEvent) : Accounts R K (fun _ => []) (emit e) :=
  .of_still (.emit e) fun _ _ _ h => .inl ⟨e, List.mem_singleton.1 h⟩

/-- Reporting a problem tells nothing of a value. -/
theorem Accounts.report (cause : Diagnostic.Cause) (s : Span) :
    Accounts R K (fun _ => []) (report cause s) :=
  .of_still (.report cause s) fun _ _ _ h => .inr ⟨_, List.mem_singleton.1 h⟩

/-- Asking for a sign tells nothing. -/
theorem Accounts.sees (kind : TokenKind) : Accounts R K (fun _ => []) (sees kind) :=
  .after .look fun _ => .pure (by simp)

/-- Reading a token takes no note. -/
theorem bump_notes (src : Source) (c : Cursor) : (bump src c).notes = [] := by
  cases hr : c.rest with
  | nil => rw [bump_run_nil hr]
  | cons t ts => rw [bump_run hr]

/-- So it tells nothing. -/
theorem Accounts.bump : Accounts R K (fun _ => []) bump := fun _ c _ =>
  ⟨.silent bump_value (bump_notes _ _) (by simp), Steady.bump.moves S.ended c⟩

/-! ### Giving up -/

/-- A problem at the next token is noted there, or was reported before. -/
theorem notesAt_accounts (hc : c.On S.tokens) (cause : Diagnostic.Cause) :
    S.Accounts c K facts ⟨none, c, notesAt (c.rest.headD S.source.stop) cause⟩ := by
  have points {notes : List Note} (h : S.Points notes (S.next c)) :
      ∃ n, S.Points notes n ∧ S.next c ≤ n ∧ n ≤ S.next c :=
    ⟨_, h, Nat.le_refl _, Nat.le_refl _⟩
  have silent : ∀ a, (none : Option α) = some a → ∀ f ∈ facts a, f ∈ K ∨ S.Holds
      (notesAt (c.rest.headD S.source.stop) cause) f := fun a ha => by cases ha
  refine ⟨⟨fun b => ?_, fun d => ?_, fun _ => points ?_, silent⟩, .refl c⟩
  · unfold notesAt
    split
    · simp
    · split <;> simp
    · simp
  · unfold notesAt
    rcases hr : c.rest with _ | ⟨t, ts⟩
    · rw [List.headD_nil, show S.source.stop.kind = .eof from S.ended]
      intro hd
      obtain rfl : d = .ofCause cause S.source.stop.span := by simpa using hd
      rfl
    · rw [List.headD_cons]
      split
      · rename_i hk
        rcases hc.mem_rest (t := t) (by simp [hr]) with ht | ⟨s, hs, -, rfl⟩
        · exact absurd hk (S.seen t ht)
        · cases hk
      · split <;> simp
      · simp
  · unfold notesAt
    split
    · exact .inr ⟨_, .inr (List.mem_singleton_self _), rfl⟩
    · rename_i e hk
      split
      · rename_i he
        rcases hr : c.rest with _ | ⟨t, ts⟩
        · rw [hr, List.headD_nil] at hk
          cases hk.symm.trans S.ended
        · rw [hr, List.headD_cons] at hk
          rcases hc.mem_rest (t := t) (by simp [hr]) with ht | ⟨s, hs, -, rfl⟩
          · rw [Scene.next_cons hr]
            exact .inl (S.reports t ht e hk he)
          · cases hk
      · exact .inr ⟨_, .inl (List.mem_singleton_self _), rfl⟩
    · exact .inr ⟨_, .inl (List.mem_singleton_self _), rfl⟩

/-- Giving up right behind a problem at the next token. -/
theorem Accounts.abortHere (cause : Token → Diagnostic.Cause) :
    Accounts R K facts (do reportHere (cause (← Parser.peek)); abort) := by
  intro _ c hc
  have hrun : (do reportHere (cause (← Parser.peek)); abort : Parser α) S.source c =
      ⟨none, c, notesAt (c.rest.headD S.source.stop) (cause (c.rest.headD S.source.stop)) ++ []⟩ :=
    rfl
  rw [hrun, List.append_nil]
  exact notesAt_accounts (R.on hc) _

/-- Whoever gives up leaves a problem at the next token. -/
theorem Accounts.unexpected (due : String) : Accounts R K facts (unexpected due) :=
  .abortHere fun t => .expected due t.kind.name

/-- Trying for a sign tells nothing. -/
theorem Accounts.eat (kind : TokenKind) : Accounts R K (fun _ => []) (eat kind) :=
  .after (.sees kind) fun _ => .ite (.after .bump fun _ => .pure (by simp)) (.pure (by simp))

/-- A sign that is due is read, or reported missing. -/
theorem Accounts.expect (kind : TokenKind) (due : String) :
    Accounts R K (fun _ => []) (expect kind due) :=
  .after (.sees kind) fun _ => .ite .bump (.unexpected due)

/-- So is a keyword. -/
theorem Accounts.expectKeyword (keyword : Keyword) :
    Accounts R K (fun _ => []) (expectKeyword keyword) :=
  .after .look fun _ => .ite .bump (.unexpected _)

/-- So is a name. -/
theorem Accounts.name (due : String) : Accounts R K (fun _ => []) (name due) := by
  refine .after .look fun t => ?_
  split
  · exact .after .bump fun _ => .pure (by simp)
  · exact .unexpected due

/-! ### One level deeper, and loops -/

/-- A level deeper the same is told, or what the fragment below the last one needs. -/
theorem Accounts.nested {deep : Parser α} (hd : Accounts R K facts deep) (hs : Sound p)
    (hp : Accounts (.whole S) K facts p) : Accounts R K facts (nested deep p) := by
  intro hK c hc
  rcases Nat.lt_or_ge c.depth maxNesting with h | h
  · have hrun := hp hK c.down (R.on hc).down
    rw [nested_of_lt hs S.ended h]
    exact ⟨⟨hrun.calm, hrun.ends, hrun.fails, hrun.holds⟩, hrun.moves.up⟩
  · rw [nested_of_le h]
    exact hd hK c hc

/-- A loop accounts for its result if each round accounts for the state that it goes on with. -/
theorem Accounts.loop {step : σ → Parser (σ ⊕ β)} (known : σ → List Fact) (h : Advances step)
    (hstep : ∀ s, Accounts R (K ++ known s) (Sum.elim known more) (step s)) {s : σ}
    (hs : ∀ f ∈ known s, f ∈ K) : Accounts R K more (Parser.loop step s) := by
  intro hK
  have key : ∀ s c, S.Grants (K ++ known s) → R.mem c →
      S.Accounts c (K ++ known s) more (Parser.loop step s S.source c) := by
    refine loop_rec h S.ended (P := fun s c o => S.Grants (K ++ known s) → R.mem c →
      S.Accounts c (K ++ known s) more o) fun s c ih hs hc => ?_
    have hround := hstep s hs c hc
    refine .bind (R.on hc) hround fun r hr => ?_
    have hgrants := hround.grants hs hr
    cases r with
    | inl s' =>
      have hrest := ih s' hr (fun x hx => hgrants x <| (List.mem_append.1 hx).elim
        (fun hk => List.mem_append_left _ (List.mem_append_left _ hk)) (List.mem_append_right _))
        (R.step hc hround.moves)
      refine ⟨⟨hrest.calm, hrest.ends, hrest.fails, fun b hb f hf => ?_⟩, hrest.moves⟩
      refine (hrest.holds b hb f hf).imp (fun hk => ?_) id
      exact (List.mem_append.1 hk).elim
        (fun hk => List.mem_append_left _ (List.mem_append_left _ hk)) (List.mem_append_right _)
    | inr b => exact ⟨.silent rfl rfl fun f hf => List.mem_append_right _ hf, .refl _⟩
  have hK' : ∀ f ∈ K ++ known s, f ∈ K := fun f hf => (List.mem_append.1 hf).elim id (hs f)
  intro c hc
  have hrun := key s c (fun x hx => hK x (hK' _ hx)) hc
  exact ⟨⟨hrun.calm, hrun.ends, hrun.fails, fun b hb f hf =>
    (hrun.holds b hb f hf).imp (hK' f) id⟩, hrun.moves⟩

/-- A loop without error nodes. -/
theorem Accounts.loopAfter {step : σ → Parser (σ ⊕ β)} (h : Advances step)
    (hstep : ∀ s, Accounts R K (fun _ => []) (step s)) (s : σ) :
    Accounts R K (fun _ => []) (Parser.loop step s) := by
  refine .loop (fun _ => []) h (fun s => ?_) (by simp)
  rw [List.append_nil]
  refine (hstep s).mono fun r f hf => ?_
  cases r <;> cases hf

/-! ### Error nodes -/

/-- A fragment behind a mark is cut out of the text, and nothing is noted. -/
theorem errorFrom_run (hc : (R.behind m).mem c) :
    ∃ text, errorFrom m S.source c = ⟨some ⟨m.upTo c, text⟩, c, []⟩ := by
  obtain ⟨d, hd, rfl, h⟩ := hc
  have hsome : (Text.slice? S.source.text ((Mark.here S.source d).upTo c).start
      ((Mark.here S.source d).upTo c).stop).isSome = true :=
    Scene.Placed.slice?_isSome ⟨d, c, R.on hd, h, rfl⟩
  refine ⟨String.ofList (Text.covered S.source.text ((Mark.here S.source d).upTo c)), ?_⟩
  show (⟨_, c, [] ++ if (Text.slice? S.source.text ((Mark.here S.source d).upTo c).start
    ((Mark.here S.source d).upTo c).stop).isSome then [] else _⟩ : Outcome ErrorNode) = _
  rw [if_pos hsome]
  rfl

/-- A parser that moves forward and notes events only. -/
def Tacit (R : Region S) (p : Parser α) : Prop :=
  ∀ c, R.mem c → c.Reaches (p S.source c).cursor ∧ ∀ note ∈ (p S.source c).notes,
    ∃ e, note = .event e

/-- A sequence of tacit parsers is tacit. -/
theorem Tacit.bind (hp : Tacit R p) (hf : ∀ a, Tacit R (f a)) : Tacit R (p >>= f) := by
  intro c hc
  obtain ⟨hm, hn⟩ := hp c hc
  cases hv : (p S.source c).value with
  | none =>
    rw [bind_of_none hv]
    exact ⟨hm, hn⟩
  | some a =>
    obtain ⟨hm', hn'⟩ := hf a _ (R.step hc hm)
    rw [bind_of_some hv]
    exact ⟨hm.trans hm', fun note h => (List.mem_append.1 h).elim (hn note) (hn' note)⟩

/-- Of two branches only the one taken counts. -/
theorem Tacit.ite {P : Prop} [Decidable P] {p q : Parser α} (hp : Tacit R p) (hq : Tacit R q) :
    Tacit R (if P then p else q) := by
  split
  · exact hp
  · exact hq

/-- Returning a value is tacit. -/
theorem Tacit.pure (a : α) : Tacit R (pure a) := fun c _ => ⟨.refl c, fun _ h => by cases h⟩

/-- So is giving up without a note. -/
theorem Tacit.abort : Tacit R (abort : Parser α) := fun c _ => ⟨.refl c, fun _ h => by cases h⟩

/-- So is looking at the next token. -/
theorem Tacit.peek : Tacit R peek := fun c _ => ⟨.refl c, fun _ h => by cases h⟩

/-- So is looking further. -/
theorem Tacit.ahead : Tacit R ahead := fun c _ => ⟨.refl c, fun _ h => by cases h⟩

/-- So is asking whether a token was read. -/
theorem Tacit.movedFrom : Tacit R (movedFrom m) := fun c _ => ⟨.refl c, fun _ h => by cases h⟩

/-- So is emitting an event. -/
theorem Tacit.emit (e : ParseEvent) : Tacit R (emit e) :=
  fun c _ => ⟨.refl c, fun _ h => ⟨e, List.mem_singleton.1 h⟩⟩

/-- So is reading a token. -/
theorem Tacit.bump : Tacit R bump := fun c _ =>
  ⟨Steady.bump.moves S.ended c, fun note h => by rw [bump_notes] at h; cases h⟩

/-- So is passing over tokens. -/
theorem Tacit.skip (n : Nat) : Tacit R (skip n) := by
  induction n with
  | zero => exact .pure ()
  | succ n ih => exact .bind .bump fun _ => ih

/-- So is leaving a broken fragment. -/
theorem Tacit.leave (keep : Option TokenKind) : Tacit R (leave m keep) :=
  .bind .movedFrom fun _ => .ite (.pure ()) (.bind .peek fun _ => .ite (.pure ()) .bump)

/-- So is cutting it out. -/
theorem Tacit.errorFrom : Tacit (R.behind m) (errorFrom m) := by
  intro c hc
  obtain ⟨text, hrun⟩ := errorFrom_run hc
  rw [hrun]
  exact ⟨.refl c, fun _ h => by cases h⟩

/-- A cut behind a mark: it notes events only, and its node covers all since the mark. -/
structure Patches (R : Region S) (cut : Mark → Parser ErrorNode) : Prop where
  tacit : ∀ m, Tacit (R.behind m) (cut m)
  covers : ∀ m, Ends m ErrorNode.span (cut m)

/-- What is cut out for an item is explained by the problem that broke it. -/
theorem recoverItem_patches : Patches R recoverItem where
  tacit _ := .bind (.leave _) fun _ => .bind .ahead fun _ => .bind (.skip _) fun _ =>
    .bind .errorFrom fun _ => .bind (.emit _) fun _ => .pure _
  covers _ := recoverItem_ends

/-- So is what is cut out for an element. -/
theorem recoverElement_patches : Patches R recoverElement where
  tacit m := by
    refine .bind (.leave _) fun _ => .bind .ahead fun ts => .bind (.skip _) fun _ => ?_
    exact .ite .errorFrom .abort
  covers m := by
    refine .bind fun _ => .bind fun ts => .bind fun _ => .ite ?_ .abort
    exact Ends.errorFrom (v := id) fun _ => rfl

/-- So is what is cut out for an entry. -/
theorem recoverEntry_patches : Patches R recoverEntry where
  tacit m := by
    refine .bind (.leave _) fun _ => .bind .ahead fun ts => .bind (.skip _) fun _ => ?_
    refine .ite (.bind .errorFrom fun e => ?_) .abort
    exact .bind (.emit _) fun _ => .pure _
  covers m := by
    refine .bind fun _ => .bind fun ts => .bind fun _ => .ite (.cut fun _ _ _ => ⟨rfl, ?_⟩) .abort
    intro e h
    injection h with h
    exact h.symm

/-- **What gives up is cut out, and the problem that it leaves explains the cut.** -/
theorem Accounts.orCut {cut : Mark → Parser ErrorNode} {h : ErrorNode → α}
    (hp : Accounts R K facts p) (hcut : Patches R cut)
    (hh : ∀ e, ∀ f ∈ facts (h e), f = .error e ∨ f = .placed e.span)
    (hf : ∀ a, Accounts R (K ++ facts a) more (f a)) :
    Accounts R K more (Parser.mark >>= fun m => orRecover p (h <$> cut m) >>= f) := by
  intro hK
  -- Recovery itself: the part as it was read, or the cut that stands for it.
  have key : ∀ c, R.mem c → S.Accounts c K facts
      (orRecover p (h <$> cut (.here S.source c)) S.source c) := by
    intro c hc
    have hrun := hp hK c hc
    cases hv : (p S.source c).value with
    | some a =>
      rw [orRecover_of_some hv]
      exact hrun
    | none =>
      obtain ⟨n, hn, hl, hu⟩ := hrun.fails hv
      have hd : (R.behind (.here S.source c)).mem (p S.source c).cursor := ⟨c, hc, rfl, hrun.moves⟩
      obtain ⟨hm, hnotes⟩ := hcut.tacit _ _ hd
      have hle := Scene.next_le ((R.behind _).on hd) hm
      rw [orRecover_of_none hv, map_run]
      refine ⟨⟨fun b hb => ?_, fun d hd => ?_, fun _ => ?_, fun b hb f hf => .inr ?_⟩,
        hrun.moves.trans hm⟩
      · rcases List.mem_append.1 hb with hb | hb
        · exact hrun.calm b hb
        · obtain ⟨_, he⟩ := hnotes _ hb
          cases he
      · rcases List.mem_append.1 hd with hd | hd
        · exact hrun.ends d hd
        · obtain ⟨_, he⟩ := hnotes _ hd
          cases he
      · exact ⟨n, hn.mono fun _ => List.mem_append_left _, hl, Nat.le_trans hu hle⟩
      · obtain ⟨e, he, rfl⟩ := Option.map_eq_some_iff.1 hb
        have hspan := hcut.covers _ _ _ e he
        have hreach := hrun.moves.trans hm
        rcases hh e f hf with rfl | rfl
        · refine ⟨n, hn.mono fun _ => List.mem_append_left _, ?_⟩
          rw [hspan]
          exact Scene.explains_upTo (R.on hc) hreach hl (Nat.le_trans hu hle)
        · exact ⟨c, _, R.on hc, hreach, hspan⟩
  intro c hc
  show S.Accounts c K more ((orRecover p (h <$> cut (.here S.source c)) >>= f) S.source c)
  exact .bind (R.on hc) (key c hc) fun a ha =>
    hf a ((key c hc).grants hK ha) _ (R.step hc (key c hc).moves)

end Parser

end Ndf
