/-
# Reading a chain

A reference is read as a name and suffixes.  `Scene.Spells` says that a spelling is written from an
offset on up to the place where a run has got to, and a suffix that is read adds one step to it
(`Scene.Spells.step`): what comes next is joined, so it starts where the last token ends
(`Scene.follows_name`, `Scene.follows_index`).  Suffixes are read as long as the path goes on
(`suffixes_leads`).

The index of a vector that turns out to be a path is the first step of it (`bracketed_leads`).
-/

import Ndf.Proofs.Nodes.Grammar
import Ndf.Proofs.Reference.Leads

namespace Ndf

open Spelling (Joiner Step)

/-- What continues a path. -/
theorem Lookahead.exists_of_continuesPath {ts : List Token} (h : continuesPath ts = true) :
    ∃ t us, ts = t :: us ∧ t.joined = true ∧ (t.kind = .lbracket ∨
      (t.kind = .slash ∨ t.kind = .dot) ∧ isJoined us 0 = true) := by
  cases ts with
  | nil => cases h
  | cons t us =>
    simp only [continuesPath, isJoined_zero, isJoined_succ, isKind, kind?_zero, Bool.and_eq_true,
      Bool.or_eq_true, beq_iff_eq, Option.some.injEq] at h
    obtain ⟨hj, hk | ⟨⟨hk, -⟩, hu⟩⟩ := h
    · exact ⟨t, us, rfl, hj, .inl hk⟩
    · exact ⟨t, us, rfl, hj, .inr ⟨hk, hu⟩⟩

/-- A token that is joined to the one before it comes next. -/
theorem Lookahead.exists_of_isJoined {ts : List Token} (h : isJoined ts 0 = true) :
    ∃ t us, ts = t :: us ∧ t.joined = true := by
  cases ts with
  | nil => cases h
  | cons t us => exact ⟨t, us, rfl, h⟩

namespace Scene

variable {S : Scene} {c d : Cursor} {a : Nat} {w : Spelling} {s : Step} {t b : Token}
  {ts us bs v : List Token}

/-- A spelling is written from an offset on up to what was read last. -/
structure Spells (S : Scene) (a : Nat) (w : Spelling) (c : Cursor) : Prop where
  whole : S.Whole c
  moved : 0 < c.count
  covers : Text.slice? S.source.text a c.last.stop = some w.text
  first : w.first.StandsAt (a + Text.byteSize (Reference.scopeText w.scope).toList)
  stands : Spelling.Stand w.first.span.stop w.steps

/-- A step is written from one place to another. -/
structure Follows (S : Scene) (c d : Cursor) (s : Step) : Prop where
  whole : S.Whole d
  moved : 0 < d.count
  covers : Text.slice? S.source.text c.last.stop d.last.stop = some s.text
  stands : s.Stands c.last.stop

/-- The steps go on where the last one ends. -/
theorem Spells.stop (h : S.Spells a w c) :
    c.last.stop = w.first.span.stop + Text.byteSize (Spelling.textOf w.steps) := by
  rw [Text.stop_of_slice? h.covers, h.first.stop, Spelling.text, Text.byteSize_append,
    Text.byteSize_append]
  omega

/-- **A step is added to what is written.** -/
theorem Spells.step (h : S.Spells a w c) (hs : S.Follows c d s) :
    S.Spells a ⟨w.scope, w.first, w.steps ++ [s]⟩ d where
  whole := hs.whole
  moved := hs.moved
  covers := by
    have := Text.slice?_concat h.covers hs.covers
    rwa [Spelling.text, List.append_assoc, show s.text = Spelling.textOf [s] from
      (List.append_nil _).symm, ← Spelling.textOf_append] at this
  first := h.first
  stands := Spelling.stand_append.2 ⟨h.stands, by
    rw [← h.stop]
    exact ⟨hs.stands, trivial⟩⟩

/-! ### Tokens -/

/-- A sign covers its character. -/
theorem sign_covers (hS : S.Legible) (ht : t ∈ S.tokens) {x : Char} (hx : t.kind.sign? = some [x])
    (h1 : Text.byteSize [x] = 1) : Text.slice? S.source.text t.span.start t.span.stop = some [x] ∧
      t.span.stop = t.span.start + 1 := by
  have hcovers := hS.signs t ht [x] hx
  exact ⟨hcovers, h1 ▸ Text.stop_of_slice? hcovers⟩

/-- A name stands where its token does. -/
theorem name_stands (hS : S.Legible) (ht : t ∈ S.tokens) {n : Name} {wordClass : WordClass}
    (hk : t.kind = .word n.text wordClass) (hn : n.span = t.span) :
    n.StandsAt t.span.start ∧
      Text.slice? S.source.text t.span.start t.span.stop = some n.text.toList := by
  obtain ⟨written, hslice, hw⟩ := hS.written t ht
  rw [hk] at hw
  obtain ⟨rfl, hword, -⟩ := hw
  refine ⟨⟨by rw [hn], ?_, hword⟩, hslice⟩
  rw [hn]
  exact Text.stop_of_slice? hslice

/-! ### Steps -/

/-- **A joined sign and a joined name.** -/
theorem follows_name (hS : S.Legible) (hc : S.Whole c) (h0 : 0 < c.count)
    (hr : c.rest = t :: b :: bs) (ht : t.joined = true) (hb : b.joined = true) {sign : Joiner}
    (hk : t.kind.sign? = some [sign.char]) {n : Name} {wordClass : WordClass}
    (hw : b.kind = .word n.text wordClass) (hn : n.span = b.span) :
    S.Follows c ⟨bs, c.count + 1 + 1, b.span, c.depth⟩ (.name sign n) := by
  have hmid : S.Whole ⟨b :: bs, c.count + 1, t.span, c.depth⟩ := hc.passes (.one hr)
  have hstart := start_of_joined hS hc h0 hr ht
  have hjoin : b.span.start = t.span.stop :=
    start_of_joined hS hmid (Nat.succ_pos _) rfl hb
  have hchar : Text.byteSize [sign.char] = 1 := by cases sign <;> rfl
  obtain ⟨hsign, hstop⟩ := sign_covers hS (hc.mem (by simp [hr])) hk hchar
  obtain ⟨hstands, hname⟩ := name_stands hS (hmid.mem (by simp)) hw hn
  refine ⟨hmid.passes (.one rfl), Nat.succ_pos _, ?_, ?_⟩
  · rw [hjoin] at hname
    exact hstart ▸ Text.slice?_concat hsign hname
  · rwa [hjoin, hstop, hstart] at hstands

/-- **A joined bracket, what is read behind it, and the bracket that closes.** -/
theorem follows_index (hS : S.Legible) (hc : S.Whole c) (h0 : 0 < c.count) (hr : c.rest = t :: ts)
    (ht : t.joined = true) (hk : t.kind = .lbracket)
    (hp : (⟨ts, c.count + 1, t.span, c.depth⟩ : Cursor).Passes v d) (hr' : d.rest = b :: bs)
    (hk' : b.kind = .rbracket) {e : Expr}
    (he : S.next ⟨ts, c.count + 1, t.span, c.depth⟩ ≤ e.span.start ∧ e.span.stop ≤ d.last.stop) :
    ∃ inside, S.Follows c ⟨bs, d.count + 1, b.span, d.depth⟩ (.index e inside) := by
  have hmid : S.Whole ⟨ts, c.count + 1, t.span, c.depth⟩ := hc.passes (.one hr)
  have hd : S.Whole d := hmid.passes hp
  have hstart := start_of_joined hS hc h0 hr ht
  have htm : t ∈ S.tokens := hc.mem (by simp [hr])
  have hbm : b ∈ S.tokens := hd.mem (by simp [hr'])
  obtain ⟨hopen, hstop⟩ := sign_covers hS htm (x := '[') (by rw [hk]; rfl) rfl
  obtain ⟨hclose, -⟩ := sign_covers hS hbm (x := ']') (by rw [hk']; rfl) rfl
  have hnext : t.span.stop ≤ S.next ⟨ts, c.count + 1, t.span, c.depth⟩ := last_le_next hmid.on
  have hend : d.last.stop ≤ b.span.start := next_cons hr' ▸ last_le_next hd.on
  have hle : t.span.stop ≤ b.span.start :=
    Nat.le_trans hnext (next_cons hr' ▸ next_le hmid.on hp.reaches)
  obtain ⟨inside, hinside⟩ := Option.isSome_iff_exists.1 (Text.slice?_isSome
    (S.edges t (by simp [htm])).2 (S.edges b (by simp [hbm])).1 hle)
  have hbytes := Text.stop_of_slice? hinside
  refine ⟨inside, hd.passes (.one hr'), Nat.succ_pos _, ?_, ?_, ?_⟩
  · have := Text.slice?_concat hopen (Text.slice?_concat hinside hclose)
    rwa [hstart] at this
  · omega
  · omega

/-! ### Names in front -/

/-- A name alone. -/
theorem spells_name (hS : S.Legible) (hc : S.Whole c) (hr : c.rest = t :: ts) {n : Name}
    {wordClass : WordClass} (hw : t.kind = .word n.text wordClass) (hn : n.span = t.span) :
    S.Spells (S.next c) ⟨.none, n, []⟩ ⟨ts, c.count + 1, t.span, c.depth⟩ := by
  obtain ⟨hstands, hname⟩ := name_stands hS (hc.mem (by simp [hr])) hw hn
  refine ⟨hc.passes (.one hr), Nat.succ_pos _, ?_, ?_, trivial⟩
  · rw [next_cons hr]
    simpa [Spelling.text, Spelling.textOf, Reference.scopeText, Scope.mark] using hname
  · rwa [next_cons hr]

/-- A name that is joined to the mark of a scope and its slash. -/
theorem spells_scoped (hS : S.Legible) (hc : S.Whole c) (h0 : 0 < c.count) {scope : Scope}
    (hscope : Text.slice? S.source.text a c.last.stop = some (Reference.scopeText scope).toList)
    (hr : c.rest = t :: ts) (hj : t.joined = true) {n : Name} {wordClass : WordClass}
    (hw : t.kind = .word n.text wordClass) (hn : n.span = t.span) :
    S.Spells a ⟨scope, n, []⟩ ⟨ts, c.count + 1, t.span, c.depth⟩ := by
  obtain ⟨hstands, hname⟩ := name_stands hS (hc.mem (by simp [hr])) hw hn
  have hstart := start_of_joined hS hc h0 hr hj
  rw [hstart] at hstands hname
  refine ⟨hc.passes (.one hr), Nat.succ_pos _, ?_, ?_, trivial⟩
  · have := Text.slice?_concat hscope hname
    simpa [Spelling.text, Spelling.textOf] using this
  · rwa [← Text.stop_of_slice? hscope]

/-! ### What is shown of references -/

/-- The reference is written so, and nothing behind it goes on with it. -/
def Shows (S : Scene) (r : Reference) : Prop :=
  ∃ w, r.Spelled S.source.text w ∧
    Spelling.Ends (S.tokens.filter fun t => decide (r.span.stop ≤ t.span.start))

/-- It is shown of all references that are met. -/
def Told (S : Scene) (visits : List Visit) : Prop := ∀ r, .reference r ∈ visits → S.Shows r

@[simp] theorem told_nil : S.Told [] := fun _ h => nomatch h

@[simp] theorem told_append {xs ys : List Visit} :
    S.Told (xs ++ ys) ↔ S.Told xs ∧ S.Told ys := by
  simp only [Told, List.mem_append, or_imp, forall_and]

/-- Nothing is to be shown of what is no reference. -/
@[simp] theorem told_cons {v : Visit} {vs : List Visit} :
    S.Told (v :: vs) ↔ (∀ r, v.reference? = some r → S.Shows r) ∧ S.Told vs := by
  have hv (r : Reference) : .reference r = v ↔ v.reference? = some r := by
    cases v <;> simp [Visit.reference?, eq_comm]
  simp only [Told, List.mem_cons, or_imp, forall_and, hv]

/-- Of visits made for each value it is shown value by value. -/
theorem told_flatMap {α : Type} {as : List α} {visits : α → List Visit} :
    S.Told (as.flatMap visits) ↔ ∀ a ∈ as, S.Told (visits a) := by
  induction as with
  | nil => simp
  | cons a as ih => simp [ih]

/-- A name among the segments is no reference; an index may contain some. -/
theorem told_segments {ss : List Suffix} :
    S.Told (Walk.segments (Suffix.segments ss)) ↔ ∀ s ∈ ss, S.Told s.visits := by
  rw [Walk.segments_eq_flatMap, told_flatMap]

/-- A reference is met before those in its indexes. -/
theorem told_reference {r : Reference} :
    S.Told (Walk.reference r) ↔ S.Shows r ∧ S.Told (Walk.segments r.segments) := by
  cases r
  simp [Walk.reference, Visit.reference?]

/-- Behind a spelling, suffixes are written, and it is shown of the references in them. -/
structure Suffixed (S : Scene) (a : Nat) (w : Spelling) (ss : List Suffix) (c : Cursor) :
    Prop where
  told : ∀ s ∈ ss, S.Told s.visits
  written : ∃ steps, steps.map Step.suffix = ss ∧
    S.Spells a ⟨w.scope, w.first, w.steps ++ steps⟩ c

/-- Behind the suffixes stands a whole token. -/
theorem Suffixed.whole {ss : List Suffix} (h : S.Suffixed a w ss c) : S.Whole c :=
  let ⟨_, _, hw⟩ := h.written
  hw.whole

/-- The name of the path was read. -/
theorem Suffixed.moved {ss : List Suffix} (h : S.Suffixed a w ss c) : 0 < c.count :=
  let ⟨_, _, hw⟩ := h.written
  hw.moved

/-- **A suffix adds one step.** -/
theorem Suffixed.step {ss : List Suffix} (h : S.Suffixed a w ss c) (hs : S.Follows c d s)
    (htold : S.Told s.suffix.visits) : S.Suffixed a w (ss ++ [s.suffix]) d := by
  obtain ⟨steps, rfl, hw⟩ := h.written
  refine ⟨List.forall_mem_append.2 ⟨h.told, List.forall_mem_singleton.2 htold⟩, steps ++ [s],
    List.map_append, ?_⟩
  rw [← List.append_assoc]
  exact hw.step hs

/-- A run returns a reference that is written from its start to its end, and the path does not go
on there.  Nothing is said of its span. -/
def Chain (S : Scene) (c d : Cursor) (r : Reference) : Prop :=
  S.Whole c ∧ ∃ w s, S.Spells (S.next c) w d ∧ Lookahead.continuesPath d.rest = false ∧
    r = ⟨w.scope, Reference.segmentsOf w.first (Spelling.alone w.scope)
      (w.steps.map Step.suffix), s⟩

/-- **A chain over all that was read is shown.** -/
theorem Chain.shows {r : Reference} (h : S.Chain c d r) (hreach : c.Reaches d)
    (hm : c.count < d.count) (hspan : r.span = (Parser.Mark.here S.source c).upTo d) :
    S.Shows r := by
  obtain ⟨hc, w, s, hw, hend, rfl⟩ := h
  obtain rfl : s = _ := hspan
  have hstart : ((Parser.Mark.here S.source c).upTo d).start = S.next c := start_upTo S c d
  have hstop := upTo_of_moved hc hreach hm
  refine ⟨w, .of_steps ?_ (hstart ▸ hw.first) hw.stands, ?_⟩
  · show Text.slice? _ _ _ = _
    rw [hstart, hstop]
    exact hw.covers
  · show Spelling.Ends (S.tokens.filter fun t =>
      decide (((Parser.Mark.here S.source c).upTo d).stop ≤ t.span.start))
    rw [hstop, filter_behind hw.whole hw.moved]
    exact .of_continuesPath hend

end Scene

namespace Parser

variable {α β σ : Type} {S : Scene} {g : Grammar} {c : Cursor} {a : Nat} {w : Spelling}
  {p : Parser α} {Q : α → Cursor → Prop} {out : α → List Visit}

/-- Wherever a run starts, it is shown of all references in its value. -/
def Chains (S : Scene) (out : α → List Visit) (p : Parser α) : Prop :=
  ∀ c, Leads S c (fun a _ => S.Told (out a)) p

/-- What the level below has to do so that references are read as they are written. -/
structure Chaining (S : Scene) (g : Grammar) : Prop where
  legible : S.Legible
  laying : Laying S g
  expr : Chains S Walk.expr g.expr
  operand : Chains S Walk.expr g.operand

namespace Leads

/-- The nodes of a value stand in the stretch that was read for it. -/
theorem of_lays {nodes : α → List Node} (hp : Lays S nodes p) (hc : S.Whole c) :
    Leads S c (fun a d => S.Row (S.next c) d.last.stop (nodes a)) p := fun hon =>
  ⟨hon.reaches (hp.steady.moves S.ended c), (hp.rows c hc).row⟩

/-- What is known of a value that covers what was read for it. -/
theorem spanned {span : α → Span} (hp : Leads S c Q p) (hs : Sound p) (he : Eats p)
    (hspan : Spans span p) : Leads S c (fun a d => Q a d ∧ c.Reaches d ∧ c.count < d.count ∧
      span a = (Mark.here S.source c).upTo d) p := fun hc =>
  have hreach := hs.moves S.ended c
  ⟨(hp hc).1, fun a ha => ⟨(hp hc).2 a ha, hreach,
    hreach.count_lt_iff.2 (he S.ended c (ha ▸ Option.some_ne_none a)), hspan S.ended c a ha⟩⟩

end Leads

/-- **What is read between joined brackets can be an index.** -/
theorem bracket_leads {nodes : α → List Node} {v : α → β} (hS : S.Legible) (hc : S.Whole c)
    (h0 : 0 < c.count) {t : Token} {ts : List Token} (hr : c.rest = t :: ts)
    (hj : t.joined = true) (hk : t.kind = .lbracket) (hn : Lays S nodes p) (hp : Chains S out p) :
    Leads S ⟨ts, c.count + 1, t.span, c.depth⟩ (fun b d => ∃ x, b = v x ∧ S.Told (out x) ∧
      ∀ e, Outline.expr e ∈ nodes x → ∃ inside, S.Follows c d (.index e inside)) (do
        let x ← p
        expect .rbracket "']'"
        pure (v x)) := by
  have hmid := hc.passes (.one hr)
  refine .bind ((hp _).and ((Leads.of_steady hn.steady).and (.of_lays hn hmid)))
    fun x d ⟨htold, ⟨u, hu⟩, hrow⟩ => ?_
  refine .bind (.expect (by simp) _) fun _ e ⟨b, bs, hr', hk', he⟩ =>
    .pure ⟨x, rfl, htold, fun index hindex => ?_⟩
  subst he
  have hwithin := hrow.within _ hindex
  rw [Outline.span_expr] at hwithin
  exact Scene.follows_index hS hc h0 hr hj hk hu hr' hk' hwithin

/-- Where a round of the loop over suffixes leads to: what is read is written behind the spelling,
and when the loop is left, the path does not go on. -/
def SuffixRound (S : Scene) (a : Nat) (w : Spelling) (r : List Suffix ⊕ List Suffix) (d : Cursor) :
    Prop :=
  r.elim (fun read => S.Suffixed a w read.reverse d)
    fun ss => S.Suffixed a w ss d ∧ Lookahead.continuesPath d.rest = false

/-- **One round of the loop over suffixes** adds a step, or leaves the path where it ends. -/
theorem suffix_leads (ht : Chaining S g) {read : List Suffix}
    (hw : S.Suffixed a w read.reverse c) : Leads S c (SuffixRound S a w) (suffix g read) := by
  have more {d : Cursor} (step : Step) (hs : S.Follows c d step)
      (htold : S.Told step.suffix.visits) : S.Suffixed a w (step.suffix :: read).reverse d := by
    rw [List.reverse_cons]
    exact hw.step hs htold
  refine .ahead (.ite (fun hpath => .peek ?_) fun hpath => .pure ⟨hw, Bool.eq_false_iff.2 hpath⟩)
  obtain ⟨t, us, hr, hj, hk⟩ := Lookahead.exists_of_continuesPath hpath
  have named (sign : Joiner) (hsign : t.kind.sign? = some [sign.char])
      (hu : Lookahead.isJoined us 0 = true) :
      Leads S c (SuffixRound S a w) (do
        bump
        pure (.inl (.joined sign.kind (← name "a name") :: read))) := by
    obtain ⟨u, us, rfl, hu⟩ := Lookahead.exists_of_isJoined hu
    refine .bind .bump fun _ d hd => ?_
    obtain rfl := hd t _ hr
    refine .bind (.name _) fun n e ⟨_, _, wordClass, hru, hku, hn, he⟩ => .pure ?_
    obtain ⟨rfl, rfl⟩ := List.cons.inj hru
    subst he
    exact more (.name sign n)
      (Scene.follows_name ht.legible hw.whole hw.moved hr hj hu hsign hku hn) Scene.told_nil
  rw [hr, List.headD_cons]
  rcases hk with hk | ⟨hk | hk, hu⟩
  · rw [hk]
    refine .bind .bump fun _ d hd => ?_
    obtain rfl := hd t _ hr
    refine (bracket_leads ht.legible hw.whole hw.moved hr hj hk ht.laying.expr ht.expr).mono ?_
    rintro _ e ⟨index, rfl, htold, hindex⟩
    obtain ⟨inside, hfollows⟩ := hindex index (List.mem_singleton_self _)
    exact more (.index index inside) hfollows htold
  · rw [hk]
    exact named .slash (by rw [hk]; rfl) hu
  · rw [hk]
    exact named .dot (by rw [hk]; rfl) hu

/-- **Suffixes are read as long as the path goes on.** -/
theorem suffixes_leads (ht : Chaining S g) (hw : S.Spells a w c) :
    Leads S c (fun ss d => S.Suffixed a w ss d ∧ Lookahead.continuesPath d.rest = false)
      (suffixes g) :=
  .loop (I := fun read d => S.Suffixed a w read.reverse d) (fun _ _ hread => suffix_leads ht hread)
    ⟨by simp, [], rfl, by simpa using hw⟩

/-- What is known of a reference behind its first name. -/
theorem named_leads (ht : Chaining S g) (hc : S.Whole c) {scope : Scope} {n : Name} {d : Cursor}
    {m : Mark} (hw : S.Spells (S.next c) ⟨scope, n, []⟩ d) :
    Leads S d (fun r e => S.Chain c e r ∧ S.Told (Walk.segments r.segments)) (do
      let suffixes ← suffixes g
      let kind : SegmentKind := if scope = .none then .terminal else .nested
      pure ⟨scope, Reference.segmentsOf n kind suffixes, ← spanFrom m⟩) := by
  refine .bind (suffixes_leads ht hw) fun ss e ⟨⟨htold, steps, hsteps, hspells⟩, hend⟩ =>
    .spanFrom (.pure ⟨⟨hc, ⟨scope, n, steps⟩, m.upTo e, hspells, hend, ?_⟩, ?_⟩)
  · subst hsteps
    rfl
  · exact Scene.told_segments.2 htold

/-- The mark of a scope and its slash. -/
theorem scopeMark_leads (hS : S.Legible) (hc : S.Whole c)
    (hscope : scopeOf (c.rest.headD S.source.stop).kind ≠ .none) :
    Leads S c (fun _ d => S.Whole d ∧ 0 < d.count ∧ Lookahead.isJoined d.rest 0 = true ∧
      Text.slice? S.source.text (S.next c) d.last.stop =
        some (Reference.scopeText (scopeOf (c.rest.headD S.source.stop).kind)).toList)
      scopeMark := by
  have hsigns {kind : TokenKind} (h : scopeOf kind ≠ .none) : kind ≠ .eof ∧ ∃ x,
      kind.sign? = some [x] ∧ Text.byteSize [x] = 1 ∧
        (Reference.scopeText (scopeOf kind)).toList = [x] ++ ['/'] := by
    cases kind with
    | dot | tilde | dollar => exact ⟨by simp, _, rfl, rfl, rfl⟩
    | _ => exact absurd rfl h
  obtain ⟨heof, x, hx, hbyte, htext⟩ := hsigns hscope
  obtain ⟨t, ts, hr, hk⟩ := exists_rest S.ended heof
  rw [hk] at hx
  obtain ⟨hmark, -⟩ := Scene.sign_covers hS (hc.mem (by simp [hr])) hx hbyte
  refine .bind .bump fun _ d hd => .ahead (.ite (fun hslash => ?_) fun _ => .bind
    (.unexpected _) fun _ _ (h : False) => h.elim)
  obtain rfl := hd t ts hr
  have hmid := hc.passes (.one hr)
  obtain ⟨hslash, hj⟩ := Bool.and_eq_true_iff.1 hslash
  obtain ⟨u, us, rfl, hj⟩ := Lookahead.exists_of_isJoined hj
  have hu : u.kind = .slash := by simpa [Lookahead.isKind] using hslash
  have hjoin := Scene.start_of_joined hS hmid (Nat.succ_pos _) rfl hj
  obtain ⟨hsep, -⟩ := Scene.sign_covers hS (hmid.mem (t := u) (by simp)) (x := '/')
    (by rw [hu]; rfl) rfl
  refine .bind .bump fun _ d hd => .ahead (.ite (fun hword => .pure ?_) fun _ => .unexpected _)
  obtain rfl := hd u us rfl
  refine ⟨hmid.passes (.one rfl), Nat.succ_pos _, (Bool.and_eq_true_iff.1 hword).2, ?_⟩
  rw [hk] at htext
  rw [hk, htext, Scene.next_cons hr]
  rw [hjoin] at hsep
  exact Text.slice?_concat hmark hsep

/-- **A reference is a chain.** -/
theorem reference_leads (ht : Chaining S g) : Leads S c (fun r d => S.Chain c d r ∧
    S.Told (Walk.segments r.segments)) (reference g) := by
  refine .mark (.peek (.ite (fun hscope => ?_) fun hscope => ?_))
  · refine .here fun hon => ?_
    have hc : S.Whole c := Scene.whole_of_head hon fun h => hscope (by rw [h]; rfl)
    refine .bind (scopeMark_leads ht.legible hc hscope) fun _ d ⟨hd, h0, hj, htext⟩ => ?_
    refine .bind (.name _) fun n e ⟨t, ts, wordClass, hr, hk, hn, he⟩ => ?_
    subst he
    rw [hr] at hj
    exact named_leads ht hc (Scene.spells_scoped ht.legible hd h0 htext hr hj hk hn)
  · rw [not_not.1 hscope]
    refine .here fun hon => .bind (.name _) fun n e ⟨t, ts, wordClass, hr, hk, hn, he⟩ => ?_
    subst he
    have hc : S.Whole c := Scene.whole_of_head hon (by rw [hr, List.headD_cons, hk]; simp)
    exact named_leads ht hc (Scene.spells_name ht.legible hc hr hk hn)

/-- It is shown of a reference that is read. -/
theorem reference_chains (ht : Chaining S g) : Chains S Walk.reference (reference g) := fun c => by
  refine ((reference_leads ht).spanned (reference_steady ht.laying.advancing).sound
    (reference_eats ht.laying.advancing) reference_spans).mono fun r d h => ?_
  obtain ⟨⟨hchain, htold⟩, hreach, hm, hspan⟩ := h
  exact Scene.told_reference.2 ⟨hchain.shows hreach hm hspan, htold⟩

end Parser

end Ndf
