/-
# Places in a source while it is read

A `Scene` is a source, the tokens that the grammar sees of it, and what is known of them: they are
in order and none is empty, their ends fall between characters of the text, and the broken ones
among them are reported, up to those that are left to the grammar.  `Cursor.On` says of a cursor
that it can be got to from in front of all tokens.

Between the last token that was read and the next one nothing starts (`Cursor.On.lt_or_le`), so a
fragment that is cut out between two such places ends right in front of the next token
(`Scene.explains_upTo`), and it can be cut out of the text (`Scene.Placed.slice?_isSome`).
-/

import Ndf.Proofs.Parser.Coverage
import Ndf.Proofs.Token.Sign

namespace Ndf

namespace Text

/-- A byte offset between two characters of a text, or at one of its ends. -/
def Edge (text : List Char) (n : Nat) : Prop :=
  ∃ before after, text = before ++ after ∧ byteSize before = n

/-- What lies between two places in order can be cut out. -/
theorem slice?_isSome {text : List Char} {a b : Nat} (ha : Edge text a) (hb : Edge text b)
    (h : a ≤ b) : (slice? text a b).isSome = true := by
  obtain ⟨front, rest, rfl, rfl⟩ := ha
  obtain ⟨before, after, heq, rfl⟩ := hb
  rcases List.append_eq_append_iff.1 heq with ⟨mid, rfl, rfl⟩ | ⟨mid, rfl, rfl⟩
  · rw [byteSize_append, slice?_append]
    rfl
  · rw [byteSize_append] at h
    obtain rfl : mid = [] := eq_nil_of_byteSize (by omega)
    have := slice?_append before [] rest
    simp only [byteSize_nil, Nat.add_zero, List.nil_append] at this
    rw [List.append_nil, this]
    rfl

/-- A piece of a text that can be cut out has its ends between two characters. -/
theorem Edge.of_slice? {text word : List Char} {a b : Nat} (h : slice? text a b = some word) :
    Edge text a ∧ Edge text b := by
  obtain ⟨front, rest, rfl, rfl, rfl⟩ := eq_append_of_slice? h
  exact ⟨⟨front, word ++ rest, rfl, rfl⟩, ⟨front ++ word, rest, by simp, by simp⟩⟩

end Text

/-! ### What tokenizing leaves to the grammar -/

namespace Lexeme

/-- The two halves of a `>=` are characters of their own. -/
theorem text_of_gtEq {payload : Bool} {c : Char} {rest : List Char}
    (h : (scan payload c rest).kind = .gtEq) : (scan payload c rest).text = ['>', '='] :=
  text_of_sign (by rw [h]; rfl)

end Lexeme

namespace Lexer

open Text (byteSize isBlank)

variable {text : List Char} {l : Lexer}

/-- A `>=` can be cut in two, and takes two bytes. -/
theorem At.edge_of_gtEq (h : At text l) (hk : l.next.token.kind = .gtEq) :
    Text.Edge text (l.next.token.span.start + 1) ∧
      l.next.token.span.start + 1 < l.next.token.span.stop := by
  obtain ⟨before, c, rest, rfl, -, hkind, hstart, hstop⟩ := h.stands (by rw [hk]; simp)
  have htext := Lexeme.text_of_gtEq (hkind ▸ hk)
  have hsplit := Lexeme.scan_split (l.guid == .colon) c rest
  rw [htext, List.cons_append, List.cons.injEq] at hsplit
  refine ⟨⟨before ++ ['>'], rest, by rw [← hsplit.1]; simp, ?_⟩, ?_⟩
  · simp [hstart, Char.utf8Size]
  · simp [hstart, hstop, htext, Char.utf8Size]

/-- What is known of a token of a source and the problem that it shows. -/
structure Shows (text : List Char) (x : LexStep) : Prop where
  edges : Text.Edge text x.token.span.start ∧ Text.Edge text x.token.span.stop
  halves : x.token.kind = .gtEq →
    Text.Edge text (x.token.span.start + 1) ∧ x.token.span.start + 1 < x.token.span.stop
  problem : ∀ d, x.problem = some d → d.span = x.token.span
  silent : x.token.kind = .eof → x.problem = none

/-- The next token shows its piece of the text. -/
theorem At.shows (h : At text l) : Shows text l.next where
  edges := by
    by_cases he : l.next.token.kind = .eof
    · obtain ⟨hs, ht⟩ := h.stop_eof he
      rw [hs, ht]
      exact ⟨⟨text, [], by simp, rfl⟩, ⟨text, [], by simp, rfl⟩⟩
    · obtain ⟨word, -, hw, -⟩ := h.slice?_next he
      exact Text.Edge.of_slice? hw
  halves := h.edge_of_gtEq
  problem d hd := by
    rcases hr : l.rest.dropWhile isBlank with _ | ⟨c, rest⟩
    · rw [next_eq_eof hr] at hd
      cases hd
    · rw [next_eq_scan hr] at hd ⊢
      obtain ⟨cause, -, rfl⟩ := Option.map_eq_some_iff.1 hd
      rfl
  silent he := by rw [next_eq_eof (next_of_eof he).1]

/-- So do all tokens that follow. -/
theorem At.steps_show (h : At text l) : ∀ x ∈ l.steps, Shows text x := fun x hx => by
  obtain ⟨l', h', rfl⟩ := h.exists_next hx
  exact h'.shows

end Lexer

/-- A problem that tokenizing reports is that of a token that covers something, and covers it. -/
theorem covers_of_problem {source : String} {x : LexStep} {d : Diagnostic}
    (hx : x ∈ (Lexer.ofText source.toList).steps) (hd : x.problem = some d) :
    d.span = x.token.span ∧ x.token.span.start < x.token.span.stop := by
  have shows := (Lexer.ofText_at source.toList).steps_show x hx
  refine ⟨shows.problem d hd,
    ((cover_tokenize source).ne_eof_iff_lt (List.mem_map_of_mem hx)).1 fun he => ?_⟩
  rw [shows.silent he] at hd
  cases hd

/-! ### Scenes -/

/-- A source and the tokens that the grammar sees of it. -/
structure Scene where
  source : Source
  tokens : List Token
  /-- Where tokenizing reported a problem. -/
  reported : Nat → Prop
  ended : source.Ended
  ordered : (tokens ++ [source.stop]).Pairwise fun a b => a.span.stop ≤ b.span.start
  nonempty : ∀ t ∈ tokens, t.span.start < t.span.stop
  seen : ∀ t ∈ tokens, t.kind ≠ .eof
  reports : ∀ t ∈ tokens, ∀ e, t.kind = .error e → e.isReported = true → reported t.span.start
  edges : ∀ t ∈ tokens ++ [source.stop],
    Text.Edge source.text t.span.start ∧ Text.Edge source.text t.span.stop
  halves : ∀ t ∈ tokens, t.kind = .gtEq →
    Text.Edge source.text (t.span.start + 1) ∧ t.span.start + 1 < t.span.stop

/-- The tokens that the grammar sees, and the end of the source. -/
theorem ofText_append_stop (source : String) :
    (TokenStream.ofText source).tokens ++ [(TokenStream.ofText source).stop] =
      (tokenize source).tokens.filter fun t => !t.kind.isTrivia := by
  have hne : (tokenize source).tokens.filter (fun t => !t.kind.isTrivia) ≠ [] := by
    obtain ⟨last, hlast, hkind, -⟩ := (cover_tokenize source).last
    have hmem := List.mem_of_getLast? hlast
    exact List.ne_nil_of_mem (List.mem_filter.2 ⟨hmem, by simp [hkind, TokenKind.isTrivia]⟩)
  show List.dropLast _ ++ [List.getLastD _ _] = _
  rw [List.getLastD_eq_getLast?, List.getLast?_eq_some_getLast hne, Option.getD_some,
    List.dropLast_append_getLast hne]

/-- The end of a source is where its text ends. -/
theorem TokenStream.start_stop (s : String) :
    (ofText s).stop.span.start = Text.byteSize s.toList := by
  have cover := cover_tokenize s
  obtain ⟨last, hlast, -, hstart, -⟩ := cover.last
  have hkept : (ofText s).stop ∈ (ofText s).tokens ++ [(ofText s).stop] := by simp
  have hmem : (ofText s).stop ∈ (tokenize s).tokens :=
    (List.mem_filter.1 (ofText_append_stop s ▸ hkept)).1
  rw [← List.dropLast_append_getLast? last hlast, List.mem_append, List.mem_singleton] at hmem
  rcases hmem with hmem | hmem
  · exact absurd (ofText_eq s).2 (cover.covers _ hmem).1
  · rw [hmem, hstart]

/-- The scene of a source text. -/
def Scene.ofText (source : String) : Scene where
  source := ⟨source.toList, (TokenStream.ofText source).stop⟩
  tokens := (TokenStream.ofText source).tokens
  reported n := ∃ d ∈ (TokenStream.ofText source).diagnostics, d.span.start = n
  ended := (ofText_eq source).2
  ordered := by
    rw [ofText_append_stop]
    exact ((cover_tokenize source).pairwise.sublist List.filter_sublist).imp fun h => h.1
  nonempty t ht := by
    rw [(ofText_eq source).1] at ht
    obtain ⟨hmem, -, hkind⟩ := mem_visibleTokens ht
    exact ((cover_tokenize source).ne_eof_iff_lt hmem).1 hkind
  seen t ht := by
    rw [(ofText_eq source).1] at ht
    exact (mem_visibleTokens ht).2.2
  reports t ht e hk he := by
    rw [(ofText_eq source).1] at ht
    obtain ⟨x, hx, rfl⟩ := List.mem_map.1 (mem_visibleTokens ht).1
    obtain ⟨d, hd⟩ := Option.ne_none_iff_exists'.1 (Lexer.problem_of_isReported hx hk he)
    refine ⟨d, List.mem_filterMap.2 ⟨x, hx, hd⟩, ?_⟩
    rw [((Lexer.ofText_at source.toList).steps_show x hx).problem d hd]
  edges t ht := by
    rw [ofText_append_stop] at ht
    obtain ⟨x, hx, rfl⟩ := List.mem_map.1 (List.mem_filter.1 ht).1
    exact ((Lexer.ofText_at source.toList).steps_show x hx).edges
  halves t ht := by
    rw [(ofText_eq source).1] at ht
    obtain ⟨x, hx, rfl⟩ := List.mem_map.1 (mem_visibleTokens ht).1
    exact ((Lexer.ofText_at source.toList).steps_show x hx).halves

/-! ### Places -/

namespace Cursor

variable {c d : Cursor} {ts : List Token}

/-- A place that can be got to from in front of all tokens. -/
def On (ts : List Token) (c : Cursor) : Prop :=
  (⟨ts, 0, Span.origin, c.depth⟩ : Cursor).Reaches c

/-- The first place lies in the tokens. -/
theorem On.start (ts : List Token) : (start ts).On ts := .refl _

/-- So does every place that is got to from one of them. -/
theorem On.reaches (hc : c.On ts) (h : c.Reaches d) : d.On ts := by
  rw [On, h.depth]
  exact Reaches.trans hc h

/-- So does it one level deeper. -/
theorem On.down (hc : c.On ts) : c.down.On ts := by
  rcases hc with ⟨u, h⟩ | ⟨u, t, rest, h⟩
  · exact .inl ⟨u, h.rest, h.read, rfl⟩
  · exact .inr ⟨u, t, rest, h.nonempty, h.rest, h.behind, h.kind, h.read, h.last, rfl⟩

/-- A token that is left is one of all tokens or the second half of one. -/
theorem On.mem_rest (hc : c.On ts) {t : Token} (ht : t ∈ c.rest) :
    t ∈ ts ∨ ∃ s ∈ ts, s.kind = .gtEq ∧ t = s.secondHalf := by
  rcases hc with ⟨u, h⟩ | ⟨u, s, rest, h⟩
  · have hrest : ts = u ++ c.rest := h.rest
    exact .inl (hrest ▸ List.mem_append_right u ht)
  · have hrest : ts = u ++ s :: rest := h.rest
    rw [h.behind, List.mem_cons] at ht
    rcases ht with rfl | ht
    · exact .inr ⟨s, by simp [hrest], h.kind, rfl⟩
    · exact .inl (by simp [hrest, ht])

end Cursor

namespace Scene

variable {S : Scene} {c d : Cursor}

/-- Where the next token starts. -/
def next (S : Scene) (c : Cursor) : Nat := (c.rest.headD S.source.stop).span.start

/-- At the end the next token is the final one. -/
theorem next_nil (h : c.rest = []) : S.next c = S.source.stop.span.start := by
  rw [next, h, List.headD_nil]

/-- Before it the first one left is next. -/
theorem next_cons {t : Token} {ts : List Token} (h : c.rest = t :: ts) :
    S.next c = t.span.start := by
  rw [next, h, List.headD_cons]

/-- Tokens do not overlap. -/
theorem stop_le_of_append {u v : List Token} {s t : Token} (h : S.tokens = u ++ s :: v)
    (ht : t ∈ v ++ [S.source.stop]) : s.span.stop ≤ t.span.start := by
  have hordered := S.ordered
  rw [h, List.append_assoc, List.cons_append] at hordered
  exact (List.pairwise_cons.1 (List.pairwise_append.1 hordered).2.1).1 t ht

/-- Nothing that is left starts in front of the next token. -/
theorem next_le_start (hc : c.On S.tokens) {t : Token} (ht : t ∈ c.rest ++ [S.source.stop]) :
    S.next c ≤ t.span.start := by
  rcases hc with ⟨u, h⟩ | ⟨u, s, rest, h⟩
  · rcases hr : c.rest with _ | ⟨s, rest⟩
    · rw [hr, List.nil_append, List.mem_singleton] at ht
      rw [next_nil hr, ht]
    · have hrest : S.tokens = u ++ s :: rest := hr ▸ h.rest
      rw [hr, List.cons_append, List.mem_cons] at ht
      rw [next_cons hr]
      rcases ht with rfl | ht
      · exact Nat.le_refl _
      · have := S.nonempty s (by simp [hrest])
        have := stop_le_of_append hrest ht
        omega
  · have hrest : S.tokens = u ++ s :: rest := h.rest
    rw [h.behind, List.cons_append, List.mem_cons] at ht
    rw [next_cons h.behind]
    rcases ht with rfl | ht
    · exact Nat.le_refl _
    · have := S.nonempty s (by simp [hrest])
      have := stop_le_of_append hrest ht
      show s.span.start + 1 ≤ _
      omega

/-- Reading moves on. -/
theorem next_le (hc : c.On S.tokens) (h : c.Reaches d) : S.next c ≤ S.next d := by
  rcases h with ⟨u, h⟩ | ⟨u, s, rest, h⟩
  · refine next_le_start hc ?_
    rw [h.rest, List.append_assoc]
    refine List.mem_append_right u ?_
    rcases hr : d.rest with _ | ⟨t, ts⟩ <;> simp
  · have := next_le_start hc (t := s) (by simp [h.rest])
    rw [next_cons h.behind]
    show _ ≤ s.span.start + 1
    omega

/-- **Between the last token read and the next one nothing starts.** -/
theorem lt_or_le (hc : c.On S.tokens) {t : Token}
    (ht : t ∈ S.tokens ++ [S.source.stop]) :
    t.span.start < c.last.stop ∨ S.next c ≤ t.span.start := by
  -- The place is between two tokens, or behind the first half of one that was cut in two.
  rcases id hc with ⟨u, hu⟩ | ⟨u, s, rest, hu⟩
  · have hrest : S.tokens = u ++ c.rest := hu.rest
    rw [hrest, List.append_assoc] at ht
    rcases List.mem_append.1 ht with ht | ht
    · have hne : u ≠ [] := List.ne_nil_of_mem ht
      refine .inl ?_
      rw [(hu.moved hne).2]
      have hlast := S.nonempty (u.getLast hne) (by simp [hrest])
      rw [← List.dropLast_append_getLast hne, List.mem_append, List.mem_singleton] at ht
      rcases ht with ht | rfl
      · obtain ⟨v, w, hv⟩ := List.append_of_mem ht
        have hsplit : S.tokens = v ++ t :: (w ++ u.getLast hne :: c.rest) := by
          have hu := List.dropLast_append_getLast hne
          rw [hv] at hu
          rw [hrest]
          conv => lhs; rw [← hu]
          simp
        have := stop_le_of_append hsplit (t := u.getLast hne) (by simp)
        have := S.nonempty t (by simp [hsplit])
        omega
      · exact hlast
    · exact .inr (next_le_start hc ht)
  · have hrest : S.tokens = u ++ s :: rest := hu.rest
    have hstop : c.last.stop = s.span.start + 1 := by
      rw [hu.last]
      rfl
    rw [hrest, List.append_assoc, List.cons_append] at ht
    rcases List.mem_append.1 ht with ht | ht
    · obtain ⟨v, w, hv⟩ := List.append_of_mem ht
      have hsplit : S.tokens = v ++ t :: (w ++ s :: rest) := by
        rw [hrest, hv]
        simp
      have := stop_le_of_append hsplit (t := s) (by simp)
      have := S.nonempty t (by simp [hsplit])
      exact .inl (by omega)
    · rcases List.mem_cons.1 ht with rfl | ht
      · exact .inl (by omega)
      · refine .inr (next_le_start hc ?_)
        rw [hu.behind, List.cons_append]
        exact List.mem_cons_of_mem _ ht

/-! ### Spans from one place to another -/

/-- A span from a mark through what was read since. -/
def Placed (S : Scene) (s : Span) : Prop :=
  ∃ c d, c.On S.tokens ∧ c.Reaches d ∧ s = (Parser.Mark.here S.source c).upTo d

@[simp] theorem start_upTo (S : Scene) (c d : Cursor) :
    ((Parser.Mark.here S.source c).upTo d).start = S.next c := by
  unfold Parser.Mark.upTo
  split <;> rfl

/-- A problem at offset `n` explains an error node: it does not stand before the node, and no token
starts between the node and it. -/
structure Explains (S : Scene) (n : Nat) (s : Span) : Prop where
  start_le : s.start ≤ n
  none_between : ∀ t ∈ S.tokens ++ [S.source.stop], t.span.start < s.stop ∨ n ≤ t.span.start

/-- **A problem at a token of a fragment or at the one behind it explains the fragment.** -/
theorem explains_upTo (hc : c.On S.tokens) (h : c.Reaches d) {n : Nat} (hn : S.next c ≤ n)
    (hd : n ≤ S.next d) : S.Explains n ((Parser.Mark.here S.source c).upTo d) := by
  by_cases hm : c.count < d.count
  · have hs : (Parser.Mark.here S.source c).upTo d =
        (c.rest.headD S.source.stop).span.through d.last := if_pos hm
    rw [hs]
    refine ⟨hn, fun t ht => ?_⟩
    have hle : d.last.stop ≤ ((c.rest.headD S.source.stop).span.through d.last).stop :=
      Nat.le_max_left _ _
    have := lt_or_le (hc.reaches h) ht
    omega
  · have hs : (Parser.Mark.here S.source c).upTo d = (c.rest.headD S.source.stop).span.atStart :=
      if_neg hm
    obtain rfl : d = c := h.eq_or_lt.resolve_right fun hlt => hm hlt.2
    rw [hs]
    refine ⟨hn, fun t _ => ?_⟩
    have hstop : (d.rest.headD S.source.stop).span.atStart.stop = S.next d := rfl
    omega

/-- A token starts between two characters. -/
theorem edge_next (hc : c.On S.tokens) : Text.Edge S.source.text (S.next c) := by
  rcases hr : c.rest with _ | ⟨t, ts⟩
  · rw [next_nil hr]
    exact (S.edges _ (by simp)).1
  · rw [next_cons hr]
    rcases hc.mem_rest (t := t) (by simp [hr]) with ht | ⟨s, hs, hk, rfl⟩
    · exact (S.edges t (by simp [ht])).1
    · exact (S.halves s hs hk).1

/-- It also ends there, and not before its start. -/
theorem edge_stop (hc : c.On S.tokens) {t : Token} (ht : t ∈ c.rest) :
    Text.Edge S.source.text t.span.stop ∧ t.span.start ≤ t.span.stop := by
  rcases hc.mem_rest ht with ht | ⟨s, hs, -, rfl⟩
  · exact ⟨(S.edges t (by simp [ht])).2, Nat.le_of_lt (S.nonempty t ht)⟩
  · exact ⟨(S.edges s (by simp [hs])).2, S.nonempty s hs⟩

/-- So does the last token read. -/
theorem edge_last (hc : c.On S.tokens) (h : 0 < c.count) :
    Text.Edge S.source.text c.last.stop := by
  rcases hc with ⟨u, hu⟩ | ⟨u, s, rest, hu⟩
  · have hne : u ≠ [] := by
      rintro rfl
      rw [hu.nil] at h
      exact absurd h (Nat.lt_irrefl 0)
    have hrest : S.tokens = u ++ c.rest := hu.rest
    rw [(hu.moved hne).2]
    exact (S.edges _ (by simp [hrest])).2
  · have hrest : S.tokens = u ++ s :: rest := hu.rest
    rw [hu.last]
    exact (S.halves s (by simp [hrest]) hu.kind).1

/-- **A fragment can be cut out of the text.** -/
theorem Placed.slice?_isSome {s : Span} (h : S.Placed s) :
    (Text.slice? S.source.text s.start s.stop).isSome = true := by
  obtain ⟨c, d, hc, h, rfl⟩ := h
  by_cases hm : c.count < d.count
  · obtain ⟨t, ts, hr⟩ : ∃ t ts, c.rest = t :: ts := by
      refine List.exists_cons_of_ne_nil fun hnil => ?_
      have := h.count_lt_iff.1 hm
      rw [hnil] at this
      exact absurd this (Nat.not_lt_zero _)
    have hs : (Parser.Mark.here S.source c).upTo d = t.span.through d.last := by
      rw [Parser.Mark.upTo, if_pos (show (Parser.Mark.here S.source c).count < d.count from hm),
        Parser.Mark.here, hr, List.headD_cons]
    obtain ⟨hstop, hle⟩ := edge_stop hc (t := t) (by simp [hr])
    rw [hs]
    refine Text.slice?_isSome (next_cons hr ▸ edge_next hc) ?_
      (Nat.le_trans hle (Span.stop_le_stop_through ..))
    show Text.Edge _ (max d.last.stop t.span.stop)
    rcases Nat.le_total d.last.stop t.span.stop with hmax | hmax
    · rwa [Nat.max_eq_right hmax]
    · rw [Nat.max_eq_left hmax]
      exact edge_last (hc.reaches h) (by omega)
  · have hs : (Parser.Mark.here S.source c).upTo d = (c.rest.headD S.source.stop).span.atStart :=
      if_neg hm
    rw [hs]
    exact Text.slice?_isSome (edge_next hc) (edge_next hc) (Nat.le_refl _)

end Scene

end Ndf
