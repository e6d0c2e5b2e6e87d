/-
# Where braces end

`SPEC_FULL.md` §9, "Shared raw-content scanning", and E5, the nesting of braces.

Between two braces that match, a text falls into plain characters, backslashes that each take the
next character along, and inner bodies in braces of their own (`BraceText`).  Counting open braces
finds the brace that matches: a body is cut off exactly if it is such a text and a closing brace
follows (`Lexeme.braceBody_eq_some_iff`), so there is one body at most.

Whether braces hold a payload or a comment is settled by the two tokens in front that are no
comments (`BehindGuid`).  `tokenize_braces` says of every token of a source that starts with a brace
what it is, where it ends and which problem it shows.
-/

import Ndf.Proofs.Token.Position

namespace Ndf

open Text (byteSize)

/-- What can stand between two braces that match. -/
inductive BraceText : List Char → Prop where
  | nil : BraceText []
  | plain {c : Char} {text : List Char} (hescape : c ≠ '\\') (hopen : c ≠ '\x7b')
      (hclose : c ≠ '\x7d') (h : BraceText text) : BraceText (c :: text)
  | escape {c : Char} {text : List Char} (h : BraceText text) : BraceText ('\\' :: c :: text)
  | braces {inside text : List Char} (hinside : BraceText inside) (h : BraceText text) :
      BraceText ('\x7b' :: (inside ++ '\x7d' :: text))

/-- A text that closes some braces opened before it, one behind the other. -/
inductive Closes : Nat → List Char → Prop where
  | zero {text : List Char} (h : BraceText text) : Closes 0 text
  | succ {depth : Nat} {text rest : List Char} (h : BraceText text) (hrest : Closes depth rest) :
      Closes (depth + 1) (text ++ '\x7d' :: rest)

/-- What can stand in front of any body can stand in front of a text that closes braces. -/
theorem Closes.behind {depth : Nat} {text : List Char} (h : Closes depth text) (front : List Char)
    (hfront : ∀ body, BraceText body → BraceText (front ++ body)) :
    Closes depth (front ++ text) := by
  cases h with
  | zero h => exact .zero (hfront _ h)
  | succ h hrest =>
    rw [← List.append_assoc]
    exact .succ (hfront _ h) hrest

namespace Lexeme

variable {depth : Nat} {text inside rest : List Char}

/-- What is cut off closes the braces that are open. -/
theorem closes_of_braceBody (h : braceBody depth text = some (inside, rest)) :
    Closes depth inside := by
  fun_induction braceBody depth text generalizing inside rest with
  | case1 => cases h
  | case2 depth c tail ih =>
    obtain ⟨⟨u, v⟩, hu, he⟩ := Option.map_eq_some_iff.1 h
    obtain ⟨rfl, rfl⟩ := Prod.mk.inj he
    exact (ih hu).behind ['\\', c] fun _ => .escape
  | case3 depth tail ih =>
    obtain ⟨⟨u, v⟩, hu, he⟩ := Option.map_eq_some_iff.1 h
    obtain ⟨rfl, rfl⟩ := Prod.mk.inj he
    -- The brace that is opened here is the first one to be closed.
    cases ih hu with
    | @succ _ body more hbody hmore =>
      have := hmore.behind ('\x7b' :: (body ++ ['\x7d'])) fun text htext => by
        simpa using BraceText.braces hbody htext
      simpa [push] using this
  | case4 tail =>
    obtain ⟨rfl, rfl⟩ := Prod.mk.inj (Option.some.inj h)
    exact .zero .nil
  | case5 tail depth ih =>
    obtain ⟨⟨u, v⟩, hu, he⟩ := Option.map_eq_some_iff.1 h
    obtain ⟨rfl, rfl⟩ := Prod.mk.inj he
    exact .succ .nil (ih hu)
  | case6 depth c tail hescape hopen hclose ih =>
    obtain ⟨⟨u, v⟩, hu, he⟩ := Option.map_eq_some_iff.1 h
    obtain ⟨rfl, rfl⟩ := Prod.mk.inj he
    have hc : c ≠ '\\' := by
      rintro rfl
      cases tail with
      | nil => cases hu
      | cons d tail => exact hescape d tail rfl rfl
    exact (ih hu).behind [c] fun _ => .plain hc hopen hclose

/-- A body leaves the braces that are open as they are. -/
theorem BraceText.braceBody_append (h : BraceText text) (depth : Nat) (tail : List Char) :
    braceBody depth (text ++ tail) = (braceBody depth tail).map fun s => (text ++ s.1, s.2) := by
  induction h generalizing depth tail with
  | nil => simp
  | plain hescape hopen hclose h ih =>
    rw [List.cons_append, braceBody]
    · rw [ih, Option.map_map]
      rfl
    · exact fun d more hd _ => hescape hd
    · exact hopen
    · exact hclose
  | escape h ih =>
    rw [List.cons_append, List.cons_append, braceBody, ih, Option.map_map]
    rfl
  | @braces inside text hinside h ihinside ih =>
    rw [List.cons_append, List.append_assoc, List.cons_append, braceBody, ihinside, braceBody, ih,
      Option.map_map, Option.map_map, Option.map_map]
    congr 1
    funext s
    simp [push]

/-- **A body is cut off at the brace that matches.** -/
theorem braceBody_eq_some_iff : braceBody 0 text = some (inside, rest) ↔
    text = inside ++ '\x7d' :: rest ∧ BraceText inside := by
  constructor
  · intro h
    cases closes_of_braceBody h with
    | zero hinside => exact ⟨(braceBody_split h).symm, hinside⟩
  · rintro ⟨rfl, hinside⟩
    rw [BraceText.braceBody_append hinside, braceBody, Option.map_some, List.append_nil]

/-- Two bodies that start at one place and are both closed are the same. -/
theorem BraceText.unique {a b c d : List Char} (ha : BraceText a) (hb : BraceText b)
    (h : a ++ '\x7d' :: c = b ++ '\x7d' :: d) : a = b :=
  congrArg Prod.fst (Option.some.inj ((braceBody_eq_some_iff.2 ⟨rfl, ha⟩).symm.trans
    (braceBody_eq_some_iff.2 ⟨h, hb⟩)))

/-- Without a closing brace that matches there is no body. -/
theorem braceBody_eq_none_iff : braceBody 0 text = none ↔
    ∀ inside rest, text = inside ++ '\x7d' :: rest → ¬ BraceText inside := by
  rw [Option.eq_none_iff_forall_ne_some]
  constructor
  · exact fun h inside rest htext hinside => h _ (braceBody_eq_some_iff.2 ⟨htext, hinside⟩)
  · rintro h ⟨inside, rest⟩ hsome
    obtain ⟨htext, hinside⟩ := braceBody_eq_some_iff.1 hsome
    exact h inside rest htext hinside

/-- Braces that are closed, by what they hold. -/
theorem scan_braces_of_some {payload : Bool} (h : braceBody 0 text = some (inside, rest)) :
    scan payload '\x7b' text =
      { kind := if payload then .guidBody (String.ofList inside) else .comment .brace
        text := '\x7b' :: inside ++ ['\x7d'], rest := rest } := by
  cases payload with
  | true => exact (guidBody.eq_def text).trans (by rw [h]; rfl)
  | false => exact (braceComment.eq_def text).trans (by rw [h]; rfl)

/-- Braces that are never closed take the text with them. -/
theorem scan_braces_of_none {payload : Bool} (h : braceBody 0 text = none) :
    scan payload '\x7b' text =
      { kind := if payload then .error .unterminatedBrace else .comment .brace
        text := '\x7b' :: text, rest := []
        problem := some (if payload then .unclosedPayload else .unclosedBrace) } := by
  cases payload with
  | true => exact (guidBody.eq_def text).trans (by rw [h]; rfl)
  | false => exact (braceComment.eq_def text).trans (by rw [h]; rfl)

end Lexeme

/-! ### What stands in front -/

namespace GuidProgress

variable {progress : GuidProgress} {kind : TokenKind}

/-- The word for a payload is behind us exactly if it was the last token. -/
theorem step_eq_word_iff (h : kind.isTrivia = false) :
    progress.step kind = .word ↔ kind.keyword? = some .guid := by
  rw [step, if_neg (by simp [h])]
  split
  · simp_all
  · split <;> simp_all

/-- The colon is if it was the last one and that word stood in front of it. -/
theorem step_eq_colon_iff (h : kind.isTrivia = false) :
    progress.step kind = .colon ↔ kind = .colon ∧ progress = .word := by
  rw [step, if_neg (by simp [h])]
  split
  · rename_i hword
    refine iff_of_false GuidProgress.noConfusion ?_
    rintro ⟨rfl, -⟩
    cases hword
  · split <;> simp_all

/-- Comments leave the progress as it is. -/
theorem foldl_filter (tokens : List Token) (progress : GuidProgress) :
    (tokens.filter fun t => !t.kind.isTrivia).foldl (fun g t => g.step t.kind) progress =
      tokens.foldl (fun g t => g.step t.kind) progress := by
  rw [List.foldl_filter]
  congr 1
  funext g t
  cases h : t.kind.isTrivia with
  | true => simp [step, h]
  | false => simp

end GuidProgress

/-- The last two tokens that are no comments are the keyword `guid` and a colon. -/
def BehindGuid (before : List Token) : Prop :=
  ∃ front word colon, before.filter (fun t => !t.kind.isTrivia) = front ++ [word, colon] ∧
    word.kind.keyword? = some .guid ∧ colon.kind = .colon

/-- The lexer knows whether `guid :` stands in front. -/
theorem foldl_eq_colon_iff (before : List Token) :
    before.foldl (fun g t => g.step t.kind) GuidProgress.none = .colon ↔ BehindGuid before := by
  have visible : ∀ t ∈ before.filter fun t => !t.kind.isTrivia, t.kind.isTrivia = false := by
    simp
  rw [← GuidProgress.foldl_filter, BehindGuid]
  revert visible
  generalize before.filter (fun t => !t.kind.isTrivia) = kept
  intro visible
  -- The last token has to be the colon, and the one before it the keyword.
  rcases kept.eq_nil_or_concat' with rfl | ⟨kept, colon, rfl⟩
  · simp
  · rw [List.foldl_concat, GuidProgress.step_eq_colon_iff (visible _ (by simp))]
    rcases kept.eq_nil_or_concat' with rfl | ⟨front, word, rfl⟩
    · refine iff_of_false (by simp) ?_
      rintro ⟨front, word, colon', h, -⟩
      simpa using congrArg List.length h
    · rw [List.foldl_concat, GuidProgress.step_eq_word_iff (visible _ (by simp))]
      constructor
      · rintro ⟨hcolon, hword⟩
        exact ⟨front, word, colon, by simp, hword, hcolon⟩
      · rintro ⟨front', word', colon', h, hword, hcolon⟩
        rw [List.append_assoc, List.singleton_append] at h
        obtain ⟨hw, hc⟩ := List.cons.inj (List.append_inj' h rfl).2
        obtain ⟨rfl, -⟩ := List.cons.inj hc
        exact ⟨hcolon, hw ▸ hword⟩

namespace Lexer

variable {l : Lexer} {x : LexStep} {pre post : List LexStep}

/-- Where a token is cut off, and with which progress. -/
theorem exists_of_steps_eq (h : l.steps = pre ++ x :: post) :
    ∃ l' : Lexer, l'.next = x ∧
      l'.guid = (pre.map LexStep.token).foldl (fun g t => g.step t.kind) l.guid ∧
      ∀ text, At text l → At text l' := by
  induction pre generalizing l with
  | nil =>
    have hhead := l.head?_steps
    rw [h] at hhead
    exact ⟨l, (Option.some.inj hhead).symm, rfl, fun _ => id⟩
  | cons y pre ih =>
    rw [steps] at h
    split at h
    · simp at h
    · rename_i he
      obtain ⟨rfl, hnext⟩ := List.cons.inj h
      obtain ⟨l', hl', hguid, hat⟩ := ih hnext
      rw [guid_next he] at hguid
      exact ⟨l', hl', hguid, fun text htext => hat text htext.next⟩

end Lexer

/-- The problems that lie in a token are the one that it shows, if any. -/
theorem filter_encloses {source : String} {x : LexStep} {pre post : List LexStep}
    (h : (Lexer.ofText source.toList).steps = pre ++ x :: post) :
    (tokenize source).diagnostics.filter (fun d => x.token.span.encloses d.span) =
      x.problem.toList := by
  have pairwise := (cover_tokenize source).pairwise
  rw [tokenize, h, List.pairwise_map, List.pairwise_append, List.pairwise_cons] at pairwise
  obtain ⟨-, ⟨hpost, -⟩, hpre⟩ := pairwise
  have outside {ys : List LexStep} (hys : ∀ y ∈ ys, y ∈ pre ++ x :: post ∧
      (y.token.span.stop ≤ x.token.span.start ∨ x.token.span.stop ≤ y.token.span.start)) :
      (ys.filterMap LexStep.problem).filter (fun d => x.token.span.encloses d.span) = [] := by
    refine List.filter_eq_nil_iff.2 fun d hd => ?_
    obtain ⟨y, hy, hd⟩ := List.mem_filterMap.1 hd
    obtain ⟨hmem, hout⟩ := hys y hy
    obtain ⟨hspan, hlt⟩ := covers_of_problem (h ▸ hmem) hd
    rw [hspan, Span.encloses_iff]
    omega
  have left := outside fun y hy =>
    ⟨List.mem_append_left _ hy, .inl (hpre y hy x (List.mem_cons_self ..)).1⟩
  have right := outside fun y hy => ⟨by simp [hy], .inr (hpost y hy).1⟩
  rw [tokenize, h, List.filterMap_append, List.filterMap_cons, List.filter_append, left,
    List.nil_append]
  cases hx : x.problem with
  | none => exact right
  | some d =>
    have hself : x.token.span.encloses d.span = true := by
      have hmem : x ∈ (Lexer.ofText source.toList).steps := by simp [h]
      rw [(covers_of_problem hmem hx).1, Span.encloses_iff]
      exact ⟨Nat.le_refl _, Nat.le_refl _⟩
    show List.filter _ (d :: post.filterMap LexStep.problem) = [d]
    rw [List.filter_cons, if_pos hself, right]

/-- **The lexer knows what stands in front of a token.**  A token that starts with a brace is
scanned as a payload if `guid :` stands in front of it and as a comment elsewhere, and the problems
that lie in it are those of the scan. -/
theorem scanned_braces {source : String} {before after : List Token} {t : Token}
    (split : (tokenize source).tokens = before ++ t :: after) {front text : List Char}
    (starts : source.toList = front ++ '\x7b' :: text) (place : t.span.start = byteSize front) :
    ∃ payload, (payload = true ↔ BehindGuid before) ∧
      t.kind = (Lexeme.scan payload '\x7b' text).kind ∧
      t.span.stop = byteSize (front ++ (Lexeme.scan payload '\x7b' text).text) ∧
      (tokenize source).diagnostics.filter (fun d => t.span.encloses d.span) =
        ((Lexeme.scan payload '\x7b' text).problem.map (Diagnostic.ofCause · t.span)).toList := by
  obtain ⟨pre, tail, hsteps, rfl, htail⟩ := List.map_eq_append_iff.1 split
  obtain ⟨x, post, rfl, rfl, -⟩ := List.map_eq_cons_iff.1 htail
  obtain ⟨l, rfl, hguid, hat⟩ := Lexer.exists_of_steps_eq hsteps
  have hat := hat _ (Lexer.ofText_at source.toList)
  have ne_eof : l.next.token.kind ≠ .eof := by
    intro he
    have hend := (hat.stop_eof he).1
    rw [place, starts, Text.byteSize_append, Text.byteSize_cons] at hend
    have := Char.utf8Size_pos '\x7b'
    omega
  obtain ⟨front', c, text', htext, -, hkind, hstart, hstop, hproblem⟩ := hat.scans ne_eof
  obtain ⟨rfl, hc⟩ := Text.eq_of_byteSize (starts.symm.trans htext) (place.symm.trans hstart)
  obtain ⟨rfl, rfl⟩ := List.cons.inj hc
  have hfirst : (Lexer.ofText source.toList).guid = .none := by
    unfold Lexer.ofText
    split <;> rfl
  refine ⟨l.guid == .colon, ?_, hkind, hstop, ?_⟩
  · rw [beq_iff_eq, hguid, hfirst, foldl_eq_colon_iff]
  · rw [filter_encloses hsteps, hproblem]

/-- What is said of a token with the tokens `before` in front of it, which starts with a brace that
`text` follows. -/
structure Braced (source : String) (before : List Token) (t : Token) (text : List Char) : Prop where
  /-- A payload stands behind `guid :` and nowhere else, and so does what is left of a payload. -/
  payload : (∃ raw, t.kind = .guidBody raw) ∨ t.kind = .error .unterminatedBrace ↔ BehindGuid before
  /-- Elsewhere braces hold a comment. -/
  comment : ¬ BehindGuid before → t.kind = .comment .brace
  /-- One brace at most matches. -/
  unique : ∀ {a b c d : List Char}, BraceText a → BraceText b → text = a ++ '\x7d' :: c →
    text = b ++ '\x7d' :: d → a = b
  /-- The token ends behind the brace that matches, and shows no problem. -/
  closed : ∀ {body rest : List Char}, BraceText body → text = body ++ '\x7d' :: rest →
    t.span.stop = t.span.start + byteSize ('\x7b' :: (body ++ ['\x7d'])) ∧
      (BehindGuid before → t.kind = .guidBody (String.ofList body)) ∧
      (tokenize source).diagnostics.filter (fun d => t.span.encloses d.span) = []
  /-- Without such a brace it runs to the end of the source, and shows one problem. -/
  unclosed : (∀ body rest, text = body ++ '\x7d' :: rest → ¬ BraceText body) →
    t.span.stop = byteSize source.toList ∧
      (BehindGuid before → t.kind = .error .unterminatedBrace) ∧
      ∃ d, (tokenize source).diagnostics.filter (fun d => t.span.encloses d.span) = [d] ∧
        d.kind = .unterminatedBraceBody ∧ d.span = t.span

/-- **Braces end where they match, and hold what stands in front of them says.** -/
theorem tokenize_braces {source : String} {before after : List Token} {t : Token}
    (split : (tokenize source).tokens = before ++ t :: after) {front text : List Char}
    (starts : source.toList = front ++ '\x7b' :: text) (place : t.span.start = byteSize front) :
    Braced source before t text := by
  obtain ⟨payload, progress, hkind, hstop, hproblem⟩ := scanned_braces split starts place
  have unique {a b c d : List Char} (ha : BraceText a) (hb : BraceText b)
      (hac : text = a ++ '\x7d' :: c) (hbd : text = b ++ '\x7d' :: d) : a = b :=
    Lexeme.BraceText.unique ha hb (hac.symm.trans hbd)
  cases hbody : Lexeme.braceBody 0 text with
  | some cut =>
    obtain ⟨inside, rest⟩ := cut
    obtain ⟨hcut, hinside⟩ := Lexeme.braceBody_eq_some_iff.1 hbody
    rw [Lexeme.scan_braces_of_some hbody] at hkind hstop hproblem
    refine ⟨?_, fun hout => ?_, unique, fun {body more} hb ht => ?_, fun hnone => ?_⟩
    · rw [hkind, ← progress]
      cases payload <;> simp
    · rw [hkind, if_neg fun hp => hout (progress.1 hp)]
    · obtain rfl := unique hb hinside ht hcut
      refine ⟨by rw [hstop, place, Text.byteSize_append]; rfl, fun hin => ?_, ?_⟩
      · rw [hkind, if_pos (progress.2 hin)]
      · rw [hproblem]
        rfl
    · exact absurd hinside (hnone _ _ hcut)
  | none =>
    rw [Lexeme.scan_braces_of_none hbody] at hkind hstop hproblem
    refine ⟨?_, fun hout => ?_, unique, fun {body more} hb ht => ?_, fun _ => ⟨?_, ?_, ?_⟩⟩
    · rw [hkind, ← progress]
      cases payload <;> simp
    · rw [hkind, if_neg fun hp => hout (progress.1 hp)]
    · exact absurd hb (Lexeme.braceBody_eq_none_iff.1 hbody _ _ ht)
    · rw [hstop, starts]
    · exact fun hin => by rw [hkind, if_pos (progress.2 hin)]
    · rw [hproblem]
      exact ⟨_, rfl, by cases payload <;> rfl, rfl⟩

/-- The brace behind a backslash matches none. -/
theorem tokenize_braces_escape : ∃ before after t front text,
    (tokenize "guid:\x7b\\\x7d\x7d").tokens = before ++ t :: after ∧
    "guid:\x7b\\\x7d\x7d".toList = front ++ '\x7b' :: text ∧ t.span.start = byteSize front ∧
    Braced "guid:\x7b\\\x7d\x7d" before t text :=
  have split : (tokenize "guid:\x7b\\\x7d\x7d").tokens =
      (tokenize "guid:\x7b\\\x7d\x7d").tokens.take 2 ++ ⟨.guidBody "\\\x7d", ⟨5, 9, 1, 6⟩, true⟩ ::
        (tokenize "guid:\x7b\\\x7d\x7d").tokens.drop 3 := by decide +kernel
  have starts : "guid:\x7b\\\x7d\x7d".toList =
      "guid:".toList ++ '\x7b' :: ['\\', '\x7d', '\x7d'] := by decide +kernel
  ⟨_, _, _, _, _, split, starts, by decide, tokenize_braces split starts (by decide)⟩

end Ndf
