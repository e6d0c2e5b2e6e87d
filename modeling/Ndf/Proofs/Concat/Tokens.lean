/-
# The tokens of two texts behind each other

Two texts with a line break between them: the tokens of the first, and the tokens of the second
moved behind it (`TokenStream.ofText_append`).  The first text may leave `guid` open but not
`guid :`, and the second starts with a name, which is no longer joined to the front of its text.
-/

import Ndf.Proofs.Token.Position

namespace Ndf

/-- The number of bytes of a text and a line break. -/
def Text.lineBytes (text : List Char) : Nat := byteSize text + 1

/-- The number of line breaks of a text and one more. -/
def Text.lineCount (text : List Char) : Nat := text.count '\n' + 1

namespace Lexer

/-- Behind a text and a line break everything is moved by their size. -/
theorem advance_finish (text : List Char) :
    (ofText text).finish.position.advance '\n' =
      Position.origin.shift (Text.lineBytes text) (Text.lineCount text) := by
  have key : (ofText text).finish.position.offset = Text.byteSize text ∧
      (ofText text).finish.position.line = 1 + text.count '\n' := by
    rw [position_finish]
    by_cases hbom : text.head? = some '\uFEFF'
    · obtain ⟨rest, rfl⟩ := List.head?_eq_some_iff.1 hbom
      rw [Position.offset_after, Position.line_after]
      exact ⟨rfl, by rw [List.count_cons_of_ne (by decide)]; rfl⟩
    · rw [ofText_of_head? hbom, Position.offset_after, Position.line_after]
      exact ⟨Nat.zero_add _, rfl⟩
  rw [Position.advance, if_pos rfl, key.1, key.2, Position.shift, Text.lineBytes, Text.lineCount]
  simp only [Position.origin, Position.mk.injEq, and_true]
  refine ⟨?_, by omega⟩
  rw [show '\n'.utf8Size = 1 by decide]
  omega

/-- With more text behind it, a text starts as it would alone. -/
theorem ofText_append (s t : List Char) :
    ofText (s ++ '\n' :: t) = (ofText s).withRest ((ofText s).rest ++ '\n' :: t) := by
  by_cases hbom : s.head? = some '\uFEFF'
  · obtain ⟨rest, rfl⟩ := List.head?_eq_some_iff.1 hbom
    rfl
  · have hbom' : (s ++ '\n' :: t).head? ≠ some '\uFEFF' := by
      cases s with
      | nil => simp
      | cons c s => simpa using hbom
    rw [ofText_of_head? hbom, ofText_of_head? hbom']
    rfl

/-- **The tokens behind a line break.**  They are those of the text on its own, moved, and the
first that is no comment is not joined. -/
theorem kept_lineBreak {z : Lexer} {text : List Char} (hz : z.guid ≠ .colon) {bytes lines : Nat}
    (hpos : z.position.advance '\n' = Position.origin.shift bytes lines)
    (hbom : text.head? ≠ some '\uFEFF') {t : Token} {ts : List Token} {name : String}
    (hkept : (ofText text).kept = t :: ts) (hname : t.kind = .word name .name) :
    (z.withRest ('\n' :: text)).kept =
        ⟨t.kind, t.span.shift bytes lines, false⟩ :: ts.map (Token.shift bytes lines) ∧
      (z.withRest ('\n' :: text)).steps.filterMap LexStep.problem =
        ((ofText text).steps.filterMap LexStep.problem).map (Diagnostic.shift bytes lines) := by
  -- The same text moved, with what is known of `guid :` before it.
  have hfront := ofText_of_head? hbom
  have hmoved : ((ofText text).shift bytes lines).kept.head? = some (t.shift bytes lines) := by
    rw [kept_shift, hkept]
    rfl
  obtain ⟨htokens, hproblems⟩ := steps_withGuid ((ofText text).shift bytes lines)
    (by rw [hfront]; exact GuidProgress.noConfusion) hz ⟨_, name, hmoved, hname⟩
  have hlexer : ({ (ofText text).shift bytes lines with guid := z.guid } : Lexer) =
      ⟨text, z.position.advance '\n', false, z.guid⟩ := by
    rw [hfront, hpos]
    rfl
  rw [hlexer] at htokens hproblems
  have hall : (Lexer.mk text (z.position.advance '\n') false z.guid).kept =
      (t :: ts).map (Token.shift bytes lines) := by
    rw [← hkept, ← kept_shift, kept, htokens, kept]
  have he : (Lexer.mk text (z.position.advance '\n') false z.guid).next.token.kind ≠ .eof := by
    intro he
    rw [kept_of_eof he, List.map_cons, List.cons.injEq] at hall
    rw [hall.1, Token.shift, hname] at he
    cases he
  generalize hl : Lexer.mk text (z.position.advance '\n') false z.guid = l at *
  have hnext : (z.withRest ('\n' :: text)).next =
      ⟨⟨l.next.token.kind, l.next.token.span, false⟩, l.next.problem, l.next.next⟩ :=
    next_lineBreak hl.symm he
  rw [List.map_cons] at hall
  constructor
  · cases ht : l.next.token.kind.isTrivia with
    | true =>
      obtain ⟨-, -, -, -, hc⟩ := next_of_ne_eof he
      rw [kept_of_isTrivia ht] at hall
      rw [kept_of_isTrivia (by rwa [hnext]), hnext, hall]
      have := joined_head_kept l.next.next (hc.trans ht) (t.shift bytes lines) (by rw [hall]; rfl)
      rw [← this]
      rfl
    | false =>
      rw [kept_of_not_isTrivia ht he, List.cons.injEq] at hall
      rw [kept_of_not_isTrivia (by rwa [hnext]) (by rwa [hnext]), hnext, hall.2, hall.1]
      rfl
  · have hsteps : (z.withRest ('\n' :: text)).steps.filterMap LexStep.problem =
        l.steps.filterMap LexStep.problem := by
      rw [steps, dif_neg (by rwa [hnext]), hnext, List.filterMap_cons, steps.eq_def l, dif_neg he,
        List.filterMap_cons]
    rw [hsteps, hproblems, steps_shift, List.filterMap_map, List.map_filterMap]
    rfl

end Lexer

/-- The tokens of a source are those kept in front of its end. -/
theorem TokenStream.ofText_eq_kept (s : String) :
    TokenStream.ofText s =
      ⟨(Lexer.ofText s.toList).kept.dropLast,
        (Lexer.ofText s.toList).kept.getLastD ⟨.eof, Span.origin, true⟩,
        (Lexer.ofText s.toList).steps.filterMap LexStep.problem⟩ := rfl

/-- The end of a source is the last of its tokens that are no comments. -/
theorem TokenStream.kept_eq (s : String) :
    (Lexer.ofText s.toList).kept =
      (TokenStream.ofText s).tokens ++ [(TokenStream.ofText s).stop] := by
  have hne := (Lexer.ofText s.toList).kept_ne_nil
  rw [TokenStream.ofText_eq_kept, List.getLastD_eq_getLast?, List.getLast?_eq_getLast_of_ne_nil hne]
  exact (List.dropLast_append_getLast hne).symm

/-- **The tokens of two texts behind each other.** -/
theorem TokenStream.ofText_append {s t : String} (quiet : (TokenStream.ofText s).diagnostics = [])
    (last : ∀ u ∈ (TokenStream.ofText s).tokens.getLast?, u.kind ≠ .colon)
    (front : t.toList.head? ≠ some '\uFEFF') {u : Token} {us : List Token} {name : String}
    (first : (TokenStream.ofText t).tokens = u :: us) (hname : u.kind = .word name .name) :
    TokenStream.ofText (s ++ "\n" ++ t) =
      { tokens := (TokenStream.ofText s).tokens ++
          ⟨u.kind, u.span.shift (Text.lineBytes s.toList) (Text.lineCount s.toList), false⟩ ::
            us.map (Token.shift (Text.lineBytes s.toList) (Text.lineCount s.toList))
        stop := (TokenStream.ofText t).stop.shift (Text.lineBytes s.toList)
          (Text.lineCount s.toList)
        diagnostics := (TokenStream.ofText t).diagnostics.map
          (Diagnostic.shift (Text.lineBytes s.toList) (Text.lineCount s.toList)) } := by
  have hlist : (s ++ "\n" ++ t).toList = s.toList ++ '\n' :: t.toList := by
    simp
  have hquiet : ∀ x ∈ (Lexer.ofText s.toList).steps, x.problem = none := by
    intro x hx
    by_contra hne
    obtain ⟨d, hd⟩ := Option.ne_none_iff_exists'.1 hne
    have : d ∈ (TokenStream.ofText s).diagnostics := List.mem_filterMap.2 ⟨x, hx, hd⟩
    rw [quiet] at this
    cases this
  have hguid : (Lexer.ofText s.toList).finish.guid ≠ .colon := by
    intro h
    rcases Lexer.guid_finish _ h with ⟨x, hx, hk⟩ | ⟨hg, -⟩
    · exact last x hx hk
    · unfold Lexer.ofText at hg
      split at hg <;> cases hg
  obtain ⟨hkept, hproblems⟩ := Lexer.kept_append (Lexer.ofText s.toList) hquiet t.toList
  have hsecond : (Lexer.ofText t.toList).kept = u :: (us ++ [(TokenStream.ofText t).stop]) := by
    rw [TokenStream.kept_eq, first, List.cons_append]
  obtain ⟨hkept', hproblems'⟩ := Lexer.kept_lineBreak hguid (Lexer.advance_finish s.toList) front
    hsecond hname
  rw [hkept', List.map_append, List.map_singleton, ← List.cons_append, ← List.append_assoc] at hkept
  rw [TokenStream.ofText_eq_kept (s ++ "\n" ++ t), hlist, Lexer.ofText_append, hkept, hproblems,
    hproblems', List.dropLast_concat, List.getLastD_concat]
  rfl

end Ndf
