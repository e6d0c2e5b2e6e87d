/-
# Input that lacks a line

If a source has problems but none once a line is added, the parser ran out of it: all problems lie
at its end (`parse_late`), or a comment or a payload is open there.  So `Input.isComplete` is right
to ask for another line (`Input.isComplete_eq_false_iff`), but for three ends of a source that it
does not see through.  One of these are two words that a third one would bind, if the parser took
them one by one and had to report one of them (`Settled`).
-/

import Ndf.Proofs.Concat.Document
import Ndf.Proofs.Nodes.Position
import Ndf.Proofs.Unfinished.Items
import Ndf.Proofs.Unfinished.Tokens
import Ndf.Session.Pending

namespace Ndf

open Ndf.Parser (nextItem loop maxNesting)

/-- The last two tokens of a source are words that a third one would bind. -/
def Unbound (s : String) (t u : Token) : Prop :=
  [t, u] <:+ visibleTokens s ∧ Lookahead.dangles t u = true

/-- If the last two tokens of a source are words that a third one would bind, no problem lies at
them. -/
def Settled (s : String) : Prop :=
  ∀ t u, Unbound s t u → ∀ d ∈ (parse s).diagnostics, t.span.start ≤ d.span.start →
    Text.byteSize s.toList ≤ d.span.start

/-- Two last tokens stand one behind the other, in front of the end. -/
theorem Unbound.ordered {s : String} {t u : Token} (h : Unbound s t u) :
    t.span.start ≤ u.span.start ∧ t.span.start ≤ Text.byteSize s.toList := by
  obtain ⟨front, hfront⟩ := h.1
  have htokens : (Scene.ofText s).tokens = front ++ [t, u] := (ofText_eq s).1.trans hfront.symm
  have hlt : t.span.start < t.span.stop := (Scene.ofText s).nonempty t (by simp [htokens])
  have hordered := (Scene.ofText s).ordered
  rw [htokens, List.append_assoc, List.pairwise_append] at hordered
  have hbehind := (List.pairwise_cons.1 hordered.2.1).1
  have hnext : t.span.stop ≤ u.span.start := hbehind u (by simp)
  have hstop : t.span.stop ≤ (TokenStream.ofText s).stop.span.start :=
    hbehind (Scene.ofText s).source.stop (by simp)
  rw [TokenStream.start_stop] at hstop
  omega

namespace TokenStream

/-- A source whose tokens show no problem, and a longer one.  The sequel starts with the last two
tokens of the source, if a third one binds them, or where the source ends. -/
theorem exists_sequel {s : String} (quiet : (ofText s).diagnostics = []) (t : String) :
    ∃ S : Sequel, S.source = ⟨s.toList, (ofText s).stop⟩ ∧
      S.longer = ⟨(s ++ "\n" ++ t).toList, (ofText (s ++ "\n" ++ t)).stop⟩ ∧
      (ofText (s ++ "\n" ++ t)).tokens = (ofText s).tokens ++ S.more ∧
      S.Ready (.start (ofText s).tokens) ∧
      (S.start = Text.byteSize s.toList ∨ ∃ a b, Unbound s a b ∧ S.start = a.span.start) := by
  obtain ⟨more, htokens, hapart⟩ := exists_more quiet t
  let S (last : List Token) (words : ∀ a ∈ last, a.kind.isWord = true) (start : Nat)
      (start_le : ∀ a ∈ last, start ≤ a.span.start)
      (start_le_stop : start ≤ (ofText s).stop.span.start) : Sequel :=
    { source := ⟨s.toList, (ofText s).stop⟩, ended := (ofText_eq s).2
      longer := ⟨(s ++ "\n" ++ t).toList, (ofText (s ++ "\n" ++ t)).stop⟩
      ended' := (ofText_eq (s ++ "\n" ++ t)).2
      more, apart := hapart, last, words, start, start_le, start_le_stop }
  have fair : Cursor.Fair (.start (ofText s).tokens) := fair_of_diagnostics quiet
  by_cases h : ∃ a b, Unbound s a b
  · obtain ⟨a, b, hab⟩ := h
    obtain ⟨hb, hend⟩ := hab.ordered
    have words : ∀ c ∈ [a, b], c.kind.isWord = true := by
      simpa using Lookahead.isWord_of_dangles hab.2
    refine ⟨S [a, b] words a.span.start (by simpa using hb) (start_stop s ▸ hend), rfl, rfl,
      htokens, ⟨fair, fun c d hcd _ => ?_⟩, .inr ⟨a, b, hab, rfl⟩⟩
    have hcd : [c, d] <:+ visibleTokens s := (ofText_eq s).1 ▸ hcd
    exact (List.suffix_of_suffix_length_le hab.1 hcd (Nat.le_refl _)).eq_of_length rfl
  · refine ⟨S [] (by simp) (ofText s).stop.span.start (by simp) (Nat.le_refl _), rfl, rfl, htokens,
      ⟨fair, fun c d hcd hdangles => ?_⟩, .inl (start_stop s)⟩
    exact absurd ⟨c, d, (ofText_eq s).1 ▸ hcd, hdangles⟩ h

end TokenStream

/-- **Where a longer source has no problem, those of its front lie at the end of that.** -/
theorem parse_late {s t : String} (quiet : (TokenStream.ofText s).diagnostics = [])
    (mended : (parse (s ++ "\n" ++ t)).diagnostics = []) (settled : Settled s) :
    ∀ d ∈ (parse s).diagnostics, Text.byteSize s.toList ≤ d.span.start ∧
      (d.kind = .unexpectedToken ∨ d.kind = .unrecoverableFragment) := by
  obtain ⟨S, hsource, hlonger, htokens, hready, hstart⟩ := TokenStream.exists_sequel quiet t
  have hrun (x : String) : readItems (fun _ => false) x (TokenStream.ofText x) =
      loop (nextItem (.above (.levels 31))) [] ⟨x.toList, (TokenStream.ofText x).stop⟩
        (.start (TokenStream.ofText x).tokens) := rfl
  have hquiet := (problems_eq_nil mended).2
  rw [hrun, htokens, ← hlonger] at hquiet
  have hlate := Parser.items_late (Parser.trailing_levels S 31) [] _ hready
    (show 0 < maxNesting by decide) hquiet
  rw [hsource, ← hrun] at hlate
  intro d hd
  have hfrom : S.start ≤ d.span.start ∧
      (d.kind = .unexpectedToken ∨ d.kind = .unrecoverableFragment) := by
    rcases List.mem_append.1 (List.mem_mergeSort.1 hd) with hd | hd
    · rw [quiet] at hd
      cases hd
    · exact hlate d (Note.mem_of_mem_diagnostics hd)
  rcases hstart with hstart | ⟨a, b, hab, hstart⟩
  · exact ⟨hstart ▸ hfrom.1, hfrom.2⟩
  · exact ⟨settled a b hab d hd (hstart ▸ hfrom.1), hfrom.2⟩

/-- A source with a broken token that a longer one has not is missing the end of a comment or of a
payload, or it ends in a string that takes the line break along. -/
theorem exists_isOpen {s t : String} (broken : (TokenStream.ofText s).diagnostics ≠ [])
    (mended : (TokenStream.ofText (s ++ "\n" ++ t)).diagnostics = [])
    (escape : ∀ u ∈ (visibleTokens s).getLast?, u.kind = .error .unterminatedString →
      s.toList.getLast? ≠ some '\\') :
    ∃ d ∈ (TokenStream.ofText s).diagnostics, d.kind.IsOpen := by
  have hlast : ∀ u ∈ (Lexer.ofText s.toList).kept.dropLast.getLast?,
      u.kind = .error .unterminatedString → (Lexer.ofText s.toList).rest.getLast? ≠ some '\\' := by
    intro u hu hk hl
    exact escape u ((ofText_eq s).1 ▸ hu) hk (Lexer.getLast?_of_ofText hl)
  refine (Lexer.problems_append (y := t.toList) broken hlast).resolve_right fun hlong => hlong ?_
  rw [← Lexer.ofText_append, ← TokenStream.toList_lineBreak]
  exact mended

namespace Input

/-- What is no command is source as it stands. -/
theorem sourceOf_eq {input : List Char} (h : (Text.trimStart input).head? ≠ some ':') :
    sourceOf input = input := by
  unfold sourceOf
  split
  · rename_i he
    rw [he] at h
    exact absurd rfl h
  · rfl

/-- Without the white space at its end a text is no longer. -/
theorem byteSize_trimEnd_le (text : List Char) :
    Text.byteSize (Text.trimEnd text) ≤ Text.byteSize text := by
  have hsplit : Text.trimEnd text ++ (text.reverse.takeWhile Text.isBlank).reverse = text := by
    rw [Text.trimEnd, ← List.reverse_append, List.takeWhile_append_dropWhile, List.reverse_reverse]
  conv => rhs; rw [← hsplit, Text.byteSize_append]
  exact Nat.le_add_right ..

/-- **Input that another line completes is unfinished just if it has a problem yet.**  Three ends of
a source are left out: a string that takes the line break along, two words that a third one would
bind and one of which is reported, and an open level that is the last one allowed. -/
theorem isComplete_eq_false_iff {s t : String}
    (source : (Text.trimStart s.toList).head? ≠ some ':')
    (mended : (parse (s ++ "\n" ++ t)).diagnostics = [])
    (escape : ∀ u ∈ (visibleTokens s).getLast?, u.kind = .error .unterminatedString →
      s.toList.getLast? ≠ some '\\')
    (settled : Settled s)
    (shallow : ∀ d ∈ (parse s).diagnostics, d.kind = .unrecoverableFragment →
      d.span.start < Text.byteSize s.toList) :
    isComplete s = false ↔ (parse s).diagnostics ≠ [] := by
  have hshown : isComplete s = false ↔ ∃ d ∈ (parse s).diagnostics,
      ranOut (Text.byteSize (Text.trimEnd s.toList)) d = true := by
    rw [isComplete, sourceOf_eq source, String.ofList_toList]
    simp
  rw [hshown]
  constructor
  · rintro ⟨d, hd, -⟩
    exact List.ne_nil_of_mem hd
  intro broken
  by_cases quiet : (TokenStream.ofText s).diagnostics = []
  · obtain ⟨d, hd⟩ := List.exists_mem_of_ne_nil _ broken
    obtain ⟨hstart, hkind⟩ := parse_late quiet mended settled d hd
    refine ⟨d, hd, ?_⟩
    rcases hkind with hk | hk
    · have := byteSize_trimEnd_le s.toList
      rw [ranOut, hk]
      exact decide_eq_true (by omega)
    · have := shallow d hd hk
      omega
  · obtain ⟨d, hd, hopen⟩ := exists_isOpen quiet (problems_eq_nil mended).1 escape
    refine ⟨d, List.mem_mergeSort.2 (List.mem_append_left _ hd), ?_⟩
    rcases hopen with hk | hk
    · rw [ranOut, hk]
    · rw [ranOut, hk]

/-- An object without its end, behind a modifier and a name: these could be two entries of it, so
no problem lies at them. -/
theorem isComplete_object :
    (Text.trimStart "A is B(export a".toList).head? ≠ some ':' ∧
      (parse ("A is B(export a" ++ "\n" ++ "is 5)")).diagnostics = [] ∧
      (∀ u ∈ (visibleTokens "A is B(export a").getLast?, u.kind = .error .unterminatedString →
        "A is B(export a".toList.getLast? ≠ some '\\') ∧
      Settled "A is B(export a" ∧
      (∀ d ∈ (parse "A is B(export a").diagnostics, d.kind = .unrecoverableFragment →
        d.span.start < Text.byteSize "A is B(export a".toList) ∧
      (parse "A is B(export a").diagnostics ≠ [] ∧ isComplete "A is B(export a" = false := by
  have source : (Text.trimStart "A is B(export a".toList).head? ≠ some ':' := by decide
  have mended : (parse ("A is B(export a" ++ "\n" ++ "is 5)")).diagnostics = [] := by
    decide +kernel
  have escape : ∀ u ∈ (visibleTokens "A is B(export a").getLast?,
      u.kind = .error .unterminatedString → "A is B(export a".toList.getLast? ≠ some '\\' :=
    fun _ _ _ => by decide
  have late : ∀ d ∈ (parse "A is B(export a").diagnostics,
      Text.byteSize "A is B(export a".toList ≤ d.span.start := by decide +kernel
  have settled : Settled "A is B(export a" := fun _ _ _ d hd _ => late d hd
  have shallow : ∀ d ∈ (parse "A is B(export a").diagnostics, d.kind = .unrecoverableFragment →
      d.span.start < Text.byteSize "A is B(export a".toList := by decide +kernel
  have broken : (parse "A is B(export a").diagnostics ≠ [] := by decide +kernel
  exact ⟨source, mended, escape, settled, shallow, broken,
    (isComplete_eq_false_iff source mended escape settled shallow).2 broken⟩

/-! ### Input that is taken for finished at each of the three ends -/

/-- A string that takes the line break along. -/
theorem isComplete_escape : isComplete "A is \"b\\" = true ∧ (parse "A is \"b\\").diagnostics ≠ [] ∧
    (parse ("A is \"b\\" ++ "\n" ++ "\"")).diagnostics = [] := by decide +kernel

/-- A modifier and a name in parentheses, which are a declaration once `is` follows. -/
theorem isComplete_modifier : isComplete "(export a" = true ∧ (parse "(export a").diagnostics ≠ [] ∧
    (parse ("(export a" ++ "\n" ++ "is 5)")).diagnostics = [] := by decide +kernel

/-- An open level that is the last one allowed. -/
theorem isComplete_deepest : isComplete (String.ofList (.replicate 32 '(')) = true ∧
    (parse (String.ofList (.replicate 32 '('))).diagnostics ≠ [] ∧
      (parse (String.ofList (.replicate 32 '(') ++ "\n" ++
        String.ofList (.replicate 32 ')'))).diagnostics = [] := by decide +kernel

end Input
end Ndf
