/-
# The tokens of a text are a part of those of a longer one

A text is cut into the same tokens up to its end if a line break and any other text follow, with the
same problems, if no token of it is missing its end and it does not end in a backslash
(`tokenize_appendLine`).  Whoever reads a text line by line can so cut it anew with each line.
-/

import Ndf.Proofs.Unfinished.Tokens

namespace Ndf
namespace Lexer

/-- **What is cut off up to the end is cut off alike if the text goes on.** -/
theorem steps_extend (l : Lexer) (hopen : ∀ d ∈ l.problems, ¬ d.kind.IsOpen)
    (hb : l.rest.getLast? ≠ some '\\') (y : List Char) :
    (l.steps.map LexStep.token).dropLast <+:
        (l.withRest (l.rest ++ '\n' :: y)).steps.map LexStep.token ∧
      l.problems <+: (l.withRest (l.rest ++ '\n' :: y)).problems := by
  fun_induction steps l with
  | case1 l he =>
    rw [problems_of_eof he]
    exact ⟨List.nil_prefix, List.nil_prefix⟩
  | case2 l he ih =>
    have hproblems := problems_of_ne_eof he
    have hnext := next_extend_of_not_isOpen (y := y) he
      (fun d hd => hopen d (by simp [hproblems, hd])) fun _ _ => hb
    have he' : (l.withRest (l.rest ++ '\n' :: y)).next.token.kind ≠ .eof := by rwa [hnext]
    obtain ⟨tokens, problems⟩ := ih (fun d hd => hopen d (by simp [hproblems, hd]))
      fun hl => hb (getLast?_of_next he hl)
    constructor
    · obtain ⟨more, hmore⟩ := List.head?_eq_some_iff.1 l.next.next.head?_steps
      have hsteps := steps.eq_def (l.withRest (l.rest ++ '\n' :: y))
      rw [dif_neg he', hnext] at hsteps
      rw [hsteps, List.map_cons, List.map_cons, List.dropLast_cons_of_ne_nil (by simp [hmore])]
      exact List.cons_prefix_cons.2 ⟨rfl, tokens⟩
    · rw [problems_of_ne_eof he', hnext, hproblems]
      exact (List.prefix_append_right_inj _).2 problems

end Lexer

/-- **Tokens stay when lines are appended.**  If no comment and no payload of a text is missing its
end, and its last character is no backslash, then its tokens but for the end of the source are the
first tokens of the text with a line break and any other text behind it, and its problems are the
first problems of that. -/
theorem tokenize_appendLine {s : String} (closed : ∀ d ∈ (tokenize s).diagnostics,
      d.kind ≠ .unterminatedComment ∧ d.kind ≠ .unterminatedBraceBody)
    (escape : s.toList.getLast? ≠ some '\\') (t : String) :
    (tokenize s).tokens.dropLast <+: (tokenize (s ++ "\n" ++ t)).tokens ∧
      (tokenize s).diagnostics <+: (tokenize (s ++ "\n" ++ t)).diagnostics := by
  have happend : Lexer.ofText (s ++ "\n" ++ t).toList = _ :=
    (congrArg _ (TokenStream.toList_lineBreak s t)).trans (Lexer.ofText_append s.toList t.toList)
  rw [tokenize, tokenize, happend]
  exact (Lexer.ofText s.toList).steps_extend (fun d hd => not_or.2 (closed d hd))
    (fun hl => escape (Lexer.getLast?_of_ofText hl)) t.toList

/-- A string without its end stays as it is, though the next line has a mark of its kind. -/
theorem tokenize_appendLine_string :
    (∀ d ∈ (tokenize "A is 'b").diagnostics,
      d.kind ≠ .unterminatedComment ∧ d.kind ≠ .unterminatedBraceBody) ∧
    "A is 'b".toList.getLast? ≠ some '\\' ∧
    (tokenize "A is 'b").tokens.dropLast <+: (tokenize "A is 'b\nc'").tokens ∧
      (tokenize "A is 'b").diagnostics <+: (tokenize "A is 'b\nc'").diagnostics :=
  ⟨by decide +kernel, by decide +kernel, tokenize_appendLine (by decide +kernel) (by decide) "c'"⟩

end Ndf
