/-
# The tokens of a text that goes on behind a line break

A token is cut alike on a longer text, broken or not (`Lexeme.scan_extend`), unless it is a comment
or a payload without its end, which the text has run out in, or a string whose last character is a
backslash, which takes the line break along.  So a text whose tokens show no problem keeps them if
it goes on (`TokenStream.exists_more`), and a broken token stays broken (`Lexer.problems_append`).
-/

import Ndf.Proofs.Concat.Tokens

namespace Ndf

open Diagnostic (Cause)

/-- Problems of tokens that are missing their end, which may still follow. -/
def Diagnostic.Kind.IsOpen (kind : Diagnostic.Kind) : Prop :=
  kind = .unterminatedComment ∨ kind = .unterminatedBraceBody

namespace Lexeme

variable {payload : Bool} {mark c : Char} {inside rest text : List Char} (y : List Char)

/-- A string without its end goes no further than its line, if no backslash is in front of the line
break. -/
theorem stringBody_lineBreak (h : stringBody mark text = (inside, []))
    (hb : text.getLast? ≠ some '\\') :
    stringBody mark (text ++ '\n' :: y) = (inside, '\n' :: y) := by
  fun_induction stringBody mark text generalizing inside with
  | case1 =>
    obtain rfl : [] = inside := (Prod.mk.inj h).1
    rw [List.nil_append, stringBody, if_pos (.inr (.inl rfl))]
    rintro e rest he -
    cases he
  | case2 d tail ih =>
    obtain ⟨rfl, hr⟩ := Prod.mk.inj h
    have hb' : tail.getLast? ≠ some '\\' := fun hl => hb (by simp [List.getLast?_cons, hl])
    have := ih (Prod.ext rfl hr) hb'
    simp [stringBody, this, push]
  | case3 d tail h1 hd => cases h
  | case4 d tail h1 hd ih =>
    obtain ⟨rfl, hr⟩ := Prod.mk.inj h
    have hb' : tail.getLast? ≠ some '\\' := fun hl => hb (by simp [List.getLast?_cons, hl])
    have := ih (Prod.ext rfl hr) hb'
    rw [List.cons_append, stringBody, if_neg hd, this]
    · rfl
    · intro x xs hx hxs
      cases tail with
      | nil => exact hb (by rw [hx]; rfl)
      | cons e tail => exact h1 e tail hx rfl

/-- A string ends alike if the text goes on. -/
theorem string_extend {quote : Quote}
    (hb : (string quote text).rest = [] → text.getLast? ≠ some '\\') :
    string quote (text ++ '\n' :: y) = (string quote text).extend ('\n' :: y) := by
  cases hcut : stringBody quote.char text with
  | mk inside behind =>
    cases behind with
    | nil =>
      have hn : '\n' ≠ quote.char := by cases quote <;> decide
      have hrest : (string quote text).rest = [] := by simp only [string, hcut]
      simp only [string, stringBody_lineBreak y hcut (hb hrest), hcut, if_neg hn]
      rfl
    | cons c rest =>
      have hm : quote.char ≠ '\\' := by cases quote <;> decide
      simp only [string, stringBody_append hm hcut, hcut, List.cons_append]
      split <;> rfl

/-- A string with a problem is an open one. -/
theorem kind_of_string {quote : Quote} {cause : Cause}
    (hp : (string quote text).problem = some cause) :
    (string quote text).kind = .error .unterminatedString := by
  unfold string at hp ⊢
  split at hp
  · split at hp
    · cases hp
    · rename_i hc
      exact congrArg Lexeme.kind (if_neg hc)
  · rfl

/-- So is a comment. -/
theorem kind_of_delimitedComment {kind : CommentKind} {a b c d : Char} {cause : Cause}
    (hp : (delimitedComment kind a b c d text).problem = some cause) :
    cause.kind = .unterminatedComment := by
  unfold delimitedComment at hp
  split at hp
  · cases hp
  · cases hp
    rfl

/-- So is one in braces. -/
theorem kind_of_braceComment {cause : Cause} (hp : (braceComment text).problem = some cause) :
    cause.kind = .unterminatedBraceBody := by
  unfold braceComment at hp
  split at hp
  · cases hp
  · cases hp
    rfl

/-- So is a payload. -/
theorem kind_of_guidBody {cause : Cause} (hp : (guidBody text).problem = some cause) :
    cause.kind = .unterminatedBraceBody := by
  unfold guidBody at hp
  split at hp
  · cases hp
  · cases hp
    rfl

/-- **A token ends alike if the text goes on**, unless its end is missing. -/
theorem scan_extend
    (hopen : ∀ cause, (scan payload c rest).problem = some cause → ¬ cause.kind.IsOpen)
    (hb : (scan payload c rest).kind = .error .unterminatedString →
      (scan payload c rest).rest = [] → rest.getLast? ≠ some '\\') :
    scan payload c (rest ++ '\n' :: y) = (scan payload c rest).extend ('\n' :: y) := by
  cases hp : (scan payload c rest).problem with
  | none => exact scan_append y hp
  | some cause =>
    by_cases ho : Opens c rest
    · rcases ho with rfl | rfl | rfl | ⟨rfl, hr⟩ | ⟨rfl, hr⟩ | ⟨rfl, hr⟩
      · cases payload with
        | true => exact absurd (.inr (kind_of_guidBody hp)) (hopen cause hp)
        | false => exact absurd (.inr (kind_of_braceComment hp)) (hopen cause hp)
      · exact string_extend y (hb (kind_of_string hp))
      · exact string_extend y (hb (kind_of_string hp))
      · obtain ⟨tail, rfl⟩ := List.head?_eq_some_iff.1 hr
        exact absurd (.inl (kind_of_delimitedComment hp)) (hopen cause hp)
      · obtain ⟨tail, rfl⟩ := List.head?_eq_some_iff.1 hr
        exact absurd (.inl (kind_of_delimitedComment hp)) (hopen cause hp)
      · obtain ⟨tail, rfl⟩ := List.head?_eq_some_iff.1 hr
        cases hp
    · exact scan_append_of_not_opens y ho

end Lexeme

namespace Lexer

open Text (isBlank)

variable {l : Lexer} {y : List Char}

/-- The problems that the tokens from a place on show. -/
def problems (l : Lexer) : List Diagnostic := l.steps.filterMap LexStep.problem

/-- At the final token there is no problem. -/
theorem problems_of_eof (he : l.next.token.kind = .eof) : l.problems = [] := by
  obtain ⟨hd, -, -⟩ := next_of_eof he
  rw [problems, steps, dif_pos he, next_eq_eof hd]
  rfl

/-- The problem of a token comes before those behind it. -/
theorem problems_of_ne_eof (he : l.next.token.kind ≠ .eof) :
    l.problems = l.next.problem.toList ++ l.next.next.problems := by
  rw [problems, steps, dif_neg he, List.filterMap_cons]
  cases l.next.problem <;> rfl

/-- The last character of a text is that of what is left of it. -/
theorem getLast?_of_next (he : l.next.token.kind ≠ .eof) {c : Char}
    (h : l.next.next.rest.getLast? = some c) : l.rest.getLast? = some c := by
  obtain ⟨word, -, hr, -, -⟩ := next_of_ne_eof he
  rw [hr, List.getLast?_append, List.getLast?_append, h]
  rfl

/-- The last character is not the byte order mark. -/
theorem getLast?_of_ofText {text : List Char} {c : Char}
    (h : (ofText text).rest.getLast? = some c) : text.getLast? = some c := by
  unfold ofText at h
  split at h
  · rw [List.getLast?_cons, h]
    rfl
  · exact h

/-- At the end there is no token but the final one. -/
theorem kept_of_rest_nil (h : l.rest = []) : l.kept.dropLast = [] := by
  have hd : l.rest.dropWhile isBlank = [] := by rw [h]; rfl
  rw [kept_of_eof (by rw [next_eq_eof hd])]
  rfl

/-- The next token is cut alike if the text goes on, unless its end is missing. -/
theorem next_extend_of_not_isOpen (he : l.next.token.kind ≠ .eof)
    (hopen : ∀ d, l.next.problem = some d → ¬ d.kind.IsOpen)
    (hb : l.next.token.kind = .error .unterminatedString → l.next.next.rest = [] →
      l.rest.getLast? ≠ some '\\') :
    (l.withRest (l.rest ++ '\n' :: y)).next =
      ⟨l.next.token, l.next.problem, l.next.next.withRest (l.next.next.rest ++ '\n' :: y)⟩ := by
  obtain ⟨c, rest, hd⟩ := dropWhile_ne_nil he
  have hlast (hl : rest.getLast? = some '\\') : l.rest.getLast? = some '\\' := by
    rw [← l.blank_append_dropWhile, hd, List.getLast?_append, List.getLast?_cons, hl]
    rfl
  refine next_extend hd (Lexeme.scan_extend y (fun cause hc => ?_) fun hk hr hl => ?_)
  · rw [next_eq_scan hd] at hopen
    exact hopen _ (Option.map_eq_some_iff.2 ⟨cause, hc, rfl⟩)
  · rw [next_eq_scan hd] at hb
    exact hb hk hr (hlast hl)

/-- The next token, if it is broken, stays so if the text goes on. -/
theorem next_problem_append {d : Diagnostic} (he : l.next.token.kind ≠ .eof)
    (hp : l.next.problem = some d)
    (hb : l.next.token.kind = .error .unterminatedString → l.next.next.rest = [] →
      l.rest.getLast? ≠ some '\\') :
    d.kind.IsOpen ∨ (l.withRest (l.rest ++ '\n' :: y)).problems ≠ [] := by
  by_cases hd : d.kind.IsOpen
  · exact .inl hd
  have hnext := next_extend_of_not_isOpen (y := y) he
    (fun d' hd' => Option.some.inj (hp.symm.trans hd') ▸ hd) hb
  have he' : (l.withRest (l.rest ++ '\n' :: y)).next.token.kind ≠ .eof := by rwa [hnext]
  rw [problems_of_ne_eof he', hnext, hp]
  exact .inr (List.cons_ne_nil _ _)

/-- **A text with a broken token has one if it goes on**, or a token of it is missing its end.  A
string that the text ends in must not take the line break along. -/
theorem problems_append (h : l.problems ≠ [])
    (hb : ∀ u ∈ l.kept.dropLast.getLast?, u.kind = .error .unterminatedString →
      l.rest.getLast? ≠ some '\\') :
    (∃ d ∈ l.problems, d.kind.IsOpen) ∨ (l.withRest (l.rest ++ '\n' :: y)).problems ≠ [] := by
  fun_induction steps l with
  | case1 l he => exact absurd (problems_of_eof he) h
  | case2 l he ih =>
    rw [problems_of_ne_eof he] at h ⊢
    cases hp : l.next.problem with
    | some d =>
      refine (next_problem_append he hp fun hk hr => ?_).imp_left fun hopen =>
        ⟨d, List.mem_cons_self .., hopen⟩
      -- No text is left behind this token, so it is the last.
      refine hb l.next.token ?_ hk
      rw [kept_of_not_isTrivia (by rw [hk]; rfl) he, List.dropLast_cons_of_ne_nil (kept_ne_nil _),
        kept_of_rest_nil hr]
      rfl
    | none =>
      rw [hp, Option.toList_none, List.nil_append] at h
      have hnext := next_append (y := y) he hp
      have he' : (l.withRest (l.rest ++ '\n' :: y)).next.token.kind ≠ .eof := by rwa [hnext]
      rw [problems_of_ne_eof he', hnext]
      refine ih h fun u hu hk hl => hb u ?_ hk (getLast?_of_next he hl)
      cases ht : l.next.token.kind.isTrivia with
      | true => rwa [kept_of_isTrivia ht]
      | false =>
        rw [kept_of_not_isTrivia ht he, List.dropLast_cons_of_ne_nil (kept_ne_nil _),
          List.getLast?_cons, Option.mem_def.1 hu]
        rfl

/-- Behind a line break nothing is joined. -/
theorem joined_lineBreak (l : Lexer) (h : l.rest.head? = some '\n') :
    ∀ t ∈ l.kept.head?, t.joined = false := by
  obtain ⟨tail, hrest⟩ := List.head?_eq_some_iff.1 h
  have hjoined : l.next.token.joined = false := by
    rw [joined_next, blank, hrest]
    rfl
  by_cases he : l.next.token.kind = .eof
  · rw [kept_of_eof he]
    rintro t ⟨⟩
    exact hjoined
  · cases ht : l.next.token.kind.isTrivia with
    | true =>
      obtain ⟨-, -, -, -, hc⟩ := next_of_ne_eof he
      rw [kept_of_isTrivia ht]
      exact joined_head_kept _ (hc.trans ht)
    | false =>
      rw [kept_of_not_isTrivia ht he]
      rintro t ⟨⟩
      exact hjoined

end Lexer

namespace TokenStream

variable {s : String}

/-- A text, a line break and another text. -/
theorem toList_lineBreak (s t : String) :
    (s ++ "\n" ++ t).toList = s.toList ++ '\n' :: t.toList := by
  simp

/-- **The tokens of a text are those of a longer one up to the line break.** -/
theorem exists_more (quiet : (ofText s).diagnostics = []) (t : String) :
    ∃ more, (ofText (s ++ "\n" ++ t)).tokens = (ofText s).tokens ++ more ∧
      ∀ u ∈ more.head?, u.joined = false := by
  have hquiet : ∀ x ∈ (Lexer.ofText s.toList).steps, x.problem = none :=
    List.filterMap_eq_nil_iff.1 quiet
  let l := (Lexer.ofText s.toList).finish.withRest ('\n' :: t.toList)
  obtain ⟨b, behind, hbehind⟩ := List.exists_cons_of_ne_nil l.kept_ne_nil
  refine ⟨(b :: behind).dropLast, ?_, fun u hu => ?_⟩
  · rw [ofText_eq_kept, toList_lineBreak, Lexer.ofText_append]
    rw [(Lexer.kept_append _ hquiet _).1, hbehind, List.dropLast_append_of_ne_nil (by simp)]
    rfl
  · refine l.joined_lineBreak rfl u ?_
    rw [hbehind]
    cases behind with
    | nil => cases hu
    | cons b' behind => exact hu

end TokenStream

end Ndf
