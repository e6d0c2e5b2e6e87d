/-
# The tokens of a text in another place

How a text is cut into tokens does not depend on where it stands: from any place the same tokens
are cut, with the same problems, and only their spans differ (`Lexer.steps_moved`).  White space
in front of it does no more than separate its first token from what stands before
(`Lexer.kept_blank`).
-/

import Ndf.Proofs.Spacing.Blind
import Ndf.Proofs.Parser.Coverage
import Ndf.Proofs.Token.Piece

namespace Ndf

open Text (isBlank)

/-- What a step shows apart from the places: the shape of the token and whether it is broken. -/
def LexStep.look (x : LexStep) : (TokenKind × Bool) × Bool := (x.token.shape, x.problem.isSome)

namespace Lexer

/-- The same text in another place. -/
def moved (l : Lexer) (p : Position) : Lexer := { l with position := p }

/-- The next token from another place on is the same but for its place. -/
theorem next_moved (l : Lexer) (p : Position) :
    (l.moved p).next.look = l.next.look ∧ ∃ q, (l.moved p).next.next = l.next.next.moved q := by
  cases hd : l.rest.dropWhile isBlank with
  | nil =>
    have hd' : (l.moved p).rest.dropWhile isBlank = [] := hd
    rw [next_eq_eof hd, next_eq_eof hd']
    exact ⟨rfl, _, rfl⟩
  | cons c rest =>
    have hd' : (l.moved p).rest.dropWhile isBlank = c :: rest := hd
    rw [next_eq_scan hd, next_eq_scan hd']
    refine ⟨?_, _, rfl⟩
    simp only [LexStep.look, Option.isSome_map]
    rfl

/-- **A text is cut alike wherever it stands.** -/
theorem steps_moved (l : Lexer) (p : Position) :
    (l.moved p).steps.map LexStep.look = l.steps.map LexStep.look := by
  fun_induction steps l generalizing p with
  | case1 l he =>
    obtain ⟨hlook, -⟩ := l.next_moved p
    have he' : (l.moved p).next.token.kind = .eof := (congrArg (·.1.1) hlook).trans he
    rw [steps, dif_pos he', List.map_singleton, hlook, List.map_singleton]
  | case2 l he ih =>
    obtain ⟨hlook, q, hnext⟩ := l.next_moved p
    have he' : (l.moved p).next.token.kind ≠ .eof := (congrArg (·.1.1) hlook).trans_ne he
    rw [steps, dif_neg he', List.map_cons, hlook, hnext, ih, List.map_cons]

/-- So are all tokens. -/
theorem kept_moved (l : Lexer) (p : Position) :
    (l.moved p).kept.map Token.shape = l.kept.map Token.shape := by
  have hkept (l : Lexer) : l.kept.map Token.shape =
      ((l.steps.map LexStep.look).map Prod.fst).filter fun s => !s.1.isTrivia := by
    have hshapes : (l.steps.map LexStep.look).map Prod.fst =
        (l.steps.map LexStep.token).map Token.shape := by
      rw [List.map_map, List.map_map]
      rfl
    rw [hshapes, List.filter_map]
    rfl
  rw [hkept, hkept, steps_moved]

/-- A text in another place has the same broken tokens. -/
theorem problems_moved (l : Lexer) (p : Position) :
    (l.moved p).steps.filterMap LexStep.problem = [] ↔ l.steps.filterMap LexStep.problem = [] := by
  have hnone (l : Lexer) : l.steps.filterMap LexStep.problem = [] ↔
      ∀ x ∈ l.steps.map LexStep.look, x.2 = false := by
    simp [LexStep.look]
  rw [hnone, hnone, steps_moved]

/-! ### White space in front -/

variable {text : List Char} {c : Char} {p : Position} {guid : GuidProgress}

/-- A character of white space in front separates the next token from the one before. -/
theorem next_blank (hc : isBlank c = true) :
    (Lexer.mk (c :: text) p false guid).next =
      { (Lexer.mk text (p.advance c) false guid).next with
        token :=
          { (Lexer.mk text (p.advance c) false guid).next.token with joined := false } } := by
  have hdrop : (c :: text).dropWhile isBlank = text.dropWhile isBlank :=
    List.dropWhile_cons_of_pos hc
  have htake : (c :: text).takeWhile isBlank = c :: text.takeWhile isBlank :=
    List.takeWhile_cons_of_pos hc
  unfold next
  simp only [hdrop, htake, Position.after_cons, List.isEmpty_cons, Bool.false_and]
  split <;> rfl

/-- **White space in front of a text separates its first token from what stands before**, and
changes nothing else. -/
theorem kept_blank (hc : isBlank c = true) (q : Position) {t : Token} {ts : List Token}
    (hkept : (Lexer.mk text q false guid).kept = t :: ts) :
    (∃ joined, (Lexer.mk (c :: text) p false guid).kept.map Token.shape =
      ({ t with joined := joined } :: ts).map Token.shape) ∧
    ((Lexer.mk (c :: text) p false guid).steps.filterMap LexStep.problem = [] ↔
      (Lexer.mk text q false guid).steps.filterMap LexStep.problem = []) := by
  have hnext := @next_blank text c p guid hc
  have hmoved := kept_moved (.mk text q false guid) (p.advance c)
  have hproblems := problems_moved (.mk text q false guid) (p.advance c)
  rw [hkept] at hmoved
  rw [← hproblems]
  change (Lexer.mk text (p.advance c) false guid).kept.map _ = _ at hmoved
  change _ ∧ (_ ↔ (Lexer.mk text (p.advance c) false guid).steps.filterMap _ = [])
  generalize Lexer.mk text (p.advance c) false guid = m at *
  have separated {x : Token} {xs : List Token}
      (h : (x :: xs).map Token.shape = (t :: ts).map Token.shape) :
      ({ x with joined := false } :: xs).map Token.shape =
        ({ t with joined := false } :: ts).map Token.shape := by
    simp only [List.map_cons, List.cons.injEq, Token.shape, Prod.mk.injEq, and_true] at h ⊢
    exact ⟨h.1.1, h.2⟩
  by_cases he : m.next.token.kind = .eof
  · have he' : (Lexer.mk (c :: text) p false guid).next.token.kind = .eof := by rwa [hnext]
    rw [kept_of_eof he] at hmoved
    rw [kept_of_eof he', steps.eq_def m, dif_pos he, steps, dif_pos he', hnext]
    exact ⟨⟨false, separated hmoved⟩, Iff.rfl⟩
  · have he' : (Lexer.mk (c :: text) p false guid).next.token.kind ≠ .eof := by rwa [hnext]
    refine ⟨?_, ?_⟩
    · cases ht : m.next.token.kind.isTrivia with
      | true =>
        rw [kept_of_isTrivia ht] at hmoved
        rw [kept_of_isTrivia (by rwa [hnext]), hnext]
        exact ⟨t.joined, hmoved⟩
      | false =>
        rw [kept_of_not_isTrivia ht he] at hmoved
        rw [kept_of_not_isTrivia (by rwa [hnext]) he', hnext]
        exact ⟨false, separated hmoved⟩
    · rw [steps.eq_def m, dif_neg he, steps, dif_neg he', hnext]
      rfl

end Lexer

/-- **The tokens of a source behind others.**  In front of it are pieces and white space; its first
token may be joined on its own and not behind these. -/
theorem TokenStream.ofText_behind {source v : String} {ps : List Piece} {c : Char}
    (text : source.toList = Piece.join ps ++ c :: v.toList) (hc : isBlank c = true)
    (fit : Piece.AllFit ps (c :: v.toList))
    (guid : ps.foldl (fun g p => g.step p.kind) GuidProgress.none = .none)
    (front : source.toList.head? ≠ some '\uFEFF') (alone : v.toList.head? ≠ some '\uFEFF')
    (clean : (ofText v).diagnostics = []) {t : Token} {ts : List Token}
    (tokens : (ofText v).tokens = t :: ts) : ∃ us stop joined, stop.kind = .eof ∧
      ofText source = ⟨Piece.tokensFrom .origin ps ++ us, stop, []⟩ ∧
      us.map Token.shape = ({ t with joined := joined } :: ts).map Token.shape := by
  obtain ⟨l, hl, hkept, hproblems⟩ := Lexer.kept_of_cutFrom (fit.cutFrom .none) .origin
  rw [guid] at hl
  have hv : (Lexer.mk v.toList .origin false .none).kept = t :: (ts ++ [(ofText v).stop]) := by
    rw [← Lexer.ofText_of_head? alone, kept_eq, tokens, List.cons_append]
  obtain ⟨⟨joined, hshapes⟩, hclean⟩ :=
    Lexer.kept_blank (p := Position.origin.after (Piece.join ps)) hc .origin hv
  rw [← hl] at hshapes hclean
  have hclean' : (Lexer.mk v.toList .origin false .none).steps.filterMap LexStep.problem = [] := by
    rw [← Lexer.ofText_of_head? alone]
    exact clean
  have hne : l.kept ≠ [] := l.kept_ne_nil
  refine ⟨l.kept.dropLast, (ofText source).stop, joined, (ofText_eq source).2, ?_, ?_⟩
  · have hstart := Lexer.ofText_of_head? front
    rw [text] at hstart
    have htokens : (ofText source).tokens = Piece.tokensFrom .origin ps ++ l.kept.dropLast := by
      rw [ofText_eq_kept, text, hstart, hkept, List.dropLast_append_of_ne_nil hne]
    have hdiagnostics : (ofText source).diagnostics = [] := by
      rw [ofText_eq_kept, text, hstart]
      exact hproblems.trans (hclean.2 hclean')
    rw [← htokens, ← hdiagnostics]
  · rw [List.map_dropLast, hshapes, ← List.map_dropLast, ← List.cons_append, List.dropLast_concat]

end Ndf
