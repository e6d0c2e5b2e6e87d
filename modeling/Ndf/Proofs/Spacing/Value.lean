/-
# An expression read on its own and behind other tokens

A source that is read as one expression, with no problem, is read as the same expression wherever an
expression is due: the tokens in front are counted but change nothing (`Twin`), the places of the
tokens do not show in the tree (`Blind`), and whether the first token is joined is not asked
(`Fronted`).
-/

import Ndf.Proofs.Concat.Document
import Ndf.Proofs.Parser.Reads
import Ndf.Proofs.Spacing.Grammar
import Ndf.Proofs.Spacing.Head
import Ndf.Proofs.Spacing.Tokens

namespace Ndf
namespace Parser

variable {α β : Type} {src : Source} {g : Grammar} {c : Cursor} {p : Parser α} {a : α}

/-- A run that ends with a value and finds no problem. -/
theorem Reads.of_quiet (hv : (p src c).value = some a) (hq : Quiet (p src c).notes) :
    Reads src p c a (p src c).cursor [] := by
  refine ⟨hv, rfl, fun ended => ?_⟩
  rw [← List.append_nil (p src c).notes, diagnostics_append hq]
  rfl

/-- A run without problems notes none. -/
theorem Reads.quiet {d : Cursor} (h : Reads src p c a d []) : Quiet (p src c).notes := h.found false

/-- What is read by two parsers behind each other is read by each of them. -/
theorem Reads.split {f : α → Parser β} {b : β} {e : Cursor} (h : Reads src (p >>= f) c b e []) :
    ∃ a d, Reads src p c a d [] ∧ Reads src (f a) d b e [] := by
  cases hv : (p src c).value with
  | none =>
    have := h.value
    rw [bind_of_none hv] at this
    cases this
  | some a =>
    have hrun := bind_of_some (f := f) hv
    have hq := h.quiet
    rw [hrun] at hq
    obtain ⟨hp, hf⟩ := (quiet_append _ _).1 hq
    have hvalue := h.value
    have hcursor := h.cursor
    rw [hrun] at hvalue hcursor
    exact ⟨a, _, .of_quiet hv hp, hcursor ▸ .of_quiet hvalue hf⟩

/-- A function of the value was applied to one that was read. -/
theorem Reads.of_map {u : α → β} {b : β} {d : Cursor} (h : Reads src (u <$> p) c b d []) :
    ∃ a, b = u a ∧ Reads src p c a d [] := by
  obtain ⟨a, e, hp, hpure⟩ := h.split
  obtain rfl : u a = b := Option.some.inj hpure.value
  obtain rfl : e = d := hpure.cursor
  exact ⟨a, rfl, hp⟩

/-- A value is the parser's own or that of the recovery. -/
theorem Reads.of_orRecover {q : Parser α} {d : Cursor}
    (h : Reads src (Parser.orRecover p q) c a d []) :
    Reads src p c a d [] ∨ ∃ e, Reads src q e a d [] := by
  have hvalue := h.value
  have hcursor := h.cursor
  have hquiet := h.quiet
  cases hv : (p src c).value with
  | none =>
    rw [orRecover_of_none hv] at hvalue hcursor hquiet
    have hq : Reads src q (p src c).cursor a _ [] :=
      .of_quiet hvalue ((quiet_append _ _).1 hquiet).2
    exact .inr ⟨_, hcursor ▸ hq⟩
  | some a =>
    rw [orRecover_of_some hv] at hvalue hcursor hquiet
    exact .inl (hcursor ▸ .of_quiet hvalue hquiet)

/-! ### The only item of a source -/

/-- Where all items are one, it is read up to the end. -/
theorem only_item (hg : Advancing g) (hs : Spanning g) (he : src.Ended) {i : Item}
    (hv : (loop (nextItem g) [] src c).value = some (some [i]))
    (hq : Quiet (loop (nextItem g) [] src c).notes) : c.rest ≠ [] ∧
      ∃ d, Reads src (itemOrError g) c i d [] ∧ d.rest = [] := by
  rw [loop_eq (nextItem_advances hg) he] at hv hq
  by_cases hr : c.rest = []
  · rw [bind_of_some (by rw [nextItem_nil hr])] at hv
    cases hv
  · obtain ⟨first, hfirst⟩ := Option.ne_none_iff_exists'.1 (itemOrError_returns (g := g) src c)
    have hstep : nextItem g [] src c =
        ⟨some (.inl [first]), (itemOrError g src c).cursor, (itemOrError g src c).notes⟩ := by
      rw [nextItem_cons hr, bind_of_some hfirst, pure_run, List.append_nil]
    rw [bind_of_some (congrArg Outcome.value hstep), hstep] at hv hq
    obtain ⟨its, hits, htiling⟩ := nextItem_tiling hg hs he [first] (itemOrError g src c).cursor
    have hall : [i] = [first] ++ its := by
      simpa [again] using hv.symm.trans hits
    obtain ⟨rfl, rfl⟩ := List.cons.inj hall
    obtain ⟨pieces, hflat, hpieces⟩ := htiling
    cases hpieces
    exact ⟨hr, _, .of_quiet hfirst ((quiet_append _ _).1 hq).1, hflat.symm⟩

/-- An item that is an expression is read as one. -/
theorem Reads.of_item_expr {e : Expr} {d : Cursor}
    (h : Reads src (Parser.itemOrError g) c (.expr e) d []) : Reads src g.expr c e d [] := by
  obtain ⟨m, c₁, hmark, hrest⟩ := h.split
  obtain rfl : c = c₁ := hmark.cursor
  obtain ⟨i, c₂, hitem, hend⟩ := hrest.split
  obtain rfl : i = .expr e := Option.some.inj hend.value
  obtain rfl : c₂ = d := hend.cursor
  have notMap {β : Type} {u : β → Item} {q : Parser β} (hu : ∀ b, u b ≠ .expr e) {c d : Cursor} :
      ¬ Reads src (u <$> q) c (.expr e) d [] := by
    intro hq
    obtain ⟨b, hb, -⟩ := hq.of_map
    exact hu b hb.symm
  rcases hitem.of_orRecover with hitem | ⟨c', hcut⟩
  · obtain ⟨ts, c₃, hahead, hitem⟩ := hitem.split
    obtain rfl : c = c₃ := hahead.cursor
    -- Only the last branch of the dispatch builds an expression.
    split at hitem
    · exact absurd hitem (notMap (by simp))
    split at hitem
    · exact absurd hitem (notMap (by simp))
    split at hitem
    · exact absurd hitem (notMap (by simp))
    split at hitem
    · exact absurd hitem (notMap (by simp))
    split at hitem
    · exact absurd hitem (notMap (by simp))
    obtain ⟨x, hx, hread⟩ := hitem.of_map
    have hexpr : x = e := by
      cases x <;> cases hx <;> rfl
    rwa [hexpr] at hread
  · exact absurd hcut (notMap (by simp))

/-! ### The same expression elsewhere -/

/-- Behind other tokens the same is read, which are counted. -/
theorem Reads.behind {n : Nat} (he : src.Ended) {ts : List Token} {e : Expr} {d : Cursor}
    (h : Reads src (Grammar.levels n).expr (.start ts) e d []) (hd : d.rest = []) (count : Nat)
    (last : Span) : ∃ d', Reads src (Grammar.levels n).expr ⟨ts, count, last, 0⟩ e d' [] ∧
      d'.rest = [] := by
  let w : Twin := .behind 0 0 count
  have hsees : w.Sees src src := Twin.sees_behind [] src.text he 0 count
  have hlinked : w.Linked (.start ts) ⟨ts, count, last, 0⟩ :=
    { rests := by
        have hsame := Twin.Rests.same (w := w) ts
        rwa [show ts.map w.token ++ w.more = ts from (List.append_nil _).trans (List.map_id ts)]
          at hsame
      count := (Nat.zero_add count).symm
      last := fun h => absurd h (Nat.lt_irrefl 0)
      safe := fun h => absurd rfl h
      depth := rfl }
  obtain ⟨hvalue, hcursor, hnotes⟩ := (twinned_levels w n).expr hsees hlinked (.inl rfl)
  have hrelabel : w.relabel.expr e = e := Relabel.expr_id e
  rw [h.value, Option.map_some, hrelabel] at hvalue
  have hquiet : Quiet ((Grammar.levels n).expr src ⟨ts, count, last, 0⟩).notes := by
    rw [hnotes, Quiet, diagnostics_map, h.quiet, List.map_nil]
  have hrests := hcursor.rests
  rw [h.cursor, hd] at hrests
  exact ⟨_, .of_quiet hvalue hquiet, hrests⟩

/-- **An expression is read alike wherever it is due**, if its tokens are the same apart from their
places, and apart from the first one being joined. -/
theorem Reads.elsewhere {src' : Source} {n : Nat} (he : src.Ended) (he' : src'.Ended) {t : Token}
    {ts : List Token} {e : Expr} {d : Cursor}
    (h : Reads src (Grammar.levels (n + 1)).expr (.start (t :: ts)) e d []) (hd : d.rest = [])
    {c' : Cursor} (hc : c'.depth = 0) {joined : Bool}
    (hs : c'.rest.map Token.shape = ({ t with joined := joined } :: ts).map Token.shape) :
    ∃ e' d', Reads src' (Grammar.levels (n + 1)).expr c' e' d' [] ∧ d'.rest = [] ∧
      Bare.expr e' = Bare.expr e := by
  have hfront : Reads src (Grammar.levels (n + 1)).expr
      (.start ({ t with joined := joined } :: ts)) e d [] :=
    .congr (expr_fronted joined (Nat.zero_lt_succ _) (h.value ▸ Option.some_ne_none e)) h
  obtain ⟨d₁, hbehind, hd₁⟩ := hfront.behind he hd c'.count .origin
  have hbeside : Cursor.Beside ⟨{ t with joined := joined } :: ts, c'.count, .origin, 0⟩ c' :=
    ⟨hs, rfl, hc⟩
  obtain ⟨hvalue, hcursor, hquiet⟩ := (blind_levels (n + 1)).expr he he' hbeside
  rw [hbehind.value, Option.map_some, Option.map_eq_some_iff] at hvalue
  obtain ⟨e', hv', hbare⟩ := hvalue
  have hrest := hcursor.rest
  rw [hbehind.cursor, hd₁, List.map_nil, List.map_eq_nil_iff] at hrest
  exact ⟨e', _, .of_quiet hv' (hquiet.2 hbehind.quiet), hrest, hbare⟩

end Parser

/-- A source that is one expression, with no problem. -/
theorem parse_expr {v : String} {e : Expr} (clean : (parse v).diagnostics = [])
    (items : (parse v).document.items = [.expr e]) : ∃ t ts d,
      (TokenStream.ofText v).tokens = t :: ts ∧ (TokenStream.ofText v).diagnostics = [] ∧
      Parser.Reads ⟨v.toList, (TokenStream.ofText v).stop⟩ (Grammar.levels Parser.maxNesting).expr
        (.start (t :: ts)) e d [] ∧ d.rest = [] := by
  obtain ⟨hlex, hquiet⟩ := problems_eq_nil clean
  have hvalue := readItems_value v
  rw [items] at hvalue
  have he : Source.Ended ⟨v.toList, (TokenStream.ofText v).stop⟩ := (ofText_eq v).2
  obtain ⟨hne, d, hitem, hd⟩ := Parser.only_item (Parser.advancing_levels _)
    (Parser.spanning_levels _) he hvalue hquiet
  obtain ⟨t, ts, hts⟩ := List.exists_cons_of_ne_nil hne
  change (TokenStream.ofText v).tokens = t :: ts at hts
  rw [hts] at hitem
  exact ⟨t, ts, d, hts, hlex, hitem.of_item_expr, hd⟩

end Ndf
