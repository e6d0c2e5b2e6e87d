/-
# Calling a parse off

`SPEC_FULL.md` §5, cooperative cancellation, and E3, the options of a parse.

A parse that can be called off asks before each item.  As long as the answer is no it does what
any parse does, so a round that is not called off is a round of `nextItem`, and there are as many
questions as items.  The run through all items is so either the run that is never called off, with
its items, its notes and the place where it ends, or it has no items at all (`itemStep_loop`).

`parseWith_eq` says so of a whole source.  The cap cuts the diagnostics when all of them are there
and in order, so those that are kept are the first ones.
-/

import Ndf.Proofs.Parser.Coverage

namespace Ndf

namespace Parser

variable {g : Grammar} {src : Source} {calledOff : Nat → Bool} {c : Cursor} {read its : List Item}

/-- Behind the last item nobody asks. -/
theorem itemStep_nil (hr : c.rest = []) :
    itemStep g calledOff read src c = nextItem g read src c := by
  rw [nextItem_nil hr, itemStep, ahead_bind, hr]
  rfl

/-- In front of an item the answer yes ends the run with nothing. -/
theorem itemStep_stop (hr : c.rest ≠ []) (h : calledOff read.length = true) :
    itemStep g calledOff read src c = ⟨some (.inr none), c, []⟩ := by
  rw [itemStep, ahead_bind, if_neg (by simpa using hr), if_pos h, pure_run]

/-- With the answer no the item is read as it always is. -/
theorem itemStep_go (hr : c.rest ≠ []) (h : calledOff read.length = false) :
    itemStep g calledOff read src c = nextItem g read src c := by
  rw [nextItem_cons hr, itemStep, ahead_bind, if_neg (by simpa using hr),
    if_neg (Bool.eq_false_iff.1 h)]

/-- What a run is that can be called off, given the one that cannot and its items: nothing, if one
of the questions in front of them is answered yes, and otherwise the same run. -/
def Stops (calledOff : Nat → Bool) (first : Nat) (its : List Item)
    (whole run : Outcome (Option (List Item))) : Prop :=
  if ∃ k < its.length, calledOff (first + k) = true then run.value = some none else run = whole

/-- The first question is about the first item, the others are about the items behind it. -/
theorem exists_question_cons (first : Nat) (i : Item) :
    (∃ k < (i :: its).length, calledOff (first + k) = true) ↔
      calledOff first = true ∨ ∃ k < its.length, calledOff (first + 1 + k) = true := by
  rw [List.length_cons, Nat.exists_lt_succ_left]
  simp only [Nat.add_zero, Nat.add_assoc, Nat.add_comm 1]

/-- **Calling off is all or nothing**, from any item on. -/
theorem itemStep_loop (hg : Advancing g) (hs : Spanning g) (he : src.Ended)
    (calledOff : Nat → Bool) (read : List Item) (c : Cursor) : ∀ its,
      (loop (nextItem g) read src c).value = some (some (read.reverse ++ its)) →
        Stops calledOff read.length its (loop (nextItem g) read src c)
          (loop (itemStep g calledOff) read src c) := by
  have hadvances := itemStep_advances hg calledOff
  -- On the rounds of the run that is never asked to stop.
  refine loop_rec (nextItem_advances hg) he (P := fun read c whole => ∀ its,
    whole.value = some (some (read.reverse ++ its)) → Stops calledOff read.length its whole
      (loop (itemStep g calledOff) read src c)) (fun read c ih its hv => ?_) read c
  rw [loop_eq hadvances he]
  by_cases hr : c.rest = []
  · have hend : (nextItem g read src c).value = some (.inr (some read.reverse)) := by
      rw [nextItem_nil hr]
    rw [bind_of_some hend] at hv
    obtain rfl : its = [] := by
      simpa [again, pure_run] using hv
    rw [Stops, if_neg (by simp)]
    exact bind_congr (itemStep_nil hr) fun r hr' => by
      rw [itemStep_nil hr, hend] at hr'
      cases hr'
      rfl
  · obtain ⟨item, hitem⟩ := Option.ne_none_iff_exists'.1 (itemOrError_returns (g := g) src c)
    have hnext : (nextItem g read src c).value = some (.inl (item :: read)) := by
      rw [nextItem_cons hr, bind_of_some hitem, pure_run]
    rw [bind_of_some hnext] at hv
    obtain ⟨more, hmore, -⟩ :=
      nextItem_tiling hg hs he (item :: read) (nextItem g read src c).cursor
    obtain rfl : its = item :: more := by
      simpa [again] using hv.symm.trans hmore
    have hrest := ih (item :: read) hnext more hmore
    rw [Stops]
    simp only [exists_question_cons]
    -- The flag is read before the item is, so a raised flag leaves the item unread.
    cases hasked : calledOff read.length with
    | true =>
      rw [if_pos (.inl rfl), bind_of_some (by rw [itemStep_stop hr hasked])]
      rfl
    | false =>
      have hstep : itemStep g calledOff read src c = nextItem g read src c :=
        itemStep_go hr hasked
      simp only [Bool.false_eq_true, false_or]
      rw [bind_of_some (hstep ▸ hnext), bind_of_some hnext, hstep]
      rw [Stops, List.length_cons] at hrest
      split at hrest
      · rwa [if_pos ‹_›]
      · rw [if_neg ‹_›]
        simp only [again, hrest]

end Parser

/-- The items of a source are all read, or none is. -/
theorem readItems_stops (calledOff : Nat → Bool) (source : String) :
    Parser.Stops calledOff 0 (parse source).document.items
      (readItems (fun _ => false) source (TokenStream.ofText source))
      (readItems calledOff source (TokenStream.ofText source)) := by
  have he : Source.Ended ⟨source.toList, (TokenStream.ofText source).stop⟩ := (ofText_eq source).2
  exact Parser.itemStep_loop (Parser.advancing_levels Parser.maxNesting)
    (Parser.spanning_levels Parser.maxNesting) he calledOff []
    (.start (TokenStream.ofText source).tokens) _ (readItems_value source)

/-- A parse with the first of its diagnostics only, if there is a cap on their number. -/
def Parsed.capped (cap : Option Nat) (p : Parsed) : Parsed :=
  match cap with
  | none => p
  | some n => { p with diagnostics := p.diagnostics.take n }

/-- **Calling off and capping are all or nothing.**  A parse is called off if the answer is yes one
of the first times that it asks, as many as the source has items; then it has no result.  Otherwise,
whatever would be answered later, its result is the parse of the source with all of the document,
and with the first diagnostics up to the cap. -/
theorem parseWith_eq (options : ParseOptions) (source : String) :
    parseWith options source =
      if ∃ k < (parse source).document.items.length, options.calledOff k = true then
        .error ⟨.cancelled, none⟩
      else .ok ((parse source).capped options.maxDiagnostics) := by
  have hstops := readItems_stops options.calledOff source
  have hvalue := readItems_value source
  simp only [Parser.Stops, Nat.zero_add] at hstops
  split at hstops
  · rw [if_pos ‹_›, parseWith, runParse]
    simp only [hstops]
    rfl
  · rw [if_neg ‹_›, parseWith, runParse]
    simp only [hstops, hvalue, Option.join_some]
    cases options.maxDiagnostics <;> rfl

end Ndf
