/-
# Where a word to complete starts

The word in front of the cursor reaches back to the last separator.  A place in a text is either
behind no separator at all, or behind a last one (`exists_separator`), and in both cases `complete`
can be computed: the word starts at the front of the text, or one byte behind the front of the
separator.  That byte is the first one behind the separator only if the separator has no other.

`complete_answers` says so for all places between two characters: behind a separator of more than
one byte, which is white space outside of ASCII, there is no answer, and everywhere else the answer
is the longest word and what completes it.
-/

import Mathlib.Data.List.TakeWhile
import Ndf.Completion
import Ndf.Proofs.Token.Position

namespace Ndf
namespace Completion

open Text (byteSize Edge slice?)

/-- The signs that end a word; white space does as well. -/
def signs : List Char := ['(', ')', '[', ']', '<', '>', ',', '=']

/-- A text that holds no separator. -/
def Unbroken (word : List Char) : Prop := ∀ c ∈ word, Text.isBlank c = false ∧ c ∉ signs

instance (word : List Char) : Decidable (Unbroken word) :=
  List.decidableBAll _ word

/-- A separator is white space or one of the signs. -/
theorem isSeparator_eq (c : Char) : isSeparator c = (Text.isBlank c || signs.contains c) := rfl

/-- An unbroken word is one without separators. -/
theorem unbroken_iff {word : List Char} :
    Unbroken word ↔ ∀ c ∈ word, isSeparator c = false := by
  simp only [Unbroken, isSeparator_eq, Bool.or_eq_false_iff, List.contains_eq_mem,
    decide_eq_false_iff_not]

/-- What is right to answer at a place of a text: the smallest offset from where on no separator
follows up to the place, and the words on offer, in their order, that start with the text between
the two.  An empty text is not completed. -/
structure Answers (text : List Char) (offset start : Nat) (offered : List String) : Prop where
  start_le : start ≤ offset
  word : ∃ word, slice? text start offset = some word ∧ Unbroken word ∧
    offered = words.filter fun w => decide (word ≠ [] ∧ word <+: w.toList)
  least : ∀ n other, slice? text n offset = some other → Unbroken other → start ≤ n

/-- The last separator in front of a place is white space of more than one byte. -/
def BehindWide (text : List Char) (offset : Nat) : Prop :=
  ∃ front c word, Text.takeBytes offset text = some (front ++ c :: word) ∧
    Text.isBlank c = true ∧ 1 < c.utf8Size ∧ Unbroken word

/-- Only white space takes more than one byte. -/
theorem isBlank_of_wide {c : Char} (h : isSeparator c = true) (hc : 1 < c.utf8Size) :
    Text.isBlank c = true := by
  have narrow : signs.all (·.utf8Size == 1) = true := by decide
  by_contra hb
  rw [isSeparator_eq, Bool.or_eq_true, List.contains_iff_mem] at h
  rw [eq_of_beq (List.all_eq_true.1 narrow c (h.resolve_left hb))] at hc
  exact absurd hc (Nat.lt_irrefl 1)

/-- There is one last separator only. -/
theorem eq_of_last {front front' word word' : List Char} {c c' : Char}
    (h : front ++ c :: word = front' ++ c' :: word') (hc : isSeparator c = true)
    (hc' : isSeparator c' = true) (hw : Unbroken word) (hw' : Unbroken word') : c = c' := by
  have inside {d : Char} {text : List Char} (hd : isSeparator d = true) (ht : Unbroken text) :
      d ∉ text := fun hmem => by simp [unbroken_iff.1 ht d hmem] at hd
  rcases List.append_eq_append_iff.1 h with ⟨mid, rfl, hback⟩ | ⟨mid, rfl, hback⟩
  · cases mid with
    | nil => exact (List.cons.inj hback).1
    | cons d mid => exact absurd (by simp [(List.cons.inj hback).2]) (inside hc' hw)
  · cases mid with
    | nil => exact (List.cons.inj hback).1.symm
    | cons d mid => exact absurd (by simp [(List.cons.inj hback).2]) (inside hc hw')

/-- **A place is behind no separator, or behind a last one.** -/
theorem exists_separator (before : List Char) : Unbroken before ∨
    ∃ front c word, before = front ++ c :: word ∧ isSeparator c = true ∧ Unbroken word := by
  simp only [unbroken_iff]
  induction before using List.reverseRecOn with
  | nil => exact .inl fun _ h => nomatch h
  | append_singleton before d ih =>
    by_cases hd : isSeparator d = true
    · exact .inr ⟨before, d, [], rfl, hd, fun _ h => nomatch h⟩
    · rw [Bool.not_eq_true] at hd
      have behind {word : List Char} (h : ∀ c ∈ word, isSeparator c = false) :
          ∀ c ∈ word ++ [d], isSeparator c = false :=
        List.forall_mem_append.2 ⟨h, List.forall_mem_singleton.2 hd⟩
      rcases ih with h | ⟨front, c, word, rfl, hc, h⟩
      · exact .inl (behind h)
      · exact .inr ⟨front, c, word ++ [d], by simp, hc, behind h⟩

/-- Without a separator in front of the cursor the word starts at the front of the line. -/
theorem start_of_unbroken {before : List Char} (h : Unbroken before) : start before = 0 := by
  have hdrop : before.reverse.dropWhile (!isSeparator ·) = [] :=
    List.dropWhile_eq_nil_iff.2 fun c hc => by
      simp [unbroken_iff.1 h c (List.mem_reverse.1 hc)]
  rw [start, hdrop]

/-- Behind the last separator the word starts one byte after where that stands: right only if the
separator has one byte. -/
theorem start_behind {front word : List Char} {c : Char} (hc : isSeparator c = true)
    (h : Unbroken word) : start (front ++ c :: word) = byteSize front + 1 := by
  have hdrop : (front ++ c :: word).reverse.dropWhile (!isSeparator ·) = c :: front.reverse := by
    rw [List.reverse_append, List.reverse_cons, List.append_assoc, List.singleton_append,
      List.dropWhile_append_of_pos fun d hd => by
        simp [unbroken_iff.1 h d (List.mem_reverse.1 hd)],
      List.dropWhile_cons_of_neg (by simp [hc])]
  rw [start, hdrop]
  show byteSize front.reverse + 1 = byteSize front + 1
  have hsize (text : List Char) : byteSize text.reverse = byteSize text := by
    induction text with
    | nil => rfl
    | cons d text ih => simp [ih, Nat.add_comm]
  rw [hsize]

/-- What is offered, in terms of the text before the cursor. -/
theorem complete_eq {line : String} (before after : List Char) (h : line.toList = before ++ after) :
    complete line (byteSize before) =
      (slice? before (start before) (byteSize before)).map fun word =>
        (start before, candidates word) := by
  unfold complete
  rw [h, Text.takeBytes_append]
  cases hs : slice? before (start before) (byteSize before) <;> simp [hs]

/-- What is offered for a word are the words on offer that start with it. -/
theorem candidates_eq (word : List Char) :
    candidates word = words.filter fun w => decide (word ≠ [] ∧ word <+: w.toList) := by
  refine List.filter_congr fun w _ => ?_
  rw [Bool.eq_iff_iff, Bool.and_eq_true, List.isPrefixOf_iff_prefix, decide_eq_true_iff,
    Bool.not_eq_true', List.isEmpty_eq_false_iff]

/-- A slice that ends at a place of a text is the back of what is in front of the place. -/
theorem suffix_of_slice? {before after other : List Char} {n : Nat}
    (h : slice? (before ++ after) n (byteSize before) = some other) :
    ∃ front, before = front ++ other ∧ byteSize front = n := by
  obtain ⟨front, rest, htext, hfront, hstop⟩ := Text.eq_append_of_slice? h
  refine ⟨front, ?_, hfront⟩
  rw [← List.append_assoc] at htext
  refine (Text.eq_of_byteSize htext ?_).1
  rw [Text.byteSize_append, hstop]

/-- **Everywhere there is a right answer:** the text behind the last separator, and what completes
it. -/
theorem answers_of_word {text : List Char} (front word after : List Char)
    (h : text = front ++ (word ++ after)) (hw : Unbroken word)
    (hlast : ∀ d, front.getLast? = some d → isSeparator d = true) :
    Answers text (byteSize (front ++ word)) (byteSize front) (candidates word) := by
  refine ⟨?_, ⟨word, ?_, hw, candidates_eq word⟩, fun m other hother hunbroken => ?_⟩
  · rw [Text.byteSize_append]
    exact Nat.le_add_right ..
  · rw [h, Text.byteSize_append]
    exact Text.slice?_append front word after
  · rw [h, ← List.append_assoc] at hother
    obtain ⟨left, hleft, rfl⟩ := suffix_of_slice? hother
    -- A longer text would hold the last separator.
    rcases List.append_eq_append_iff.1 hleft with ⟨mid, rfl, -⟩ | ⟨mid, rfl, rfl⟩
    · rw [Text.byteSize_append]
      exact Nat.le_add_right ..
    · rcases List.eq_nil_or_concat mid with rfl | ⟨mid, d, rfl⟩
      · simp
      · have hd := hlast d (by simp)
        rw [unbroken_iff.1 hunbroken d (by simp)] at hd
        cases hd

/-- Where the computed start is the right one, it is the answer. -/
theorem complete_of_start {line : String} (front word after : List Char)
    (h : line.toList = front ++ (word ++ after)) (hs : start (front ++ word) = byteSize front) :
    complete line (byteSize (front ++ word)) = some (byteSize front, candidates word) := by
  have hslice : slice? (front ++ word) (byteSize front) (byteSize (front ++ word)) = some word := by
    simpa using Text.slice?_append front word []
  rw [complete_eq _ after (by rw [h, List.append_assoc]), hs, hslice, Option.map_some]

/-- One byte behind the front of a wide separator is inside of it. -/
theorem complete_of_wide {line : String} (front : List Char) (c : Char) (word after : List Char)
    (h : line.toList = (front ++ c :: word) ++ after) (hc : isSeparator c = true)
    (hwide : 1 < c.utf8Size) (hw : Unbroken word) :
    complete line (byteSize (front ++ c :: word)) = none := by
  have hdrop : Text.dropBytes (byteSize front + 1) (front ++ c :: word) = none := by
    rw [Text.dropBytes_append, Text.dropBytes, if_neg (by omega)]
  rw [complete_eq _ _ h, start_behind hc hw, slice?, hdrop]
  simp

/-- Which separator a place is behind is read off the text in front of it. -/
theorem behindWide_iff {text before after : List Char} (h : text = before ++ after) :
    BehindWide text (byteSize before) ↔ ∃ front c word, before = front ++ c :: word ∧
      Text.isBlank c = true ∧ 1 < c.utf8Size ∧ Unbroken word := by
  simp only [BehindWide, h, Text.takeBytes_append, Option.some.injEq]

/-- Behind a wide separator there is no answer, and everywhere else there is the right one. -/
theorem wide_or_answers {line : String} {before after : List Char}
    (h : line.toList = before ++ after) :
    BehindWide line.toList (byteSize before) ∧ complete line (byteSize before) = none ∨
      ¬ BehindWide line.toList (byteSize before) ∧ ∃ start offered,
        complete line (byteSize before) = some (start, offered) ∧
          Answers line.toList (byteSize before) start offered := by
  rw [behindWide_iff h]
  rcases exists_separator before with hfree | ⟨front, c, word, rfl, hc, hfree⟩
  · refine .inr ⟨?_, _, _, complete_of_start [] _ _ h (start_of_unbroken hfree),
      answers_of_word [] _ _ h hfree fun _ h => nomatch h⟩
    rintro ⟨front, c, word, rfl, hc, -, -⟩
    rw [(hfree c (by simp)).1] at hc
    cases hc
  · rcases Nat.lt_or_ge 1 c.utf8Size with hwide | hnarrow
    · exact .inl ⟨⟨front, c, word, rfl, isBlank_of_wide hc hwide, hwide, hfree⟩,
        complete_of_wide _ _ _ _ h hc hwide hfree⟩
    · have hone : c.utf8Size = 1 := Nat.le_antisymm hnarrow c.utf8Size_pos
      have hcut : front ++ c :: word = (front ++ [c]) ++ word := by simp
      have hstart : start ((front ++ [c]) ++ word) = byteSize (front ++ [c]) := by
        rw [← hcut, start_behind hc hfree]
        simp [hone]
      have hlast : ∀ d, (front ++ [c]).getLast? = some d → isSeparator d = true := fun d hd => by
        obtain rfl : c = d := by simpa using hd
        exact hc
      rw [hcut, List.append_assoc] at h
      refine .inr ⟨?_, ?_⟩
      · rintro ⟨front', c', word', hbefore, hblank, hwide, hfree'⟩
        have hc' : isSeparator c' = true := by rw [isSeparator_eq, hblank, Bool.true_or]
        rw [eq_of_last hbefore hc hc' hfree hfree'] at hnarrow
        omega
      · rw [hcut]
        exact ⟨_, _, complete_of_start _ _ _ h hstart, answers_of_word _ _ _ h hfree hlast⟩

/-- **Completion answers everywhere but behind a wide separator.**  At a place between two
characters of a line there is no answer exactly if the last separator in front of it is white space
of more than one byte.  Everywhere else the answer starts between two characters, not behind the
place, at the smallest offset from where on no separator follows, and offers the words that start
with what stands between the two. -/
theorem complete_answers (line : String) {offset : Nat} (h : Edge line.toList offset) :
    (complete line offset = none ↔ BehindWide line.toList offset) ∧
      ∀ start offered, complete line offset = some (start, offered) →
        Answers line.toList offset start offered := by
  obtain ⟨before, after, htext, rfl⟩ := h
  rcases wide_or_answers htext with ⟨hwide, hrun⟩ | ⟨hwide, start, offered, hrun, hanswers⟩
  · exact ⟨iff_of_true hrun hwide, fun start offered h => absurd (hrun.symm.trans h) (by simp)⟩
  · refine ⟨iff_of_false (hrun ▸ Option.some_ne_none _) hwide, fun start' offered' hrun' => ?_⟩
    obtain ⟨rfl, rfl⟩ := Prod.mk.inj (Option.some.inj (hrun.symm.trans hrun'))
    exact hanswers

/-- Behind a bracket, which takes one byte, there is the right answer. -/
theorem complete_answers_bracket : Edge "T(exp".toList 5 ∧ Answers "T(exp".toList 5 2 ["export"] :=
  have h : Edge "T(exp".toList 5 := ⟨"T(exp".toList, [], by decide, by decide⟩
  ⟨h, (complete_answers "T(exp" h).2 2 ["export"] (by decide)⟩

/-- **A no-break space splits.**  The word `ex` behind it starts at byte 3 and is completed by
`export`, and there is no answer. -/
theorem complete_behind_noBreakSpace :
    Edge "a\u00A0ex".toList 5 ∧ Answers "a\u00A0ex".toList 5 3 ["export"] ∧
      complete "a\u00A0ex" 5 = none :=
  ⟨⟨"a\u00A0ex".toList, [], by decide, by decide⟩,
    answers_of_word ['a', '\u00A0'] "ex".toList [] (by decide) (by decide) fun d hd => by
      obtain rfl : '\u00A0' = d := Option.some.inj hd
      decide,
    complete_of_wide ['a'] '\u00A0' "ex".toList [] (by decide) (by decide) (by decide) (by decide)⟩

end Completion
end Ndf
