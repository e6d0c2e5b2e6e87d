/-
# Written expressions are read back

A symbolic expression is written without a sign of where an atom ends.  An atom is legible if its
end can be found all the same (`LegibleAtom`): a text of plain characters ends at the first other
one, a string at the mark that closes it, a payload at the brace that matches.  An expression all
of whose atoms are legible is the only such expression that is written as it is
(`render_injective`).
-/

import Ndf.Proofs.Text.Quoted
import Ndf.Tree.Dump

namespace Ndf

namespace Sexp

/-! ### Atoms -/

/-- Whether a character can stand in an atom without marks. -/
def isPlain (c : Char) : Bool := !([' ', '(', ')', '"', '\'', '\x7b'].contains c)

/-- A text goes on with no plain character. -/
def Stops (more : List Char) : Prop := ∀ c ∈ more.head?, isPlain c = false

/-- An atom stops at the end. -/
theorem stops_nil : Stops [] := fun _ h => nomatch (h : none = some _)

/-- Splits a text behind the atom at its front. -/
def cutAtom : List Char → List Char × List Char
  | '"' :: text => cutString '"' text
  | '\'' :: text => cutString '\'' text
  | '\x7b' :: text =>
    match Lexeme.braceBody 0 text with
    | some (inside, more) => ('\x7b' :: (inside ++ ['\x7d']), more)
    | none => ([], [])
  | text => (text.takeWhile isPlain, text.dropWhile isPlain)
where
  /-- Splits a text that follows an opening mark behind the closing one. -/
  cutString (mark : Char) (text : List Char) : List Char × List Char :=
    (mark :: ((Lexeme.stringBody mark text).1 ++ [mark]), (Lexeme.stringBody mark text).2.tail)

/-- An atom whose end can be found, whatever follows. -/
structure LegibleAtom (text : List Char) : Prop where
  ne_nil : text ≠ []
  cut : ∀ more, Stops more → cutAtom (text ++ more) = (text, more)

/-- In front of a character that is not plain, and no mark, there is no atom. -/
theorem cutAtom_paren (text : List Char) : cutAtom ('(' :: text) = ([], '(' :: text) := by
  rw [cutAtom]
  · rfl
  all_goals exact fun _ h => absurd (List.cons.inj h).1 (by decide)

namespace LegibleAtom

variable {text text' more more' : List Char}

/-- **An atom and what follows it are known from the text.** -/
theorem append_inj (h : LegibleAtom text) (h' : LegibleAtom text') (hs : Stops more)
    (hs' : Stops more') (heq : text ++ more = text' ++ more') : text = text' ∧ more = more' :=
  Prod.mk.inj ((h.cut more hs).symm.trans ((congrArg cutAtom heq).trans (h'.cut more' hs')))

/-- An atom does not start as a node does. -/
theorem append_ne_paren (h : LegibleAtom text) (hs : Stops more) (rest : List Char) :
    text ++ more ≠ '(' :: rest := by
  intro heq
  have hcut := h.cut more hs
  rw [heq, cutAtom_paren] at hcut
  exact h.ne_nil (Prod.mk.inj hcut).1.symm

/-- Plain characters are an atom. -/
theorem plain (hne : text ≠ []) (h : ∀ c ∈ text, isPlain c = true) : LegibleAtom text where
  ne_nil := hne
  cut more hs := by
    obtain ⟨c, rest, rfl⟩ := List.exists_cons_of_ne_nil hne
    have hc := h c (List.mem_cons_self ..)
    have htake := takeWhile_stops hs
    have hdrop := List.takeWhile_append_dropWhile (p := isPlain) (l := more)
    rw [htake, List.nil_append] at hdrop
    rw [cutAtom, List.takeWhile_append_of_pos h, List.dropWhile_append_of_pos h, htake, hdrop,
      List.append_nil]
    all_goals
      intro _ heq
      rw [(List.cons.inj heq).1] at hc
      exact absurd hc (by decide)

/-- A string with its marks is an atom. -/
theorem string {quote : Quote} {raw : List Char} (h : quote.Encloses raw) :
    LegibleAtom (quote.char :: (raw ++ [quote.char])) where
  ne_nil := List.cons_ne_nil _ _
  cut more _ := by
    have hbody := h more
    rw [List.cons_append, List.append_assoc, List.singleton_append]
    cases quote <;>
    · rw [Quote.char] at hbody ⊢
      rw [cutAtom, cutAtom.cutString, hbody]
      rfl

/-- A payload with its braces is an atom. -/
theorem braces {raw : List Char} (h : Lexeme.Balanced raw) :
    LegibleAtom ('\x7b' :: (raw ++ ['\x7d'])) where
  ne_nil := List.cons_ne_nil _ _
  cut more _ := by
    rw [List.cons_append, List.append_assoc, List.singleton_append, cutAtom, h more]

end LegibleAtom

/-! ### Expressions -/

mutual

/-- Every atom of an expression is legible, and every node has parts. -/
def Legible : Sexp → Prop
  | .atom text => LegibleAtom text.toList
  | .node parts => parts ≠ [] ∧ AllLegible parts

/-- All of several expressions are legible. -/
def AllLegible : List Sexp → Prop
  | [] => True
  | s :: rest => Legible s ∧ AllLegible rest

end

/-- Legible expressions behind each other are legible. -/
theorem allLegible_append {xs ys : List Sexp} (hx : AllLegible xs) (hy : AllLegible ys) :
    AllLegible (xs ++ ys) := by
  induction xs with
  | nil => exact hy
  | cons x xs ih => exact ⟨hx.1, ih hx.2⟩

/-- A tagged list is legible if its tag and its parts are. -/
theorem legible_tagged {tag : String} {parts : List Sexp} (htag : LegibleAtom tag.toList)
    (h : AllLegible parts) : (tagged tag parts).Legible :=
  ⟨List.cons_ne_nil _ _, htag, h⟩

/-- Parts as they are written, each behind a space. -/
def spaced (parts : List Sexp) : List Char := parts.flatMap fun p => ' ' :: (render p).toList

/-- Parts behind a space are rendered behind a space. -/
theorem spaced_eq {parts : List Sexp} (h : parts ≠ []) :
    spaced parts = ' ' :: (renderParts parts).toList := by
  induction parts with
  | nil => exact absurd rfl h
  | cons p rest ih =>
    cases rest with
    | nil => simp [spaced, renderParts]
    | cons q rest =>
      rw [spaced, List.flatMap_cons, ← spaced, renderParts, ih (List.cons_ne_nil _ _)]
      · simp
      · exact fun h => absurd h (List.cons_ne_nil _ _)

/-- An atom stops in front of further parts or of the closing parenthesis. -/
theorem stops_spaced (parts : List Sexp) (more : List Char) :
    Stops (spaced parts ++ ')' :: more) := by
  cases parts with
  | nil => exact fun c hc => by cases hc; rfl
  | cons p rest => exact fun c hc => by cases hc; rfl

/-- A node is written as its parts behind spaces, but for the first space. -/
theorem render_node {parts : List Sexp} (h : parts ≠ []) (more : List Char) :
    ' ' :: ((render (.node parts)).toList ++ more).tail = spaced parts ++ ')' :: more := by
  rw [spaced_eq h, render]
  simp

mutual

/-- **An expression and what follows it are known from the text.** -/
theorem render_append_inj : ∀ {x y : Sexp}, x.Legible → y.Legible → ∀ {more more' : List Char},
    Stops more → Stops more' → (render x).toList ++ more = (render y).toList ++ more' →
      x = y ∧ more = more'
  | .atom s, .atom t, hx, hy, more, more', hs, hs', h => by
    rw [Legible] at hx hy
    rw [render, render] at h
    obtain ⟨htext, hmore⟩ := hx.append_inj hy hs hs' h
    exact ⟨congrArg _ (String.toList_inj.1 htext), hmore⟩
  | .atom s, .node ys, hx, _, more, more', hs, _, h => by
    rw [Legible] at hx
    rw [render, render, String.toList_append, String.toList_append] at h
    exact absurd h (hx.append_ne_paren hs _)
  | .node xs, .atom t, _, hy, more, more', _, hs', h => by
    rw [Legible] at hy
    rw [render, render, String.toList_append, String.toList_append] at h
    exact absurd h.symm (hy.append_ne_paren hs' _)
  | .node xs, .node ys, hx, hy, more, more', hs, hs', h => by
    rw [Legible] at hx hy
    have hparts := congrArg (fun text => ' ' :: text.tail) h
    simp only [render_node hx.1, render_node hy.1] at hparts
    obtain ⟨rfl, hmore⟩ := spaced_append_inj hx.2 hy.2 hparts
    exact ⟨rfl, hmore⟩

/-- Parts can be told from what is rendered of them in front of a closing parenthesis. -/
theorem spaced_append_inj : ∀ {xs ys : List Sexp}, AllLegible xs → AllLegible ys →
    ∀ {more more' : List Char}, spaced xs ++ ')' :: more = spaced ys ++ ')' :: more' →
      xs = ys ∧ more = more'
  | [], [], _, _, _, _, h => ⟨rfl, (List.cons.inj h).2⟩
  | [], _ :: _, _, _, _, _, h => absurd (List.cons.inj h).1 (by decide)
  | _ :: _, [], _, _, _, _, h => absurd (List.cons.inj h).1 (by decide)
  | x :: xs, y :: ys, hx, hy, more, more', h => by
    have hrest : (render x).toList ++ (spaced xs ++ ')' :: more) =
        (render y).toList ++ (spaced ys ++ ')' :: more') := by
      simpa [spaced] using h
    obtain ⟨rfl, htail⟩ := render_append_inj hx.1 hy.1 (stops_spaced xs more)
      (stops_spaced ys more') hrest
    obtain ⟨rfl, hmore⟩ := spaced_append_inj hx.2 hy.2 htail
    exact ⟨rfl, hmore⟩

end

/-- **A legible expression is the only one that is written as it is.** -/
theorem render_injective {x y : Sexp} (hx : x.Legible) (hy : y.Legible)
    (h : render x = render y) : x = y := by
  have htext : (render x).toList ++ [] = (render y).toList ++ [] := by rw [h]
  exact (render_append_inj hx hy stops_nil stops_nil htext).1

end Sexp

end Ndf
