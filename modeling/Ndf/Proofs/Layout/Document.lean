/-
# Canonical text is read again

`SPEC_FULL.md` §8, "Idempotence" and "Round-trip".

The tokens of a canonical text are its pieces, and its pieces are read as the tree that they were
made of.  So a source without problems can be replaced by its canonical text: no problem is found in
that, its tree is the same up to places and stray commas, and its canonical text is itself
(`parse_canonicalText`).

One ending stands in the way.  A parameter of a template that ends in `div is` in front of a
parameter called `is` cannot be followed by a comma, and canonical text has one there
(`Document.Separable`, `exists_misread`).
-/

import Ndf.Proofs.Layout.Cut
import Ndf.Proofs.Layout.Operators
import Ndf.Proofs.Layout.Relabel

namespace Ndf

namespace Layout.Script

/-- An item ends in front of what starts an item as before. -/
def item : Script Item :=
  ⟨Pieces.item, Relabel.tidy.item, Parts.item,
    fun _ ts us => Lookahead.Resembles false ts us ∧ Lookahead.Detached us⟩

end Layout.Script

attribute [local simp] Layout.Script.item

namespace Parser

open Layout (Margin Script)
open Lookahead (Resembles Mirrors Follow Detached isWord)
open Piece (tokensFrom)

variable {S : Scene} {g : Grammar} {src : Source} {n : Nat} {ts us us' : List Token}

/-! ### Items -/

/-- An expression is laid out alike as an item. -/
theorem pieces_ofExpr (m : Margin) (blank : List Char) (e : Expr) :
    Layout.Pieces.item m blank (.ofExpr e) = Layout.Pieces.expr m blank e := by
  cases e <;> rfl

/-- It is tidied alike, too. -/
theorem tidy_ofExpr (e : Expr) : Relabel.tidy.item (.ofExpr e) = .ofExpr (Relabel.tidy.expr e) := by
  cases e <;> rfl

/-- So two expressions that are tidied alike are tidied alike as items. -/
theorem tidy_ofExpr_congr {e e' : Expr} (h : Relabel.tidy.expr e' = Relabel.tidy.expr e) :
    Relabel.tidy.item (.ofExpr e') = Relabel.tidy.item (.ofExpr e) := by
  rw [tidy_ofExpr, h, tidy_ofExpr]

/-- And what is separable as an item is so as an expression. -/
theorem separable_ofExpr {e : Expr} (h : Parts.Separable (Parts.item (.ofExpr e))) :
    Parts.Separable (Parts.expr e) := by
  cases e with
  | error n => simp [Parts.expr, Part.Separable]
  | _ => exact (Parts.separable_cons.1 h).2

/-- What starts an item is seen again, since what follows an item looks the same. -/
theorem item_finds (hg : Copying S g) : Finds S n (item g) ts (Copies n .item (item g) ts) := by
  refine .ahead (.ite (fun h => ?assignment) fun hassignment =>
    .ite (fun h => ?visibility) fun hmodifier => .ite (fun h => ?template) fun htemplate =>
    .ite (fun h => ?unnamed) fun hunnamed => .ite (fun h => ?member) fun hmember => ?expr)
  case assignment =>
    refine (assignment_finds hg).map fun a us ha => ?_
    refine ha.within (fun _ _ => rfl) (fun _ => congrArg Item.assignment)
      (fun hs => (Parts.separable_cons.1 hs).2) (fun _ hf => ⟨hf.1, .of_resembles hf.1 hf.2 _⟩)
      fun hsim hagain => ?_
    exact .ahead (.ite_pos (hsim.startsAssignment ▸ h) hagain)
  case visibility =>
    refine (visibility_finds hg (object_finds hg)).map fun v us hv => ?_
    refine hv.within (fun _ _ => rfl) (fun _ => congrArg Item.visibility)
      (fun hs => (Parts.separable_cons.1 hs).2) (fun _ hf => ⟨hf.1, .of_resembles hf.1 hf.2 _⟩)
      fun hsim hagain => ?_
    exact .ahead (.ite_neg (hsim.startsAssignment ▸ hassignment)
      (.ite_pos (hsim.isModifier_isWord ▸ h) hagain))
  case template =>
    refine (template_finds hg (object_finds hg)).map fun t us ht => ?_
    refine ht.within (fun _ _ => rfl) (fun _ => congrArg Item.template)
      (fun hs => (Parts.separable_cons.1 hs).2) (fun _ hf => ⟨hf.1, trivial⟩) fun hsim hagain => ?_
    exact .ahead (.ite_neg (hsim.startsAssignment ▸ hassignment)
      (.ite_neg (hsim.isModifier_isWord ▸ hmodifier) (.ite_pos (hsim.startsTemplate ▸ h) hagain)))
  case unnamed =>
    refine (unnamed_finds hg).map fun u us hu => ?_
    refine hu.within (fun _ _ => rfl) (fun _ => congrArg Item.unnamed)
      (fun hs => (Parts.separable_cons.1 hs).2) (fun _ hf => ⟨hf.1, trivial⟩) fun hsim hagain => ?_
    exact .ahead (.ite_neg (hsim.startsAssignment ▸ hassignment)
      (.ite_neg (hsim.isModifier_isWord ▸ hmodifier)
      (.ite_neg (hsim.startsTemplate ▸ htemplate) (.ite_pos (hsim.startsUnnamed ▸ h) hagain))))
  case member =>
    refine (member_finds hg).map fun p us hp => ?_
    refine hp.within (fun _ _ => rfl) (fun _ => congrArg Item.member)
      (fun hs => (Parts.separable_cons.1 hs).2)
      (fun _ hf => ⟨hf.1, hf.1.weaken _, hf.2, fun e _ => .of_resembles hf.1 hf.2 _⟩)
      fun hsim hagain => ?_
    exact .ahead (.ite_neg (hsim.startsAssignment ▸ hassignment)
      (.ite_neg (hsim.isModifier_isWord ▸ hmodifier)
      (.ite_neg (hsim.startsTemplate ▸ htemplate)
      (.ite_neg (hsim.startsUnnamed ▸ hunnamed) (.ite_pos (hsim.startsMember ▸ h) hagain)))))
  case expr =>
    refine hg.expr.map fun e us he => ?_
    refine he.1.within (fun m blank => pieces_ofExpr m blank e) (fun _ => tidy_ofExpr_congr)
      separable_ofExpr (fun _ hf => ⟨hf.1, .of_resembles hf.1 hf.2 _⟩) fun hsim hagain => ?_
    exact .ahead (.ite_neg (hsim.startsAssignment ▸ hassignment)
      (.ite_neg (hsim.isModifier_isWord ▸ hmodifier)
      (.ite_neg (hsim.startsTemplate ▸ htemplate)
      (.ite_neg (hsim.startsUnnamed ▸ hunnamed) (.ite_neg (hsim.startsMember ▸ hmember) hagain)))))

/-- An item that was read without a problem is read again. -/
theorem itemOrError_finds (hg : Copying S g) :
    Finds S n (itemOrError g) ts (Copies n .item (itemOrError g) ts) := by
  refine .mark fun _ => ?_
  refine .bind (.orRecover hg.fair (item_steady hg.advancing).sound (item_finds hg)) fun _ _ hi =>
    ?_
  refine .still (.emit _) fun _ => ?_
  exact .pure ⟨hi.mirrors, fun m blank here he hs hf => .mark fun _ =>
    .bind (.orRecover (hi.again m blank here he hs hf)) fun _ _ h => .emit (.pure h)⟩

/-- Items that were read up to the end. -/
inductive Itemized (g : Grammar) (n : Nat) : List Token → List Item → Prop where
  | nil : Itemized g n [] []
  | cons {ts us : List Token} {i : Item} {is : List Item} :
    Copies n .item (itemOrError g) ts i us → Itemized g n us is → Itemized g n ts (i :: is)

/-- What the rounds from here on add to the items read before. -/
def ItemRound (g : Grammar) (n : Nat) (read : List Item) (ts : List Token)
    (is : Option (List Item)) : Prop :=
  ∃ more, is = some (read.reverse ++ more) ∧ Itemized g n ts more

/-- The items are read one by one up to the end. -/
theorem items_finds (hg : Copying S g) : Finds S n (items g fun _ => false) ts fun is _ =>
    ∃ more, is = some more ∧ Itemized g n ts more := by
  refine (Finds.loop (fun read ts is _ => ItemRound g n read ts is) (fun read ts => ?round) []).mono
    fun is us h => by simpa [ItemRound] using h
  refine .ahead (.ite (fun h => .pure ?last) fun _ => .ite (fun h => ?off) fun _ => ?more)
  case last =>
    rw [List.isEmpty_iff] at h
    exact ⟨[], by simp, h ▸ .nil⟩
  case off => exact absurd h Bool.false_ne_true
  case more =>
    refine .bind (itemOrError_finds hg) fun i us hi => .pure ?_
    rintro is _ ⟨more, his, hmore⟩
    exact ⟨i :: more, by simp [his], .cons hi hmore⟩

/-- The text of all items stands for the tokens that were read. -/
theorem Itemized.mirrors {m : Margin} {between : List Char} {is : List Item}
    (h : Itemized g n ts is) : ∀ {blank},
      Mirrors false ts (Layout.Pieces.items m between blank is) [] := by
  induction h with
  | nil => exact fun {_} => .nil (.done nofun nofun)
  | cons hi _ ih => exact fun {_} => hi.mirrors_append ih

/-- Items are read again one by one. -/
theorem Itemized.again (hg : Copying S g) (he : src.Ended) {m : Margin} {between : List Char}
    (hb : between ≠ []) {is : List Item} (h : Itemized g n ts is)
    (hs : ∀ i ∈ is, Parts.Separable (Parts.item i)) : ∀ read blank here,
      Takes src n (loop (itemStep g fun _ => false) read)
        (tokensFrom here (Layout.Pieces.items m between blank is) ++ []) fun b _ =>
          ∃ is', b = some is' ∧ is'.map Relabel.tidy.item =
            (read.reverse ++ is).map Relabel.tidy.item := by
  have ha := itemStep_advances hg.advancing fun _ => false
  induction h with
  | nil => exact fun _ _ _ => .loop_end ha he (.ahead (.ite_pos rfl
      (.pure ⟨_, rfl, _, rfl, by simp⟩)))
  | @cons ts us i is hi hrest ih =>
    intro read blank here
    rw [List.forall_mem_cons] at hs
    have hdetached (here : Position) :
        Detached (tokensFrom here (Layout.Pieces.items m between between is) ++ []) := by
      cases is with
      | nil => rintro t ⟨⟩
      | cons j is => exact detached_of_behind ((Layout.Pieces.item_behind j).append _) hb here
    have hbehind : Piece.Behind blank (Layout.Pieces.item m blank i) := Layout.Pieces.item_behind i
    obtain ⟨p, ps, hp, -⟩ := hbehind
    refine .loop_next ha he (.ahead (.ite_neg ?_ (.ite_neg Bool.false_ne_true
      (hi.next he hs.1 (fun here => ⟨hrest.mirrors here, hdetached here⟩) fun here i' h => .pure
        ⟨_, rfl, (ih hs.2 _ _ _).mono fun b _ his => ?_⟩))))
    · rw [Layout.Pieces.items, hp]
      rintro ⟨⟩
    · obtain ⟨is', rfl, his⟩ := his
      have h : Relabel.tidy.item i' = Relabel.tidy.item i := h
      exact ⟨is', rfl, by simp [his, h]⟩

/-- All items are read again from their text. -/
theorem Itemized.reads (hg : Copying S g) (he : src.Ended) {m : Margin} {between : List Char}
    (hb : between ≠ []) {is : List Item} (h : Itemized g n ts is)
    (hs : ∀ i ∈ is, Parts.Separable (Parts.item i)) (here : Position) :
    Takes src n (items g fun _ => false)
      (tokensFrom here (Layout.Pieces.items m between [] is)) fun b _ =>
        ∃ is', b = some is' ∧ is'.map Relabel.tidy.item = is.map Relabel.tidy.item := by
  rw [← List.append_nil (tokensFrom _ _)]
  exact h.again hg he hb hs [] [] here

end Parser

/-! ### Documents -/

/-- The words of a source have the classes of their texts. -/
theorem Scene.spelled_ofText (source : String) : (Scene.ofText source).Spelled := by
  intro t ht text c hk
  rw [show (Scene.ofText source).tokens = _ from (ofText_eq source).1] at ht
  obtain ⟨written, -, hwritten⟩ := tokenize_written source t (mem_visibleTokens ht).1
  rw [hk] at hwritten
  exact hwritten.2.2

/-- A document with other spans. -/
def Relabel.document (r : Relabel) (d : Document) : Document :=
  ⟨d.items.map r.item, r.span d.span⟩

/-- The canonical text of a source. -/
def canonicalText (style : Style) (source : String) : String :=
  (parse source).document.format style

/-- Between two items stands a line break at least. -/
theorem Document.between_ne_nil (style : Style) : (Layout.between style).toList ≠ [] := by
  unfold Layout.between
  split <;> simp

/-- **Canonical text is read again.**  The canonical text of a source without problems has none
either.  Its tree is the same up to places and stray commas, so its canonical text is itself. -/
theorem parse_canonicalText {source : String} (clean : (parse source).diagnostics = [])
    (separable : (parse source).document.Separable) (style : Style) :
    (parse (canonicalText style source)).diagnostics = [] ∧
      Relabel.tidy.document (parse (canonicalText style source)).document =
        Relabel.tidy.document (parse source).document ∧
      canonicalText style (canonicalText style source) = canonicalText style source := by
  have hg := Parser.copying_levels (S := .ofText source)
    (fair_of_diagnostics (problems_eq_nil clean).1) (Scene.spelled_ofText source) Parser.maxNesting
  obtain ⟨-, -, items, hsome, hitems⟩ := Parser.items_finds hg (n := 0)
    (.start (TokenStream.ofText source).tokens) rfl rfl (.all _) _ (readItems_value source)
    (problems_eq_nil clean).2
  obtain rfl := Option.some.inj hsome
  -- The second run: its tokens are the pieces of the canonical text.
  obtain ⟨stop, hstop, hstream⟩ := Document.ofText_format style (writable_of_clean clean)
  have hended : Source.Ended ⟨(canonicalText style source).toList, stop⟩ := hstop
  obtain ⟨_, _, hread, -, is, rfl, his⟩ := hitems.reads hg hended (Document.between_ne_nil style)
    (Parts.separable_flatMap.1 separable) .origin
    (.start (Piece.tokensFrom .origin ((parse source).document.pieces style))) rfl rfl
  have hrun : readItems (fun _ => false) (canonicalText style source)
      (TokenStream.ofText (canonicalText style source)) = Parser.items (.levels Parser.maxNesting)
        (fun _ => false) ⟨(canonicalText style source).toList, stop⟩
          (.start (Piece.tokensFrom .origin ((parse source).document.pieces style))) := by
    rw [canonicalText, hstream]
    rfl
  have hsame : (parse (canonicalText style source)).document.items.map Relabel.tidy.item =
      (parse source).document.items.map Relabel.tidy.item := by
    have hvalue := readItems_value (canonicalText style source)
    rw [hrun] at hvalue
    rw [← Option.some.inj (Option.some.inj (hread.value.symm.trans hvalue)), his]
  refine ⟨?_, ?_, Document.format_congr hsame style⟩
  · show problems _ (readItems _ _ _).notes = []
    rw [hrun, problems, hread.found false, canonicalText, hstream]
    exact List.mergeSort_nil
  · rw [Relabel.document, hsame]
    rfl

/-- A quotient by `is` in front of an item called `is`, and a stray comma, without indentation. -/
theorem parse_canonicalText_quotient : ∃ source, source = "A is x div is is is [1,,2]" ∧
    (parse source).diagnostics = [] ∧ (parse source).document.Separable ∧
    (parse (canonicalText ⟨0, false⟩ source)).diagnostics = [] ∧
    Relabel.tidy.document (parse (canonicalText ⟨0, false⟩ source)).document =
      Relabel.tidy.document (parse source).document ∧
    canonicalText ⟨0, false⟩ (canonicalText ⟨0, false⟩ source) =
      canonicalText ⟨0, false⟩ source := by
  have clean : (parse "A is x div is is is [1,,2]").diagnostics = [] :=
    List.isEmpty_iff.1 (by decide +kernel)
  have separable : (parse "A is x div is is is [1,,2]").document.Separable := by decide +kernel
  exact ⟨_, rfl, clean, separable, parse_canonicalText clean separable ⟨0, false⟩⟩

/-- A comma behind a parameter that ends in `div is` makes `div` a parameter. -/
theorem exists_misread : ∃ source : String, (parse source).diagnostics = [] ∧
    Relabel.tidy.document (parse (canonicalText {} source)).document ≠
      Relabel.tidy.document (parse source).document ∧
    canonicalText {} (canonicalText {} source) ≠ canonicalText {} source := by
  have clean : (parse "template T [p = x div is is is] is O()").diagnostics = [] :=
    List.isEmpty_iff.1 (by decide +kernel)
  have moves : canonicalText {} (canonicalText {} "template T [p = x div is is is] is O()") ≠
      canonicalText {} "template T [p = x div is is is] is O()" := by decide +kernel
  exact ⟨_, clean,
    fun h => moves (Document.format_congr (congrArg Document.items h) {}), moves⟩

end Ndf
