/-
# The form of a document

Every part of the document of a source is lawful, however broken the source is: it keeps its text as
it is written (`parse_verbatim`), and what the types of a tree leave open is settled
(`parse_wellFormed`).
-/

import Ndf.Proofs.Concat.Document
import Ndf.Proofs.Form.Grammar
import Ndf.Proofs.Parser.Explained

namespace Ndf

/-- The tokens that the grammar sees stand in the source as they say. -/
theorem trusts_ofText (source : String) :
    (Scene.ofText source).source.Trusts (TokenStream.ofText source).tokens where
  ended := (ofText_eq source).2
  written t ht := by
    rw [(ofText_eq source).1] at ht
    exact .inr (tokenize_written source t (mem_visibleTokens ht).1)
  ordered := (List.pairwise_append.1 (Scene.ofText source).ordered).1

/-- Every part of a document is lawful. -/
theorem parse_lawful (source : String) :
    Parts.Lawful source.toList (parse source).document.parts := by
  have hbuilt := Parser.items_builds (Parser.building_levels Parser.maxNesting) (fun _ => false)
    (c := .start (TokenStream.ofText source).tokens) (trusts_ofText source)
    (readItems_accounts (fun _ => false) source).calm
  exact Parts.lawful_flatMap.2 (hbuilt.value (some _) (readItems_value source))

/-- Every part of a document is written in the source as it is kept. -/
def Document.Verbatim (source : String) (d : Document) : Prop :=
  ∀ p ∈ d.parts, p.Verbatim source.toList

/-- What the type of a part leaves open is settled for every part of a document. -/
def Document.WellFormed (d : Document) : Prop := ∀ p ∈ d.parts, p.WellFormed

/-- **Text is kept as it is written.**  The text of a name, a number or a fragment is the slice of
the source that it covers; a string is written between its quote marks, a payload between braces
behind the word `guid`, and what means itself is spelled as it is, up to the case of its letters. -/
theorem parse_verbatim (source : String) : (parse source).document.Verbatim source :=
  fun p hp => (parse_lawful source p hp).verbatim

/-- **Every document is well formed.**  What the types of a tree leave open is settled, wherever a
part stands and however broken the source is. -/
theorem parse_wellFormed (source : String) : (parse source).document.WellFormed :=
  fun p hp => (parse_lawful source p hp).wellFormed

end Ndf
