/-
# Spacing does not show in a tree

`SPEC_FULL.md` §3 and its glossary: white space tells no more than what is adjacent.

White space and comments lie between the tokens that the grammar sees.  All that is left of them
is where the tokens stand and which of them are joined, and where they stand is not asked: two
sources whose visible tokens have the same shapes have the same bare trees (`parse_spacing`).
-/

import Ndf.Proofs.Concat.Document
import Ndf.Proofs.Spacing.Grammar

namespace Ndf

/-- The items of two sources with tokens of the same shapes. -/
theorem items_of_shapes {s t : String}
    (h : (visibleTokens t).map Token.shape = (visibleTokens s).map Token.shape) :
    (parse t).document.items.map Bare.item = (parse s).document.items.map Bare.item := by
  obtain ⟨htokens, hstop⟩ := ofText_eq s
  obtain ⟨htokens', hstop'⟩ := ofText_eq t
  have ended : Source.Ended ⟨s.toList, (TokenStream.ofText s).stop⟩ := hstop
  have ended' : Source.Ended ⟨t.toList, (TokenStream.ofText t).stop⟩ := hstop'
  have beside : (Cursor.start (TokenStream.ofText s).tokens).Beside
      (.start (TokenStream.ofText t).tokens) := by
    refine ⟨?_, rfl, rfl⟩
    show (TokenStream.ofText t).tokens.map Token.shape =
      (TokenStream.ofText s).tokens.map Token.shape
    rw [htokens, htokens', h]
  have run : Parser.BlindAt ⟨s.toList, (TokenStream.ofText s).stop⟩
      ⟨t.toList, (TokenStream.ofText t).stop⟩ (.start (TokenStream.ofText s).tokens)
      (.start (TokenStream.ofText t).tokens) (Option.map (List.map Bare.item))
      (Parser.items (.levels Parser.maxNesting) fun _ => false)
      (Parser.items (.levels Parser.maxNesting) fun _ => false) :=
    Parser.items_blind (Parser.blind_levels Parser.maxNesting) _ ended ended' beside
  have hs := readItems_value s
  have ht := readItems_value t
  rw [readItems] at hs ht
  have items := run.1
  rw [hs, ht] at items
  simpa using items

/-- **Spacing shows in a tree only through what is joined.**  Two sources whose visible tokens
agree one by one in their kinds, with the texts they carry, and in being joined have the same tree
once all spans and the texts of fragments are forgotten, whatever white space, comments and byte
order marks they have.  If nothing in the trees is unreadable, both have the same dump. -/
theorem parse_spacing (s t : String)
    (shapes : (visibleTokens t).map Token.shape = (visibleTokens s).map Token.shape) :
    (parse t).document.bare = (parse s).document.bare ∧
      ((parse s).document.errorCount = 0 → (parse t).document.errorCount = 0 →
        (parse t).document.dump = (parse s).document.dump) := by
  have bare : (parse t).document.bare = (parse s).document.bare :=
    congrArg (fun items => (⟨items, .zero⟩ : Document)) (items_of_shapes shapes)
  refine ⟨bare, fun hs ht => ?_⟩
  rw [← Document.dump_bare hs, ← Document.dump_bare ht, bare]

/-- The same object on one line and on many, with comments. -/
theorem parse_spacing_lines :
    (parse "A is B( x = [1, 2] )").document.dump =
      (parse "A // name\nis\n\n  B(\n\tx (* 1 *) =\n [1,\n\n2]\n)\n").document.dump :=
  (parse_spacing "A // name\nis\n\n  B(\n\tx (* 1 *) =\n [1,\n\n2]\n)\n" "A is B( x = [1, 2] )"
    (by cbv)).2 (by cbv) (by cbv)

end Ndf
