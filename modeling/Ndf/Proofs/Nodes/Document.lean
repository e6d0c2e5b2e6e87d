/-
# The tree of a document

`SPEC_FULL.md` §3: a tree, with no sharing.

`parse_nodes`: the spans of a parse form a tree.  Each node starts and ends with a token, its parts
lie in it one behind the other, and so do the items in the document.
-/

import Ndf.Proofs.Concat.Document
import Ndf.Proofs.Nodes.Grammar

namespace Ndf

variable {S : Scene} {source : String}

/-- A node and all that is below it. -/
theorem Node.all_eq (n : Node) : n.all = n :: n.parts.flatMap Node.all := by
  cases n with
  | mk isType span parts => rw [all, allOf_eq_flatMap]

/-- What is below a node that stands well stands well. -/
theorem Node.Proper.all {n : Node} (h : n.Proper S) : ∀ m ∈ n.all, m.Proper S := by
  induction h with
  | mk placed lt starts stops ordered within parts ih =>
    intro m hm
    rw [Node.all_eq, List.mem_cons, List.mem_flatMap] at hm
    rcases hm with rfl | ⟨p, hp, hm⟩
    · exact .mk placed lt starts stops ordered within parts
    · exact ih p hp m hm

/-- The items of a source stand in a row, and its problems stand where something was read. -/
theorem parse_row (source : String) :
    (Scene.ofText source).Honest
      (readItems (fun _ => false) source (TokenStream.ofText source)).notes ∧
    ∃ hi, (Scene.ofText source).Row 0 hi ((parse source).document.items.map Outline.item) := by
  have hrun := (Parser.items_lays (Parser.laying_levels Parser.maxNesting) fun _ => false).rows
    _ (.start (Scene.ofText source))
  exact ⟨hrun.honest, _, (hrun.row _ (readItems_value source)).mono (Nat.zero_le _)
    (Nat.le_refl _)⟩

/-- Every node of a source stands well in it. -/
theorem proper_of_mem_nodes {n : Node} (h : n ∈ (parse source).document.nodes) :
    n.Proper (Scene.ofText source) := by
  obtain ⟨-, hi, hrow⟩ := parse_row source
  rw [Document.nodes, Node.allOf_eq_flatMap, List.mem_flatMap] at h
  obtain ⟨item, hitem, hn⟩ := h
  exact (hrow.proper item hitem).all n hn

/-- A node fits tokens: it is not empty, starts where one of them starts and ends where one of them
ends, or behind the first half of a `>=` if it is a type, and its parts lie in it one behind the
other. -/
structure Node.Fits (tokens : List Token) (n : Node) : Prop where
  nonempty : n.span.start < n.span.stop
  starts : ∃ t ∈ tokens, t.span.start = n.span.start
  stops : (∃ t ∈ tokens, t.span.stop = n.span.stop) ∨
    n.isType = true ∧ ∃ t ∈ tokens, t.kind = .gtEq ∧ t.firstHalf.span.stop = n.span.stop
  ordered : n.parts.Pairwise fun a b => a.span.stop ≤ b.span.start
  within : ∀ p ∈ n.parts, n.span.encloses p.span = true

/-- A proper node fits the tokens. -/
theorem Node.Proper.fits {n : Node} (h : n.Proper S) : n.Fits S.tokens := by
  obtain ⟨-, lt, starts, stops, ordered, within, -⟩ := h
  exact ⟨lt, starts, stops, ordered, fun p hp => Span.encloses_iff.2 (within p hp)⟩

/-- **The spans of a document form a tree.**  However broken a source is, every node of its document
fits the tokens that the grammar sees, and the items lie in the document one behind the other. -/
theorem parse_nodes (source : String) :
    (∀ n ∈ (parse source).document.nodes, n.Fits (visibleTokens source)) ∧
    ((parse source).document.items.Pairwise fun a b => a.span.stop ≤ b.span.start) ∧
    ∀ i ∈ (parse source).document.items, (parse source).document.span.encloses i.span = true := by
  obtain ⟨-, hi, hrow⟩ := parse_row source
  refine ⟨fun n hn => ?_, ?_, fun i hi => ?_⟩
  · rw [← (ofText_eq source).1]
    exact (proper_of_mem_nodes hn).fits
  · have hordered := hrow.ordered
    rw [List.pairwise_map] at hordered
    exact hordered.imp fun h => by rwa [Outline.span_item, Outline.span_item] at h
  · have hproper := hrow.proper _ (List.mem_map_of_mem hi)
    obtain ⟨word, hword⟩ := Option.isSome_iff_exists.1 hproper.isPlaced.slice?_isSome
    obtain ⟨front, rest, htext, hstart, hstop⟩ := Text.eq_append_of_slice? hword
    rw [Outline.span_item] at hstart hstop
    have hsize : Text.byteSize source.toList =
        Text.byteSize front + (Text.byteSize word + Text.byteSize rest) := by
      rw [show source.toList = _ from htext, Text.byteSize_append, Text.byteSize_append]
    rw [Span.encloses_iff]
    refine ⟨Nat.zero_le _, ?_⟩
    show i.span.stop ≤ Text.byteSize source.toList
    omega

end Ndf
