/-
# Lines and columns of nodes and problems

`SPEC_FULL.md` §6: the span of a diagnostic; E6: the place that is shown of it.

The span of a node or a problem starts with a token, with what is left of a `>=`, or at the end of
the source, so its line and column are right if those of the tokens are (`Scene.Placed.right`).
`parse_positions` says of a whole source that all its positions are right.
-/

import Ndf.Proofs.Nodes.Document
import Ndf.Proofs.Token.Position

namespace Ndf

variable {source : String} {c : Cursor} {s : Span}

/-- The span of a token of the scene is right, and so is that of the half of a `>=`. -/
theorem right_token {t : Token}
    (ht : t ∈ (Scene.ofText source).tokens ++ [(Scene.ofText source).source.stop]) :
    t.span.Right source.toList ∧ (t.kind = .gtEq → t.secondHalf.span.Right source.toList) :=
  (tokenize_right source).1 t (List.mem_filter.1 (ofText_append_stop source ▸ ht)).1

/-- What reading stops in front of has a right span. -/
theorem right_next (hc : c.On (Scene.ofText source).tokens) :
    (c.rest.headD (Scene.ofText source).source.stop).span.Right source.toList := by
  rcases hr : c.rest with _ | ⟨t, ts⟩
  · exact (right_token (by simp)).1
  · rcases hc.mem_rest (t := t) (by simp [hr]) with ht | ⟨u, hu, hk, rfl⟩
    · exact (right_token (by simp [ht])).1
    · exact (right_token (by simp [hu])).2 hk

/-- **A span from one place to another is right.** -/
theorem Scene.Placed.right (h : (Scene.ofText source).Placed s) : s.Right source.toList := by
  have hslice := h.slice?_isSome
  obtain ⟨c, d, hc, -, rfl⟩ := h
  refine (right_next hc).of_start (Scene.start_upTo ..) ?_ ?_ hslice
  · unfold Parser.Mark.upTo
    split <;> rfl
  · unfold Parser.Mark.upTo
    split <;> rfl

/-- The problems of a source are at right positions. -/
theorem right_of_mem_diagnostics {source : String} {d : Diagnostic}
    (hd : d ∈ (parse source).diagnostics) : d.span.Right source.toList := by
  rcases List.mem_append.1 (List.mem_mergeSort.1 hd) with hd | hd
  · exact (tokenize_right source).2 d hd
  · rcases Note.mem_of_mem_diagnostics hd with hd | hd
    · exact ((parse_row source).1 d hd).right
    · rw [(readItems_accounts (fun _ => false) source).ends d hd]
      exact (right_token (by simp)).1

/-- **All positions are right.**  However broken a source is, the spans of its tokens, of the
problems that they show, of its document and all nodes below, and of its diagnostics fall between
characters of the text, and their lines and columns are those of the places where they start. -/
theorem parse_positions (source : String) :
    (∀ t ∈ (tokenize source).tokens, t.span.Right source.toList) ∧
    (∀ d ∈ (tokenize source).diagnostics, d.span.Right source.toList) ∧
    (parse source).document.span.Right source.toList ∧
    (∀ n ∈ (parse source).document.nodes, n.span.Right source.toList) ∧
    ∀ d ∈ (parse source).diagnostics, d.span.Right source.toList := by
  obtain ⟨tokens, problems⟩ := tokenize_right source
  refine ⟨fun t ht => (tokens t ht).1, problems, ?_, fun n hn => ?_, fun d hd =>
    right_of_mem_diagnostics hd⟩
  · exact ⟨[], source.toList, [], by simp, rfl, (Nat.zero_add _).symm, rfl, rfl⟩
  · exact (proper_of_mem_nodes hn).isPlaced.right

end Ndf
