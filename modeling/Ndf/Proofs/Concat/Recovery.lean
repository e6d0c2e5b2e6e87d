/-
# The grammar reads a source and its twin alike

`Alike` for every parser, level by level.  Most follow by composition.  What takes an argument is
where a parser looks at the token behind its last one.

* What ends there for want of a sign, such as a reference or a chain of operators, ends in the twin
  too: the plain name that follows is none.
* What gives up there may go on in the twin, but then the run was not clean.
* Between brackets, elements and parameters end there without giving up; the closing bracket is
  missed only afterwards (`elements_alike`, `params_alike`).
-/

import Ndf.Proofs.Concat.Twin

namespace Ndf

/-- The level below reads a source and its twin alike. -/
structure Twinned (w : Twin) (g : Grammar) : Prop where
  advancing : Parser.Advancing g
  expr : Parser.Alike w w.relabel.expr g.expr g.expr
  operand : Parser.Alike w w.relabel.expr g.operand g.operand
  type : Parser.Alike w w.relabel.type g.type g.type

namespace Parser

variable {w : Twin} {src src' : Source} {c c' : Cursor} {g : Grammar}

/-- Behind a parameter of a type both runs go on, or both end the list. -/
theorem typeParamEnd_alike (read : List TypeRef) :
    Alike w (Sum.map (List.map w.relabel.type) (List.map w.relabel.type)) (typeParamEnd read)
      (typeParamEnd (read.map w.relabel.type)) := by
  refine .bind (.eat rfl (by simp)) fun _ src src' hs c c' hl => ?_
  refine .peekEnd hs hl (fun t t' ht hk _ hne => ?_) fun hm t t' text ht _ => ?_
  · rw [hk]
    split
    · exact (AlikeAt.bump hl hne).bind fun _ _ _ hl' =>
        Alike.pure (by rw [← List.map_reverse]; rfl) hs hl'
    · rename_i hgt
      have hr : c.rest ≠ [] := rest_ne_nil hs.ended (by rw [ht, hgt]; simp)
      exact (AlikeAt.bumpHalf hl hr).bind fun _ _ _ hl' =>
        Alike.pure (by rw [← List.map_reverse]; rfl) hs hl'
    · exact Alike.pure rfl hs hl
    · exact Alike.unexpected _ hs hl
  · rw [ht]
    exact .of_none hm rfl

/-- The parameters of a type are read alike. -/
theorem typeParams_alike (hg : Twinned w g) :
    Alike w (List.map w.relabel.type) (typeParams g) (typeParams g) := by
  have ha := Eats.advances (typeParamStep_eats hg.advancing)
  refine Alike.loop (u := List.map w.relabel.type) ha ha (fun read => ?_) []
  exact .bind hg.type fun param => typeParamEnd_alike (param :: read)

/-- Reading a sign that was seen ahead. -/
theorem bump_sign_alike {kind : TokenKind} (hl : w.Linked c c')
    (hk : Lookahead.isKind c.rest 0 kind = true) :
    AlikeAt w src src' c c' id bump bump := by
  refine .bump hl fun _ hr => ?_
  rw [hr] at hk
  cases hk

/-- A type is read alike. -/
theorem typeRef_alike (hg : Twinned w g) :
    Alike w w.relabel.type (typeRef g) (typeRef g) := by
  refine .markPeek (typeRef_eats hg.advancing) fun m t t' hk _ => ?_
  rw [hk]
  refine .bind (.name _) fun name src src' hs c c' hl => ?_
  have close (params : List TypeRef) : Alike w w.relabel.type
      (do return ⟨name, t.kind.wordClass?.getD .name, params, ← spanFrom m⟩)
      (do return ⟨w.relabel.name name, t.kind.wordClass?.getD .name, params.map w.relabel.type,
        ← spanFrom (w.mark m)⟩) :=
    .spanFrom fun s => by rw [Relabel.type, Relabel.types_eq_map]; rfl
  have near := hl.near hs
  refine AlikeAt.ite (by rw [near.sign_eq rfl]) (fun hsign => ?_) fun _ => close [] hs hl
  rw [Bool.and_eq_true] at hsign
  exact (bump_sign_alike hl hsign.1).bind fun _ _ _ hl' =>
    Alike.bind (typeParams_alike hg) (fun params => close params) hs hl'

/-! ### Cuts -/

section Cuts

variable (hm : w.more = [])

include hm

/-- Where nothing follows the source in its twin, every place is inside. -/
theorem inside_of_nil (c : Cursor) : w.Inside c := fun hmore => absurd hm hmore

/-- And the tokens ahead are of the same kinds. -/
theorem linked_kinds (hl : w.Linked c c') :
    c'.rest.map Token.kind = c.rest.map Token.kind := by
  have hr := hl.rests
  cases hc : c.rest with
  | nil =>
    rw [hc] at hr
    rw [show c'.rest = w.more from hr, hm]
  | cons t ts =>
    rw [hc] at hr
    obtain ⟨joined, -, hc'⟩ := hr
    rw [hc', hm]
    simp [Twin.token, Token.shift, Function.comp_def]

/-- Passing over tokens is alike. -/
theorem skip_alike (n : Nat) : Alike w id (skip n) (skip n) := by
  induction n with
  | zero => exact .pure rfl
  | succ n ih =>
    intro src src' hs c c' hl
    exact (AlikeAt.bump hl (inside_of_nil hm c)).bind fun _ _ _ hl' => ih hs hl'

/-- Leaving a broken fragment reads the same tokens. -/
theorem leave_alike (m : Mark) (keep : Option TokenKind) :
    Alike w id (leave m keep) (leave (w.mark m) keep) := by
  refine .bind .movedFrom fun moved => .ite Iff.rfl (.pure rfl) fun src src' hs c c' hl => ?_
  refine .peek hs hl (inside_of_nil hm c) fun t t' _ hk _ => ?_
  rw [hk]
  exact .ite Iff.rfl (fun _ => Alike.pure rfl hs hl) fun _ => .bump hl (inside_of_nil hm c)

/-- A fragment is cut out of the twin as it was out of the source. -/
theorem errorAt_alike (s : Span) :
    Alike w w.relabel.errorNode (errorAt s) (errorAt (w.span s)) := by
  intro src src' hs c c' hl _
  have htext := hs.text hm s
  refine ⟨?_, hl, ?_⟩
  · show some (⟨w.span s, _⟩ : ErrorNode) = some ⟨w.span s, _⟩
    rw [htext]
  · simp only [Parser.errorAt, htext]
    split <;> rfl

/-- So is one from a mark on. -/
theorem errorFrom_alike (m : Mark) :
    Alike w w.relabel.errorNode (errorFrom m) (errorFrom (w.mark m)) :=
  .bind .span (errorAt_alike hm)

/-- Cutting a number of tokens that depends on the kinds ahead. -/
theorem cut_alike {β β' : Type} {h : β → β'} (gap : List Token → Nat) {m : Mark}
    {keep : Option TokenKind} {q : List Token → Parser β} {q' : List Token → Parser β'}
    (hgap : ∀ ts us : List Token, us.map Token.kind = ts.map Token.kind → gap us = gap ts)
    (hq : ∀ ts us : List Token, us.map Token.kind = ts.map Token.kind → Alike w h (q ts) (q' us)) :
    Alike w h (leave m keep >>= fun _ => ahead >>= fun ts => skip (gap ts) >>= fun _ => q ts)
      (leave (w.mark m) keep >>= fun _ =>
        ahead >>= fun ts => skip (gap ts) >>= fun _ => q' ts) := by
  refine .bind (leave_alike hm m keep) fun _ src src' hs c c' hl => ?_
  have hkinds := linked_kinds hm hl
  show AlikeAt w src src' c c' h (skip (gap c.rest) >>= fun _ => q c.rest)
    (skip (gap c'.rest) >>= fun _ => q' c'.rest)
  rw [hgap _ _ hkinds]
  exact Alike.bind (skip_alike hm _) (fun _ => hq _ _ hkinds) hs hl

/-- A broken item is cut out alike. -/
theorem recoverItem_alike (m : Mark) :
    Alike w w.relabel.errorNode (recoverItem m) (recoverItem (w.mark m)) := by
  refine cut_alike hm Recovery.itemGap (fun _ _ => itemGap_congr) fun _ _ _ => ?_
  refine .bind (errorFrom_alike hm m) fun _ => .bind .emit fun _ => ?_
  exact .pure rfl

/-- A broken element is cut out alike. -/
theorem recoverElement_alike (m : Mark) :
    Alike w w.relabel.errorNode (recoverElement m) (recoverElement (w.mark m)) := by
  unfold recoverElement
  refine cut_alike hm (fun ts => (Recovery.elementGap 0 ts).length)
    (fun ts us h => by rw [elementGap_congr h]) fun ts us h => ?_
  exact .ite (by rw [elementGap_congr h]) (errorFrom_alike hm m) .abort

/-- A broken entry is cut out alike. -/
theorem recoverEntry_alike (m : Mark) :
    Alike w w.relabel.errorNode (recoverEntry m) (recoverEntry (w.mark m)) := by
  unfold recoverEntry
  refine cut_alike hm (fun ts => (Recovery.entryGap 0 ts).length)
    (fun ts us h => by rw [entryGap_congr h]) fun ts us h => ?_
  exact .ite (by rw [entryGap_congr h])
    (.bind (errorFrom_alike hm m) fun _ => .bind .emit fun _ => .pure rfl) .abort

end Cuts

end Parser

end Ndf
