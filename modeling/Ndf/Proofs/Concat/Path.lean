/-
# Lists and references behind each other

The elements between brackets and the suffixes of a reference, in a source and in its twin.  What
ends for want of a sign, such as a reference, ends in the twin too: the plain name that follows is
none.  Between brackets the end of the tokens gives no problem by itself, and only the closing
bracket is missed, so the elements are alike in front of it only.
-/

import Ndf.Proofs.Concat.Recovery

namespace Ndf

/-- Elements with other spans. -/
def Relabel.elements (r : Relabel) (e : Parser.Elements) : Parser.Elements :=
  ⟨e.reversed.map r.expr, e.commas, e.commaDue⟩

/-- A suffix with other spans. -/
def Relabel.suffix (r : Relabel) : Suffix → Suffix
  | .joined kind name => .joined kind (r.name name)
  | .index e => .index (r.expr e)

namespace Relabel

variable (r : Relabel)

/-- Relabelling what was read between brackets relabels each element. -/
theorem items_elements (e : Parser.Elements) : (r.elements e).items = e.items.map r.expr := by
  rw [Parser.Elements.items, elements, Parser.Elements.items, List.map_reverse]

/-- It keeps the number of stray commas. -/
theorem strayCommas_elements (e : Parser.Elements) :
    (r.elements e).strayCommas = e.strayCommas := by
  rw [Parser.Elements.strayCommas, elements, Parser.Elements.strayCommas, List.length_map]

/-- The kind that a first suffix asks for is the same. -/
theorem firstKind_suffixes (xs : List Suffix) :
    Suffix.firstKind (xs.map r.suffix) = Suffix.firstKind xs := by
  induction xs with
  | nil => rfl
  | cons x xs ih =>
    cases x with
    | joined kind name => rfl
    | index e => exact ih

/-- The segments of relabelled suffixes are those of the suffixes, relabelled. -/
theorem segments_suffixes (xs : List Suffix) :
    Suffix.segments (xs.map r.suffix) = (Suffix.segments xs).map r.segment := by
  induction xs with
  | nil => rfl
  | cons x xs ih =>
    cases x with
    | joined kind name =>
      simp only [List.map_cons, suffix, Suffix.segments, ih, r.firstKind_suffixes, segment]
    | index e => simp only [List.map_cons, suffix, Suffix.segments, ih, segment]

/-- So are the segments of a whole path. -/
theorem segmentsOf_suffixes (name : Name) (kind : SegmentKind) (xs : List Suffix) :
    Reference.segmentsOf (r.name name) kind (xs.map r.suffix) =
      (Reference.segmentsOf name kind xs).map r.segment := by
  rw [Reference.segmentsOf, Reference.segmentsOf, r.firstKind_suffixes, r.segments_suffixes,
    List.map_cons, segment]

end Relabel

namespace Parser

variable {w : Twin} {src src' : Source} {c c' : Cursor} {g : Grammar}

/-! ### Elements -/

/-- An element between brackets is read alike up to the end of the shorter source. -/
theorem element_alike (hg : Twinned w g) (e : Elements) :
    AlikeOpen w (Sum.map w.relabel.elements w.relabel.elements) (element g e)
      (element g (w.relabel.elements e)) := by
  intro src src' hs c c' hl
  by_cases hne : w.Inside c
  · refine AlikeAt.open (.peek hs hl hne fun t t' _ hk hspan => ?_)
    rw [hk, hspan]
    have item : AlikeAt w src src' c c' (Sum.map w.relabel.elements w.relabel.elements)
        (do
          let m ← mark
          let item ← orRecover g.expr (Expr.error <$> recoverElement m)
          pure (.inl { e with reversed := item :: e.reversed, commaDue := true }))
        (do
          let m ← mark
          let item ← orRecover g.expr (Expr.error <$> recoverElement m)
          pure (.inl ⟨item :: e.reversed.map w.relabel.expr, e.commas, true⟩)) := by
      refine .mark hs hl hne fun m _ => ?_
      refine AlikeAt.bind (f := w.relabel.expr) ?_ fun item _ _ hl' => Alike.pure rfl hs hl'
      refine .orRecover hg.advancing.expr.sound hs hl (hg.expr hs hl) fun hm d' hl' => ?_
      exact Alike.map (recoverElement_alike hm m) (fun _ => by rw [Relabel.expr]) hs hl'
    split
    · exact Alike.pure rfl hs hl
    · exact Alike.pure rfl hs hl
    · exact (AlikeAt.bump hl hne).bind fun _ _ _ hl' => Alike.pure rfl hs hl'
    · refine .ite Iff.rfl (fun _ => ?_) fun _ => item
      refine AlikeAt.bind_run (Alike.report hs hl) fun _ _ _ => item
  · simp only [Twin.Inside, Classical.not_imp, Classical.not_not] at hne
    obtain ⟨hm, hr⟩ := hne
    refine .of_nil hm ?_
    have hrun : element g e src c = ⟨some (.inr e), c, []⟩ := by
      have hstop : (c.rest.headD src.stop).kind = .eof := by rw [hr]; exact hs.ended
      rw [element, peek_bind, hstop]
      rfl
    rw [hrun, hr]

/-- So are all of them. -/
theorem elements_alike (hg : Twinned w g) :
    AlikeOpen w w.relabel.elements (elements g) (elements g) :=
  AlikeOpen.loop (element_advances hg.advancing) (element_advances hg.advancing)
    (fun e => (element_steady hg.advancing e).sound) (element_alike hg) {}

/-- With the closing bracket behind them they are read alike in full. -/
theorem bracketed_alike (hg : Twinned w g) :
    Alike w w.relabel.elements (bracketed g) (bracketed g) := by
  refine .bind (.expect rfl (by simp) _) fun _ => ?_
  refine (elements_alike hg).close (fun e => ?_) fun e => ?_
  · exact (Eats.expect (by simp) _).bind fun _ => (Steady.pure e).sound
  · exact .bind (.expect rfl (by simp) _) fun _ => .pure rfl

/-! ### Suffixes -/

/-- A step of a path is read alike: the name behind the end is not joined. -/
theorem suffix_alike (hg : Twinned w g) (read : List Suffix) :
    Alike w (Sum.map (List.map w.relabel.suffix) (List.map w.relabel.suffix)) (suffix g read)
      (suffix g (read.map w.relabel.suffix)) := by
  intro src src' hs c c' hl
  refine AlikeAt.ite (by rw [(hl.near hs).continuesPath_eq]) (fun hp => ?_) fun _ =>
    Alike.pure (by rw [← List.map_reverse]; rfl) hs hl
  have hne : w.Inside c := fun _ hr => by
    rw [hr] at hp
    cases hp
  have name (s : Name → Suffix) (hsuffix : ∀ n, s (w.relabel.name n) = w.relabel.suffix (s n)) :
      Alike w (Sum.map (List.map w.relabel.suffix) (List.map w.relabel.suffix))
        (do return .inl (s (← Parser.name "a name") :: read) : Parser (List Suffix ⊕ List Suffix))
        (do return .inl (s (← Parser.name "a name") :: read.map w.relabel.suffix)) :=
    .bind (.name _) fun n => .pure (by rw [hsuffix]; rfl)
  have index : Alike w (Sum.map (List.map w.relabel.suffix) (List.map w.relabel.suffix))
      (do
        let index ← g.expr
        expect .rbracket "']'"
        pure (.inl (.index index :: read)))
      (do
        let index ← g.expr
        expect .rbracket "']'"
        pure (.inl (.index index :: read.map w.relabel.suffix))) :=
    .bind hg.expr fun _ => .bind (.expect rfl (by simp) _) fun _ => .pure rfl
  refine .peek hs hl hne fun t t' _ hk _ => ?_
  rw [hk]
  split
  · exact (AlikeAt.bump hl hne).bind fun _ _ _ hl' => index hs hl'
  · exact (AlikeAt.bump hl hne).bind fun _ _ _ hl' => name (.joined .nested) (fun _ => rfl) hs hl'
  · exact (AlikeAt.bump hl hne).bind fun _ _ _ hl' => name (.joined .member) (fun _ => rfl) hs hl'

/-- So is the whole path, which ends there in both sources. -/
theorem suffixes_alike (hg : Twinned w g) :
    Alike w (List.map w.relabel.suffix) (suffixes g) (suffixes g) :=
  Alike.loop (suffix_advances hg.advancing) (suffix_advances hg.advancing) (suffix_alike hg) []

/-! ### References -/

/-- The sign of a scope and the slash behind it are read alike. -/
theorem scopeMark_alike (hs : w.Sees src src') (hl : w.Linked c c') (hne : w.Inside c) :
    AlikeAt w src src' c c' id scopeMark scopeMark := by
  refine (AlikeAt.bump hl hne).bind fun _ _ d' hl' => ?_
  generalize (bump src c).cursor = d at hl'
  refine AlikeAt.ite (by rw [(hl'.near hs).sign_eq rfl]) (fun hsign => ?_) fun _ => ?_
  · rw [Bool.and_eq_true] at hsign
    have hd : w.Inside d := fun _ hr => by
      rw [hr] at hsign
      cases hsign.1
    refine (AlikeAt.bump hl' hd).bind_run fun _ _ hl'' => ?_
    exact .ite (by rw [bump_behind hs hl' hd]) (fun _ => Alike.pure rfl hs hl'') fun _ =>
      Alike.unexpected _ hs hl''
  · exact AlikeAt.bind (f := id) (Alike.unexpected _ hs hl') fun _ hv => nomatch hv

/-- A reference is read alike. -/
theorem reference_alike (hg : Twinned w g) :
    Alike w w.relabel.reference (reference g) (reference g) := by
  have key (scope : Scope) (m : Mark) : Alike w w.relabel.reference
      (do
        let name ← name "a reference name"
        let suffixes ← suffixes g
        let kind : SegmentKind := if scope = .none then .terminal else .nested
        pure ⟨scope, Reference.segmentsOf name kind suffixes, ← spanFrom m⟩)
      (do
        let name ← name "a reference name"
        let suffixes ← suffixes g
        let kind : SegmentKind := if scope = .none then .terminal else .nested
        pure ⟨scope, Reference.segmentsOf name kind suffixes, ← spanFrom (w.mark m)⟩) := by
    refine .bind (.name _) fun name => .bind (suffixes_alike hg) fun suffixes => ?_
    refine .spanFrom fun s => ?_
    rw [Relabel.reference, Relabel.segments_eq_map, Relabel.segmentsOf_suffixes]
    rfl
  refine .inside (reference_eats hg.advancing) fun src src' hs c c' hl hne => ?_
  refine .mark hs hl hne fun m _ => .peek hs hl hne fun t t' _ hk _ => ?_
  rw [hk]
  refine .ite Iff.rfl (fun _ => ?_) fun _ => key _ m hs hl
  exact (scopeMark_alike hs hl hne).bind fun _ _ _ hl' => key _ m hs hl'

/-- What a name and a bracket start is read alike, a vector or a path. -/
theorem vectorOrPath_alike (hg : Twinned w g) :
    Alike w w.relabel.expr (vectorOrPath g) (vectorOrPath g) := by
  refine .mark (vectorOrPath_eats hg.advancing) fun m => .bind (.name _) fun name =>
    .bind (bracketed_alike hg) fun e => .bind .span fun s => .ahead fun ts us near => ?_
  rw [Relabel.items_elements, Relabel.strayCommas_elements]
  have vector (items : List Expr) : Alike w w.relabel.expr
      (pure (.vector name none items e.strayCommas s))
      (pure (.vector (w.relabel.name name) none (items.map w.relabel.expr) e.strayCommas
        (w.span s))) :=
    .pure (by rw [Relabel.expr, Relabel.exprs_eq_map]; rfl)
  rcases e.items with _ | ⟨index, _ | ⟨second, rest⟩⟩
  · exact vector []
  · refine .ite (by rw [near.continuesPath_eq]) ?_ (vector [index])
    refine .bind (suffixes_alike hg) fun suffixes => .spanFrom fun s => ?_
    have := w.relabel.segmentsOf_suffixes name .terminal (.index index :: suffixes)
    rw [List.map_cons, Relabel.suffix] at this
    rw [this, Relabel.expr, Relabel.reference, Relabel.segments_eq_map]
    rfl
  · exact vector (index :: second :: rest)

end Parser

end Ndf
