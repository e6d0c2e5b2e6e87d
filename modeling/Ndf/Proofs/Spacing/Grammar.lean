/-
# The grammar is blind to places

`Blind` for every parser, level by level, up to `Bare`, which forgets the spans of a tree and the
texts of its fragments.  Each parser follows by composition: what is read is told by the kinds of
the tokens ahead and by their being joined.
-/

import Ndf.Proofs.Spacing.Blind
import Ndf.Parser.Document

namespace Ndf

/-- The level below is blind to places. -/
structure Grammar.Blind (g : Grammar) : Prop where
  expr : Parser.Blind Bare.expr g.expr g.expr
  operand : Parser.Blind Bare.expr g.operand g.operand
  type : Parser.Blind Bare.type g.type g.type

namespace Bare

/-- A suffix without places. -/
def suffix : Suffix → Suffix
  | .joined kind n => .joined kind (name n)
  | .index e => .index (expr e)

/-- What joins the first suffix is not a matter of places. -/
theorem firstKind_suffixes (xs : List Suffix) :
    Suffix.firstKind (xs.map suffix) = Suffix.firstKind xs := by
  induction xs with
  | nil => rfl
  | cons x xs ih =>
    cases x with
    | joined kind n => rfl
    | index e => exact ih

/-- The segments made of suffixes are those of suffixes without places. -/
theorem segments_suffixes (xs : List Suffix) :
    segments (Suffix.segments xs) = Suffix.segments (xs.map suffix) := by
  induction xs with
  | nil => rfl
  | cons x xs ih =>
    cases x with
    | joined kind n =>
      rw [Suffix.segments, segments, ih, List.map_cons, suffix, Suffix.segments,
        firstKind_suffixes, segment]
    | index e => rw [Suffix.segments, segments, ih, List.map_cons, suffix, Suffix.segments, segment]

/-- So it is with a name in front. -/
theorem segmentsOf_suffixes (n : Name) (kind : SegmentKind) (xs : List Suffix) :
    segments (Reference.segmentsOf n kind xs) =
      Reference.segmentsOf (name n) kind (xs.map suffix) := by
  rw [Reference.segmentsOf, segments, segments_suffixes, Reference.segmentsOf, firstKind_suffixes,
    segment]

/-- Elements without places. -/
def elements (e : Parser.Elements) : Parser.Elements := ⟨e.reversed.map expr, e.commas, e.commaDue⟩

/-- The elements without places. -/
theorem items_elements (e : Parser.Elements) : (elements e).items = e.items.map expr := by
  rw [Parser.Elements.items, elements, Parser.Elements.items, List.map_reverse]

/-- Commas are counted without them. -/
theorem strayCommas_elements (e : Parser.Elements) :
    (elements e).strayCommas = e.strayCommas := by
  rw [Parser.Elements.strayCommas, elements, Parser.Elements.strayCommas, List.length_map]

/-- An expression as an item. -/
theorem ofExpr_expr (e : Expr) : item (Item.ofExpr e) = Item.ofExpr (expr e) := by
  cases e <;> rfl

end Bare

namespace Parser

variable {g : Grammar} {m m' : Mark}

/-! ### Types -/

/-- The end of a parameter is found by kinds alone. -/
theorem typeParamEnd_blind {read read' : List TypeRef}
    (hread : read'.map Bare.type = read.map Bare.type) :
    Blind (Sum.map (List.map Bare.type) (List.map Bare.type)) (typeParamEnd read)
      (typeParamEnd read') := by
  have done : Sum.map (List.map Bare.type) (List.map Bare.type)
        (.inr read'.reverse : List TypeRef ⊕ List TypeRef) =
      Sum.map (List.map Bare.type) (List.map Bare.type) (.inr read.reverse) := by
    rw [Sum.map_inr, Sum.map_inr, List.map_reverse, List.map_reverse, hread]
  refine .same (.eat .comma) fun _ => .peek fun t t' hk => ?_
  rw [hk]
  split
  · exact .same .bump fun _ => .pure done
  · exact .same .bumpHalf fun _ => .pure done
  · exact .pure (congrArg Sum.inl hread)
  · exact .unexpected _

/-- So are the parameters of a type. -/
theorem typeParams_blind (hg : g.Blind) :
    Blind (List.map Bare.type) (typeParams g) (typeParams g) := by
  refine .loop (u := List.map Bare.type) (fun read read' hread => ?_) rfl
  refine .bind hg.type fun param param' hparam => typeParamEnd_blind ?_
  rw [List.map_cons, List.map_cons, hread, hparam]

/-- So is a type. -/
theorem typeRef_blind (hg : g.Blind) : Blind Bare.type (typeRef g) (typeRef g) := by
  refine .bind .mark fun m m' _ => .peek fun t t' hk => ?_
  rw [hk]
  refine .bind (.name _) fun name name' hname => .ahead fun ts us hshape => ?_
  have close {params params' : List TypeRef} (h : params'.map Bare.type = params.map Bare.type) :
      Blind Bare.type
        (do return ⟨name, t.kind.wordClass?.getD .name, params, ← spanFrom m⟩)
        (do return ⟨name', t.kind.wordClass?.getD .name, params', ← spanFrom m'⟩) :=
    .close fun s s' => by
      rw [Bare.type, Bare.type, Bare.types_eq_map, Bare.types_eq_map, hname, h]
  refine .ite (by rw [(Lookahead.near_of_shapes hshape).sign_eq rfl]) ?_ (close rfl)
  exact .same .bump fun _ => .bind (typeParams_blind hg) fun _ _ h => close h

/-! ### Elements and paths -/

/-- One round of the elements depends on kinds and on those before. -/
theorem element_blind (hg : g.Blind) {e e' : Elements} (he : Bare.elements e' = Bare.elements e) :
    Blind (Sum.map Bare.elements Bare.elements) (element g e) (element g e') := by
  have hreversed : e'.reversed.map Bare.expr = e.reversed.map Bare.expr :=
    congrArg (·.reversed) he
  have hcommas : e'.commas = e.commas := congrArg (·.commas) he
  have hdue : e'.commaDue = e.commaDue := congrArg (·.commaDue) he
  refine .peek fun t t' hk => ?_
  rw [hk, hdue, hcommas]
  split
  · exact .pure (congrArg Sum.inr he)
  · exact .pure (congrArg Sum.inr he)
  · exact .same .bump fun _ => .pure (by simp only [Sum.map_inl, Bare.elements, hreversed])
  · have item : Blind (Sum.map Bare.elements Bare.elements)
        (do
          let m ← mark
          let item ← orRecover g.expr (Expr.error <$> recoverElement m)
          pure (.inl ⟨item :: e.reversed, e.commas, true⟩))
        (do
          let m ← mark
          let item ← orRecover g.expr (Expr.error <$> recoverElement m)
          pure (.inl ⟨item :: e'.reversed, e.commas, true⟩)) := by
      refine .bind .mark fun m m' hm => .bind (f := Bare.expr) ?_ fun item item' hitem => .pure ?_
      · exact .orRecover hg.expr (.map (.recoverElement hm) fun _ _ h => congrArg Expr.error h)
      · simp only [Sum.map_inl, Bare.elements, List.map_cons, hreversed, hitem]
    exact .ite Iff.rfl (.same (.report _ _ _ _) fun _ => item) item

/-- So do the elements between brackets. -/
theorem bracketed_blind (hg : g.Blind) : Blind Bare.elements (bracketed g) (bracketed g) := by
  refine .same (.expect _ _) fun _ => ?_
  refine .bind (.loop (fun _ _ he => element_blind hg he) rfl) fun _ _ he => ?_
  exact .same (.expect _ _) fun _ => .pure he

/-- Between brackets stand as many items and as many commas. -/
theorem items_of_bare {e e' : Elements} (he : Bare.elements e' = Bare.elements e) :
    e'.items.map Bare.expr = e.items.map Bare.expr ∧ e'.strayCommas = e.strayCommas := by
  rw [← Bare.items_elements, ← Bare.items_elements, ← Bare.strayCommas_elements e', he,
    Bare.strayCommas_elements]
  exact ⟨rfl, rfl⟩

/-- Whether a word is joined here. -/
theorem joinedWord_eq {ts us : List Token} (h : us.map Token.shape = ts.map Token.shape) :
    (Lookahead.isWord us 0 && Lookahead.isJoined us 0) =
      (Lookahead.isWord ts 0 && Lookahead.isJoined ts 0) := by
  rw [Lookahead.isWord, Lookahead.isWord, Lookahead.kind?_of_shapes h,
    Lookahead.isJoined_of_shapes h]

/-- One step of a path depends on what is joined. -/
theorem suffix_blind (hg : g.Blind) {read read' : List Suffix}
    (hread : read'.map Bare.suffix = read.map Bare.suffix) :
    Blind (Sum.map (List.map Bare.suffix) (List.map Bare.suffix)) (suffix g read)
      (suffix g read') := by
  refine .ahead fun ts us hshape => ?_
  rw [(Lookahead.near_of_shapes hshape).continuesPath_eq]
  refine .ite Iff.rfl (.peek fun t t' hk => ?_) (.pure ?_)
  · rw [hk]
    split
    · refine .same .bump fun _ => .bind hg.expr fun e e' he => .same (.expect _ _) fun _ => .pure ?_
      simp only [Sum.map_inl, List.map_cons, hread, Bare.suffix, he]
    · refine .same .bump fun _ => .bind (.name _) fun n n' hn => .pure ?_
      simp only [Sum.map_inl, List.map_cons, hread, Bare.suffix, hn]
    · refine .same .bump fun _ => .bind (.name _) fun n n' hn => .pure ?_
      simp only [Sum.map_inl, List.map_cons, hread, Bare.suffix, hn]
  · rw [Sum.map_inr, Sum.map_inr, List.map_reverse, List.map_reverse, hread]

/-- So do all steps. -/
theorem suffixes_blind (hg : g.Blind) :
    Blind (List.map Bare.suffix) (suffixes g) (suffixes g) :=
  .loop (fun _ _ hread => suffix_blind hg hread) rfl

/-- So does the sign of a scope. -/
theorem scopeMark_blind : Blind id scopeMark scopeMark := by
  refine .same .bump fun _ => .ahead fun ts us hshape => ?_
  refine .ite (by rw [(Lookahead.near_of_shapes hshape).sign_eq rfl]) ?_ ?_
  · refine .same .bump fun _ => .ahead fun ts us hshape => ?_
    exact .ite (by rw [joinedWord_eq hshape]) (.pure rfl) (.unexpected _)
  · exact .bind (f := id) (.unexpected _) fun _ _ _ => .ahead fun ts us hshape =>
      .ite (by rw [joinedWord_eq hshape]) (.pure rfl) (.unexpected _)

/-- So does a path. -/
theorem reference_blind (hg : g.Blind) : Blind Bare.reference (reference g) (reference g) := by
  refine .bind .mark fun m m' _ => .peek fun t t' hk => ?_
  rw [hk]
  have key (scope : Scope) : Blind Bare.reference
      (do
        let name ← name "a reference name"
        let suffixes ← suffixes g
        let kind : SegmentKind := if scope = .none then .terminal else .nested
        pure ⟨scope, Reference.segmentsOf name kind suffixes, ← spanFrom m⟩)
      (do
        let name ← name "a reference name"
        let suffixes ← suffixes g
        let kind : SegmentKind := if scope = .none then .terminal else .nested
        pure ⟨scope, Reference.segmentsOf name kind suffixes, ← spanFrom m'⟩) := by
    refine .bind (.name _) fun n n' hn => .bind (suffixes_blind hg) fun xs xs' hxs =>
      .close fun s s' => ?_
    rw [Bare.reference, Bare.reference, Bare.segmentsOf_suffixes, Bare.segmentsOf_suffixes, hn, hxs]
  exact .ite Iff.rfl (.same scopeMark_blind fun _ => key _) (key _)

/-- So does whatever a name and a bracket start. -/
theorem vectorOrPath_blind (hg : g.Blind) : Blind Bare.expr (vectorOrPath g) (vectorOrPath g) := by
  refine .bind .mark fun m m' _ => .bind (.name _) fun n n' hn =>
    .bind (bracketed_blind hg) fun e e' he =>
      .bind (f := fun _ => ()) (fun _ _ _ _ _ _ hc => ⟨rfl, hc, Iff.rfl⟩)
        fun s s' _ => .ahead fun ts us hshape => ?_
  obtain ⟨hitems, hstray⟩ := items_of_bare he
  rw [(Lookahead.near_of_shapes hshape).continuesPath_eq, hstray]
  have vector {items items' : List Expr} (h : items'.map Bare.expr = items.map Bare.expr) :
      Blind Bare.expr (pure (.vector n none items e.strayCommas s))
        (pure (.vector n' none items' e.strayCommas s')) :=
    .pure (by rw [Bare.expr, Bare.expr, Bare.exprs_eq_map, Bare.exprs_eq_map, h, hn])
  generalize e.items = items at hitems
  generalize e'.items = items' at hitems
  rcases items with _ | ⟨index, _ | ⟨second, rest⟩⟩ <;>
    rcases items' with _ | ⟨index', _ | ⟨second', rest'⟩⟩ <;> simp at hitems
  · exact vector rfl
  · refine .ite Iff.rfl (.bind (suffixes_blind hg) fun xs xs' hxs => .close fun s s' => ?_)
      (vector (by simp [hitems]))
    rw [Bare.expr, Bare.expr, Bare.reference, Bare.reference, Bare.segmentsOf_suffixes,
      Bare.segmentsOf_suffixes, hn, List.map_cons, List.map_cons, Bare.suffix, Bare.suffix, hitems,
      hxs]
  · exact vector (by simp [hitems])

/-! ### Declarations -/

/-- An assignment is read by kinds alone. -/
theorem assignment_blind (hg : g.Blind) :
    Blind Bare.assignment (assignment g) (assignment g) := by
  refine .bind .mark fun m m' _ => .bind (.name _) fun n n' hn => ?_
  refine .same (.expectKeyword _) fun _ => .bind hg.expr fun value value' hvalue => ?_
  refine .close fun s s' => ?_
  rw [Bare.assignment, Bare.assignment, hn, hvalue]

/-- So is what follows the name of a member. -/
theorem memberTail_blind (hg : g.Blind) {n n' : Name} (hn : Bare.name n' = Bare.name n) :
    Blind Bare.member (memberTail g m n) (memberTail g m' n') := by
  have value {type type' : Option TypeRef} (htype : type'.map Bare.type = type.map Bare.type)
      (legacy : Bool) : Blind Bare.member
        (do
          let value ← g.expr
          pure ⟨n, type, some value, legacy, ← spanFrom m⟩)
        (do
          let value ← g.expr
          pure ⟨n', type', some value, legacy, ← spanFrom m'⟩) :=
    .bind hg.expr fun value value' hvalue => .close fun s s' => by
      rw [Bare.member, Bare.member, hn, htype, Bare.expr?, Bare.expr?, hvalue]
  have option {type type' : TypeRef} (h : Bare.type type' = Bare.type type) :
      (some type').map Bare.type = (some type).map Bare.type := congrArg some h
  refine .same (.eat _) fun _ => .ite Iff.rfl ?_ ?_
  · refine .same (.eat _) fun _ => .ite Iff.rfl (value rfl true) ?_
    refine .bind (typeRef_blind hg) fun type type' htype => .same (.eat _) fun _ => ?_
    refine .ite Iff.rfl (value (option htype) false) (.close fun s s' => ?_)
    rw [Bare.member, Bare.member, hn, Option.map_some, Option.map_some, htype]
  · exact .same (.expect _ _) fun _ => value rfl false

/-- So is a member. -/
theorem member_blind (hg : g.Blind) : Blind Bare.member (member g) (member g) :=
  .bind .mark fun _ _ _ => .bind (.name _) fun _ _ hn => memberTail_blind hg hn

/-- So is a parameter. -/
theorem param_blind (hg : g.Blind) : Blind Bare.member (param g) (param g) := by
  refine .bind .mark fun m m' _ => .bind (.name _) fun n n' hn => .peek fun t t' hk => ?_
  rw [hk]
  split
  · exact memberTail_blind hg hn
  · exact memberTail_blind hg hn
  · exact .close fun s s' => by rw [Bare.member, Bare.member, hn]

/-- One round of the parameters depends on kinds and on those before. -/
theorem paramStep_blind (hg : g.Blind) {read read' : List Member}
    (hread : read'.map Bare.member = read.map Bare.member) :
    Blind (Sum.map (List.map Bare.member) (List.map Bare.member)) (paramStep g read)
      (paramStep g read') := by
  have done : Sum.map (List.map Bare.member) (List.map Bare.member)
        (.inr read'.reverse : List Member ⊕ List Member) =
      Sum.map (List.map Bare.member) (List.map Bare.member) (.inr read.reverse) := by
    rw [Sum.map_inr, Sum.map_inr, List.map_reverse, List.map_reverse, hread]
  refine .peek fun t t' hk => ?_
  rw [hk]
  split
  · exact .pure done
  · exact .pure done
  · exact .same .bump fun _ => .pure (congrArg Sum.inl hread)
  · exact .bind (param_blind hg) fun p p' hp => .pure (by
      rw [Sum.map_inl, Sum.map_inl, List.map_cons, List.map_cons, hp, hread])
  · exact .unexpected _

/-- So do all parameters. -/
theorem params_blind (hg : g.Blind) : Blind (List.map Bare.member) (params g) (params g) :=
  .loop (fun _ _ hread => paramStep_blind hg hread) rfl

section Bodies

variable {body body' : Parser Object}

/-- A template is blind if its body is. -/
theorem template_blind (hg : g.Blind) (hb : Blind Bare.object body body') :
    Blind Bare.template (template g body) (template g body') := by
  refine .bind .mark fun m m' _ => .same (.expectKeyword _) fun _ => ?_
  refine .bind (.name _) fun n n' hn => .same (.expect _ _) fun _ => ?_
  refine .bind (params_blind hg) fun params params' hparams => .same (.expect _ _) fun _ => ?_
  refine .same (.expectKeyword _) fun _ => .bind hb fun object object' hobject => ?_
  refine .close fun s s' => ?_
  rw [Bare.template, Bare.template, hn, Bare.members_eq_map, Bare.members_eq_map, hparams, hobject]

/-- So is a modifier with what follows. -/
theorem visibility_blind (hg : g.Blind) (hb : Blind Bare.object body body') :
    Blind Bare.visibility (visibility g body) (visibility g body') := by
  refine .bind .mark fun m m' _ => .peek fun t t' hk => ?_
  rw [hk]
  split
  · exact .unexpected _
  · rename_i modifier _
    refine .bind (.name _) fun keyword keyword' hkeyword => .ahead fun ts us hshape => ?_
    have close {decl decl' : Declaration} (h : Bare.declaration decl' = Bare.declaration decl) :
        Blind Bare.visibility (do return ⟨modifier, keyword, decl, ← spanFrom m⟩)
          (do return ⟨modifier, keyword', decl', ← spanFrom m'⟩) :=
      .close fun s s' => by rw [Bare.visibility, Bare.visibility, hkeyword, h]
    have near := Lookahead.near_of_shapes hshape
    refine .ite (by rw [near.startsTemplate_eq (.inl (Nat.zero_le _))]) ?_ ?_
    · exact .bind (.map (template_blind hg hb) fun _ _ h => congrArg Declaration.template h)
        fun _ _ h => close h
    · exact .bind (.map (assignment_blind hg) fun _ _ h => congrArg Declaration.assignment h)
        fun _ _ h => close h

/-- So is an entry. -/
theorem entry_blind (hg : g.Blind) (hb : Blind Bare.object body body') :
    Blind Bare.entry (entry g body) (entry g body') := by
  refine .ahead fun ts us hshape => ?_
  have near := Lookahead.near_of_shapes hshape
  have hlen := Lookahead.length_of_shapes hshape
  refine .ite (by rw [near.startsAssignment_eq (.inr hlen)])
    (.map (assignment_blind hg) fun _ _ h => congrArg Entry.assignment h) ?_
  refine .ite (by rw [near.startsVisibility_eq (.inr hlen)])
    (.map (visibility_blind hg hb) fun _ _ h => congrArg Entry.visibility h) ?_
  refine .ite (by rw [near.startsMember_eq (.inr hlen)])
    (.map (member_blind hg) fun _ _ h => congrArg Entry.member h) ?_
  refine .ite (by rw [near.isWord_eq (.inr hlen), near.startsScoped_eq (.inr hlen)])
    (.map (reference_blind hg) fun _ _ h => congrArg Entry.reference h) ?_
  exact .abortHere fun t => .noMember t.kind.name

/-- One round of the entries depends on kinds and on those before. -/
theorem entryStep_blind (hg : g.Blind) (hb : Blind Bare.object body body')
    {read read' : List Entry} (hread : read'.map Bare.entry = read.map Bare.entry) :
    Blind (Sum.map (List.map Bare.entry) (List.map Bare.entry)) (entryStep g body read)
      (entryStep g body' read') := by
  refine .peek fun t t' hk => ?_
  rw [hk]
  split
  · refine .same .bump fun _ => .pure ?_
    rw [Sum.map_inr, Sum.map_inr, List.map_reverse, List.map_reverse, hread]
  · exact .unexpected _
  · exact .same (.report _ _ _ _) fun _ => .same .bump fun _ => .pure (congrArg Sum.inl hread)
  · refine .bind .mark fun m m' hm => .bind (f := Bare.entry) ?_ fun e e' he => .pure ?_
    · exact .orRecover (entry_blind hg hb) (.map (.recoverEntry hm) fun _ _ h =>
        congrArg Entry.error h)
    · rw [Sum.map_inl, Sum.map_inl, List.map_cons, List.map_cons, hread, he]

/-- So does an object, if its templates do. -/
theorem objectWith_blind (hg : g.Blind) (hb : Blind Bare.object body body') :
    Blind Bare.object (objectWith g body) (objectWith g body') := by
  refine .bind .mark fun m m' _ => .bind (.name _) fun n n' hn => .same (.expect _ _) fun _ => ?_
  refine .bind (.loop (fun _ _ hread => entryStep_blind hg hb hread) rfl) fun es es' hes => ?_
  refine .close fun s s' => ?_
  rw [Bare.object, Bare.object, hn, Bare.entries_eq_map, Bare.entries_eq_map, hes]

end Bodies

/-- So does one with templates so deep. -/
theorem objectWithin_blind (hg : g.Blind) (ts us : List Token) (hlen : us.length = ts.length) :
    Blind Bare.object (objectWithin g ts) (objectWithin g us) := by
  induction ts generalizing us with
  | nil =>
    obtain rfl := List.length_eq_zero_iff.1 hlen
    exact objectWith_blind hg (.breach _)
  | cons t ts ih =>
    obtain ⟨u, us, rfl⟩ := List.exists_cons_of_length_eq_add_one hlen
    exact objectWith_blind hg (ih us (Nat.succ.inj hlen))

/-- As many tokens are left on both sides, so objects are read up to the same bound. -/
theorem object_blind (hg : g.Blind) : Blind Bare.object (object g) (object g) :=
  fun _ _ he he' _ _ hc =>
    objectWithin_blind hg _ _ (Lookahead.length_of_shapes hc.rest) he he' hc

/-- So does an unnamed object. -/
theorem unnamed_blind (hg : g.Blind) : Blind Bare.unnamed (unnamed g) (unnamed g) := by
  refine .bind .mark fun _ _ _ => .same (.expectKeyword _) fun _ => ?_
  refine .bind (object_blind hg) fun o o' ho => ?_
  refine .close fun s s' => ?_
  rw [Bare.unnamed, Bare.unnamed, ho]

/-! ### Operands -/

/-- A list is read by kinds alone. -/
theorem list_blind (hg : g.Blind) : Blind Bare.expr (list g) (list g) := by
  refine .bind .mark fun m m' _ => .bind (bracketed_blind hg) fun e e' he => ?_
  refine .close fun s s' => ?_
  obtain ⟨hitems, hstray⟩ := items_of_bare he
  rw [Bare.expr, Bare.expr, Bare.exprs_eq_map, Bare.exprs_eq_map, hitems, hstray]

/-- So is a vector. -/
theorem vector_blind (hg : g.Blind) (type : VectorType) :
    Blind Bare.expr (vector g type) (vector g type) := by
  refine .bind .mark fun m m' _ => .bind (.name _) fun n n' hn => ?_
  refine .bind (bracketed_blind hg) fun e e' he => .close fun s s' => ?_
  obtain ⟨hitems, hstray⟩ := items_of_bare he
  rw [Bare.expr, Bare.expr, Bare.exprs_eq_map, Bare.exprs_eq_map, hitems, hstray, hn]

/-- Whether an expression is kept among the pairs of a map. -/
def isEntry : Expr → Bool
  | .pair .. | .error _ => true
  | _ => false

/-- A pair is one without places. -/
theorem isEntry_bare (e : Expr) : isEntry (Bare.expr e) = isEntry e := by
  cases e <;> rfl

/-- The first element is kept, or reported and put into a node of its own. -/
theorem pairs_cons (item : Expr) (rest : List Expr) : pairs (item :: rest) =
    if isEntry item then do return item :: (← pairs rest)
    else do
      report (.noPair item.typeName) item.span
      let entry ← Expr.error <$> errorAt item.span
      return entry :: (← pairs rest) := by
  cases item <;> rfl

/-- Which elements are pairs is not a matter of places. -/
theorem pairs_blind (items items' : List Expr)
    (hitems : items'.map Bare.expr = items.map Bare.expr) :
    Blind (List.map Bare.expr) (pairs items) (pairs items') := by
  induction items generalizing items' with
  | nil =>
    rw [List.map_nil, List.map_eq_nil_iff] at hitems
    rw [hitems]
    exact .pure rfl
  | cons item rest ih =>
    rw [List.map_cons, List.map_eq_cons_iff] at hitems
    obtain ⟨item', rest', rfl, hitem, hrest⟩ := hitems
    have tail {entry entry' : Expr} (h : Bare.expr entry' = Bare.expr entry) :
        Blind (List.map Bare.expr) (do return entry :: (← pairs rest))
          (do return entry' :: (← pairs rest')) :=
      .bind (ih rest' hrest) fun more more' hmore => .pure (by
        rw [List.map_cons, List.map_cons, h, hmore])
    rw [pairs_cons, pairs_cons]
    refine .ite (by rw [← isEntry_bare item', hitem, isEntry_bare]) (tail hitem) ?_
    exact .same (.report _ _ _ _) fun _ =>
      .bind (.map (.errorAt _ _) fun _ _ h => congrArg Expr.error h) fun _ _ h => tail h

/-- So a map is read by kinds alone. -/
theorem map_blind (hg : g.Blind) : Blind Bare.expr (map g) (map g) := by
  refine .bind .mark fun _ _ _ => .bind (.name _) fun n n' hn =>
    .bind (bracketed_blind hg) fun e e' he => ?_
  refine .bind (pairs_blind _ _ (items_of_bare he).1) fun ps ps' hps => .close fun s s' => ?_
  rw [Bare.expr, Bare.expr, Bare.exprs_eq_map, Bare.exprs_eq_map, hps, hn]

/-- So is what stands in parentheses. -/
theorem parenthesised_blind (hg : g.Blind) :
    Blind Bare.expr (parenthesised g) (parenthesised g) := by
  refine .bind .mark fun _ _ _ => .same (.expect _ _) fun _ => .same (.eat _) fun _ =>
    .ite Iff.rfl (.close fun _ _ => rfl) ?_
  refine .bind hg.expr fun a a' ha => .same (.eat _) fun _ => .ite Iff.rfl ?_ ?_
  · refine .bind hg.expr fun b b' hb => .same (.expect _ _) fun _ => .close fun s s' => ?_
    rw [Bare.expr, Bare.expr, ha, hb]
  · refine .same (.expect _ _) fun _ => .close fun s s' => ?_
    rw [Bare.expr, Bare.expr, Bare.expr?, Bare.expr?, ha]

/-- So is an index. -/
theorem index?_blind (hg : g.Blind) : Blind (Option.map Bare.expr) (index? g) (index? g) := by
  refine .ahead fun ts us hshape => ?_
  refine .ite (by rw [(Lookahead.near_of_shapes hshape).sign_eq rfl]) ?_ (.pure rfl)
  exact .same .bump fun _ => .bind hg.expr fun _ _ he => .same (.expect _ _) fun _ =>
    .pure (congrArg some he)

/-- So is a generic type. -/
theorem generic_blind (hg : g.Blind) : Blind Bare.expr (generic g) (generic g) := by
  refine .bind .mark fun m m' _ => .same (.expect _ _) fun _ => .ahead fun ts us hshape => ?_
  refine .ite (by rw [joinedWord_eq hshape]) ?_ (.unexpected _)
  refine .bind (.name _) fun n n' hn => .ahead fun ts us hshape => ?_
  refine .ite (by rw [(Lookahead.near_of_shapes hshape).sign_eq rfl]) ?_ (.unexpected _)
  refine .same .bump fun _ => .bind (index?_blind hg) fun i i' hi => .close fun s s' => ?_
  rw [Bare.expr, Bare.expr, Bare.expr?_eq_map, Bare.expr?_eq_map, hn, hi]

/-- So is a payload. -/
theorem guid_blind : Blind Bare.expr guid guid := by
  refine .bind .mark fun m m' _ => .same .bump fun _ => .same (.expect _ _) fun _ =>
    .peek fun t t' hk => ?_
  rw [hk]
  split
  · exact .same .bump fun _ => .close fun _ _ => rfl
  · exact .same .bump fun _ => .bind (.errorFrom _ _) fun _ _ h => .pure (congrArg Expr.error h)
  · exact .unexpected _

/-- So is what a name starts. -/
theorem nameLed_blind (hg : g.Blind) : Blind Bare.expr (nameLed g) (nameLed g) := by
  refine .ahead fun ts us hshape => ?_
  have near := Lookahead.near_of_shapes hshape
  have hlen := Lookahead.length_of_shapes hshape
  refine .ite (by rw [near.isKind_eq (n := 1) (.inr hlen) rfl])
    (.map (object_blind hg) fun _ _ h => congrArg Expr.object h) ?_
  refine .ite (by rw [near.isKind_eq (n := 1) (.inr hlen) rfl, Lookahead.isJoined_of_shapes hshape])
    (vectorOrPath_blind hg) ?_
  exact .map (reference_blind hg) fun _ _ h => congrArg Expr.reference h

/-- So is what any word starts. -/
theorem wordLed_blind (hg : g.Blind) (wordClass : WordClass) :
    Blind Bare.expr (wordLed g wordClass) (wordLed g wordClass) := by
  refine .ahead fun ts us hshape => ?_
  have near := Lookahead.near_of_shapes hshape
  have hlen := Lookahead.length_of_shapes hshape
  refine .ite (by rw [near.startsAssignment_eq (.inr hlen)])
    (.map (assignment_blind hg) fun _ _ h => congrArg Expr.assignment h) ?_
  refine .ite (by rw [near.startsVisibility_eq (.inr hlen)])
    (.map (visibility_blind hg (object_blind hg)) fun _ _ h => congrArg Expr.visibility h) ?_
  have sign {kind : TokenKind} (hw : kind.isWord = false) {p : Parser Expr}
      (hp : Blind Bare.expr p p) : Blind Bare.expr
        (if Lookahead.isKind ts 1 kind then p else nameLed g)
        (if Lookahead.isKind us 1 kind then p else nameLed g) :=
    .ite (by rw [near.isKind_eq (n := 1) (.inr hlen) hw]) hp (nameLed_blind hg)
  split
  · exact .constant fun _ => rfl
  · exact .constant fun _ => rfl
  · exact .constant fun _ => rfl
  · exact sign rfl guid_blind
  · exact sign rfl (map_blind hg)
  · exact sign rfl (vector_blind hg _)
  · exact nameLed_blind hg

/-- A broken token is a fragment in both. -/
theorem brokenToken_blind (e : LexError) : Blind Bare.expr (brokenToken e) (brokenToken e) := by
  refine .bind .mark fun m m' _ => .peek fun t t' _ => .same .bump fun _ => ?_
  have close : Blind Bare.expr (do return .error (← errorFrom m))
      (do return .error (← errorFrom m')) :=
    .bind (.errorFrom _ _) fun _ _ h => .pure (congrArg Expr.error h)
  split
  · exact .same (.report _ _ _ _) fun _ => close
  · exact close

/-- An operand is read by kinds and by what is joined. -/
theorem primary_blind (hg : g.Blind) : Blind Bare.expr (primary g) (primary g) := by
  refine .peek fun t t' hk => ?_
  rw [hk]
  split
  · exact .same .bump fun _ => .pure rfl
  · exact .same .bump fun _ => .pure rfl
  · exact list_blind hg
  · exact parenthesised_blind hg
  · exact generic_blind hg
  · exact wordLed_blind hg _
  · exact brokenToken_blind _
  · exact .unexpected _
  · refine .ahead fun ts us hshape => ?_
    have hlen := Lookahead.length_of_shapes hshape
    refine .ite (by rw [(Lookahead.near_of_shapes hshape).startsScoped_eq (.inr hlen)])
      (.map (reference_blind hg) fun _ _ h => congrArg Expr.reference h) ?_
    exact .abortHere fun t => .noExpression t.kind.name

/-- So it is with signs in front. -/
theorem unary_blind (hg : g.Blind) : Blind Bare.expr (unary g) (unary g) := by
  refine .bind .mark fun m m' _ => .peek fun t t' hk => ?_
  have signed (op : UnaryOp) : Blind Bare.expr
      (do
        let operand ← g.operand
        pure (.unary op operand (← spanFrom m)))
      (do
        let operand ← g.operand
        pure (.unary op operand (← spanFrom m'))) :=
    .bind hg.operand fun e e' he => .close fun s s' => by rw [Bare.expr, Bare.expr, he]
  rw [hk]
  split
  · exact .same .bump fun _ => signed .neg
  · exact .same .bump fun _ => signed .not
  · exact primary_blind hg

/-! ### Operators -/

/-- One round of the operators depends on kinds and on what stands left of it. -/
theorem operation_blind (hg : g.Blind) {right : Nat → Parser Expr}
    (hright : ∀ rank, Blind Bare.expr (right rank) (right rank)) (loosest : Nat) (m m' : Mark)
    {left left' : Expr} (hleft : Bare.expr left' = Bare.expr left) :
    Blind (Sum.map Bare.expr Bare.expr) (operation g right loosest m left)
      (operation g right loosest m' left') := by
  have ends : Blind (Sum.map Bare.expr Bare.expr) (pure (.inr left) : Parser (Expr ⊕ Expr))
      (pure (.inr left')) := .pure (congrArg Sum.inr hleft)
  refine .ahead fun ts us hshape => ?_
  rw [operator?_eq (Lookahead.near_of_shapes hshape)]
  split
  · exact ends
  · refine .ite Iff.rfl ?_ ends
    refine .same .bump fun _ => .bind hg.expr fun yes yes' hyes => .same (.expect _ _) fun _ =>
      .bind hg.expr fun no no' hno => .close fun s s' => ?_
    rw [Sum.map_inl, Sum.map_inl, Bare.expr, Bare.expr, hleft, hyes, hno]
  · rename_i op _
    refine .ite Iff.rfl ?_ ends
    refine .same .bump fun _ => .bind (hright _) fun right right' h => .close fun s s' => ?_
    rw [Sum.map_inl, Sum.map_inl, Bare.expr, Bare.expr, hleft, h]

/-- So does an expression. -/
theorem climb_blind (hg : g.Blind) (steps loosest : Nat) :
    Blind Bare.expr (climb g steps loosest) (climb g steps loosest) := by
  induction steps generalizing loosest with
  | zero => exact unary_blind hg
  | succ steps ih =>
    exact .bind .mark fun m m' _ => .bind (unary_blind hg) fun left left' hleft =>
      .loop (fun _ _ h => operation_blind hg ih loosest m m' h) hleft

/-! ### Levels and items -/

/-- Below the last level there is a fragment in both. -/
theorem deepExpr_blind : Blind Bare.expr Grammar.deepExpr Grammar.deepExpr :=
  .map tooDeep_blind fun _ _ h => congrArg Expr.error h

/-- There is no type in either. -/
theorem deepType_blind : Blind Bare.type Grammar.deepType Grammar.deepType :=
  .bind tooDeep_blind fun _ _ _ => .abort

/-- Every number of levels of the grammar is blind to places. -/
theorem blind_levels (n : Nat) : (Grammar.levels n).Blind := by
  induction n with
  | zero => exact ⟨deepExpr_blind, deepExpr_blind, deepType_blind⟩
  | succ n ih =>
    exact ⟨.nested deepExpr_blind (climb_blind ih _ _), .nested deepExpr_blind (unary_blind ih),
      .nested deepType_blind (typeRef_blind ih)⟩

/-- An item is read by kinds and by what is joined. -/
theorem item_blind (hg : g.Blind) : Blind Bare.item (item g) (item g) := by
  refine .ahead fun ts us hshape => ?_
  have near := Lookahead.near_of_shapes hshape
  have hlen := Lookahead.length_of_shapes hshape
  refine .ite (by rw [near.startsAssignment_eq (.inr hlen)])
    (.map (assignment_blind hg) fun _ _ h => congrArg Item.assignment h) ?_
  refine .ite (by rw [near.modifies_eq])
    (.map (visibility_blind hg (object_blind hg)) fun _ _ h => congrArg Item.visibility h) ?_
  refine .ite (by rw [near.startsTemplate_eq (.inr hlen)])
    (.map (template_blind hg (object_blind hg)) fun _ _ h => congrArg Item.template h) ?_
  refine .ite (by rw [near.startsUnnamed_eq (.inr hlen)])
    (.map (unnamed_blind hg) fun _ _ h => congrArg Item.unnamed h) ?_
  refine .ite (by rw [near.startsMember_eq (.inr hlen)])
    (.map (member_blind hg) fun _ _ h => congrArg Item.member h) ?_
  exact .map hg.expr fun e e' he => by rw [Bare.ofExpr_expr, Bare.ofExpr_expr, he]

/-- One round of the items depends on them and on those before. -/
theorem itemStep_blind (hg : g.Blind) (calledOff : Nat → Bool) {read read' : List Item}
    (hread : read'.map Bare.item = read.map Bare.item) :
    Blind (Sum.map (List.map Bare.item) (Option.map (List.map Bare.item)))
      (itemStep g calledOff read) (itemStep g calledOff read') := by
  refine .ahead fun ts us hshape => ?_
  have hlen := Lookahead.length_of_shapes hshape
  have hread_len : read'.length = read.length := by simpa using congrArg List.length hread
  refine .ite (by rw [List.isEmpty_iff_length_eq_zero, List.isEmpty_iff_length_eq_zero, hlen])
    (.pure ?_) (.ite (by rw [hread_len]) (.pure rfl) ?_)
  · rw [Sum.map_inr, Sum.map_inr, Option.map_some, Option.map_some, List.map_reverse,
      List.map_reverse, hread]
  · refine .bind (f := Bare.item) ?_ fun i i' hi => .pure ?_
    · refine .bind .mark fun m m' hm => .bind (f := Bare.item) ?_ fun i i' hi =>
        .same (.emit _ _) fun _ => .pure hi
      exact .orRecover (item_blind hg) (.map (.recoverItem hm) fun _ _ h => congrArg Item.error h)
    · rw [Sum.map_inl, Sum.map_inl, List.map_cons, List.map_cons, hi, hread]

/-- So do all items. -/
theorem items_blind (hg : g.Blind) (calledOff : Nat → Bool) :
    Blind (Option.map (List.map Bare.item)) (items g calledOff) (items g calledOff) :=
  .loop (fun _ _ hread => itemStep_blind hg calledOff hread) rfl

end Parser
end Ndf
