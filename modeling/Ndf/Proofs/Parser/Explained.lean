/-
# Every error node is explained

`SPEC_FULL.md` §7: where a fragment is cut out, a diagnostic says why.

`Ndf.Proofs.Parser.Accounts` for all parsers of the grammar, level by level, and for a whole source.
A fragment that is cut out starts where something gave up and ends in front of the next token, and
the problem that was left stands between the two.  Two kinds of fragment are no cuts: a broken
token, which tokenizing or its reader reports where it starts, and what is no pair in a map, which
is reported where it starts.

`parse_explained` says of a whole source that each error node has a diagnostic at one of its tokens
or at the first one behind it.
-/

import Ndf.Proofs.Parser.Accounts
import Ndf.Proofs.Tree.Met

namespace Ndf

/-- What is to be known of an expression: where it stands, and its error nodes. -/
def Expr.facts (e : Expr) : List Fact := .placed e.span :: flaws (Walk.expr e)

/-- What is to be known of elements. -/
def Parser.Elements.facts (e : Parser.Elements) : List Fact := e.items.flatMap Expr.facts

/-- What is met in the index that a suffix is. -/
def Suffix.visits : Suffix → List Visit
  | .joined .. => []
  | .index e => Walk.expr e

@[simp] theorem Suffix.visits_joined (kind : SegmentKind) (name : Name) :
    (Suffix.joined kind name).visits = [] := rfl

@[simp] theorem Suffix.visits_index (e : Expr) : (Suffix.index e).visits = Walk.expr e := rfl

namespace Walk

/-- A walk over several nodes is the walks over each of them. -/
theorem exprs_eq_flatMap (es : List Expr) : exprs es = es.flatMap expr := by
  induction es with
  | nil => rfl
  | cons e es ih => rw [exprs, ih, List.flatMap_cons]

/-- Walking some members is walking each. -/
theorem members_eq_flatMap (ms : List Member) : members ms = ms.flatMap member := by
  induction ms with
  | nil => rfl
  | cons m ms ih => rw [members, ih, List.flatMap_cons]

/-- Walking some entries is walking each. -/
theorem entries_eq_flatMap (es : List Entry) : entries es = es.flatMap entry := by
  induction es with
  | nil => rfl
  | cons e es ih => rw [entries, ih, List.flatMap_cons]

/-- Walking the segments of a path is walking its indexes. -/
theorem segments_eq_flatMap (ss : List Suffix) :
    segments (Suffix.segments ss) = ss.flatMap Suffix.visits := by
  induction ss with
  | nil => simp [Suffix.segments, segments]
  | cons s ss ih => cases s <;> simp [Suffix.segments, segments, ih]

end Walk

-- A walk is opened at each node that a parser builds.
attribute [local simp] Walk.expr Walk.expr.around Walk.expr? Walk.exprs Walk.member Walk.members
  Walk.assignment Walk.template Walk.visibility Walk.declaration Walk.entry Walk.entries Walk.object
  Walk.inItem

section Lists

variable {f : Fact}

/-- The flaws of a walk in pieces are those of each piece. -/
theorem mem_flaws_flatMap {α : Type} {as : List α} {visits : α → List Visit} :
    f ∈ flaws (as.flatMap visits) ↔ ∃ a ∈ as, f ∈ flaws (visits a) := by
  induction as with
  | nil => simp
  | cons a as ih => simp [ih]

/-- Those of several expressions are those of each. -/
theorem flaws_exprs {items : List Expr} :
    f ∈ flaws (Walk.exprs items) ↔ ∃ e ∈ items, f ∈ flaws (Walk.expr e) := by
  rw [Walk.exprs_eq_flatMap, mem_flaws_flatMap]

/-- Those of several members are those of each. -/
theorem flaws_members {members : List Member} :
    f ∈ flaws (Walk.members members) ↔ ∃ m ∈ members, f ∈ flaws (Walk.member m) := by
  rw [Walk.members_eq_flatMap, mem_flaws_flatMap]

/-- Those of several entries are those of each. -/
theorem flaws_entries {entries : List Entry} :
    f ∈ flaws (Walk.entries entries) ↔ ∃ e ∈ entries, f ∈ flaws (Walk.entry e) := by
  rw [Walk.entries_eq_flatMap, mem_flaws_flatMap]

/-- Those of a path are those of its steps. -/
theorem flaws_segments {suffixes : List Suffix} :
    f ∈ flaws (Walk.segments (Suffix.segments suffixes)) ↔ ∃ s ∈ suffixes, f ∈ flaws s.visits := by
  rw [Walk.segments_eq_flatMap, mem_flaws_flatMap]

/-- The error nodes of a reference are those of its indexes. -/
theorem flaws_reference {scope : Scope} {name : Name} {kind : SegmentKind} {suffixes : List Suffix}
    {span : Span} :
    f ∈ flaws (Walk.reference ⟨scope, Reference.segmentsOf name kind suffixes, span⟩) ↔
      ∃ s ∈ suffixes, f ∈ flaws s.visits := by
  rw [Walk.reference, Reference.segmentsOf, Walk.segments, flaws_cons, ← flaws_segments]
  simp

end Lists

namespace Parser

variable {α β σ : Type} {S : Scene} {R : Region S} {K : List Fact} {g : Grammar} {m : Mark}

/-- What the level below has to do so that a level accounts for itself. -/
structure Accounting (S : Scene) (g : Grammar) : Prop where
  advancing : Advancing g
  expr : ∀ {R : Region S} {K : List Fact}, Accounts R K Expr.facts g.expr
  operand : ∀ {R : Region S} {K : List Fact}, Accounts R K (fun e => flaws (Walk.expr e)) g.operand
  type : ∀ {R : Region S} {K : List Fact}, Accounts R K (fun _ => []) g.type

/-! ### Types -/

/-- Behind a type parameter, the first half of a `>=` moves forward only from in front of it. -/
theorem typeParamEnd_tells (read : List TypeRef) (hK : S.Grants K) {c : Cursor} (hc : R.mem c) :
    S.Tells c K (fun _ => []) (typeParamEnd read S.source c) := by
  have hcomma : S.Accounts c K (fun _ => []) (Parser.eat .comma S.source c) :=
    Accounts.eat .comma hK c hc
  refine .bind (R.on hc) hcomma fun b hb => ?_
  have hd := R.step hc hcomma.moves
  rw [List.append_nil]
  generalize (Parser.eat .comma S.source c).cursor = d at hd
  rw [peek_bind]
  have key {p : Parser (List TypeRef ⊕ List TypeRef)} (hp : Accounts R K (fun _ => []) p) :
      S.Tells d K (fun _ => []) (p S.source d) := (hp hK d hd).toTells
  cases hk : (d.rest.headD S.source.stop).kind with
  | gt => exact key (.after .bump fun _ => .pure (by simp))
  | gtEq =>
    obtain ⟨t, ts, hr, -⟩ := exists_rest S.ended (c := d) (by rw [hk]; simp)
    have hrun : bumpHalf S.source d =
        ⟨some (), ⟨t.secondHalf :: ts, d.count + 1, t.firstHalf.span, d.depth⟩, []⟩ := by
      simp only [bumpHalf, hr]
    dsimp only
    rw [bind_of_some (congrArg Outcome.value hrun), hrun]
    exact .silent rfl rfl (by simp)
  | word => exact key (.pure (by simp))
  | _ => exact key (.unexpected _)

/-- The parameters of a type hold no fragment. -/
theorem typeParamStep_accounts (hg : Accounting S g) (read : List TypeRef) :
    Accounts R K (fun _ => []) (typeParamStep g read) := fun hK c hc =>
  have hparam : S.Accounts c K (fun _ => []) (g.type S.source c) := hg.type hK c hc
  { toTells := .bind (R.on hc) hparam fun _ ha =>
      typeParamEnd_tells _ (hparam.grants hK ha) (R.step hc hparam.moves)
    moves := (typeParamStep_sound hg.advancing read).moves S.ended c }

/-- Nor does a type. -/
theorem typeRef_accounts (hg : Accounting S g) : Accounts R K (fun _ => []) (typeRef g) := by
  have params {R : Region S} : Accounts R K (fun _ => []) (typeParams g) :=
    .loopAfter (Eats.advances (typeParamStep_eats hg.advancing)) (typeParamStep_accounts hg) []
  refine .mark fun _ => .after .look fun _ => .after (.name _) fun name => .after .ahead fun _ => ?_
  exact .ite (.after .bump fun _ => .after params fun _ => .after .spanFrom fun _ =>
    .pure (by simp)) (.after (.pure (by simp)) fun _ => .after .spanFrom fun _ => .pure (by simp))

/-! ### Declarations -/

/-- The fragments in an assignment are those of its value. -/
theorem assignment_accounts (hg : Accounting S g) :
    Accounts R K (fun a => flaws (Walk.assignment a)) (assignment g) := by
  refine .mark fun _ => .after (.name _) fun name => .after (.expectKeyword _) fun _ => ?_
  refine .bind hg.expr fun value => .after .spanFrom fun _ => ?_
  exact .pure (by simp +contextual [Expr.facts])

/-- Those in a member are those of its value. -/
theorem memberTail_accounts (hg : Accounting S g) (m : Mark) (name : Name) :
    Accounts R K (fun m => flaws (Walk.member m)) (memberTail g m name) := by
  have value (type : Option TypeRef) (legacy : Bool) :
      Accounts R K (fun m => flaws (Walk.member m)) (do
        let value ← g.expr
        pure ⟨name, type, some value, legacy, ← spanFrom m⟩) :=
    .bind hg.expr fun _ => .after .spanFrom fun _ => .pure (by simp +contextual [Expr.facts])
  refine .after (.eat _) fun _ => ?_
  refine .ite ?_ (.after (.expect _ _) fun _ => value _ _)
  refine .after (.eat _) fun _ => ?_
  refine .ite (value _ _) ?_
  refine .after (typeRef_accounts hg) fun type => .after (.eat _) fun _ => ?_
  exact .ite (value _ _) (.after .spanFrom fun _ => .pure (by simp))

/-- They are explained behind its name. -/
theorem member_accounts (hg : Accounting S g) :
    Accounts R K (fun m => flaws (Walk.member m)) (member g) :=
  .mark fun m => .after (.name _) fun name => memberTail_accounts hg m name

/-- So they are in a parameter. -/
theorem param_accounts (hg : Accounting S g) :
    Accounts R K (fun m => flaws (Walk.member m)) (param g) := by
  refine .mark fun m => .after (.name _) fun name => .after .look fun token => ?_
  split
  · exact memberTail_accounts hg m name
  · exact memberTail_accounts hg m name
  · exact .after .spanFrom fun _ => .pure (by simp)

/-- And in all parameters. -/
theorem params_accounts (hg : Accounting S g) :
    Accounts R K (fun ms => flaws (Walk.members ms)) (params g) := by
  refine .loop (fun ms => flaws (Walk.members ms)) (paramStep_advances hg.advancing)
    (fun read => .after .look fun token => ?_) (by simp)
  split
  · exact .pure (by simp +contextual [flaws_members])
  · exact .pure (by simp +contextual [flaws_members])
  · exact .after .bump fun _ => .pure (by simp +contextual)
  · exact .bind (param_accounts hg) fun _ => .pure (by simp +contextual [or_imp])
  · exact .unexpected _

variable {body : Parser Object}

/-- The fragments in a template are those of its parameters and its body. -/
theorem template_accounts (hg : Accounting S g)
    (hb : ∀ {R : Region S} {K}, Accounts R K (fun o => flaws (Walk.object o)) body) :
    Accounts R K (fun t => flaws (Walk.template t)) (template g body) := by
  refine .mark fun _ => .after (.expectKeyword _) fun _ => .after (.name _) fun name => ?_
  refine .after (.expect _ _) fun _ => .bind (params_accounts hg) fun params => ?_
  refine .after (.expect _ _) fun _ => .after (.expectKeyword _) fun _ => .bind hb fun object => ?_
  exact .after .spanFrom fun _ => .pure (by simp +contextual)

/-- A modifier adds none. -/
theorem visibility_accounts (hg : Accounting S g)
    (hb : ∀ {R : Region S} {K}, Accounts R K (fun o => flaws (Walk.object o)) body) :
    Accounts R K (fun v => flaws (Walk.visibility v)) (visibility g body) := by
  refine .mark fun m => .after .look fun token => ?_
  have key {q : Parser Declaration} {R : Region S}
      (hq : Accounts R K (fun d => flaws (Walk.declaration d)) q) (modifier : Modifier)
      (keyword : Name) : Accounts R K (fun v => flaws (Walk.visibility v)) (do
        let declaration ← q
        pure ⟨modifier, keyword, declaration, ← spanFrom m⟩) :=
    .bind hq fun _ => .after .spanFrom fun _ => .pure (by simp +contextual)
  split
  · exact .unexpected _
  · refine .after (.name _) fun name => .after .ahead fun _ => ?_
    exact .ite (key ((template_accounts hg hb).map fun _ => by simp) _ _)
      (key ((assignment_accounts hg).map fun _ => by simp) _ _)

/-- The fragments in a path are those of its indexes. -/
theorem suffixes_accounts (hg : Accounting S g) :
    Accounts R K (fun ss => ss.flatMap fun s => flaws s.visits) (suffixes g) := by
  refine .loop (fun ss => ss.flatMap fun s => flaws s.visits)
    (suffix_advances hg.advancing) (fun read => ?_) (by simp)
  have joined (kind : SegmentKind) : Accounts R (K ++ read.flatMap fun s => flaws s.visits)
      (Sum.elim (fun ss => ss.flatMap fun s => flaws s.visits)
        fun ss => ss.flatMap fun s => flaws s.visits)
      (do pure (.inl (.joined kind (← name "a name") :: read)) : Parser (_ ⊕ List Suffix)) :=
    .after (.name _) fun _ => .pure (by simp +contextual)
  refine .after .ahead fun _ => .ite (.after .look fun token => ?_) (.pure (by simp +contextual))
  split
  · exact .after .bump fun _ => .bind hg.expr fun _ => .after (.expect _ _) fun _ =>
      .pure (by simp +contextual [Expr.facts, or_imp])
  · exact .after .bump fun _ => joined _
  · exact .after .bump fun _ => joined _

/-- The sign of a scope adds none. -/
theorem scopeMark_accounts : Accounts R K (fun _ => []) scopeMark := by
  refine .after .bump fun _ => .after .ahead fun _ => ?_
  exact .ite (.after .bump fun _ => .after .ahead fun _ => .ite (.pure (by simp)) (.unexpected _))
    (.after (.unexpected _) fun _ => .after .ahead fun _ => .ite (.pure (by simp)) (.unexpected _))

/-- So those of a reference are explained. -/
theorem reference_accounts (hg : Accounting S g) :
    Accounts R K (fun r => flaws (Walk.reference r)) (reference g) := by
  have key {R : Region S} (scope : Scope) (m : Mark) :
      Accounts R K (fun r => flaws (Walk.reference r)) (do
        let name ← name "a reference name"
        let suffixes ← suffixes g
        let kind : SegmentKind := if scope = .none then .terminal else .nested
        pure ⟨scope, Reference.segmentsOf name kind suffixes, ← spanFrom m⟩) :=
    .after (.name _) fun _ => .bind (suffixes_accounts hg) fun _ => .after .spanFrom fun _ =>
      .pure (by simp +contextual [flaws_reference])
  exact .mark fun m => .after .look fun _ => .ite (.after scopeMark_accounts fun _ => key _ m)
    (key _ m)

/-- So are those of an entry. -/
theorem entry_accounts (hg : Accounting S g)
    (hb : ∀ {R : Region S} {K}, Accounts R K (fun o => flaws (Walk.object o)) body) :
    Accounts R K (fun e => flaws (Walk.entry e)) (entry g body) := by
  refine .after .ahead fun _ => ?_
  refine .ite ((assignment_accounts hg).map fun _ => by simp) ?_
  refine .ite ((visibility_accounts hg hb).map fun _ => by simp) ?_
  refine .ite ((member_accounts hg).map fun _ => by simp) ?_
  exact .ite ((reference_accounts hg).map fun _ => by simp)
    (.abortHere fun t => .noMember t.kind.name)

/-- So are those of an object; an entry may be one itself. -/
theorem objectWith_accounts (hg : Accounting S g) (hs : Steady body)
    (hb : ∀ {R : Region S} {K}, Accounts R K (fun o => flaws (Walk.object o)) body) :
    Accounts R K (fun o => flaws (Walk.object o)) (objectWith g body) := by
  have entries {R : Region S} : Accounts R K (fun es => flaws (Walk.entries es))
      (loop (entryStep g body) []) := by
    refine .loop (fun es => flaws (Walk.entries es)) (entryStep_advances hg.advancing hs)
      (fun read => .after .look fun token => ?_) (by simp)
    split
    · exact .after .bump fun _ => .pure (by simp +contextual [flaws_entries])
    · exact .unexpected _
    · exact .after (.report _ _) fun _ => .after .bump fun _ => .pure (by simp +contextual)
    · exact .orCut (entry_accounts hg hb) recoverEntry_patches (by simp) fun _ =>
        .pure (by simp +contextual [or_imp])
  exact .mark fun _ => .after (.name _) fun _ => .after (.expect _ _) fun _ => .bind entries
    fun _ => .after .spanFrom fun _ => .pure (by simp +contextual)

/-- So they are however deep its templates are nested. -/
theorem object_accounts (hg : Accounting S g) :
    Accounts R K (fun o => flaws (Walk.object o)) (object g) := by
  have hbase := Steady.unexpected (α := Object) ""
  have nest (n : Nat) : ∀ {R : Region S} {K : List Fact},
      Accounts R K (fun o => flaws (Walk.object o)) (objectNest g (unexpected "") n) := by
    induction n with
    | zero => exact objectWith_accounts hg hbase (.unexpected _)
    | succ n ih => exact objectWith_accounts hg (objectNest_steady hg.advancing hbase n) ih
  intro hK c hc
  rw [object_eq_nest hg.advancing hbase S.ended (Nat.le_refl _)]
  exact nest _ hK c hc

/-- So are those of an unnamed object. -/
theorem unnamed_accounts (hg : Accounting S g) :
    Accounts R K (fun u => flaws (Walk.object u.object)) (unnamed g) := by
  refine .mark fun _ => .after (.expectKeyword _) fun _ => ?_
  refine .bind (object_accounts hg) fun object => .after .spanFrom fun _ => ?_
  exact .pure (by simp +contextual)

/-! ### Expressions -/

/-- An element between brackets may be a fragment. -/
theorem bracketed_accounts (hg : Accounting S g) : Accounts R K Elements.facts (bracketed g) := by
  have elements : Accounts R K Elements.facts (elements g) := by
    refine .loop Elements.facts (element_advances hg.advancing) (fun e => ?_)
      (by simp [Elements.facts, Elements.items])
    have item : Accounts R (K ++ e.facts) (Sum.elim Elements.facts Elements.facts) (do
        let m ← mark
        let item ← orRecover g.expr (Expr.error <$> recoverElement m)
        pure (.inl { e with reversed := item :: e.reversed, commaDue := true }) :
          Parser (Elements ⊕ Elements)) :=
      .orCut hg.expr recoverElement_patches (by simp [Expr.facts, Expr.span]) fun _ =>
        .pure (by simp +contextual [Elements.facts, Elements.items])
    refine .after .look fun token => ?_
    split
    · exact .pure (by simp +contextual)
    · exact .pure (by simp +contextual)
    · exact .after .bump fun _ => .pure (by simp +contextual [Elements.facts, Elements.items])
    · exact .ite (.after (.report _ _) fun _ => item) item
  exact .after (.expect _ _) fun _ => .bind elements fun _ => .after (.expect _ _) fun _ =>
    .pure (by simp +contextual)

/-- The fragment that a span covers, reported where it starts. -/
theorem noPair_accounts {s : Span} (hs : .placed s ∈ K) (cause : Diagnostic.Cause) :
    Accounts R K (fun e => flaws (Walk.expr e))
      (do report cause s; Expr.error <$> errorAt s) := by
  intro hK c hc
  obtain ⟨c', d', hc', h, rfl⟩ := hK s hs
  have hsome : (Text.slice? S.source.text ((Mark.here S.source c').upTo d').start
      ((Mark.here S.source c').upTo d').stop).isSome = true :=
    Scene.Placed.slice?_isSome ⟨c', d', hc', h, rfl⟩
  generalize hspan : (Mark.here S.source c').upTo d' = s at *
  have hstart : s.start = S.next c' := by rw [← hspan, Scene.start_upTo]
  have hrun : (do report cause s; Expr.error <$> errorAt s : Parser Expr) S.source c =
      ⟨some (.error ⟨s, String.ofList (Text.covered S.source.text s)⟩), c,
        [.problem (.ofCause cause s)] ++ ((if (Text.slice? S.source.text s.start s.stop).isSome
          then [] else [.breach (.slice s)]) ++ [])⟩ := rfl
  rw [hrun, if_pos hsome]
  refine ⟨⟨by simp, by simp, by simp, fun e he f hf => .inr ?_⟩, .refl c⟩
  obtain rfl : .error ⟨s, String.ofList (Text.covered S.source.text s)⟩ = e := by injection he
  obtain rfl : f = .error ⟨s, String.ofList (Text.covered S.source.text s)⟩ := by
    simpa using hf
  refine ⟨s.start, .inr ⟨_, .inl (List.mem_append_left _ (List.mem_singleton_self _)), rfl⟩, ?_⟩
  have hexplains := Scene.explains_upTo hc' h (n := s.start) (by rw [hstart])
    (by rw [hstart]; exact Scene.next_le hc' h)
  rwa [hspan] at hexplains

/-- So may an entry of a map, which was reported as no pair. -/
theorem pairs_accounts (items : List Expr) (h : ∀ i ∈ items, ∀ f ∈ i.facts, f ∈ K) :
    Accounts R K (fun es => flaws (Walk.exprs es)) (pairs items) := by
  induction items generalizing K with
  | nil => exact .pure (by simp)
  | cons item items ih =>
    obtain ⟨hitem, hitems⟩ := List.forall_mem_cons.1 h
    have entry {p : Parser Expr} (hp : Accounts R K (fun e => flaws (Walk.expr e)) p) :
        Accounts R K (fun es => flaws (Walk.exprs es)) (do
          let entry ← p
          pure (entry :: (← pairs items))) :=
      .bind hp fun _ => .bind (ih fun i hi f hf => List.mem_append_left _ (hitems i hi f hf))
        fun _ => .pure (by simp +contextual)
    unfold pairs
    split
    · exact entry (.pure fun f hf => hitem f (List.mem_cons_of_mem _ hf))
    · exact entry (.pure fun f hf => hitem f (List.mem_cons_of_mem _ hf))
    · exact entry (noPair_accounts (hitem _ (List.mem_cons_self ..)) _)

/-- The error nodes of elements are known if all is known that is to be known of them. -/
theorem Elements.flaws_le {e : Elements} {f : Fact} (hf : f ∈ flaws (Walk.exprs e.items)) :
    f ∈ K ++ e.facts := by
  obtain ⟨i, hi, hf⟩ := flaws_exprs.1 hf
  exact List.mem_append_right K (List.mem_flatMap.2 ⟨i, hi, List.mem_cons_of_mem _ hf⟩)

/-- The fragments in a list are explained. -/
theorem list_accounts (hg : Accounting S g) :
    Accounts R K (fun e => flaws (Walk.expr e)) (list g) := by
  refine .mark fun _ => .bind (bracketed_accounts hg) fun e => ?_
  refine .after .spanFrom fun _ => .pure fun f hf => ?_
  exact e.flaws_le (by simpa using hf)

/-- So are those in a vector. -/
theorem vector_accounts (hg : Accounting S g) (type : VectorType) :
    Accounts R K (fun e => flaws (Walk.expr e)) (vector g type) := by
  refine .mark fun _ => .after (.name _) fun name => .bind (bracketed_accounts hg) fun e => ?_
  refine .after .spanFrom fun _ => .pure fun f hf => ?_
  exact e.flaws_le (by simpa using hf)

/-- So are those in what a name and a bracket start. -/
theorem vectorOrPath_accounts (hg : Accounting S g) :
    Accounts R K (fun e => flaws (Walk.expr e)) (vectorOrPath g) := by
  have vector {K : List Fact} (name : Name) (e : Elements) (span : Span) :
      ∀ f ∈ flaws (Walk.expr (.vector name none e.items e.strayCommas span)), f ∈ K ++ e.facts :=
    fun f hf => e.flaws_le (by simpa using hf)
  refine .mark fun m => .after (.name _) fun name => .bind (bracketed_accounts hg) fun e =>
    .after .spanFrom fun span => .after .ahead fun ts => ?_
  split
  · rename_i index hi
    have hindex : ∀ f ∈ flaws (Walk.expr index), f ∈ K ++ e.facts := fun f hf =>
      e.flaws_le (flaws_exprs.2 ⟨index, by simp [hi], hf⟩)
    refine .ite (.bind (suffixes_accounts hg) fun ss => .after .spanFrom fun s => .pure
      fun f hf => ?_) (.pure (hi ▸ vector name e span))
    replace hf : f ∈ flaws (Walk.expr index) ∨ ∃ s ∈ ss, f ∈ flaws s.visits := by
      simpa [flaws_reference] using hf
    exact hf.elim (fun hf => List.mem_append_left _ (hindex f hf))
      fun ⟨s, hs, hf⟩ => List.mem_append_right _ (List.mem_flatMap.2 ⟨s, hs, hf⟩)
  · exact .pure (vector name e span)

/-- So are those in a map. -/
theorem map_accounts (hg : Accounting S g) :
    Accounts R K (fun e => flaws (Walk.expr e)) (map g) := by
  refine .mark fun _ => .after (.name _) fun name => .bind (bracketed_accounts hg) fun e => ?_
  refine .bind (pairs_accounts e.items fun i hi f hf =>
    List.mem_append_right _ (List.mem_flatMap.2 ⟨i, hi, hf⟩)) fun pairs => ?_
  exact .after .spanFrom fun _ => .pure (by simp +contextual)

/-- So are those in a pair or a group. -/
theorem parenthesised_accounts (hg : Accounting S g) :
    Accounts R K (fun e => flaws (Walk.expr e)) (parenthesised g) := by
  refine .mark fun _ => .after (.expect _ _) fun _ => .after (.eat _) fun _ => ?_
  refine .ite (.after .spanFrom fun _ => .pure (by simp)) ?_
  refine .bind hg.expr fun value => .after (.eat _) fun _ => ?_
  refine .ite ?_ ?_
  · refine .bind hg.expr fun value => .after (.expect _ _) fun _ => .after .spanFrom fun _ => ?_
    exact .pure (by simp +contextual [Expr.facts, or_imp])
  · refine .after (.expect _ _) fun _ => .after .spanFrom fun _ => ?_
    exact .pure (by simp +contextual [Expr.facts])

/-- So are those in an index. -/
theorem generic_accounts (hg : Accounting S g) :
    Accounts R K (fun e => flaws (Walk.expr e)) (generic g) := by
  have index {R : Region S} : Accounts R K (fun e => flaws (Walk.expr? e)) (index? g) :=
    .after .ahead fun _ => .ite (.after .bump fun _ => .bind hg.expr fun _ =>
      .after (.expect _ _) fun _ => .pure (by simp +contextual [Expr.facts])) (.pure (by simp))
  refine .mark fun _ => .after (.expect _ _) fun _ => .after .ahead fun _ => ?_
  refine .ite ?_ (.unexpected _)
  refine .after (.name _) fun name => .after .ahead fun _ => ?_
  refine .ite ?_ (.unexpected _)
  refine .after .bump fun _ => .bind index fun _ => .after .spanFrom fun _ => ?_
  exact .pure (by simp +contextual)

/-- The node for a fragment behind a mark, if there is a problem at one of its tokens. -/
theorem error_accounts {c d : Cursor} (hc : (R.behind m).mem c) (h : c.Reaches d)
    {notes : List Note} (hnotes : ∀ note ∈ notes, ∃ x, note = .problem x)
    (hn : S.Points notes (S.next c)) (text : String) :
    S.Accounts d K (fun e => flaws (Walk.expr e)) ⟨some (.error ⟨m.upTo d, text⟩), d, notes⟩ := by
  obtain ⟨b, hb, rfl, hbc⟩ := hc
  refine ⟨⟨fun b hb => ?_, fun x hx => ?_, (by simp), fun e he f hf => .inr ?_⟩, .refl d⟩
  · obtain ⟨_, he⟩ := hnotes _ hb
    cases he
  · obtain ⟨_, he⟩ := hnotes _ hx
    cases he
  · obtain rfl : .error ⟨(Mark.here S.source b).upTo d, text⟩ = e := by injection he
    obtain rfl : f = .error ⟨(Mark.here S.source b).upTo d, text⟩ := by simpa using hf
    exact ⟨_, hn, Scene.explains_upTo (R.on hb) (hbc.trans h) (Scene.next_le (R.on hb) hbc)
      (Scene.next_le (R.on (R.step hb hbc)) h)⟩

/-- A broken token that is left was reported where it starts. -/
theorem reported_next {c : Cursor} (hc : c.On S.tokens) {e : LexError}
    (hk : (c.rest.headD S.source.stop).kind = .error e) (he : e.isReported = true) :
    S.reported (S.next c) := by
  obtain ⟨t, ts, hr, ht⟩ := exists_rest S.ended (c := c) (by rw [hk]; simp)
  rw [ht] at hk
  rw [Scene.next_cons hr]
  rcases hc.mem_rest (t := t) (by simp [hr]) with hmem | ⟨s, -, -, rfl⟩
  · exact S.reports t hmem e hk he
  · cases hk

/-- A broken token in a node of its own. -/
theorem brokenToken_accountsAt {c : Cursor} (hc : (R.behind m).mem c) {q : Parser Unit}
    {notes : List Note} (hq : ∀ d, q S.source d = ⟨some (), d, notes⟩)
    (hnotes : ∀ note ∈ notes, ∃ x, note = .problem x) (hn : S.Points notes (S.next c)) :
    AccountsAt S c K (fun e => flaws (Walk.expr e))
      (bump >>= fun _ => q >>= fun _ => errorFrom m >>= fun e => pure (.error e)) := by
  intro hK
  have hbump : S.Accounts c K (fun _ => []) (bump S.source c) := Accounts.bump hK c hc
  refine .bind ((R.behind m).on hc) hbump fun _ _ => ?_
  obtain ⟨text, hrun⟩ := errorFrom_run ((R.behind m).step hc hbump.moves)
  rw [bind_of_some (congrArg Outcome.value (hq _)), hq,
    bind_of_some (congrArg Outcome.value hrun), hrun]
  have := error_accounts (K := K ++ []) hc hbump.moves hnotes hn text
  simpa [pure_run] using this

/-- A payload without its end is a fragment that tokenizing reported. -/
theorem guid_accounts : Accounts R K (fun e => flaws (Walk.expr e)) guid := by
  refine .mark fun m => .after .bump fun _ => .after (.expect _ _) fun _ => .peek fun c hc => ?_
  split
  · exact Accounts.here (.after .bump fun _ => .after .spanFrom fun _ => .pure (by simp)) hc
  · rename_i hk
    have hn : S.Points [] (S.next c) := .inl (reported_next ((R.behind m).on hc) hk rfl)
    exact brokenToken_accountsAt hc (q := pure ()) (fun _ => rfl) (by simp) hn
  · exact Accounts.here (.unexpected _) hc

/-- So is any broken token, or it is reported here. -/
theorem brokenToken_accounts {c : Cursor} (hc : R.mem c) {e : LexError}
    (hk : (c.rest.headD S.source.stop).kind = .error e) :
    AccountsAt S c K (fun e => flaws (Walk.expr e)) (brokenToken e) := by
  have hm : (R.behind (.here S.source c)).mem c := ⟨c, hc, rfl, .refl c⟩
  intro hK
  cases e with
  | unexpectedChar x =>
    exact brokenToken_accountsAt hm
      (q := report (.strayCharacter x) (c.rest.headD S.source.stop).span)
      (fun _ => rfl) (by simp) (.inr ⟨_, .inl (List.mem_singleton_self _), rfl⟩) hK
  | unterminatedString | unterminatedBrace | missingHexDigits =>
    have hn : S.Points [] (S.next c) := .inl (reported_next (R.on hc) hk rfl)
    exact brokenToken_accountsAt hm (q := pure ()) (fun _ => rfl) (by simp) hn hK

/-- The fragments in what a name starts are explained. -/
theorem nameLed_accounts (hg : Accounting S g) :
    Accounts R K (fun e => flaws (Walk.expr e)) (nameLed g) := by
  refine .after .ahead fun _ => ?_
  exact .ite ((object_accounts hg).map fun _ => by simp)
    (.ite (vectorOrPath_accounts hg) ((reference_accounts hg).map fun _ => by simp))

/-- So are those in what a word starts. -/
theorem wordLed_accounts (hg : Accounting S g) (wordClass : WordClass) :
    Accounts R K (fun e => flaws (Walk.expr e)) (wordLed g wordClass) := by
  have constant (value : Span → Expr) (h : ∀ s, flaws (Walk.expr (value s)) = []) :
      Accounts R K (fun e => flaws (Walk.expr e)) (constant value) :=
    .after .look fun _ => .after .bump fun _ => .pure (by simp [h])
  have named : Accounts R K (fun e => flaws (Walk.expr e)) (nameLed g) := nameLed_accounts hg
  refine .after .ahead fun _ =>
    .ite ((assignment_accounts hg).map fun _ => by simp)
      (.ite ((visibility_accounts hg (object_accounts hg)).map fun _ => by simp) ?_)
  split
  · exact constant _ fun _ => rfl
  · exact constant _ fun _ => rfl
  · exact constant _ fun _ => rfl
  · exact .ite guid_accounts named
  · exact .ite (map_accounts hg) named
  · exact .ite (vector_accounts hg _) named
  · exact named

/-- So are those in an operand. -/
theorem primary_accounts (hg : Accounting S g) :
    Accounts R K (fun e => flaws (Walk.expr e)) (primary g) := by
  refine .peek fun c hc => ?_
  have literal (value : Expr) (h : flaws (Walk.expr value) = []) :
      Accounts R K (fun e => flaws (Walk.expr e)) (bump >>= fun _ => pure value) :=
    .after .bump fun _ => .pure (by simp [h])
  split
  · exact (literal _ rfl).here hc
  · exact (literal _ rfl).here hc
  · exact (list_accounts hg).here hc
  · exact (parenthesised_accounts hg).here hc
  · exact (generic_accounts hg).here hc
  · exact (wordLed_accounts hg _).here hc
  · rename_i e hk
    exact brokenToken_accounts hc hk
  · exact Accounts.here (.unexpected _) hc
  · refine Accounts.here ?_ hc
    refine .after .ahead fun _ => ?_
    exact .ite ((reference_accounts hg).map fun _ => by simp)
      (.abortHere fun t => .noExpression t.kind.name)

/-- A sign adds none. -/
theorem unary_accounts (hg : Accounting S g) :
    Accounts R K (fun e => flaws (Walk.expr e)) (unary g) := by
  have operand {R : Region S} (op : UnaryOp) (m : Mark) :
      Accounts R K (fun e => flaws (Walk.expr e)) (do
        let operand ← g.operand
        pure (.unary op operand (← spanFrom m))) :=
    .bind hg.operand fun _ => .after .spanFrom fun _ => .pure (by simp +contextual)
  refine .mark fun m => .after .look fun token => ?_
  split
  · exact .after .bump fun _ => operand _ m
  · exact .after .bump fun _ => operand _ m
  · exact primary_accounts hg

/-- Operators add none. -/
theorem climb_accounts (hg : Accounting S g) (steps loosest : Nat) :
    Accounts R K (fun e => flaws (Walk.expr e)) (climb g steps loosest) := by
  induction steps generalizing R K loosest with
  | zero => exact unary_accounts hg
  | succ steps ih =>
    have hright (rank : Nat) := climb_steady hg.advancing steps rank
    refine .mark fun m => .bind (unary_accounts hg) fun left =>
      .loop (fun e => flaws (Walk.expr e))
        (operation_advances hg.advancing hright loosest m) (fun left => ?_)
        fun f hf => List.mem_append_right _ hf
    refine .after .ahead fun ts => ?_
    split
    · exact .pure (by simp +contextual)
    · refine .ite ?_ (.pure (by simp +contextual))
      refine .after .bump fun _ => .bind hg.expr fun value => .after (.expect _ _) fun _ => ?_
      refine .bind hg.expr fun value => .after .spanFrom fun _ => ?_
      exact .pure (by simp +contextual [Expr.facts, or_imp])
    · exact .ite (.after .bump fun _ => .bind (ih _) fun _ => .after .spanFrom fun _ =>
        .pure (by simp +contextual)) (.pure (by simp +contextual))

/-! ### Levels and items -/

/-- Passing over tokens takes no note. -/
theorem skip_notes (n : Nat) (src : Source) (c : Cursor) : (skip n src c).notes = [] := by
  induction n generalizing c with
  | zero => rfl
  | succ n ih =>
    show ((bump >>= fun _ => skip n) src c).notes = []
    rw [bind_of_some bump_value, bump_notes, ih]
    rfl

/-- A fragment below the last level is reported where it starts, also if there is none. -/
theorem tooDeep_run {c : Cursor} (hc : R.mem c) :
    ∃ d text, c.Reaches d ∧ tooDeep S.source c =
      ⟨if c.count < d.count then some ⟨(Mark.here S.source c).upTo d, text⟩ else none, d,
        [.event (.skipped ((Mark.here S.source c).upTo d)),
          .problem (.ofCause (.tooDeep maxNesting) ((Mark.here S.source c).upTo d))]⟩ := by
  have hmoves := (Steady.skip (Recovery.fragment 0 c.rest)).moves S.ended c
  obtain ⟨text, hrun⟩ :=
    errorFrom_run ((R.behind (.here S.source c)).step ⟨c, hc, rfl, .refl c⟩ hmoves)
  refine ⟨_, text, hmoves, ?_⟩
  show ((skip (Recovery.fragment 0 c.rest) >>= fun _ => errorFrom (.here S.source c) >>= _)
    S.source c) = _
  rw [bind_of_some (skip_value _ _ _), bind_of_some (congrArg Outcome.value hrun), hrun, skip_notes,
    List.nil_append, List.nil_append]
  generalize (skip (Recovery.fragment 0 c.rest) S.source c).cursor = d
  exact congrArg (fun o : Outcome ErrorNode => (⟨o.value, o.cursor, _ :: _ :: o.notes⟩ :
    Outcome ErrorNode)) (movedFrom_run _ ⟨(Mark.here S.source c).upTo d, text⟩ S.source d)

/-- What is left where a fragment below the last level is cut out. -/
theorem points_tooDeep (S : Scene) (c d : Cursor) :
    S.Points [.event (.skipped ((Mark.here S.source c).upTo d)),
      .problem (.ofCause (.tooDeep maxNesting) ((Mark.here S.source c).upTo d))] (S.next c) :=
  .inr ⟨.ofCause (.tooDeep maxNesting) ((Mark.here S.source c).upTo d), .inl (by simp),
    Scene.start_upTo S c d⟩

/-- The fragment below the last level is reported. -/
theorem deepExpr_accounts : Accounts R K Expr.facts Grammar.deepExpr := by
  have cut : Accounts R K (fun e => [.placed e.span, .error e]) tooDeep := by
    intro _ c hc
    obtain ⟨d, text, h, hrun⟩ := tooDeep_run hc
    have hn := Scene.next_le (R.on hc) h
    have hpoint := points_tooDeep S c d
    rw [hrun]
    refine ⟨⟨by simp, by simp, fun _ => ⟨_, hpoint, Nat.le_refl _, hn⟩,
      fun e he f hf => .inr ?_⟩, h⟩
    have hspan : e.span = (Mark.here S.source c).upTo d := by
      split at he
      · injection he with he
        rw [← he]
      · cases he
    rcases List.mem_cons.1 hf with rfl | hf
    · exact ⟨c, d, R.on hc, h, hspan⟩
    · obtain rfl := List.mem_singleton.1 hf
      refine ⟨_, hpoint, ?_⟩
      rw [hspan]
      exact Scene.explains_upTo (R.on hc) h (Nat.le_refl _) hn
  exact cut.map fun _ => by simp [Expr.facts, Expr.span]

/-- There a type gives up. -/
theorem deepType_accounts : Accounts R K (fun _ => []) Grammar.deepType := by
  intro _ c hc
  obtain ⟨d, text, h, hrun⟩ := tooDeep_run hc
  have hdeep : Grammar.deepType S.source c = ⟨none, d, (tooDeep S.source c).notes⟩ := by
    show (tooDeep >>= fun _ => (abort : Parser TypeRef)) S.source c = _
    cases hv : (tooDeep S.source c).value with
    | none => rw [bind_of_none hv, hrun]
    | some node =>
      rw [bind_of_some hv]
      show (⟨none, (tooDeep S.source c).cursor, (tooDeep S.source c).notes ++ []⟩ :
        Outcome TypeRef) = _
      rw [List.append_nil, hrun]
  rw [hdeep, hrun]
  exact ⟨⟨by simp, by simp, fun _ => ⟨_, points_tooDeep S c d, Nat.le_refl _,
    Scene.next_le (R.on hc) h⟩, by simp⟩, h⟩

/-- **A level accounts for itself if the one below does.** -/
theorem Accounting.above (hg : Accounting S g) (hs : Spanning (.above g)) :
    Accounting S (.above g) where
  advancing := hg.advancing.above
  expr := by
    have flaws {R : Region S} {K : List Fact} :
        Accounts R K (fun e => flaws (Walk.expr e)) (Grammar.above g).expr :=
      .nested (deepExpr_accounts.mono fun _ f hf => List.mem_cons_of_mem _ hf)
        (expression_steady hg.advancing).sound (climb_accounts hg _ _)
    intro R K hK c hc
    have hrun := flaws (R := R) hK c hc
    refine ⟨⟨hrun.calm, hrun.ends, hrun.fails, fun e he f hf => ?_⟩, hrun.moves⟩
    rcases List.mem_cons.1 hf with rfl | hf
    · exact .inr ⟨c, _, R.on hc, hrun.moves, hs.expr S.ended c e he⟩
    · exact hrun.holds e he f hf
  operand := .nested (deepExpr_accounts.mono fun _ f hf => List.mem_cons_of_mem _ hf)
    (unary_steady hg.advancing).sound (unary_accounts hg)
  type := .nested deepType_accounts (typeRef_sound hg.advancing) (typeRef_accounts hg)

/-- All levels account for their fragments. -/
theorem accounting_levels (S : Scene) (n : Nat) : Accounting S (.levels n) := by
  induction n with
  | zero =>
    exact ⟨advancing_bottom, deepExpr_accounts,
      deepExpr_accounts.mono fun _ f hf => List.mem_cons_of_mem _ hf, deepType_accounts⟩
  | succ n ih => exact ih.above (spanning_levels (n + 1))

/-- The flaws of an item are those inside it. -/
theorem flaws_item (i : Item) : flaws (Walk.item i) = flaws (Walk.inItem i) := by
  simp [Walk.item]

/-- Those of an expression are the same as an item. -/
theorem flaws_ofExpr (e : Expr) : flaws (Walk.item (Item.ofExpr e)) = flaws (Walk.expr e) := by
  cases e <;> simp [Item.ofExpr, Walk.item]

/-- The fragments in an item are explained. -/
theorem item_accounts (hg : Accounting S g) :
    Accounts R K (fun i => flaws (Walk.item i)) (item g) := by
  refine .after .ahead fun ts => .ite ?assignment (.ite ?visibility (.ite ?template (.ite ?unnamed
    (.ite ?member ?expr))))
  case assignment => exact (assignment_accounts hg).map fun a => by simp [flaws_item]
  case visibility =>
    exact (visibility_accounts hg (object_accounts hg)).map fun v => by simp [flaws_item]
  case template =>
    exact (template_accounts hg (object_accounts hg)).map fun t => by simp [flaws_item]
  case unnamed => exact (unnamed_accounts hg).map fun u => by simp [flaws_item]
  case member => exact (member_accounts hg).map fun m => by simp [flaws_item]
  case expr =>
    refine hg.expr.map fun e => ?_
    rw [flaws_ofExpr]
    exact fun f hf => List.mem_cons_of_mem _ hf

/-- So are those in all items. -/
theorem items_accounts (hg : Accounting S g) (calledOff : Nat → Bool) :
    Accounts R K (fun is => flaws ((is.getD []).flatMap Walk.item)) (items g calledOff) := by
  refine .loop (fun is => flaws (is.flatMap Walk.item))
    (itemStep_advances hg.advancing calledOff) (fun read => ?_) (by simp)
  have item : Accounts R (K ++ flaws (read.flatMap Walk.item)) (fun i => flaws (Walk.item i))
      (itemOrError g) :=
    .orCut (item_accounts hg) recoverItem_patches (by simp [flaws_item]) fun _ =>
      .after (.emit _) fun _ => .pure (by simp +contextual)
  refine .after .ahead fun _ => .ite (.pure ?_)
    (.ite (.pure (by simp)) (.bind item fun i => .pure ?_))
  · simp +contextual [mem_flaws_flatMap]
  · simp +contextual [or_imp]

end Parser

/-! ### Whole sources -/

namespace Note

variable {notes : List Note} {d : Diagnostic}

/-- Every problem is reported. -/
theorem mem_diagnostics_of_problem (h : .problem d ∈ notes) (ended : Bool) :
    d ∈ diagnostics ended notes := by
  induction notes generalizing ended with
  | nil => cases h
  | cons note notes ih =>
    rcases List.mem_cons.1 h with rfl | hrest
    · exact List.mem_cons_self ..
    · cases note with
      | problem _ => exact List.mem_cons_of_mem _ (ih hrest ended)
      | atEnd _ =>
        cases ended with
        | false => exact List.mem_cons_of_mem _ (ih hrest true)
        | true => exact ih hrest true
      | event _ => exact ih hrest ended
      | breach _ => exact ih hrest ended

/-- If something is missing at the end, something that is missing there is reported. -/
theorem exists_mem_diagnostics_of_atEnd (h : .atEnd d ∈ notes) :
    ∃ d', .atEnd d' ∈ notes ∧ d' ∈ diagnostics false notes := by
  induction notes with
  | nil => cases h
  | cons note notes ih =>
    have behind (h : .atEnd d ∈ notes) (hne : ∀ d', d' ∈ diagnostics false notes →
        d' ∈ diagnostics false (note :: notes)) :
        ∃ d', .atEnd d' ∈ note :: notes ∧ d' ∈ diagnostics false (note :: notes) := by
      obtain ⟨d', hd, hr⟩ := ih h
      exact ⟨d', List.mem_cons_of_mem _ hd, hne d' hr⟩
    cases note with
    | atEnd d' => exact ⟨d', List.mem_cons_self .., List.mem_cons_self ..⟩
    | problem _ =>
      exact behind (by simpa using h) fun _ h => List.mem_cons_of_mem _ h
    | event _ => exact behind (by simpa using h) fun _ h => h
    | breach _ => exact behind (by simpa using h) fun _ h => h

/-- A diagnostic of some notes was noted. -/
theorem mem_of_mem_diagnostics {ended : Bool} (h : d ∈ diagnostics ended notes) :
    .problem d ∈ notes ∨ .atEnd d ∈ notes := by
  induction notes generalizing ended with
  | nil => cases h
  | cons note notes ih =>
    have behind {ended : Bool} (h : d ∈ diagnostics ended notes) :
        .problem d ∈ note :: notes ∨ .atEnd d ∈ note :: notes :=
      (ih h).imp (List.mem_cons_of_mem _) (List.mem_cons_of_mem _)
    cases note with
    | problem d' =>
      rcases List.mem_cons.1 h with rfl | h
      · exact .inl (List.mem_cons_self ..)
      · exact behind h
    | atEnd d' =>
      cases ended with
      | true => exact behind h
      | false =>
        rcases List.mem_cons.1 h with rfl | h
        · exact .inr (List.mem_cons_self ..)
        · exact behind h
    | event e => exact behind h
    | breach b => exact behind h

end Note

/-- The run over a source accounts for itself. -/
theorem readItems_accounts (calledOff : Nat → Bool) (source : String) :
    (Scene.ofText source).Accounts (.start (TokenStream.ofText source).tokens) []
      (fun is => flaws ((is.getD []).flatMap Walk.item))
      (readItems calledOff source (TokenStream.ofText source)) :=
  Parser.items_accounts (R := .whole _) (K := [])
    (Parser.accounting_levels (Scene.ofText source) Parser.maxNesting) calledOff
    (fun _ hs => by cases hs) _ (Cursor.On.start _)

/-- What stands at an offset stands there among the problems of the source. -/
theorem mem_problems_of_points {source : String} {n : Nat}
    (h : (Scene.ofText source).Points
      (readItems (fun _ => false) source (TokenStream.ofText source)).notes n) :
    ∃ d ∈ (parse source).diagnostics, d.span.start = n := by
  have hrun := readItems_accounts (fun _ => false) source
  have mem {d : Diagnostic} (hd : d ∈ (TokenStream.ofText source).diagnostics ∨
      d ∈ Note.diagnostics false
        (readItems (fun _ => false) source (TokenStream.ofText source)).notes) :
      d ∈ (parse source).diagnostics :=
    List.mem_mergeSort.2 (List.mem_append.2 hd)
  rcases h with ⟨d, hd, hs⟩ | ⟨d, hd | hd, hs⟩
  · exact ⟨d, mem (.inl hd), hs⟩
  · exact ⟨d, mem (.inr (Note.mem_diagnostics_of_problem hd _)), hs⟩
  · obtain ⟨d', hd', hr⟩ := Note.exists_mem_diagnostics_of_atEnd hd
    exact ⟨d', mem (.inr hr), by rw [hrun.ends d' hd', ← hrun.ends d hd, hs]⟩

/-- A problem of the source explains each error node of its document. -/
theorem exists_explains {source : String} {e : ErrorNode}
    (he : .error e ∈ (parse source).document.parts) :
    ∃ d ∈ (parse source).diagnostics, (Scene.ofText source).Explains d.span.start e.span := by
  have hmet : .error e ∈ (parse source).document.visits := (Document.mem_error _).2 he
  have hnode := (readItems_accounts (fun _ => false) source).holds _ (readItems_value source)
    (.error e) (mem_flaws.2 hmet)
  obtain ⟨n, hn, hexplains⟩ := hnode.resolve_left List.not_mem_nil
  obtain ⟨d, hd, rfl⟩ := mem_problems_of_points hn
  exact ⟨d, hd, hexplains⟩

/-- What is read without a problem has no error node. -/
theorem not_mem_error {source : String} (clean : (parse source).diagnostics = []) (e : ErrorNode) :
    .error e ∉ (parse source).document.parts := by
  intro he
  obtain ⟨d, hd, -⟩ := exists_explains he
  rw [clean] at hd
  cases hd

/-- None is counted there either. -/
theorem errorCount_eq_zero {source : String} (clean : (parse source).diagnostics = []) :
    (parse source).document.errorCount = 0 := by
  rw [Document.errorCount_eq, List.length_eq_zero_iff, List.filterMap_eq_nil_iff]
  intro p hp
  cases p with
  | error e => exact absurd hp (not_mem_error clean e)
  | _ => rfl

/-- **Every error node is explained where it is.**  For each error node among the parts of a
document, wherever it is in the tree, there is a diagnostic that does not stand in front of it, and
no token but comments starts behind the node and in front of the diagnostic: it points at a token of
the node or at the first one behind.  So a parse without diagnostics has no error node. -/
theorem parse_explained (source : String) :
    (∀ e, .error e ∈ (parse source).document.parts →
      ∃ d ∈ (parse source).diagnostics, e.span.start ≤ d.span.start ∧
        ∀ t ∈ (tokenize source).tokens, t.kind.isTrivia = false →
          t.span.start < e.span.stop ∨ d.span.start ≤ t.span.start) ∧
    ((parse source).diagnostics = [] → ∀ e, .error e ∉ (parse source).document.parts) := by
  refine ⟨fun e he => ?_, not_mem_error⟩
  obtain ⟨d, hd, hexplains⟩ := exists_explains he
  refine ⟨d, hd, hexplains.start_le, fun t ht hk => hexplains.none_between t ?_⟩
  rw [show (Scene.ofText source).tokens ++ [(Scene.ofText source).source.stop] = _ from
    ofText_append_stop source]
  exact List.mem_filter.2 ⟨ht, by simp [hk]⟩

end Ndf
