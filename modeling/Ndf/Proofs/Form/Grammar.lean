/-
# The grammar builds lawful trees

All parsers of the grammar return trees of which every part is lawful, level by level
(`building_levels`).  What a literal and a name say follows from the token that they are made of; a
vector and a map follow from how a word is dispatched on its class.

Operators bind as the table says because of what an operand leaves behind: reading at a rank stops
in front of looser operators only (`Climbed.tight`), so what comes next always fits what has been
read (`Climbing.fits`).  An exception is a `?:` that ends in a fragment cut out at the last level of
nesting, behind which any operator may follow.
-/

import Ndf.Proofs.Form.Builds
import Ndf.Proofs.Token.Position

namespace Ndf

namespace Text

/-- Between the start of a slice and the end of a later one, both are written. -/
theorem slice?_through {text u v : List Char} {a b c d : Nat} (hu : slice? text a b = some u)
    (hv : slice? text c d = some v) (hbc : b ≤ c) :
    ∃ between, slice? text a d = some (u ++ (between ++ v)) := by
  obtain ⟨front, rest, rfl, rfl, rfl⟩ := eq_append_of_slice? hu
  obtain ⟨front', rest', h, rfl, rfl⟩ := eq_append_of_slice? hv
  rw [← byteSize_append] at hbc
  rw [← List.append_assoc] at h
  have hfront : ∃ between, front' = front ++ u ++ between := by
    rcases List.append_eq_append_iff.1 h with ⟨mid, hm, -⟩ | ⟨mid, hm, -⟩
    · exact ⟨mid, hm⟩
    · rw [hm, byteSize_append] at hbc
      obtain rfl : mid = [] := eq_nil_of_byteSize (by omega)
      exact ⟨[], by simpa using hm.symm⟩
  obtain ⟨between, rfl⟩ := hfront
  refine ⟨between, ?_⟩
  rw [show front ++ (u ++ rest) = front ++ ((u ++ (between ++ v)) ++ rest') by
    rw [← List.append_assoc, h]
    simp only [List.append_assoc]]
  have := slice?_append front (u ++ (between ++ v)) rest'
  rwa [byteSize_append, byteSize_append, show byteSize front + (byteSize u + (byteSize between +
    byteSize v)) = byteSize (front ++ u ++ between) + byteSize v by
      simp only [byteSize_append]; omega] at this

end Text

/-- A keyword is spelled as it is, up to the case of its letters. -/
theorem Word.lower_of_classify {word : String} {k : Keyword} (h : classify word = .keyword k) :
    lower word = k.spelling := by
  obtain ⟨c, hc, hk⟩ : ∃ c, reserved.lookup (lower word) = some c ∧ c = .keyword k := by
    rw [classify] at h
    cases hl : reserved.lookup (lower word) with
    | none => rw [hl] at h; cases h
    | some c => exact ⟨c, rfl, by rwa [hl] at h⟩
  obtain ⟨before, after, heq, -⟩ := List.lookup_eq_some_iff.1 hc
  have hmem : (lower word, WordClass.keyword k) ∈ reserved := by
    rw [heq, hk]
    simp
  simp only [reserved, List.mem_append, List.mem_map, Prod.mk.injEq] at hmem
  rcases hmem with (⟨k', -, hw, hk'⟩ | ⟨t, -, -, ht⟩) | ⟨t, -, -, ht⟩
  · cases hk'
    exact hw.symm
  · cases ht
  · cases ht

/-! ### Parts of what is put together -/

namespace Parts

variable {text : List Char} {name : Name} {s : Span}

/-- A member is lawful if its name, its type and its value are, and if the legacy colon has a value
and no type. -/
theorem lawful_member {type? : Option TypeRef} {value : Option Expr} {legacy : Bool}
    (hn : Part.Lawful text (.name name)) (ht : ∀ t ∈ type?, Lawful text (type t))
    (hv : ∀ e ∈ value, Lawful text (expr e))
    (hl : legacy = true → value.isSome = true ∧ type? = none) :
    Lawful text (member ⟨name, type?, value, legacy, s⟩) := by
  refine lawful_cons.2 ⟨⟨trivial, hl, trivial, trivial⟩, lawful_cons.2 ⟨hn, ?_⟩⟩
  refine lawful_append.2 ⟨?_, ?_⟩
  · exact lawful_types.2 fun t h => ht t (Option.mem_toList.1 h)
  · rw [expr?_eq_flatMap, lawful_flatMap]
    exact fun e h => hv e (Option.mem_toList.1 h)

/-- A reference is lawful if its first name and its suffixes are. -/
theorem lawful_reference {scope : Scope} {kind : SegmentKind} {suffixes : List Suffix}
    (hn : Part.Lawful text (.name name)) (hs : ∀ x ∈ suffixes, Lawful text (suffix x)) :
    Lawful text (reference ⟨scope, Reference.segmentsOf name kind suffixes, s⟩) :=
  lawful_cons.2 ⟨⟨trivial, ⟨_, _, _, rfl⟩, trivial, trivial⟩,
    lawful_cons.2 ⟨hn, lawful_segments.2 hs⟩⟩

/-- A fragment is lawful as an expression. -/
theorem lawful_error {n : ErrorNode} (h : Part.Lawful text (.error n)) :
    Lawful text (expr (.error n)) :=
  lawful_cons.2 ⟨.of_isFree rfl, lawful_cons.2 ⟨h, lawful_nil⟩⟩

end Parts

namespace Parser

/-! ### Operators and what they stand behind -/

/-- The rank of an operator. -/
def Operator.rank : Operator → Nat
  | .binary op => op.rank
  | .question => 0

/-- An operator that can take an expression for its left side. -/
def Operator.Fits (left : Expr) : Operator → Prop
  | .binary op => op.rank ≤ left.rank
  | .question => 0 < left.rank

/-- Any operator fits behind one operand. -/
theorem Operator.fits_of_rank {left : Expr} (h : left.rank = ranks) (o : Operator) :
    o.Fits left := by
  cases o with
  | binary op =>
    show op.rank ≤ left.rank
    rw [h]
    cases op <;> decide
  | question =>
    show 0 < left.rank
    rw [h]
    decide

end Parser

/-- A declaration used as a value. -/
def Expr.isDeclaration : Expr → Bool
  | .assignment _ | .visibility _ => true
  | _ => false

namespace Parser

open Parts (Lawful)
open Lookahead (isKind)

variable {src : Source} {c : Cursor} {g : Grammar}

/-- A declaration is read only where one starts. -/
def Opens (c : Cursor) (e : Expr) : Prop := e.isDeclaration = true →
  Lookahead.startsAssignment c.rest 0 = true ∨ Lookahead.startsVisibility c.rest 0 = true

/-- What is no declaration may be read anywhere. -/
theorem Opens.of_isDeclaration {e : Expr} (h : e.isDeclaration = false) : Opens c e :=
  fun he => absurd (he.symm.trans h) Bool.noConfusion

/-- An operand that was read from a place on. -/
structure Operand (src : Source) (c : Cursor) (e : Expr) : Prop where
  lawful : Lawful src.text (Parts.expr e)
  rank : e.rank = ranks
  opens : Opens c e

/-- What the level below builds. -/
structure Building (src : Source) (g : Grammar) : Prop where
  expr : ∀ {c : Cursor}, Builds src c (fun e d => Lawful src.text (Parts.expr e) ∧ Opens c e ∧
    (e.isError = true ∨ operator? d.rest = none)) g.expr
  operand : ∀ {c : Cursor}, Builds src c
    (fun e _ => Lawful src.text (Parts.expr e) ∧ e.rank = ranks) g.operand
  type : ∀ {c : Cursor}, Builds src c (fun t _ => Lawful src.text (Parts.type t)) g.type

/-! ### Types -/

/-- The end of a parameter builds nothing. -/
theorem typeParamEnd_builds {read : List TypeRef}
    (hr : ∀ t ∈ read, Lawful src.text (Parts.type t)) :
    Builds src c (fun r _ => r.elim (fun ts => ∀ t ∈ ts, Lawful src.text (Parts.type t))
      fun ts => ∀ t ∈ ts, Lawful src.text (Parts.type t)) (typeParamEnd read) := by
  refine .after (.eat .comma) fun _ d => .peek ?_
  split
  · exact .after .bump fun _ _ => .pure (by simpa using hr)
  · exact .after .bumpHalf fun _ _ => .pure (by simpa using hr)
  · exact .pure hr
  · exact .unexpected _

/-- The class of a type is that of its name. -/
theorem typeRef_builds (hg : Building src g) :
    Builds src c (fun t _ => Lawful src.text (Parts.type t)) (typeRef g) := by
  have params {d : Cursor} : Builds src d
      (fun ts _ => ∀ t ∈ ts, Lawful src.text (Parts.type t)) (typeParams g) :=
    .loop (I := fun ts _ => ∀ t ∈ ts, Lawful src.text (Parts.type t))
      (fun _ _ hr => .bind hg.type fun _ _ ht =>
        typeParamEnd_builds (List.forall_mem_cons.2 ⟨ht, hr⟩)) (by simp)
  refine .mark (.peek (.bind (.name _) fun n d hn => .ahead ?_))
  have type {ts : List TypeRef} {s : Span} (h : ∀ t ∈ ts, Lawful src.text (Parts.type t)) :
      Lawful src.text
        (Parts.type ⟨n, (c.rest.headD src.stop).kind.wordClass?.getD .name, ts, s⟩) := by
    rw [hn.2]
    exact Parts.lawful_cons.2 ⟨⟨trivial, rfl, trivial, trivial⟩,
      Parts.lawful_cons.2 ⟨hn.1, Parts.lawful_types.2 h⟩⟩
  refine .ite (fun _ => ?_) fun _ => ?_
  · refine .after .bump fun _ _ => .bind params fun _ _ h => ?_
    exact .after .spanFrom fun _ _ => .pure (type h)
  · refine .bind (P := fun ts _ => ∀ t ∈ ts, Lawful src.text (Parts.type t)) (.pure (by simp))
      fun _ _ h => ?_
    exact .after .spanFrom fun _ _ => .pure (type h)

/-! ### Declarations -/

/-- An assignment is lawful: its name is the word that was read. -/
theorem assignment_builds (hg : Building src g) :
    Builds src c (fun a _ => Lawful src.text (Parts.assignment a)) (assignment g) := by
  refine .mark <| .bind (.name _) fun name _ hn => ?_
  refine .after (.expectKeyword _) fun _ _ => .bind hg.expr fun value _ he => ?_
  refine .after .spanFrom fun _ _ => ?_
  exact .pure (Parts.lawful_cons.2 ⟨.of_isFree rfl, Parts.lawful_cons.2 ⟨hn.1, he.1⟩⟩)

/-- A member with a type or a value. -/
def Declared (src : Source) (m : Member) : Prop :=
  Lawful src.text (Parts.member m) ∧ (m.type.isSome = true ∨ m.value.isSome = true)

/-- A member without a type and a value is never read. -/
theorem memberTail_builds (hg : Building src g) (m : Mark) {name : Name}
    (hn : Part.Lawful src.text (.name name)) :
    Builds src c (fun m _ => Declared src m) (memberTail g m name) := by
  have value {d : Cursor} (type? : Option TypeRef) (legacy : Bool)
      (ht : ∀ t ∈ type?, Lawful src.text (Parts.type t)) (hl : legacy = true → type? = none) :
      Builds src d (fun m _ => Declared src m) (do
        let value ← g.expr
        pure ⟨name, type?, some value, legacy, ← spanFrom m⟩) :=
    .bind hg.expr fun _ _ he => .after .spanFrom fun _ _ => .pure
      ⟨Parts.lawful_member hn ht (by simpa using he.1) fun h => ⟨rfl, hl h⟩, .inr rfl⟩
  refine .after (.eat _) fun _ _ => .ite (fun _ => ?_) fun _ => ?_
  · refine .after (.eat _) fun _ _ => .ite (fun _ => value _ _ (by simp) fun _ => rfl) fun _ => ?_
    refine .bind (typeRef_builds hg) fun t _ ht => ?_
    refine .after (.eat _) fun _ _ => ?_
    refine .ite (fun _ => value _ _ (by simpa using ht) (by simp)) fun _ => ?_
    refine .after .spanFrom fun _ _ => ?_
    exact .pure ⟨Parts.lawful_member hn (by simpa using ht) (by simp) (by simp), .inl rfl⟩
  · exact .after (.expect _ _) fun _ _ => value _ _ (by simp) (by simp)

/-- So a member declares something. -/
theorem member_builds (hg : Building src g) :
    Builds src c (fun m _ => Declared src m) (member g) :=
  .mark <| .bind (.name _) fun _ _ hn => memberTail_builds hg _ hn.1

/-- A parameter may be a name alone. -/
theorem param_builds (hg : Building src g) :
    Builds src c (fun m _ => Lawful src.text (Parts.member m)) (param g) := by
  refine .mark <| .bind (.name _) fun _ _ hn => .peek ?_
  split
  · exact (memberTail_builds hg _ hn.1).mono fun _ _ h => h.1
  · exact (memberTail_builds hg _ hn.1).mono fun _ _ h => h.1
  · exact .after .spanFrom fun _ _ =>
      .pure (Parts.lawful_member hn.1 (by simp) (by simp) (by simp))

/-- All parameters are lawful. -/
theorem params_builds (hg : Building src g) :
    Builds src c (fun ms _ => ∀ m ∈ ms, Lawful src.text (Parts.member m)) (params g) := by
  refine .loop (I := fun ms _ => ∀ m ∈ ms, Lawful src.text (Parts.member m))
    (fun read d hr => .peek ?_) (by simp)
  split
  · exact .pure (by simpa using hr)
  · exact .pure (by simpa using hr)
  · exact .after .bump fun _ _ => .pure hr
  · exact .bind (param_builds hg) fun _ _ hm => .pure (List.forall_mem_cons.2 ⟨hm, hr⟩)
  · exact .unexpected _

variable {body : Parser Object}

/-- A template is lawful if its body is. -/
theorem template_builds (hg : Building src g)
    (hb : ∀ {d}, Builds src d (fun o _ => Lawful src.text (Parts.object o)) body) :
    Builds src c (fun t _ => Lawful src.text (Parts.template t)) (template g body) := by
  refine .mark <| .after (.expectKeyword _) fun _ _ => .bind (.name _) fun name _ hn => ?_
  refine .after (.expect _ _) fun _ _ => .bind (params_builds hg) fun params _ hp => ?_
  refine .after (.expect _ _) fun _ _ => .after (.expectKeyword _) fun _ _ => ?_
  refine .bind hb fun object _ ho => ?_
  refine .after .spanFrom fun _ _ => ?_
  exact .pure (Parts.lawful_cons.2
    ⟨.of_isFree rfl, Parts.lawful_cons.2
    ⟨hn.1, Parts.lawful_append.2 ⟨Parts.lawful_members.2 hp, ho⟩⟩⟩)

/-- The word that stands for a modifier is its keyword. -/
theorem eq_keyword_of_modifier? {w : WordClass} {m : Modifier}
    (h : w.keyword?.bind modifier? = some m) : w = .keyword m.keyword := by
  cases w with
  | keyword k => cases k <;> cases h <;> rfl
  | _ => cases h

/-- The modifier is the keyword as it is written. -/
theorem visibility_builds (hg : Building src g)
    (hb : ∀ {d}, Builds src d (fun o _ => Lawful src.text (Parts.object o)) body) :
    Builds src c (fun v _ => Lawful src.text (Parts.visibility v)) (visibility g body) := by
  refine .mark <| .peek ?_
  split
  · exact .unexpected _
  · rename_i modifier hm
    refine .bind (.name _) fun keyword _ hn => .ahead ?_
    rw [hn.2] at hm
    have declaration {q : Parser Declaration} {d : Cursor} {m : Mark}
        (hq : Builds src d (fun x _ => Lawful src.text (Parts.declaration x)) q) :
        Builds src d (fun v _ => Lawful src.text (Parts.visibility v)) (do
          let declaration ← q
          pure ⟨modifier, keyword, declaration, ← spanFrom m⟩) :=
      .bind hq fun _ _ hd => .after .spanFrom fun _ _ => .pure (Parts.lawful_cons.2
        ⟨⟨trivial, eq_keyword_of_modifier? hm, trivial, trivial⟩,
          Parts.lawful_cons.2 ⟨hn.1, hd⟩⟩)
    exact .ite (fun _ => declaration ((template_builds hg hb).map fun _ _ h => h))
      fun _ => declaration ((assignment_builds hg).map fun _ _ h => h)

/-- All steps of a path are lawful. -/
theorem suffixes_builds (hg : Building src g) :
    Builds src c (fun ss _ => ∀ x ∈ ss, Lawful src.text (Parts.suffix x)) (suffixes g) := by
  refine .loop (I := fun ss _ => ∀ x ∈ ss, Lawful src.text (Parts.suffix x))
    (fun read d hr => ?_) (by simp)
  have joined {e : Cursor} (kind : SegmentKind) : Builds src e
      (fun r _ => r.elim (fun ss => ∀ x ∈ ss, Lawful src.text (Parts.suffix x))
        fun ss => ∀ x ∈ ss, Lawful src.text (Parts.suffix x))
      (do pure (.inl (.joined kind (← name "a name") :: read)) : Parser (_ ⊕ List Suffix)) :=
    .bind (.name _) fun _ _ hn => .pure (List.forall_mem_cons.2
      ⟨Parts.lawful_cons.2 ⟨hn.1, Parts.lawful_nil⟩, hr⟩)
  refine .ahead (.ite (fun _ => .peek ?_) fun _ => .pure (by simpa using hr))
  split
  · exact .after .bump fun _ _ => .bind hg.expr fun _ _ he => .after (.expect _ _) fun _ _ =>
      .pure (List.forall_mem_cons.2 ⟨he.1, hr⟩)
  · exact .after .bump fun _ _ => joined _
  · exact .after .bump fun _ _ => joined _

/-- The sign of a scope builds nothing. -/
theorem scopeMark_builds : Builds src c (fun _ _ => True) scopeMark := by
  refine .after .bump fun _ _ => ?_
  exact .ahead (.ite (fun _ => .after .bump fun _ _ =>
    .ahead (.ite (fun _ => .pure trivial) fun _ => .unexpected _)) fun _ => .none rfl rfl)

/-- The segments of a reference come from its steps. -/
theorem reference_builds (hg : Building src g) :
    Builds src c (fun r _ => Lawful src.text (Parts.reference r)) (reference g) := by
  have path {d : Cursor} (scope : Scope) (m : Mark) :
      Builds src d (fun r _ => Lawful src.text (Parts.reference r)) (do
        let name ← name "a reference name"
        let suffixes ← suffixes g
        let kind : SegmentKind := if scope = .none then .terminal else .nested
        pure ⟨scope, Reference.segmentsOf name kind suffixes, ← spanFrom m⟩) :=
    .bind (.name _) fun _ _ hn => .bind (suffixes_builds hg) fun _ _ hs =>
      .after .spanFrom fun _ _ => .pure (Parts.lawful_reference hn.1 hs)
  exact .mark <| .peek <| .ite (fun _ => .after scopeMark_builds fun _ _ => path _ _)
    fun _ => path _ _

/-- An entry is lawful, whatever it is. -/
theorem entry_builds (hg : Building src g)
    (hb : ∀ {d}, Builds src d (fun o _ => Lawful src.text (Parts.object o)) body) :
    Builds src c (fun e _ => Lawful src.text (Parts.entry e)) (entry g body) := by
  refine .ahead <| .ite
    (fun _ => (assignment_builds hg).map fun _ _ h => Parts.lawful_cons.2 ⟨.of_isFree rfl, h⟩)
    fun _ => ?_
  refine .ite (fun _ => (visibility_builds hg hb).map fun _ _ h =>
    Parts.lawful_cons.2 ⟨.of_isFree rfl, h⟩) fun _ => ?_
  refine .ite (fun _ => (member_builds hg).map fun _ _ h =>
    Parts.lawful_cons.2 ⟨⟨trivial, h.2, trivial, trivial⟩, h.1⟩) fun _ => ?_
  refine .ite (fun _ => (reference_builds hg).map fun _ _ h =>
    Parts.lawful_cons.2 ⟨.of_isFree rfl, h⟩) fun _ => ?_
  exact .none rfl rfl

/-- An object is lawful if the bodies of its templates are. -/
theorem objectWith_builds (hg : Building src g)
    (hb : ∀ {d}, Builds src d (fun o _ => Lawful src.text (Parts.object o)) body) :
    Builds src c (fun o _ => Lawful src.text (Parts.object o)) (objectWith g body) := by
  have entries {d : Cursor} : Builds src d
      (fun es _ => ∀ e ∈ es, Lawful src.text (Parts.entry e)) (loop (entryStep g body) []) := by
    refine .loop (I := fun es _ => ∀ e ∈ es, Lawful src.text (Parts.entry e))
      (fun read d hr => .peek ?_) (by simp)
    split
    · exact .after .bump fun _ _ => .pure (by simpa using hr)
    · exact .unexpected _
    · exact .after (.still (.report _ _)) fun _ _ => .after .bump fun _ _ => .pure hr
    · refine .mark <| .bind
        (.orRecover (entry_builds hg hb) fun _ => Builds.recoverEntry.map fun _ _ h =>
        Parts.lawful_cons.2 ⟨.of_isFree rfl, Parts.lawful_cons.2 ⟨h, Parts.lawful_nil⟩⟩)
        fun _ _ he => ?_
      exact .pure (List.forall_mem_cons.2 ⟨he, hr⟩)
  refine .mark <| .bind (.name _) fun name _ hn => ?_
  refine .after (.expect _ _) fun _ _ => .bind entries fun _ _ he => ?_
  refine .after .spanFrom fun _ _ => ?_
  exact .pure (Parts.lawful_cons.2
    ⟨.of_isFree rfl, Parts.lawful_cons.2 ⟨hn.1, Parts.lawful_entries.2 he⟩⟩)

/-- So it is, however deep they are nested. -/
theorem object_builds (hg : Building src g) :
    Builds src c (fun o _ => Lawful src.text (Parts.object o)) (object g) := by
  have within (ts : List Token) {d : Cursor} :
      Builds src d (fun o _ => Lawful src.text (Parts.object o)) (objectWithin g ts) := by
    induction ts generalizing d with
    | nil => exact objectWith_builds hg (.breach .rounds)
    | cons t ts ih => exact objectWith_builds hg ih
  exact within c.rest

/-! ### Operands -/

/-- What stands in brackets is lawful, element by element. -/
theorem bracketed_builds (hg : Building src g) :
    Builds src c (fun e _ => ∀ i ∈ e.items, Lawful src.text (Parts.expr i)) (bracketed g) := by
  have elements {d : Cursor} : Builds src d
      (fun e _ => ∀ i ∈ e.items, Lawful src.text (Parts.expr i)) (elements g) := by
    refine .loop (I := fun e _ => ∀ i ∈ e.items, Lawful src.text (Parts.expr i))
      (fun e d he => .peek ?_) (by simp [Elements.items])
    have item {d : Cursor} : Builds src d
        (fun r _ => r.elim (fun e => ∀ i ∈ e.items, Lawful src.text (Parts.expr i))
          fun e => ∀ i ∈ e.items, Lawful src.text (Parts.expr i)) (do
        let m ← mark
        let item ← orRecover g.expr (Expr.error <$> recoverElement m)
        pure (.inl { e with reversed := item :: e.reversed, commaDue := true }) :
          Parser (Elements ⊕ Elements)) :=
      .mark <| .bind (.orRecover (hg.expr.mono fun _ _ h => h.1) fun _ =>
          Builds.recoverElement.map fun _ _ h => Parts.lawful_error h)
        fun i _ hi => .pure <| by
          show ∀ j ∈ (i :: e.reversed).reverse, Lawful src.text (Parts.expr j)
          rw [List.reverse_cons]
          exact List.forall_mem_append.2 ⟨he, by simpa using hi⟩
    split
    · exact .pure he
    · exact .pure he
    · exact .after .bump fun _ _ => .pure he
    · exact .ite (fun _ => .after (.still (.report _ _)) fun _ _ => item) fun _ => item
  exact .after (.expect _ _) fun _ _ => .bind elements fun _ _ he =>
    .after (.expect _ _) fun _ _ => .pure he

/-- A vector carries the built-in type that its name is, and is no map. -/
theorem lawful_vector {name : Name} {builtin : Option VectorType} {items : List Expr} {n : Nat}
    {s : Span} (hn : Part.Lawful src.text (.name name)) (hm : builtin ≠ some .map)
    (hv : ∀ v, builtin = some v ↔ Word.classify name.text = .vector v)
    (hi : ∀ i ∈ items, Lawful src.text (Parts.expr i)) :
    Lawful src.text (Parts.expr (.vector name builtin items n s)) :=
  Parts.lawful_cons.2 ⟨⟨trivial, ⟨hm, hv⟩, trivial, fun _ => trivial⟩,
    Parts.lawful_cons.2 ⟨hn, Parts.lawful_exprs.2 hi⟩⟩

/-- What starts with a word that is no built-in type is no built-in vector. -/
theorem vectorOrPath_builds (hg : Building src g)
    (hc : ∀ v, (c.rest.headD src.stop).kind.wordClass? ≠ some (.vector v)) :
    Builds src c (fun e _ => Operand src c e) (vectorOrPath g) := by
  refine .mark <| .bind (.name _) fun name d hn => .bind (bracketed_builds hg) fun e _ he =>
    .after .spanFrom fun span _ => .ahead ?_
  have vector {items : List Expr} (hi : ∀ i ∈ items, Lawful src.text (Parts.expr i)) :
      Operand src c (.vector name none items e.strayCommas span) := by
    refine ⟨lawful_vector hn.1 (by simp) (fun v => ?_) hi, rfl, .of_isDeclaration rfl⟩
    have hv := hc v
    rw [hn.2] at hv
    exact ⟨fun h => absurd h (by simp), fun h => absurd (congrArg some h) hv⟩
  split
  · rename_i index hitems
    have hindex : Lawful src.text (Parts.expr index) :=
      he index (by rw [hitems]; exact List.mem_singleton_self _)
    refine .ite (fun _ => ?_) fun _ => ?_
    · refine .bind (suffixes_builds hg) fun suffixes _ hs => ?_
      refine .after .spanFrom fun _ _ => ?_
      exact .pure ⟨Parts.lawful_cons.2
        ⟨.of_isFree rfl, Parts.lawful_reference hn.1 (List.forall_mem_cons.2 ⟨hindex, hs⟩)⟩, rfl,
        .of_isDeclaration rfl⟩
    · exact .pure (vector (by simpa using hindex))
  · exact .pure (vector he)

/-- The entries of a map are pairs or fragments. -/
theorem pairs_builds (items : List Expr) (h : ∀ i ∈ items, Lawful src.text (Parts.expr i)) :
    Builds src c (fun es _ => (∀ e ∈ es, Lawful src.text (Parts.expr e)) ∧
      ∀ e ∈ es, e.isMapEntry = true) (pairs items) := by
  induction items generalizing c with
  | nil => exact .pure (by simp)
  | cons item items ih =>
    obtain ⟨hitem, hitems⟩ := List.forall_mem_cons.1 h
    have entry {p : Parser Expr} {d : Cursor} (hp : Builds src d
        (fun e _ => Lawful src.text (Parts.expr e) ∧ e.isMapEntry = true) p) :
        Builds src d (fun es _ => (∀ e ∈ es, Lawful src.text (Parts.expr e)) ∧
          ∀ e ∈ es, e.isMapEntry = true) (do
          let entry ← p
          pure (entry :: (← pairs items))) :=
      .bind hp fun _ _ he => .bind (ih hitems) fun _ _ hes => .pure
        ⟨List.forall_mem_cons.2 ⟨he.1, hes.1⟩, List.forall_mem_cons.2 ⟨he.2, hes.2⟩⟩
    unfold pairs
    split
    · exact entry (.pure ⟨hitem, rfl⟩)
    · exact entry (.pure ⟨hitem, rfl⟩)
    · exact .after (.still (.report _ _)) fun _ _ => entry ((Builds.errorAt _).map
        fun _ _ h => ⟨Parts.lawful_error h.2.2, rfl⟩)

/-- The name of a map is the word that was read. -/
theorem map_builds (hg : Building src g) : Builds src c (fun e _ => Operand src c e) (map g) := by
  refine .mark <| .bind (.name _) fun name _ hn => ?_
  refine .bind (bracketed_builds hg) fun e _ he => ?_
  refine .bind (pairs_builds e.items he) fun pairs _ hp => ?_
  refine .after .spanFrom fun _ _ => ?_
  exact .pure ⟨Parts.lawful_cons.2
    ⟨⟨trivial, hp.2, trivial, fun _ => trivial⟩, Parts.lawful_cons.2
    ⟨hn.1, Parts.lawful_exprs.2 hp.1⟩⟩, rfl, .of_isDeclaration rfl⟩

/-- A pair and a group are operands. -/
theorem parenthesised_builds (hg : Building src g) :
    Builds src c (fun e _ => Operand src c e) (parenthesised g) := by
  refine .mark <| .after (.expect _ _) fun _ _ => .after (.eat _) fun _ _ => ?_
  refine .ite (fun _ => .after .spanFrom fun _ _ =>
    .pure ⟨Parts.lawful_cons.2 ⟨.of_isFree rfl, Parts.lawful_nil⟩, rfl, .of_isDeclaration rfl⟩)
    fun _ => ?_
  refine .bind hg.expr fun value _ hl => ?_
  refine .after (.eat _) fun _ _ => .ite (fun _ => ?_) fun _ => ?_
  · refine .bind hg.expr fun value _ hr => ?_
    refine .after (.expect _ _) fun _ _ => .after .spanFrom fun _ _ => ?_
    exact .pure ⟨Parts.lawful_cons.2 ⟨.of_isFree rfl, Parts.lawful_append.2 ⟨hl.1, hr.1⟩⟩, rfl,
      .of_isDeclaration rfl⟩
  · refine .after (.expect _ _) fun _ _ => .after .spanFrom fun _ _ => ?_
    exact .pure ⟨Parts.lawful_cons.2 ⟨.of_isFree rfl, hl.1⟩, rfl, .of_isDeclaration rfl⟩

/-- The index of a generic type is lawful. -/
theorem generic_builds (hg : Building src g) :
    Builds src c (fun e _ => Operand src c e) (generic g) := by
  have index {d : Cursor} :
      Builds src d (fun e _ => Lawful src.text (Parts.expr? e)) (index? g) :=
    .ahead <| .ite (fun _ => .after .bump fun _ _ => .bind hg.expr fun _ _ he =>
      .after (.expect _ _) fun _ _ => .pure he.1) fun _ => .pure Parts.lawful_nil
  refine .mark <| .after (.expect _ _) fun _ _ => .ahead <| .ite (fun _ => ?_) fun _ => ?_
  · refine .bind (.name _) fun name _ hn => ?_
    refine .ahead <| .ite (fun _ => ?_) fun _ => ?_
    · refine .after .bump fun _ _ => .bind index fun _ _ hi => ?_
      refine .after .spanFrom fun _ _ => ?_
      exact .pure ⟨Parts.lawful_cons.2 ⟨.of_isFree rfl, Parts.lawful_cons.2 ⟨hn.1, hi⟩⟩, rfl,
        .of_isDeclaration rfl⟩
    · exact .unexpected _
  · exact .unexpected _

/-- A fragment as an operand. -/
theorem Operand.of_error {n : ErrorNode} (h : Part.Lawful src.text (.error n)) :
    Operand src c (.error n) := ⟨Parts.lawful_error h, rfl, .of_isDeclaration rfl⟩

/-- From the word `guid` through the payload, a payload is written as it is kept. -/
theorem lawful_guid {first colon payload : Token} {ts : List Token} {word raw : String}
    (ht : src.Trusts (first :: colon :: payload :: ts))
    (hfirst : first.kind = .word word (.keyword .guid)) (hlast : payload.kind = .guidBody raw) :
    Lawful src.text (Parts.expr (.guid raw (first.span.through payload.span))) := by
  obtain ⟨_, hf, hword⟩ := (ht.written first (by simp)).resolve_left (by simp [hfirst])
  obtain ⟨_, hl, hbody⟩ := (ht.written payload (by simp)).resolve_left (by simp [hlast])
  rw [hfirst] at hword
  rw [hlast] at hbody
  obtain ⟨rfl, -, hclass⟩ := hword
  obtain ⟨rfl, hbalanced⟩ := hbody
  have horder : first.span.stop ≤ payload.span.start :=
    (List.pairwise_cons.1 ht.ordered).1 payload (by simp)
  obtain ⟨between, hb⟩ := Text.slice?_through hf hl horder
  have hle : payload.span.start ≤ payload.span.stop := by
    by_contra hlt
    rw [Text.slice?, if_neg hlt] at hl
    cases hl
  have hstop : (first.span.through payload.span).stop = payload.span.stop :=
    Nat.max_eq_left (Nat.le_trans horder hle)
  refine Parts.lawful_cons.2 ⟨⟨⟨word, between, Word.lower_of_classify hclass.symm, ?_⟩, trivial,
    hbalanced, fun _ => trivial⟩, Parts.lawful_nil⟩
  rw [Span.Covers, hstop]
  exact hb

/-- A payload is read as the third token from the word `guid` on. -/
theorem guid_builds {word : String}
    (hk : (c.rest.headD src.stop).kind = .word word (.keyword .guid)) :
    Builds src c (fun e _ => Operand src c e) guid := by
  refine .trusting fun ht => .mark ?_
  obtain ⟨first, ts, hr, hfirst⟩ := exists_rest ht.ended (c := c) (by rw [hk]; simp)
  rw [hr] at ht
  refine .bind .bump fun _ d hd => ?_
  obtain rfl := hd first ts hr
  refine .bind (.expect _ _) fun _ e he => ?_
  obtain ⟨colon, us, hcolon, -⟩ := exists_rest ht.ended (c := ⟨ts, _, _, _⟩) (by rw [he.1]; simp)
  obtain rfl := he.2 colon us hcolon
  obtain rfl : ts = colon :: us := hcolon
  refine .peek ?_
  dsimp only
  cases hkind : (us.headD src.stop).kind with
  | guidBody raw =>
    obtain ⟨payload, vs, hpayload, hlast⟩ :=
      exists_rest ht.ended (c := ⟨us, c.count + 1 + 1, colon.span, c.depth⟩) (by rw [hkind]; simp)
    obtain rfl : us = payload :: vs := hpayload
    refine .bind .bump fun _ f hf => ?_
    obtain rfl := hf payload vs rfl
    refine .bind .spanFrom fun s _ hs => .pure ?_
    have hspan : s = first.span.through payload.span := by
      rw [hs.1, Mark.upTo, Mark.here, hr]
      exact if_pos (show c.count < c.count + 1 + 1 + 1 by omega)
    rw [hspan]
    exact ⟨lawful_guid ht (hfirst.symm.trans hk) (hlast.symm.trans hkind), rfl,
      .of_isDeclaration rfl⟩
  | error e =>
    cases e with
    | unterminatedBrace =>
      exact .after .bump fun _ _ => .bind .errorFrom fun _ _ h => .pure (.of_error h)
    | _ => exact .unexpected _
  | _ => exact .unexpected _

/-- A literal that is a word, in its place. -/
theorem constant_builds {value : Span → Expr}
    (h : Operand src c (value (c.rest.headD src.stop).span)) :
    Builds src c (fun e _ => Operand src c e) (constant value) :=
  .peek <| .after .bump fun _ _ => .pure h

/-- A name that is no built-in vector starts no vector of such a type. -/
theorem nameLed_builds (hg : Building src g)
    (hc : ∀ v, (c.rest.headD src.stop).kind.wordClass? = some (.vector v) →
      isKind c.rest 1 .lbracket = false) :
    Builds src c (fun e _ => Operand src c e) (nameLed g) := by
  refine .ahead <| .ite (fun _ => ?object) fun _ => .ite (fun hb => ?bracket) fun _ => ?path
  case object =>
    exact (object_builds hg).map fun o _ h =>
      ⟨Parts.lawful_cons.2 ⟨.of_isFree rfl, h⟩, rfl, .of_isDeclaration rfl⟩
  case bracket =>
    refine vectorOrPath_builds hg fun v hv => ?_
    rw [hc v hv] at hb
    cases hb
  case path =>
    exact (reference_builds hg).map fun r _ h =>
      ⟨Parts.lawful_cons.2 ⟨.of_isFree rfl, h⟩, rfl, .of_isDeclaration rfl⟩

/-- A built-in vector is one by its name. -/
theorem vector_builds (hg : Building src g) {type : VectorType} (hm : type ≠ .map)
    (hc : (c.rest.headD src.stop).kind.wordClass? = some (.vector type)) :
    Builds src c (fun e _ => Operand src c e) (vector g type) := by
  refine .mark <| .bind (.name _) fun name _ hn => .bind (bracketed_builds hg) fun _ _ he =>
    .after .spanFrom fun _ _ => .pure
      ⟨lawful_vector hn.1 (by simpa using hm) (fun v => ?_) he, rfl, .of_isDeclaration rfl⟩
  rw [hn.2] at hc
  rw [show Word.classify name.text = .vector type from Option.some.inj hc]
  simp

/-- What a word starts depends on its class, and the class is kept. -/
theorem wordLed_builds (hg : Building src g) {word : String} {wordClass : WordClass}
    (hk : (c.rest.headD src.stop).kind = .word word wordClass) :
    Builds src c (fun e _ => Operand src c e) (wordLed g wordClass) := by
  refine .trusting fun ht => .ahead <| .ite (fun h => ?assignment) fun _ => ?_
  case assignment =>
    exact (assignment_builds hg).map fun a _ ha =>
      ⟨Parts.lawful_cons.2 ⟨.of_isFree rfl, ha⟩, rfl, fun _ => .inl h⟩
  refine .ite (fun h => ?visibility) fun _ => ?_
  case visibility =>
    exact (visibility_builds hg (object_builds hg)).map fun v _ hv =>
      ⟨Parts.lawful_cons.2 ⟨.of_isFree rfl, hv⟩, rfl, fun _ => .inr h⟩
  obtain ⟨_, hw, hword⟩ := ht.next_written (by rw [hk]; simp) (by rw [hk]; simp)
  have hc : (c.rest.headD src.stop).kind.wordClass? = some wordClass := by rw [hk]; rfl
  rw [hk] at hword
  obtain ⟨rfl, -, hclass⟩ := hword
  have literal {e : Expr} (h : Part.Lawful src.text (.expr e)) (he : Parts.expr e = [.expr e])
      (hr : e.rank = ranks) (hd : e.isDeclaration = false) : Operand src c e :=
    ⟨he ▸ Parts.lawful_cons.2 ⟨h, Parts.lawful_nil⟩, hr, .of_isDeclaration hd⟩
  split
  · exact constant_builds (literal
      ⟨⟨word, Word.lower_of_classify hclass.symm, hw⟩, trivial, trivial, fun _ => trivial⟩
      rfl rfl rfl)
  · exact constant_builds (literal
      ⟨⟨word, Word.lower_of_classify hclass.symm, hw⟩, trivial, trivial, fun _ => trivial⟩
      rfl rfl rfl)
  · exact constant_builds (literal
      ⟨⟨word, Word.lower_of_classify hclass.symm, hw⟩, trivial, trivial, fun _ => trivial⟩
      rfl rfl rfl)
  · exact .ite (fun _ => guid_builds hk) fun _ => nameLed_builds hg fun v hv => by
      rw [hc] at hv
      cases hv
  · exact .ite (fun _ => map_builds hg) fun h => nameLed_builds hg fun _ _ => by simpa using h
  · rename_i type hmap
    exact .ite (fun _ => vector_builds hg (fun h => hmap (by rw [h])) hc)
      fun h => nameLed_builds hg fun _ _ => by simpa using h
  · rename_i hvector
    refine nameLed_builds hg fun v hv => ?_
    exact absurd (Option.some.inj (hc.symm.trans hv)) (hvector v)

/-- A broken token is cut out as it is. -/
theorem brokenToken_builds (e : LexError) :
    Builds src c (fun e _ => Operand src c e) (brokenToken e) := by
  refine .mark <| .peek <| .after .bump fun _ _ => ?_
  have cut {d : Cursor} {m : Mark} : Builds src d (fun e _ => Operand src c e) (do
      pure (.error (← errorFrom m))) := .bind .errorFrom fun _ _ h => .pure (.of_error h)
  split
  · exact .after (.still (.report _ _)) fun _ _ => cut
  · exact cut

/-- An operand is lawful and binds as one. -/
theorem primary_builds (hg : Building src g) :
    Builds src c (fun e _ => Operand src c e) (primary g) := by
  refine .trusting fun ht => .peek ?_
  split
  · rename_i kind text hk
    obtain ⟨_, hw, hnumber⟩ := ht.next_written (by rw [hk]; simp) (by rw [hk]; simp)
    rw [hk] at hnumber
    obtain ⟨rfl, hwrites⟩ := hnumber
    exact .after .bump fun _ _ => .pure
      ⟨Parts.lawful_cons.2 ⟨⟨hw, hwrites, trivial, fun _ => trivial⟩, Parts.lawful_nil⟩, rfl,
        .of_isDeclaration rfl⟩
  · rename_i quote raw hk
    obtain ⟨_, hw, hstring⟩ := ht.next_written (by rw [hk]; simp) (by rw [hk]; simp)
    rw [hk] at hstring
    obtain ⟨rfl, hencloses⟩ := hstring
    exact .after .bump fun _ _ => .pure
      ⟨Parts.lawful_cons.2 ⟨⟨hw, trivial, hencloses, fun _ => trivial⟩, Parts.lawful_nil⟩, rfl,
        .of_isDeclaration rfl⟩
  · exact .mark <| .bind (bracketed_builds hg) fun _ _ he => .after .spanFrom fun _ _ => .pure
      ⟨Parts.lawful_cons.2 ⟨.of_isFree rfl, Parts.lawful_exprs.2 he⟩, rfl, .of_isDeclaration rfl⟩
  · exact parenthesised_builds hg
  · exact generic_builds hg
  · exact wordLed_builds hg ‹_›
  · exact brokenToken_builds _
  · exact .unexpected _
  · refine .ahead <| .ite
      (fun _ => (reference_builds hg).map fun _ _ h =>
      ⟨Parts.lawful_cons.2 ⟨.of_isFree rfl, h⟩, rfl, .of_isDeclaration rfl⟩) fun _ => ?_
    exact .none rfl rfl

/-- A sign binds tighter than any operator. -/
theorem unary_builds (hg : Building src g) :
    Builds src c (fun e _ => Operand src c e) (unary g) := by
  have signed {d : Cursor} (op : UnaryOp) (m : Mark) :
      Builds src d (fun e _ => Operand src c e) (do
        let operand ← g.operand
        pure (.unary op operand (← spanFrom m))) :=
    .bind hg.operand fun _ _ he => .after .spanFrom fun _ _ => .pure
      ⟨Parts.lawful_cons.2
          ⟨⟨trivial, trivial, trivial, fun _ => Expr.binds_unary_iff.2 he.2⟩, he.1⟩, rfl,
        .of_isDeclaration rfl⟩
  refine .mark <| .peek ?_
  split
  · exact .after .bump fun _ _ => signed _ _
  · exact .after .bump fun _ _ => signed _ _
  · exact primary_builds hg

/-! ### Operators between operands -/

/-- What has been read of operands and operators of at least a rank, with more to come. -/
structure Climbing (src : Source) (c : Cursor) (loosest : Nat) (left : Expr) (d : Cursor) :
    Prop where
  lawful : Lawful src.text (Parts.expr left)
  loosest_le : loosest ≤ left.rank
  opens : Opens c left
  /-- The next operator can take it for its left side. -/
  fits : (∀ n, .error n ∉ Parts.expr left) → ∀ o, operator? d.rest = some o → o.Fits left

/-- All operands and operators of at least a rank. -/
structure Climbed (src : Source) (c : Cursor) (loosest : Nat) (e : Expr) (d : Cursor) : Prop where
  lawful : Lawful src.text (Parts.expr e)
  loosest_le : loosest ≤ e.rank
  opens : Opens c e
  /-- What comes next is looser. -/
  tight : ∀ o, operator? d.rest = some o → o.rank < loosest

/-- Nothing was cut out of an expression that holds none of the fragments of a larger one. -/
theorem not_isError {e : Expr} (h : ∀ n, .error n ∉ Parts.expr e) : e.isError = false := by
  cases e with
  | error n => exact absurd (List.mem_cons_of_mem _ (List.mem_singleton_self _)) (h n)
  | _ => rfl

/-- An operator is read only behind what it fits. -/
theorem operation_builds (hg : Building src g) {right : Nat → Parser Expr} {loosest : Nat}
    {m : Mark} {left : Expr} {d : Cursor}
    (hright : ∀ op : BinaryOp, loosest ≤ op.rank → ∀ {d}, Builds src d
      (fun e d' => Climbed src d (op.rank + 1) e d') (right (op.rank + 1)))
    (hl : Climbing src c loosest left d) :
    Builds src d (fun r e => r.elim (fun left => Climbing src c loosest left e)
      fun e' => Climbed src c loosest e' e) (operation g right loosest m left) := by
  -- No operator, a question mark, or a binary one: each builds a node, or leaves the operand.
  refine .ahead ?_
  split
  · rename_i ho
    exact .pure ⟨hl.lawful, hl.loosest_le, hl.opens, fun o h => by rw [ho] at h; cases h⟩
  · rename_i ho
    refine .ite (fun hloosest => ?_) fun hloosest => .pure
      ⟨hl.lawful, hl.loosest_le, hl.opens, fun o h => ?_⟩
    · refine .after .bump fun _ _ => .bind hg.expr fun yes _ hy => .after (.expect _ _) fun _ _ =>
        .bind hg.expr fun no _ hn => .bind .spanFrom fun s _ hs => .pure ?_
      refine ⟨Parts.lawful_cons.2 ⟨⟨trivial, trivial, trivial, fun h => ?_⟩,
        Parts.lawful_append.2 ⟨hl.lawful, Parts.lawful_append.2 ⟨hy.1, hn.1⟩⟩⟩,
        Nat.le_of_eq hloosest, .of_isDeclaration rfl, fun h o ho' => ?_⟩
      · exact Expr.binds_ternary_iff.2 <|
          hl.fits (fun n hmem => h n (List.mem_cons_of_mem _ (List.mem_append_left _ hmem)))
            .question ho
      · -- A `?:` ends with a whole expression, behind which no operator is left.
        have hno : no.isError = false := not_isError fun n hmem => h n
          (List.mem_cons_of_mem _ (List.mem_append_right _ (List.mem_append_right _ hmem)))
        rw [hs.2, hn.2.2.resolve_left (by rw [hno]; simp)] at ho'
        cases ho'
    · obtain rfl : .question = o := Option.some.inj (ho.symm.trans h)
      exact Nat.pos_of_ne_zero hloosest
  · rename_i op ho
    refine .ite (fun hop => ?_) fun hop => .pure
      ⟨hl.lawful, hl.loosest_le, hl.opens, fun o h => ?_⟩
    · refine .after .bump fun _ _ => .bind (hright op hop) fun e _ hr => .bind .spanFrom
        fun s _ hs => .pure ⟨Parts.lawful_cons.2 ⟨⟨trivial, trivial, trivial, fun h =>
          Expr.binds_binary_iff.2 ⟨?_, ?_⟩⟩,
          Parts.lawful_append.2 ⟨hl.lawful, hr.lawful⟩⟩, hop, .of_isDeclaration rfl,
          fun _ o ho' => ?_⟩
      · exact hl.fits (fun n hmem => h n (List.mem_cons_of_mem _ (List.mem_append_left _ hmem)))
          (.binary op) ho
      · exact hr.loosest_le
      · rw [hs.2] at ho'
        have hlt := hr.tight o ho'
        cases o with
        | binary op' => exact Nat.le_of_lt_succ hlt
        | question => exact op.rank_pos
    · obtain rfl : .binary op = o := Option.some.inj (ho.symm.trans h)
      exact Nat.lt_of_not_le hop

/-- Reading at a rank stops in front of looser operators only. -/
theorem climb_builds (hg : Building src g) (steps loosest : Nat) (hl : loosest ≤ ranks)
    (hs : ranks ≤ loosest + steps) :
    Builds src c (fun e d => Climbed src c loosest e d) (climb g steps loosest) := by
  induction steps generalizing loosest c with
  | zero =>
    refine (unary_builds hg).mono fun e d he =>
      ⟨he.lawful, he.rank ▸ hl, he.opens, fun o _ => ?_⟩
    refine Nat.lt_of_lt_of_le ?_ hs
    cases o with
    | binary op => exact op.rank_lt
    | question => decide
  | succ steps ih =>
    refine .mark <| .bind (unary_builds hg) fun left d he =>
      .loop (I := fun left d => Climbing src c loosest left d)
        (fun left d hleft => operation_builds hg (fun op hop => ?_) hleft)
        ⟨he.lawful, he.rank ▸ hl, he.opens, fun _ o _ => Operator.fits_of_rank he.rank o⟩
    exact ih (op.rank + 1) op.rank_lt (by omega)

/-! ### All levels -/

/-- Below the last level an expression is a fragment. -/
theorem deepExpr_builds : Builds src c (fun e _ => ∃ n, e = .error n ∧
    Lawful src.text (Parts.expr e)) Grammar.deepExpr :=
  Builds.tooDeep.map fun n _ h => ⟨n, rfl, Parts.lawful_error h⟩

/-- **A level builds lawful trees if the one below does.** -/
theorem Building.above (hg : Building src g) : Building src (.above g) where
  expr := .nested
    (deepExpr_builds.mono fun _ _ ⟨_, he, h⟩ => ⟨h, .of_isDeclaration (by rw [he]; rfl),
      .inl (by rw [he]; rfl)⟩)
    ((climb_builds hg ranks 0 (Nat.zero_le _) (Nat.le_refl _)).mono fun e d h =>
      ⟨h.lawful, h.opens, .inr (Option.eq_none_iff_forall_not_mem.2
        fun o ho => absurd (h.tight o ho) (Nat.not_lt_zero _))⟩)
  operand := .nested (deepExpr_builds.mono fun _ _ ⟨_, he, h⟩ => ⟨h, by rw [he]; rfl⟩)
    ((unary_builds hg).mono fun _ _ h => ⟨h.lawful, h.rank⟩)
  type := .nested (.after .tooDeep fun _ _ => .none rfl rfl) (typeRef_builds hg)

/-- All levels build lawful trees. -/
theorem building_levels (n : Nat) : Building src (.levels n) := by
  induction n with
  | zero => exact
    ⟨deepExpr_builds.mono fun _ _ ⟨_, he, h⟩ => ⟨h, .of_isDeclaration (by rw [he]; rfl),
        .inl (by rw [he]; rfl)⟩,
      deepExpr_builds.mono fun _ _ ⟨_, he, h⟩ => ⟨h, by rw [he]; rfl⟩,
      .after .tooDeep fun _ _ => .none rfl rfl⟩
  | succ n ih => exact ih.above

/-! ### Items -/

/-- An expression as an item is no fragment, and no declaration where none starts. -/
theorem lawful_ofExpr {e : Expr} (h : Lawful src.text (Parts.expr e))
    (hd : e.isDeclaration = false) : Lawful src.text (Parts.item (.ofExpr e)) := by
  have item {i : Item} (hi : i = .expr e) (hw : Part.WellFormed (.item i)) :
      Lawful src.text (Parts.item i) := by
    subst hi
    exact Parts.lawful_cons.2 ⟨⟨trivial, hw, trivial, trivial⟩, h⟩
  cases e with
  | assignment a => cases hd
  | visibility v => cases hd
  | error n => exact Parts.lawful_cons.2 ⟨.of_isFree rfl, (Parts.lawful_cons.1 h).2⟩
  | _ => exact item rfl trivial

/-- An item is lawful. -/
theorem item_builds (hg : Building src g) :
    Builds src c (fun i _ => Lawful src.text (Parts.item i)) (item g) := by
  have unnamed : Builds src c (fun u _ => Lawful src.text (Parts.inItem (.unnamed u)))
      (unnamed g) := by
    refine .mark <| .after (.expectKeyword _) fun _ _ => ?_
    refine .bind (object_builds hg) fun object _ ho => .after .spanFrom fun s _ => ?_
    exact .pure (Parts.lawful_cons.2 ⟨.of_isFree rfl, ho⟩)
  refine .ahead <| .ite (fun _ => ?assignment) fun hassignment => ?_
  case assignment =>
    exact (assignment_builds hg).map fun a _ h => Parts.lawful_cons.2 ⟨.of_isFree rfl, h⟩
  refine .ite (fun _ => ?visibility) fun hvisibility => .ite (fun _ => ?template) fun _ => ?_
  case visibility =>
    exact (visibility_builds hg (object_builds hg)).map fun v _ h =>
      Parts.lawful_cons.2 ⟨.of_isFree rfl, h⟩
  case template =>
    exact (template_builds hg (object_builds hg)).map fun t _ h =>
      Parts.lawful_cons.2 ⟨.of_isFree rfl, h⟩
  refine .ite (fun _ => ?unnamed) fun _ => .ite (fun _ => ?member) fun _ => ?_
  case unnamed => exact unnamed.map fun u _ h => Parts.lawful_cons.2 ⟨.of_isFree rfl, h⟩
  case member =>
    exact (member_builds hg).map fun m _ h =>
      Parts.lawful_cons.2 ⟨⟨trivial, h.2, trivial, trivial⟩, h.1⟩
  refine hg.expr.map fun e _ he => lawful_ofExpr he.1 ?_
  by_contra hd
  rcases he.2.1 (by simpa using hd) with h | h
  · exact hassignment h
  · refine hvisibility ?_
    rw [Lookahead.startsVisibility, Bool.and_eq_true] at h
    rw [Bool.and_eq_true]
    refine ⟨h.1, ?_⟩
    have h2 := h.2
    simp only [Lookahead.startsAssignment, Lookahead.startsTemplate, Bool.or_eq_true,
      Bool.and_eq_true] at h2
    rcases h2 with h2 | h2
    · exact h2.1.1
    · exact Lookahead.isWord_of_isKeyword h2.1.1

/-- So are all items of a document. -/
theorem items_builds (hg : Building src g) (calledOff : Nat → Bool) :
    Builds src c (fun is _ => ∀ i ∈ is.getD [], Lawful src.text (Parts.item i))
      (items g calledOff) := by
  refine .loop (I := fun is _ => ∀ i ∈ is, Lawful src.text (Parts.item i))
    (fun read d hr => ?_) (by simp)
  refine .ahead <| .ite (fun _ => .pure (by simpa using hr)) fun _ =>
    .ite (fun _ => .pure (by simp)) fun _ => ?_
  have item : Builds src d (fun i _ => Lawful src.text (Parts.item i)) (itemOrError g) :=
    .mark <| .bind
      (.orRecover (item_builds hg) fun _ => Builds.recoverItem.map fun _ _ h =>
        Parts.lawful_cons.2 ⟨.of_isFree rfl, Parts.lawful_cons.2 ⟨h, Parts.lawful_nil⟩⟩)
      fun _ _ hi => .after (.still (.emit _)) fun _ _ => .pure hi
  exact .bind item fun _ _ hi => .pure (List.forall_mem_cons.2 ⟨hi, hr⟩)

end Parser

end Ndf
