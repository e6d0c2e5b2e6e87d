/-
# References as they are written

A `Spelling` is a reference as text: the mark of its scope, a name and steps, each of which is a
sign with a name behind it or an index between brackets.  `Reference.Spelled` says that a reference
is written so, and what this makes of its segments: their order, the kinds of the names, the path
and where each of them stands.

What the segments of suffixes are (`Suffix.segments`) is told by the steps alone: the kind of a
name is that of the next sign, and that of the last one is that of the sign before it.
-/

import Ndf.Parser.Path
import Ndf.Proofs.Form.Law

namespace Ndf

/-- A name stands at an offset, where a word is written. -/
structure Name.StandsAt (n : Name) (a : Nat) : Prop where
  start : n.span.start = a
  stop : n.span.stop = a + Text.byteSize n.text.toList
  word : Word.IsWord n.text.toList

namespace Spelling

/-- The signs that join names. -/
inductive Joiner where
  | slash
  | dot
deriving DecidableEq

namespace Joiner

/-- The sign between two names. -/
def char : Joiner → Char
  | .slash => '/'
  | .dot => '.'

/-- The kind of the names on both sides. -/
def kind : Joiner → SegmentKind
  | .slash => .nested
  | .dot => .member

end Joiner

/-- What is written behind the first name. -/
inductive Step where
  /-- A sign and a name. -/
  | name (sign : Joiner) (name : Name)
  /-- An index, and all that is between its brackets. -/
  | index (index : Expr) (inside : List Char)

namespace Step

/-- A step as written. -/
def text : Step → List Char
  | .name sign n => sign.char :: n.text.toList
  | .index _ inside => '[' :: (inside ++ [']'])

/-- The sign in front of a name. -/
def sign? : Step → Option Joiner
  | .name sign _ => some sign
  | .index .. => none

/-- The name or the index. -/
def content : Step → Name ⊕ Expr
  | .name _ n => .inl n
  | .index e _ => .inr e

/-- What a step that starts at an offset is made of stands where it is written. -/
def Stands (a : Nat) : Step → Prop
  | .name _ n => n.StandsAt (a + 1)
  | .index e inside => a + 1 ≤ e.span.start ∧ e.span.stop ≤ a + 1 + Text.byteSize inside

/-- The suffix that a step is read as. -/
def suffix : Step → Suffix
  | .name sign n => .joined sign.kind n
  | .index e _ => .index e

end Step

/-- Steps behind each other as text. -/
def textOf (steps : List Step) : List Char := steps.flatMap Step.text

/-- Steps stand one behind the other from an offset on. -/
def Stand (a : Nat) : List Step → Prop
  | [] => True
  | s :: rest => s.Stands a ∧ Stand (a + Text.byteSize s.text) rest

end Spelling

/-- A reference as it is written. -/
structure Spelling where
  scope : Scope
  first : Name
  steps : List Spelling.Step

namespace Spelling

/-- All of it as text. -/
def text (w : Spelling) : List Char :=
  (Reference.scopeText w.scope).toList ++ w.first.text.toList ++ textOf w.steps

/-- The text without the brackets and what is between them. -/
def path (w : Spelling) : List Char :=
  (Reference.scopeText w.scope).toList ++ w.first.text.toList ++
    textOf (w.steps.filter fun s => s.sign?.isSome)

/-- The signs that join the names. -/
def signs (w : Spelling) : List Joiner := w.steps.filterMap Step.sign?

/-- The kind of a name that is not joined to others. -/
def alone (scope : Scope) : SegmentKind := if scope = .none then .terminal else .nested

/-- The kinds of the names: that of the sign behind each, and for the last one that of the sign
before it, if there is any. -/
def kinds (w : Spelling) : List SegmentKind :=
  w.signs.map Joiner.kind ++ [(w.signs.getLast?.map Joiner.kind).getD (alone w.scope)]

/-- Tokens that do not go on with a reference in front of them: there is no joined bracket, and no
joined sign with a joined name behind it. -/
def Ends (ts : List Token) : Prop :=
  ∀ t rest, ts = t :: rest → t.joined = true → t.kind ≠ .lbracket ∧
    ∀ u, rest.head? = some u → u.joined = true → u.kind.isWord = true →
      t.kind ≠ .slash ∧ t.kind ≠ .dot

/-- A path that does not go on has ended. -/
theorem Ends.of_continuesPath {ts : List Token} (h : Lookahead.continuesPath ts = false) :
    Ends ts := by
  rintro t rest rfl hj
  rw [Lookahead.continuesPath, Lookahead.isJoined_zero, hj, Bool.true_and,
    Bool.or_eq_false_iff] at h
  refine ⟨fun hk => ?_, fun u hu hju hw => ⟨fun hk => ?_, fun hk => ?_⟩⟩
  · simp [Lookahead.isKind, hk] at h
  all_goals
    obtain ⟨us, rfl⟩ := List.head?_eq_some_iff.1 hu
    simp [Lookahead.isKind, Lookahead.isWord, hk, hju, hw] at h

end Spelling

namespace Segment

/-- The kind of a name. -/
def kind? : Segment → Option SegmentKind
  | .name _ kind => some kind
  | .index _ => none

/-- The name or the index. -/
def content : Segment → Name ⊕ Expr
  | .name n _ => .inl n
  | .index e => .inr e

end Segment

/-- A reference is written so in a text. -/
structure Reference.Spelled (text : List Char) (r : Reference) (w : Spelling) : Prop where
  scope : r.scope = w.scope
  /-- The segments are what is written, in order. -/
  contents : r.segments.map Segment.content = .inl w.first :: w.steps.map Spelling.Step.content
  kinds : r.segments.filterMap Segment.kind? = w.kinds
  /-- Between the ends of the reference this is written and nothing else. -/
  covers : r.span.Covers text w.text
  first : w.first.StandsAt (r.span.start + Text.byteSize (Reference.scopeText w.scope).toList)
  stands : Spelling.Stand w.first.span.stop w.steps
  path : r.path.toList = w.path

/-! ### Segments of suffixes -/

namespace Spelling

variable {steps : List Step} {kind : SegmentKind}

/-- Steps behind steps. -/
theorem textOf_append (xs ys : List Step) : textOf (xs ++ ys) = textOf xs ++ textOf ys :=
  List.flatMap_append

/-- They stand where those before them end. -/
theorem stand_append {a : Nat} {xs ys : List Step} :
    Stand a (xs ++ ys) ↔ Stand a xs ∧ Stand (a + Text.byteSize (textOf xs)) ys := by
  induction xs generalizing a with
  | nil => simp [Stand, textOf]
  | cons s xs ih =>
    rw [List.cons_append, Stand, ih, Stand, and_assoc, Nat.add_assoc, ← Text.byteSize_append]
    rfl

/-- The segments of a path say what its steps say. -/
theorem contents_segments : (Suffix.segments (steps.map Step.suffix)).map Segment.content =
    steps.map Step.content := by
  induction steps with
  | nil => rfl
  | cons s steps ih =>
    cases s <;>
    · rw [List.map_cons, Step.suffix, Suffix.segments, List.map_cons, ih]
      rfl

/-- The first name and the others take the kind of the sign behind, the last one that of the sign
before it. -/
theorem kinds_segments :
    (Suffix.firstKind (steps.map Step.suffix)).getD kind ::
        (Suffix.segments (steps.map Step.suffix)).filterMap Segment.kind? =
      (steps.filterMap Step.sign?).map Joiner.kind ++
        [((steps.filterMap Step.sign?).getLast?.map Joiner.kind).getD kind] := by
  induction steps generalizing kind with
  | nil => rfl
  | cons s steps ih =>
    cases s with
    | index e inside => exact ih
    | name sign n =>
      have hlast : ((sign :: steps.filterMap Step.sign?).getLast?.map Joiner.kind).getD kind =
          ((steps.filterMap Step.sign?).getLast?.map Joiner.kind).getD sign.kind := by
        cases steps.filterMap Step.sign? with
        | nil => rfl
        | cons x xs =>
          rw [List.getLast?_cons_cons, List.getLast?_eq_some_getLast (List.cons_ne_nil x xs)]
          rfl
      show sign.kind :: ((Suffix.firstKind (steps.map Step.suffix)).getD sign.kind ::
          (Suffix.segments (steps.map Step.suffix)).filterMap Segment.kind?) =
        sign.kind :: (steps.filterMap Step.sign?).map Joiner.kind ++
          [((sign :: steps.filterMap Step.sign?).getLast?.map Joiner.kind).getD kind]
      rw [hlast, ih]
      rfl

/-- Behind a name that has the kind of the next sign, the path goes on with the other names. -/
theorem path_segments :
    (Reference.pathOf (some ((Suffix.firstKind (steps.map Step.suffix)).getD kind))
      (Suffix.segments (steps.map Step.suffix))).toList =
      textOf (steps.filter fun s => s.sign?.isSome) := by
  induction steps generalizing kind with
  | nil => rfl
  | cons s steps ih =>
    cases s with
    | index e inside => exact ih
    | name sign n =>
      have hjoiner : (Reference.joiner (some sign.kind)).toList = [sign.char] := by
        cases sign <;> rfl
      rw [List.filter_cons_of_pos rfl]
      show (Reference.joiner (some sign.kind) ++ n.text ++ Reference.pathOf _ _).toList = _
      rw [String.toList_append, String.toList_append, hjoiner, ih]
      rfl

end Spelling

/-- What is read as a name with suffixes is written as the steps say. -/
theorem Reference.Spelled.of_steps {text : List Char} {scope : Scope} {first : Name} {s : Span}
    {steps : List Spelling.Step} (covers : s.Covers text (Spelling.mk scope first steps).text)
    (hfirst : first.StandsAt (s.start + Text.byteSize (Reference.scopeText scope).toList))
    (stands : Spelling.Stand first.span.stop steps) :
    Reference.Spelled text ⟨scope, Reference.segmentsOf first (Spelling.alone scope)
      (steps.map Spelling.Step.suffix), s⟩ ⟨scope, first, steps⟩ where
  scope := rfl
  contents := congrArg (Sum.inl first :: ·) Spelling.contents_segments
  kinds := Spelling.kinds_segments
  covers := covers
  first := hfirst
  stands := stands
  path := by
    show (Reference.scopeText scope ++ (Reference.joiner none ++ first.text ++
      Reference.pathOf _ _)).toList = _
    rw [String.toList_append, String.toList_append, String.toList_append, Spelling.path_segments,
      show (Reference.joiner none).toList = [] from rfl, List.nil_append]
    exact (List.append_assoc ..).symm

end Ndf
