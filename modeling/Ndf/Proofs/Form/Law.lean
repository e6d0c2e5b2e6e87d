/-
# Laws of parsed trees

What holds of every part of the tree of a source, said part by part.

* `Part.Verbatim`: names, literals and fragments are kept as they are written where they stand.
* `Part.WellFormed`: what the types of a tree leave open, such as that the entries of a map are
  pairs and that a built-in vector is one by its name.
* `Part.Closed`: the raw body of a string or a payload ends at the first mark that closes it.
* `Part.Ranked`: operators bind as the table says, where nothing below them was cut out.

`Parts.Lawful` says all of this of some parts.
-/

import Ndf.Parser.Document
import Ndf.Proofs.Token.Written
import Ndf.Proofs.Tree.Chain
import Ndf.Proofs.Tree.Parts

namespace Ndf

/-- Between the ends of a span this is written. -/
def Span.Covers (s : Span) (text written : List Char) : Prop :=
  Text.slice? text s.start s.stop = some written

/-- The text of a part is what is written where it stands: as it is, between its marks, or, if the
part does not keep it, up to the case of its letters. -/
def Part.Verbatim (text : List Char) : Part → Prop
  | .name n => n.span.Covers text n.text.toList
  | .error e => e.span.Covers text e.text.toList
  | .expr (.number _ digits s) => s.Covers text digits.toList
  | .expr (.string quote raw s) => s.Covers text (quote.char :: (raw.toList ++ [quote.char]))
  | .expr (.guid raw s) => ∃ word between, Word.lower word = "guid" ∧
      s.Covers text (word.toList ++ (between ++ '\x7b' :: (raw.toList ++ ['\x7d'])))
  | .expr (.nil s) => ∃ word, Word.lower word = "nil" ∧ s.Covers text word.toList
  | .expr (.bool value s) => ∃ word, Word.lower word = (if value then "true" else "false") ∧
      s.Covers text word.toList
  | _ => True

/-- Whether an expression can stand in a map. -/
def Expr.isMapEntry : Expr → Bool
  | .pair .. | .error _ => true
  | _ => false

/-- The keyword that a modifier is written as. -/
def Modifier.keyword : Modifier → Keyword
  | .export => .export
  | .private => .private
  | .public => .public

/-- What the type of a part leaves open. -/
def Part.WellFormed : Part → Prop
  | .name n => Word.IsWord n.text.toList
  | .type t => t.wordClass = Word.classify t.name.text
  | .expr (.number kind digits _) => kind.Writes digits.toList
  | .expr (.vector n builtin _ _ _) => builtin ≠ some .map ∧
      ∀ v, builtin = some v ↔ Word.classify n.text = .vector v
  | .expr (.map _ pairs _) => ∀ e ∈ pairs, e.isMapEntry = true
  | .reference r => ∃ name kind rest, r.segments = .name name kind :: rest
  | .visibility v => Word.classify v.keyword.text = .keyword v.modifier.keyword
  | .member m => m.legacyColon = true → m.value.isSome = true ∧ m.type = none
  | .entry (.member m) | .item (.member m) => m.type.isSome = true ∨ m.value.isSome = true
  | .item (.expr (.error _)) | .item (.expr (.assignment _)) => False
  | .item (.expr (.visibility _)) => False
  | _ => True

/-- A raw body ends at the first mark that closes it. -/
def Part.Closed : Part → Prop
  | .expr (.string quote raw _) => quote.Encloses raw.toList
  | .expr (.guid raw _) => Lexeme.Balanced raw.toList
  | _ => True

/-- Operators bind as the table says, unless something below them was cut out. -/
def Part.Ranked : Part → Prop
  | .expr e => (∀ n, .error n ∉ Parts.expr e) → e.Binds
  | _ => True

/-- All laws together. -/
structure Part.Lawful (text : List Char) (p : Part) : Prop where
  verbatim : p.Verbatim text
  wellFormed : p.WellFormed
  closed : p.Closed
  ranked : p.Ranked

/-- All laws hold of all of these parts. -/
def Parts.Lawful (text : List Char) (parts : List Part) : Prop := ∀ p ∈ parts, p.Lawful text

namespace Parts

variable {text : List Char}

/-- No parts are lawful. -/
theorem lawful_nil : Lawful text [] := fun _ h => nomatch h

/-- The laws of some parts are those of each. -/
theorem lawful_cons {p : Part} {parts : List Part} :
    Lawful text (p :: parts) ↔ p.Lawful text ∧ Lawful text parts := List.forall_mem_cons

/-- The laws of two lists of parts are those of both. -/
theorem lawful_append {parts more : List Part} :
    Lawful text (parts ++ more) ↔ Lawful text parts ∧ Lawful text more := List.forall_mem_append

/-- The laws of parts that are put together are those of each piece. -/
theorem lawful_flatMap {α : Type} {f : α → List Part} {as : List α} :
    Lawful text (as.flatMap f) ↔ ∀ a ∈ as, Lawful text (f a) := by
  induction as with
  | nil => simp [lawful_nil]
  | cons a as ih => simp [lawful_append, ih]

/-- Several expressions are lawful if each one is. -/
theorem lawful_exprs {items : List Expr} :
    Lawful text (exprs items) ↔ ∀ e ∈ items, Lawful text (expr e) := by
  rw [exprs_eq_flatMap, lawful_flatMap]

/-- Several members are lawful if each one is. -/
theorem lawful_members {ms : List Member} :
    Lawful text (members ms) ↔ ∀ m ∈ ms, Lawful text (member m) := by
  rw [members_eq_flatMap, lawful_flatMap]

/-- Several entries are lawful if each one is. -/
theorem lawful_entries {es : List Entry} :
    Lawful text (entries es) ↔ ∀ e ∈ es, Lawful text (entry e) := by
  rw [entries_eq_flatMap, lawful_flatMap]

/-- Several types are lawful if each one is. -/
theorem lawful_types {ts : List TypeRef} :
    Lawful text (types ts) ↔ ∀ t ∈ ts, Lawful text (type t) := by
  rw [types_eq_flatMap, lawful_flatMap]

/-- The parts of a suffix. -/
def suffix : Suffix → List Part
  | .joined _ n => [.name n]
  | .index e => expr e

/-- The segments of a path are lawful if its steps are. -/
theorem lawful_segments {suffixes : List Suffix} :
    Lawful text (segments (Suffix.segments suffixes)) ↔ ∀ s ∈ suffixes, Lawful text (suffix s) := by
  induction suffixes with
  | nil => simp [Suffix.segments, segments, lawful_nil]
  | cons s suffixes ih =>
    cases s with
    | joined kind n =>
      rw [Suffix.segments, segments, lawful_cons, List.forall_mem_cons, ih, suffix, lawful_cons]
      simp [lawful_nil]
    | index e =>
      rw [Suffix.segments, segments, lawful_append, List.forall_mem_cons, ih, suffix]

end Parts

/-! ### Parts on which no law bears -/

/-- A part that keeps no text, has a type that says all, and is no operator. -/
def Part.isFree : Part → Bool
  | .assignment _ | .template _ | .object _ | .unnamed _ => true
  | .expr (.object _) | .expr (.list ..) | .expr (.pair ..) | .expr (.group ..) => true
  | .expr (.generic ..) | .expr (.reference _) | .expr (.assignment _) => true
  | .expr (.visibility _) | .expr (.error _) => true
  | .entry (.assignment _) | .entry (.visibility _) | .entry (.reference _) => true
  | .entry (.error _) => true
  | .item (.assignment _) | .item (.visibility _) | .item (.template _) => true
  | .item (.unnamed _) | .item (.error _) => true
  | _ => false

/-- A part on which no law bears is lawful. -/
theorem Part.Lawful.of_isFree {text : List Char} {p : Part} (h : p.isFree = true) :
    p.Lawful text := by
  unfold isFree at h
  split at h <;>
    first
      | exact ⟨trivial, trivial, trivial, trivial⟩
      | exact ⟨trivial, trivial, trivial, fun _ => trivial⟩
      | cases h

end Ndf
