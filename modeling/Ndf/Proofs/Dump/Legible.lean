/-
# Dumps are legible

A dump shows names, numbers, strings, payloads and fragments as atoms between fixed words.  In a
tree of a source each of them is legible: a name is a word, a number has the signs of its notation,
the raw body of a string or a payload ends where its mark stands, and fragments are quoted.  So the
dump of a document can be read back (`legible_document`).
-/

import Ndf.Proofs.Dump.Render
import Ndf.Proofs.Form.Law

namespace Ndf

/-- What the types of a tree leave open is settled for all of these parts, and bodies are closed. -/
def Parts.Settled (parts : List Part) : Prop := ∀ p ∈ parts, p.WellFormed ∧ p.Closed

namespace Parts

/-- Settling some parts settles each of them. -/
theorem settled_cons {p : Part} {parts : List Part} :
    Settled (p :: parts) ↔ (p.WellFormed ∧ p.Closed) ∧ Settled parts := List.forall_mem_cons

/-- The parts of two lists are settled apart. -/
theorem settled_append {parts more : List Part} :
    Settled (parts ++ more) ↔ Settled parts ∧ Settled more := List.forall_mem_append

/-- What parsing builds is settled. -/
theorem Lawful.settled {text : List Char} {parts : List Part} (h : Lawful text parts) :
    Settled parts := fun p hp => ⟨(h p hp).wellFormed, (h p hp).closed⟩

end Parts

namespace Sexp

/-! ### Atoms of a dump -/

/-- Whether a text is an atom without marks. -/
def isPlainWord (text : String) : Bool := !text.toList.isEmpty && text.toList.all isPlain

/-- A plain word is an atom. -/
theorem legible_of_isPlainWord {text : String} (h : isPlainWord text = true) :
    LegibleAtom text.toList := by
  rw [isPlainWord, Bool.and_eq_true, Bool.not_eq_true', List.isEmpty_eq_false_iff,
    List.all_eq_true] at h
  exact .plain h.1 h.2

/-- Characters of a kind that no mark is of are plain. -/
theorem isPlain_of_test {p : Char → Bool}
    (hp : [' ', '(', ')', '"', '\'', '\x7b'].all (fun c => !p c) = true) {c : Char}
    (h : p c = true) : isPlain c = true := by
  rw [isPlain, Bool.not_eq_true', ← Bool.not_eq_true, List.contains_iff_mem]
  intro hc
  have := List.all_eq_true.1 hp c hc
  rw [h] at this
  exact Bool.noConfusion this

/-- So is a word of the source. -/
theorem legible_word {text : List Char} (h : Word.IsWord text) : LegibleAtom text := by
  cases text with
  | nil => exact h.elim
  | cons c rest =>
    refine .plain (List.cons_ne_nil _ _) (List.forall_mem_cons.2 ⟨?_, fun d hd => ?_⟩)
    · exact isPlain_of_test (p := Word.isStart) (by decide) h.1
    · exact isPlain_of_test (p := Word.isPart) (by decide) (h.2 d hd)

/-- So is a number as it was written. -/
theorem legible_digits {kind : NumberKind} {text : List Char} (h : kind.Writes text) :
    LegibleAtom text := by
  have digit {c : Char} (hc : c.isDigit = true) : isPlain c = true :=
    isPlain_of_test (p := Char.isDigit) (by decide) hc
  cases kind with
  | decimal => exact .plain h.1 fun c hc => digit (h.2 c hc)
  | hex =>
    obtain ⟨x, digits, rfl, hx, -, hdigits⟩ := h
    refine .plain (List.cons_ne_nil _ _)
      (List.forall_mem_cons.2 ⟨by decide, List.forall_mem_cons.2 ⟨?_, fun c hc => ?_⟩⟩)
    · rcases hx with rfl | rfl <;> decide
    · exact isPlain_of_test (p := Lexeme.isHexDigit) (by decide) (hdigits c hc)
  | float =>
    obtain ⟨whole, part, rfl, -, hwhole, hpart⟩ := h
    refine .plain (by simp) (List.forall_mem_append.2 ⟨fun c hc => digit (hwhole c hc), ?_⟩)
    exact List.forall_mem_cons.2 ⟨by decide, fun c hc => digit (hpart c hc)⟩

/-- So is a quoted text. -/
theorem legible_quoted (text : String) : LegibleAtom (Text.quoted text).toList := by
  rw [Text.quoted, String.toList_ofList]
  exact .string (Text.quoted_encloses _)

/-- So is a number of commas. -/
theorem legible_count (n : Nat) : LegibleAtom (toString n).toList := by
  rw [Nat.toString_eq_repr, Nat.repr_eq_ofList_toDigits, String.toList_ofList]
  exact .plain Nat.toDigits_ne_nil fun c hc => isPlain_of_test (p := Char.isDigit) (by decide)
    (Nat.isDigit_of_mem_toDigits (by decide) (by decide) hc)

/-- A tagged list is legible if its parts are. -/
theorem legible_tag {tag : String} (htag : isPlainWord tag = true) {parts : List Sexp}
    (h : AllLegible parts) : (tagged tag parts).Legible :=
  legible_tagged (legible_of_isPlainWord htag) h

/-- A leaf is legible if its text is an atom. -/
theorem legible_leaf {tag text : String} (htag : isPlainWord tag = true)
    (h : LegibleAtom text.toList) : (leaf tag text).Legible := legible_tag htag ⟨h, trivial⟩

end Sexp

namespace Dump

open Sexp Parts

/-! ### Trees -/

/-- The text of a fragment is quoted. -/
theorem legible_error (e : ErrorNode) : (error e).Legible :=
  legible_leaf (by decide) (legible_quoted e.text)

/-- The name of a scope is a plain word. -/
theorem legible_scope (s : Scope) : AllLegible (scope s) := by
  cases s with
  | none => trivial
  | _ => exact ⟨legible_of_isPlainWord (by decide), trivial⟩

/-- A number of commas stands in a leaf, or nothing does. -/
theorem legible_strayCommas (n : Nat) : AllLegible (strayCommas n) := by
  unfold strayCommas
  split
  · trivial
  · exact ⟨legible_leaf (by decide) (legible_count n), trivial⟩

/-- A name behind a fixed word is legible. -/
theorem legible_name {tag : String} (htag : isPlainWord tag = true) {n : Name} {parts : List Part}
    (h : Settled (.name n :: parts)) : (leaf tag n.text).Legible :=
  legible_leaf htag (legible_word (settled_cons.1 h).1.1)

mutual

/-- The dump of a type is legible. -/
theorem legible_type : ∀ t, Settled (Parts.type t) → (Dump.type t).Legible
  | ⟨n, _, params, _⟩, h => by
    rw [Parts.type] at h
    have hn := (settled_cons.1 h).2
    exact legible_tag (by decide)
      ⟨legible_word (settled_cons.1 hn).1.1, legible_types params (settled_cons.1 hn).2⟩

/-- And those of its parameters. -/
theorem legible_types : ∀ ts, Settled (Parts.types ts) → AllLegible (Dump.types ts)
  | [], _ => trivial
  | t :: ts, h => by
    rw [Parts.types, settled_append] at h
    exact ⟨legible_type t h.1, legible_types ts h.2⟩

end

mutual

/-- The dump of an expression is legible: what it shows of the text are words, numbers, and strings
and payloads with their marks. -/
theorem legible_expr : ∀ e, Settled (Parts.expr e) → (Dump.expr e).Legible
  | .nil _, _ => show (tagged "nil" []).Legible from legible_tag (by decide) trivial
  | .bool value _, _ => by
    cases value <;> exact legible_leaf (by decide) (legible_of_isPlainWord (by decide))
  | .number kind text s, h => by
    have htag : isPlainWord (Expr.number kind text s).typeName = true := by
      cases kind <;> simp only [Expr.typeName] <;> decide
    exact legible_leaf htag (legible_digits (settled_cons.1 h).1.1)
  | .string quote raw _, h => by
    have hbody : quote.Encloses raw.toList := (settled_cons.1 h).1.2
    refine legible_leaf (by decide) ?_
    rw [String.toList_ofList]
    exact .string hbody
  | .object o, h => by
    rw [Parts.expr, settled_cons] at h
    exact legible_object o h.2
  | .vector n _ items stray _, h => by
    rw [Parts.expr, settled_cons] at h
    exact legible_tag (by decide) ⟨legible_name (by decide) h.2,
      allLegible_append (legible_exprs items (settled_cons.1 h.2).2) (legible_strayCommas stray)⟩
  | .list items stray _, h => by
    rw [Parts.expr, settled_cons] at h
    exact legible_tag (by decide)
      (allLegible_append (legible_exprs items h.2) (legible_strayCommas stray))
  | .map _ pairs _, h => by
    rw [Parts.expr, settled_cons, settled_cons] at h
    exact legible_tag (by decide) (legible_exprs pairs h.2.2)
  | .pair a b _, h => by
    rw [Parts.expr, settled_cons, settled_append] at h
    exact legible_tag (by decide) ⟨legible_expr a h.2.1, legible_expr b h.2.2, trivial⟩
  | .unary op e _, h => by
    rw [Parts.expr, settled_cons] at h
    have hop : isPlainWord op.sign = true := by cases op <;> decide
    exact legible_tag (by decide) ⟨legible_of_isPlainWord hop, legible_expr e h.2, trivial⟩
  | .binary op a b _, h => by
    rw [Parts.expr, settled_cons, settled_append] at h
    have hop : isPlainWord op.sign = true := by cases op <;> decide
    exact legible_tag (by decide)
      ⟨legible_expr a h.2.1, legible_of_isPlainWord hop, legible_expr b h.2.2, trivial⟩
  | .ternary c a b _, h => by
    rw [Parts.expr, settled_cons, settled_append, settled_append] at h
    exact legible_tag (by decide)
      ⟨legible_expr c h.2.1, legible_expr a h.2.2.1, legible_expr b h.2.2.2, trivial⟩
  | .group inner _, h => by
    rw [Parts.expr, settled_cons] at h
    exact legible_tag (by decide) (legible_expr? inner h.2)
  | .generic n index _, h => by
    rw [Parts.expr, settled_cons] at h
    exact legible_tag (by decide)
      ⟨legible_name (by decide) h.2, legible_expr? index (settled_cons.1 h.2).2⟩
  | .guid raw _, h => by
    have hbody : Lexeme.Balanced raw.toList := (settled_cons.1 h).1.2
    refine legible_leaf (by decide) ?_
    rw [String.toList_append, String.toList_append]
    exact .braces hbody
  | .reference r, h => by
    rw [Parts.expr, settled_cons] at h
    exact legible_reference r h.2
  | .assignment a, h => by
    rw [Parts.expr, settled_cons] at h
    exact legible_assignment a h.2
  | .visibility v, h => by
    rw [Parts.expr, settled_cons] at h
    exact legible_visibility v h.2
  | .error e, _ => legible_error e

/-- And those of several. -/
theorem legible_exprs : ∀ es, Settled (Parts.exprs es) → AllLegible (Dump.exprs es)
  | [], _ => trivial
  | e :: es, h => by
    rw [Parts.exprs, settled_append] at h
    exact ⟨legible_expr e h.1, legible_exprs es h.2⟩

/-- And that of one that may be missing. -/
theorem legible_expr? : ∀ e, Settled (Parts.expr? e) → AllLegible (Dump.expr? e)
  | none, _ => trivial
  | some e, h => ⟨legible_expr e h, trivial⟩

/-- The dump of a reference is legible. -/
theorem legible_reference : ∀ r, Settled (Parts.reference r) → (Dump.reference r).Legible
  | ⟨s, segs, _⟩, h => by
    rw [Parts.reference, settled_cons] at h
    exact legible_tag (by decide)
      (allLegible_append (legible_scope s) (legible_segments segs h.2))

/-- And those of its segments. -/
theorem legible_segments : ∀ xs, Settled (Parts.segments xs) → AllLegible (Dump.segments xs)
  | [], _ => trivial
  | .name n kind :: xs, h => by
    rw [Parts.segments] at h
    have hkind : isPlainWord (segmentKind kind) = true := by cases kind <;> decide
    exact ⟨legible_name hkind h, legible_segments xs (settled_cons.1 h).2⟩
  | .index e :: xs, h => by
    rw [Parts.segments, settled_append] at h
    exact ⟨legible_tag (by decide) ⟨legible_expr e h.1, trivial⟩, legible_segments xs h.2⟩

/-- The dump of an assignment is legible. -/
theorem legible_assignment : ∀ a, Settled (Parts.assignment a) → (Dump.assignment a).Legible
  | ⟨n, value, _⟩, h => by
    rw [Parts.assignment, settled_cons] at h
    exact legible_tag (by decide)
      ⟨legible_name (by decide) h.2, legible_expr value (settled_cons.1 h.2).2, trivial⟩

/-- That of a declaration is. -/
theorem legible_declaration : ∀ d, Settled (Parts.declaration d) → (Dump.declaration d).Legible
  | .assignment a, h => legible_assignment a h
  | .template t, h => legible_template t h

/-- That of one behind a modifier is. -/
theorem legible_visibility : ∀ v, Settled (Parts.visibility v) → (Dump.visibility v).Legible
  | ⟨modifier, _, decl, _⟩, h => by
    rw [Parts.visibility, settled_cons, settled_cons] at h
    have hmodifier : isPlainWord modifier.spelling = true := by cases modifier <;> decide
    exact legible_tag (by decide)
      ⟨legible_of_isPlainWord hmodifier, legible_declaration decl h.2.2, trivial⟩

/-- That of a template is. -/
theorem legible_template : ∀ t, Settled (Parts.template t) → (Dump.template t).Legible
  | ⟨n, params, body, _⟩, h => by
    rw [Parts.template, settled_cons] at h
    have hrest := settled_append.1 (settled_cons.1 h.2).2
    have hparams := legible_members params hrest.1
    exact legible_tag (by decide) ⟨legible_name (by decide) h.2,
      legible_tag (by decide) hparams, legible_object body hrest.2, trivial⟩

/-- That of a member is. -/
theorem legible_member : ∀ m, Settled (Parts.member m) → (Dump.member m).Legible
  | ⟨n, type?, value, legacy, _⟩, h => by
    rw [Parts.member, settled_cons] at h
    have hrest := settled_append.1 (settled_cons.1 h.2).2
    have htype : AllLegible (type?.toList.map Dump.type) := by
      cases type? with
      | none => trivial
      | some t => exact legible_types [t] hrest.1
    have hlegacy : AllLegible (if legacy then [.atom "legacy"] else []) := by
      cases legacy with
      | false => trivial
      | true => exact ⟨legible_of_isPlainWord (by decide), trivial⟩
    exact legible_tag (by decide) ⟨legible_name (by decide) h.2,
      allLegible_append htype (allLegible_append hlegacy (legible_expr? value hrest.2))⟩

/-- And those of several. -/
theorem legible_members : ∀ ms, Settled (Parts.members ms) → AllLegible (Dump.members ms)
  | [], _ => trivial
  | m :: ms, h => by
    rw [Parts.members, settled_append] at h
    exact ⟨legible_member m h.1, legible_members ms h.2⟩

/-- That of an entry is. -/
theorem legible_entry : ∀ e, Settled (Parts.entry e) → (Dump.entry e).Legible
  | .member m, h => legible_member m (settled_cons.1 h).2
  | .assignment a, h => legible_assignment a (settled_cons.1 h).2
  | .visibility v, h => legible_visibility v (settled_cons.1 h).2
  | .reference r, h => legible_reference r (settled_cons.1 h).2
  | .error e, _ => legible_error e

/-- And those of several. -/
theorem legible_entries : ∀ es, Settled (Parts.entries es) → AllLegible (Dump.entries es)
  | [], _ => trivial
  | e :: es, h => by
    rw [Parts.entries, settled_append] at h
    exact ⟨legible_entry e h.1, legible_entries es h.2⟩

/-- That of an object is. -/
theorem legible_object : ∀ o, Settled (Parts.object o) → (Dump.object o).Legible
  | ⟨n, es, _⟩, h => by
    rw [Parts.object, settled_cons] at h
    exact legible_tag (by decide)
      ⟨legible_name (by decide) h.2, legible_entries es (settled_cons.1 h.2).2⟩

end

/-- That of an item is. -/
theorem legible_item (i : Item) (h : Settled (Parts.item i)) : (Dump.item i).Legible := by
  have hinside := (settled_cons.1 h).2
  cases i with
  | assignment a => exact legible_assignment a hinside
  | visibility v => exact legible_visibility v hinside
  | template t => exact legible_template t hinside
  | unnamed u =>
    exact legible_tag (by decide) ⟨legible_object u.object (settled_cons.1 hinside).2, trivial⟩
  | member m => exact legible_member m hinside
  | expr e => exact legible_expr e hinside
  | error e => exact legible_error e

/-- **The dump of a document can be read back**, if what its types leave open is settled. -/
theorem legible_document {d : Document} (h : Settled d.parts) : (document d).Legible := by
  obtain ⟨items, _⟩ := d
  unfold Document.parts at h
  refine legible_tag (by decide) ?_
  induction items with
  | nil => trivial
  | cons i items ih =>
    rw [List.flatMap_cons, settled_append] at h
    exact ⟨legible_item i h.1, ih h.2⟩

end Dump

end Ndf
