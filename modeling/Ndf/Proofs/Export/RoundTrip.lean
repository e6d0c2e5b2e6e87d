/-
# Reading an export back

`SPEC_FULL.md` E6, the functions on exports.

What is written of a tree is read as that tree if the reader has as many levels as the writing
opens, and is refused otherwise (`parsed_exports`).  Bytes behind an export make no difference, so
an export of a parsed source is read back exactly if its records and lists are nested at most
`maxLevels` deep (`ofBytes_toBytes`).  An export that is cut short is refused, wherever the cut
falls (`ofBytes_cut`).

The levels are those of the tree and grow with it: a sum of many terms is read as a chain of
operators, one inside the other, and so is its export, while its parser needs one level for all.

`Exports read v a` says of a node `a` written as `v` that it is in range and is read back by `read`
where its levels are left.  A record exports if its fields do, a variant if its content does; the
lemma for each kind of node follows its function in `Ndf.Export.Write`.
-/

import Ndf.Export
import Ndf.Proofs.Export.InRange
import Ndf.Proofs.MessagePack.Cut
import Ndf.Proofs.MessagePack.Record

namespace Ndf
namespace Export

open MessagePack

variable {α β : Type} {read : Readers → Value → Option α} {v : Value} {a : α} {n : Nat}

/-! ### Nodes and fields -/

/-- A node is in range and is read back where its levels are left. -/
structure Exports (read : Readers → Value → Option α) (v : Value) (a : α) : Prop where
  encodable : v.Encodable
  deep : 0 < v.levels
  reads : ∀ n, read (.levels n) v = upTo (n + 1) v.levels a

/-- What the readers for a field make of a node that is one. -/
theorem Exports.field (h : Exports read v a) (field : Readers → Value → Option α)
    (bottom : field .bottom v = none) (above : ∀ n r, field (.above n r) = read r) (n : Nat) :
    field (.levels n) v = upTo n v.levels a := by
  cases n with
  | zero => rw [Readers.levels, bottom, upTo_of_lt h.deep]
  | succ n => rw [Readers.levels, above, h.reads]

/-- The names of a record, of which there is more than one. -/
def Fielded (names : List String) : Prop :=
  Proper names ∧ names.length ≠ 1 ∧ names.length < 0x100000000

instance (names : List String) : Decidable (Fielded names) := inferInstanceAs (Decidable (_ ∧ _))

/-- **A record exports if its fields are read back** where the levels are left that they take. -/
theorem Exports.record {names : List String} {fields : List Value}
    {k : Readers → List (Option Value) → Option α} (hn : Fielded names)
    (hl : fields.length = names.length) (he : ItemsEncodable fields)
    (hr : ∀ n, k (.levels n) (fields.map some) = upTo n (itemsLevels fields) a) :
    Exports (fun r v => readRecord r.skip names v >>= k r) (.record names fields) a where
  encodable := encodable_record hn.1 hn.2.2 he
  deep := by
    rw [levels_record hl (hl ▸ hn.2.1)]
    exact Nat.succ_pos _
  reads n := by
    rw [readRecord_record _ hn.1 hl, levels_record hl (hl ▸ hn.2.1), upTo_succ]
    exact hr n

/-- Reading may go on with a function of what was read. -/
theorem Exports.map (h : Exports read v a) (f : α → β) :
    Exports (fun r v => (read r v).map f) v (f a) :=
  ⟨h.encodable, h.deep, fun n => by rw [h.reads, upTo_map]⟩

/-- A variant exports if its content does. -/
theorem Exports.variant {choice : Readers → Value → Option α} {names : List String} {name : String}
    (h : Exports read v a) (hn : Proper names) (hm : name ∈ names)
    (hc : ∀ r w, readVariant names w = some (name, some v) → choice r w = read r v) :
    Exports choice (.variant name v) a where
  encodable := encodable_variant hn hm h.encodable
  deep := by
    rw [levels_variant]
    exact h.deep
  reads n := by rw [hc _ _ (readVariant_variant hn hm v), levels_variant, h.reads]

/-- Nodes that are in range, each of them read back where its levels are left. -/
structure ExportsAll (item : Readers → Value → Option α) (vs : List Value) (as : List α) :
    Prop where
  encodable : ItemsEncodable vs
  length : vs.length = as.length
  reads : ∀ n, MessagePack.readItems (item (.levels n)) vs = upTo n (itemsLevels vs) as

/-- No nodes are written as no values. -/
theorem ExportsAll.nil {item : Readers → Value → Option α} : ExportsAll item [] [] :=
  ⟨trivial, rfl, fun _ => flat rfl⟩

/-- A node in front of others is written in front of their values. -/
theorem ExportsAll.cons {item : Readers → Value → Option α} {vs : List Value} {as : List α}
    (h : Exports read v a) (hs : ExportsAll item vs as) (bottom : item .bottom v = none)
    (above : ∀ n r, item (.above n r) = read r) : ExportsAll item (v :: vs) (a :: as) where
  encodable := ⟨h.encodable, hs.encodable⟩
  length := congrArg (· + 1) hs.length
  reads n := by
    rw [itemsLevels_cons, ← Nat.max_zero (itemsLevels vs)]
    exact bind_upTo (h.field item bottom above n) (bind_upTo (hs.reads n) (flat rfl))

/-- A list is a level of its own. -/
theorem ExportsAll.array {item : Readers → Value → Option α} {vs : List Value} {as : List α}
    (h : ExportsAll item vs as) (hl : Measured as.length) :
    Exports (fun r => readArray (item r)) (.array vs) as where
  encodable := ⟨h.length ▸ hl, h.encodable⟩
  deep := by
    rw [levels_array]
    exact Nat.succ_pos _
  reads n := by
    rw [levels_array, upTo_succ]
    exact h.reads n

/-- A field that may be missing is in range and is read back where its levels are left. -/
structure ExportsOption (field : Readers → Value → Option α) (v : Value) (a : Option α) : Prop where
  encodable : v.Encodable
  reads : ∀ n, readOption (field (.levels n)) (some v) = upTo n v.levels a

/-- What is missing is written as nil. -/
theorem ExportsOption.none {field : Readers → Value → Option α} :
    ExportsOption field .nil none := ⟨trivial, fun _ => flat rfl⟩

/-- What is there is written as it is. -/
theorem Exports.toOption (h : Exports read v a) {field : Readers → Value → Option α}
    (hf : ∀ n, field (.levels n) v = upTo n v.levels a) :
    ExportsOption field v (some a) where
  encodable := h.encodable
  reads n := by
    have hne : v ≠ .nil := by
      rintro rfl
      exact absurd h.deep (Nat.lt_irrefl 0)
    have hread : readOption (field (.levels n)) (some v) = (field (.levels n) v).map some := by
      cases v <;> first | exact absurd rfl hne | rfl
    rw [hread, hf, upTo_map]

/-! What the reader for each kind of field makes of what was written for it. -/

/-- A span is read as one where its level is left. -/
theorem Exports.span {a : Span} (h : Exports Read.span v a) (n : Nat) :
    (Readers.levels n).span v = upTo n v.levels a := h.field Readers.span rfl (fun _ _ => rfl) n

/-- So is a name. -/
theorem Exports.name {a : Name} (h : Exports Read.name v a) (n : Nat) :
    (Readers.levels n).name v = upTo n v.levels a := h.field Readers.name rfl (fun _ _ => rfl) n

/-- So is a type. -/
theorem Exports.type {a : TypeRef} (h : Exports Read.type v a) (n : Nat) :
    (Readers.levels n).type v = upTo n v.levels a := h.field Readers.type rfl (fun _ _ => rfl) n

/-- So are the parameters of a type. -/
theorem Exports.types {a : List TypeRef} (h : Exports (fun r => readArray r.type) v a) (n : Nat) :
    (Readers.levels n).types v = upTo n v.levels a := h.field Readers.types rfl (fun _ _ => rfl) n

/-- So is the name of a vector with its type. -/
theorem Exports.vectorType {a : Name × Option VectorType} (h : Exports Read.vectorType v a)
    (n : Nat) : (Readers.levels n).vectorType v = upTo n v.levels a :=
  h.field Readers.vectorType rfl (fun _ _ => rfl) n

/-- So is an expression. -/
theorem Exports.expr {a : Expr} (h : Exports Read.expr v a) (n : Nat) :
    (Readers.levels n).expr v = upTo n v.levels a := h.field Readers.expr rfl (fun _ _ => rfl) n

/-- So are several. -/
theorem Exports.exprs {a : List Expr} (h : Exports (fun r => readArray r.expr) v a) (n : Nat) :
    (Readers.levels n).exprs v = upTo n v.levels a := h.field Readers.exprs rfl (fun _ _ => rfl) n

/-- So are the segments of a reference. -/
theorem Exports.segments {a : List Segment} (h : Exports (fun r => readArray r.segment) v a)
    (n : Nat) : (Readers.levels n).segments v = upTo n v.levels a :=
  h.field Readers.segments rfl (fun _ _ => rfl) n

/-- So is a declaration. -/
theorem Exports.declaration {a : Declaration} (h : Exports Read.declaration v a) (n : Nat) :
    (Readers.levels n).declaration v = upTo n v.levels a :=
  h.field Readers.declaration rfl (fun _ _ => rfl) n

/-- So are the parameters of a template. -/
theorem Exports.members {a : List Member} (h : Exports (fun r => readArray r.member) v a)
    (n : Nat) : (Readers.levels n).members v = upTo n v.levels a :=
  h.field Readers.members rfl (fun _ _ => rfl) n

/-- So are the entries of an object. -/
theorem Exports.entries {a : List Entry} (h : Exports (fun r => readArray r.entry) v a)
    (n : Nat) : (Readers.levels n).entries v = upTo n v.levels a :=
  h.field Readers.entries rfl (fun _ _ => rfl) n

/-- So is an object. -/
theorem Exports.object {a : Object} (h : Exports Read.object v a) (n : Nat) :
    (Readers.levels n).object v = upTo n v.levels a :=
  h.field Readers.object rfl (fun _ _ => rfl) n

/-- So are the items of a document. -/
theorem Exports.items {a : List Item} (h : Exports (fun r => readArray r.item) v a) (n : Nat) :
    (Readers.levels n).items v = upTo n v.levels a := h.field Readers.items rfl (fun _ _ => rfl) n

/-- So is a document. -/
theorem Exports.document {a : Document} (h : Exports Read.document v a) (n : Nat) :
    (Readers.levels n).document v = upTo n v.levels a :=
  h.field Readers.document rfl (fun _ _ => rfl) n

/-- So are the diagnostics. -/
theorem Exports.diagnostics {a : List Diagnostic}
    (h : Exports (fun r => readArray r.diagnostic) v a) (n : Nat) :
    (Readers.levels n).diagnostics v = upTo n v.levels a :=
  h.field Readers.diagnostics rfl (fun _ _ => rfl) n

/-! ### Choices without content -/

/-- An element of a table is read back by its name. -/
theorem readUnit_unit [BEq α] {table : List (String × α)} (hn : Proper (table.map Prod.fst))
    {name : String} (h : table.find? (fun e => e.2 == a) = some (name, a)) :
    readUnit table (Write.unit table a) = some a := by
  rw [Write.unit, h]
  exact readUnit_text hn (List.mem_of_find?_eq_some h)

/-- A choice without content is written as a name, which fits. -/
theorem encodable_unit [BEq α] {table : List (String × α)} (hn : Proper (table.map Prod.fst))
    {name : String} (h : table.find? (fun e => e.2 == a) = some (name, a)) :
    (Write.unit table a).Encodable := by
  rw [Write.unit, h]
  exact encodable_text (hn.2 name (List.mem_map_of_mem (List.mem_of_find?_eq_some h)))

/-- Every element of a type is found in the table of its names. -/
structure Tabled [BEq α] (table : List (String × α)) : Prop where
  proper : Proper (table.map Prod.fst)
  complete : ∀ a, ∃ name, table.find? (fun e => e.2 == a) = some (name, a)

/-- Where no name stands twice in a table, the choice is read back. -/
theorem Tabled.reads [BEq α] {table : List (String × α)} (h : Tabled table) (a : α) :
    readUnit table (Write.unit table a) = some a :=
  let ⟨_, hf⟩ := h.complete a
  readUnit_unit h.proper hf

/-- And it can be written. -/
theorem Tabled.encodable [BEq α] {table : List (String × α)} (h : Tabled table) (a : α) :
    (Write.unit table a).Encodable :=
  let ⟨_, hf⟩ := h.complete a
  encodable_unit h.proper hf

/-- Each keyword has a name of its own. -/
theorem keywords_tabled : Tabled Shape.keywords :=
  ⟨by decide, fun k => by cases k <;> exact ⟨_, rfl⟩⟩

/-- So has each type of a single value. -/
theorem scalarTypes_tabled : Tabled Shape.scalarTypes :=
  ⟨by decide, fun t => by cases t <;> exact ⟨_, rfl⟩⟩

/-- So has each type of a vector. -/
theorem vectorTypes_tabled : Tabled Shape.vectorTypes :=
  ⟨by decide, fun t => by cases t <;> exact ⟨_, rfl⟩⟩

/-- So has each notation of numbers. -/
theorem numberKinds_tabled : Tabled Shape.numberKinds :=
  ⟨by decide, fun k => by cases k <;> exact ⟨_, rfl⟩⟩

/-- So has each quote mark. -/
theorem quotes_tabled : Tabled Shape.quotes :=
  ⟨by decide, fun q => by cases q <;> exact ⟨_, rfl⟩⟩

/-- So has each modifier. -/
theorem modifiers_tabled : Tabled Shape.modifiers :=
  ⟨by decide, fun m => by cases m <;> exact ⟨_, rfl⟩⟩

/-- So has each scope. -/
theorem scopes_tabled : Tabled Shape.scopes :=
  ⟨by decide, fun s => by cases s <;> exact ⟨_, rfl⟩⟩

/-- So has each kind of segment. -/
theorem segmentKinds_tabled : Tabled Shape.segmentKinds :=
  ⟨by decide, fun k => by cases k <;> exact ⟨_, rfl⟩⟩

/-- So has each sign in front of an operand. -/
theorem unaryOps_tabled : Tabled Shape.unaryOps :=
  ⟨by decide, fun o => by cases o <;> exact ⟨_, rfl⟩⟩

/-- So has each operator between two. -/
theorem binaryOps_tabled : Tabled Shape.binaryOps :=
  ⟨by decide, fun o => by cases o <;> exact ⟨_, rfl⟩⟩

/-- So has each category of problems. -/
theorem diagnosticKinds_tabled : Tabled Shape.diagnosticKinds :=
  ⟨by decide, fun k => by cases k <;> exact ⟨_, rfl⟩⟩

@[simp] theorem levels_unit [BEq α] (table : List (String × α)) (a : α) :
    (Write.unit table a).levels = 0 := rfl

/-! ### Spans, names and types -/

/-- A span is read back, at the cost of one level. -/
theorem span_exports {s : Span} (h : s.InRange) : Exports Read.span (Write.span s) s := by
  refine .record (by decide) rfl ⟨h.start, h.stop, ?_, ?_, trivial⟩ fun n => ?_
  · exact Nat.lt_trans h.line (by decide)
  · exact Nat.lt_trans h.column (by decide)
  · exact bind_upTo (flat (readNat_uint h.start)) (bind_upTo (flat (readNat_uint h.stop))
      (bind_upTo (flat (readNat_uint h.line)) (bind_upTo (flat (readNat_uint h.column))
        (flat rfl))))

/-- So is a name. -/
theorem name_exports {n : Name} (h : n.InRange) : Exports Read.name (Write.name n) n :=
  have hs := span_exports h.2
  .record (by decide) rfl ⟨encodable_text h.1, hs.encodable, trivial⟩ fun n =>
    bind_upTo (flat (readText_text _)) (bind_upTo (hs.span n)
      (flat rfl))

/-- So is a fragment. -/
theorem error_exports {e : ErrorNode} (h : e.InRange) : Exports Read.error (Write.error e) e :=
  have hs := span_exports h.1
  .record (by decide) rfl ⟨hs.encodable, encodable_text h.2, trivial⟩ fun n =>
    bind_upTo (hs.span n) (bind_upTo (flat (readText_text _))
      (flat rfl))

/-- The classes of words have names that fit and differ. -/
theorem wordClasses_proper : Proper Shape.wordClasses := by decide

/-- The class of a word can be written. -/
theorem wordClass_encodable (c : WordClass) : (Write.wordClass c).Encodable := by
  cases c with
  | keyword k =>
    exact encodable_variant wordClasses_proper (by decide) (keywords_tabled.encodable k)
  | scalar t =>
    exact encodable_variant wordClasses_proper (by decide) (scalarTypes_tabled.encodable t)
  | vector t =>
    exact encodable_variant wordClasses_proper (by decide) (vectorTypes_tabled.encodable t)
  | name => exact encodable_text (wordClasses_proper.2 "Name" (by decide))

/-- It opens no level. -/
theorem wordClass_levels (c : WordClass) : (Write.wordClass c).levels = 0 := by
  cases c <;> simp [Write.wordClass]

/-- It is read back. -/
theorem wordClass_reads (c : WordClass) : Read.wordClass (Write.wordClass c) = some c := by
  cases c with
  | keyword k =>
    rw [Write.wordClass, Read.wordClass, readVariant_variant wordClasses_proper (by decide)]
    exact congrArg (Option.map WordClass.keyword) (keywords_tabled.reads k)
  | scalar t =>
    rw [Write.wordClass, Read.wordClass, readVariant_variant wordClasses_proper (by decide)]
    exact congrArg (Option.map WordClass.scalar) (scalarTypes_tabled.reads t)
  | vector t =>
    rw [Write.wordClass, Read.wordClass, readVariant_variant wordClasses_proper (by decide)]
    exact congrArg (Option.map WordClass.vector) (vectorTypes_tabled.reads t)
  | name =>
    rw [Write.wordClass, Read.wordClass, readVariant_text wordClasses_proper (by decide)]
    rfl

/-- The name of a vector is read back, with its type if it has one. -/
theorem vectorType_exports {n : Name} (h : n.InRange) (builtin : Option VectorType) :
    Exports Read.vectorType (Write.vectorType n builtin) (n, builtin) := by
  have hn := name_exports h
  cases builtin with
  | none =>
    exact .record (by decide) rfl ⟨hn.encodable, trivial, trivial⟩ fun n =>
      bind_upTo (hn.name n) (flat rfl)
  | some t =>
    refine .record (by decide) rfl ⟨hn.encodable, vectorTypes_tabled.encodable t, trivial⟩ fun n =>
      bind_upTo (hn.name n) ?_
    exact bind_upTo (flat (congrArg (Option.map some) (vectorTypes_tabled.reads t))) (flat rfl)

mutual

/-- A type is read back, with its parameters below it. -/
theorem type_exports : ∀ (t : TypeRef), t.InRange → Exports Read.type (Write.type t) t
  | ⟨_, c, params, _⟩, ⟨hn, hl, hp, hs⟩ => by
    have hn := name_exports hn
    have hp := (types_export params hp).array hl
    have hs := span_exports hs
    rw [Write.type]
    refine .record (by decide) rfl
      ⟨hn.encodable, wordClass_encodable c, hp.encodable, hs.encodable, trivial⟩ fun n => ?_
    rw [itemsLevels_cons, itemsLevels_cons, wordClass_levels]
    exact bind_upTo (hn.name n)
      (bind_upTo (flat (wordClass_reads c))
        (bind_upTo (hp.types n)
          (bind_upTo (hs.span n) (flat rfl))))

/-- So are several types. -/
theorem types_export : ∀ (ts : List TypeRef), TypesInRange ts →
    ExportsAll Readers.type (Write.types ts) ts
  | [], _ => .nil
  | t :: ts, ⟨h, hs⟩ => .cons (type_exports t h) (types_export ts hs) rfl fun _ _ => rfl

end

/-! ### Expressions and declarations -/

/-- The kinds of expressions have names that fit and differ. -/
theorem exprs_proper : Proper Shape.exprs := by decide

/-- So have the kinds of segments. -/
theorem segments_proper : Proper Shape.segments := by decide

/-- So have those of declarations. -/
theorem declarations_proper : Proper Shape.declarations := by decide

/-- So have those of entries. -/
theorem entries_proper : Proper Shape.entries := by decide

/-- So have those of items. -/
theorem items_proper : Proper Shape.items := by decide

/-- A truth value is an array of two, the one record without names. -/
theorem bool_exports (b : Bool) {s : Span} (h : s.InRange) :
    Exports Read.bool (.array [.bool b, Write.span s]) (.bool b s) := by
  have hs := span_exports h
  refine ⟨⟨Nat.lt_of_lt_of_le (Nat.lt_succ_self 2) (by decide), trivial, hs.encodable, trivial⟩,
    by simp, fun n => ?_⟩
  rw [levels_array, upTo_succ]
  show (readBool (.bool b)).bind (fun b =>
    ((Readers.levels n).span (Write.span s)).bind fun s => some (Expr.bool b s)) = _
  exact bind_upTo (flat (readBool_bool b)) (bind_upTo (hs.span n) (flat rfl))

mutual

/-- An expression is read back. -/
theorem expr_exports : ∀ (e : Expr), e.InRange → Exports Read.expr (Write.expr e) e
  | .nil s, h => by
    rw [Write.expr]
    exact ((span_exports h).map Expr.nil).variant exprs_proper (by decide)
      fun r w hw => by rw [Read.expr, hw]; rfl
  | .bool b s, h => by
    rw [Write.expr]
    exact (bool_exports b h).variant exprs_proper (by decide)
      fun r w hw => by rw [Read.expr, hw]; rfl
  | .number kind text s, ⟨ht, hs⟩ => by
    have hs := span_exports hs
    have hr : Exports Read.number (.record Shape.number
        [Write.unit Shape.numberKinds kind, .text text, Write.span s]) (.number kind text s) :=
      .record (by decide) rfl
        ⟨numberKinds_tabled.encodable kind, encodable_text ht, hs.encodable, trivial⟩ fun n =>
          bind_upTo (flat (numberKinds_tabled.reads kind)) (bind_upTo (flat (readText_text _))
            (bind_upTo (hs.span n) (flat rfl)))
    rw [Write.expr]
    exact hr.variant exprs_proper (by decide) fun r w hw => by rw [Read.expr, hw]; rfl
  | .string quote raw s, ⟨ht, hs⟩ => by
    have hs := span_exports hs
    have hr : Exports Read.string (.record Shape.string
        [Write.unit Shape.quotes quote, .text raw, Write.span s]) (.string quote raw s) :=
      .record (by decide) rfl
        ⟨quotes_tabled.encodable quote, encodable_text ht, hs.encodable, trivial⟩ fun n =>
          bind_upTo (flat (quotes_tabled.reads quote)) (bind_upTo (flat (readText_text _))
            (bind_upTo (hs.span n) (flat rfl)))
    rw [Write.expr]
    exact hr.variant exprs_proper (by decide) fun r w hw => by rw [Read.expr, hw]; rfl
  | .object o, h => by
    rw [Write.expr]
    exact ((object_exports o h).map Expr.object).variant exprs_proper (by decide)
      fun r w hw => by rw [Read.expr, hw]; rfl
  | .vector n builtin items stray s, ⟨hn, hl, hi, hstray, hs⟩ => by
    have ht := vectorType_exports hn builtin
    have hi := (exprs_export items hi).array hl
    have hs := span_exports hs
    have hr : Exports Read.vector (.record Shape.vector [Write.vectorType n builtin,
        .array (Write.exprs items), .uint stray, Write.span s]) (.vector n builtin items stray s) :=
      .record (by decide) rfl ⟨ht.encodable, hi.encodable, hstray, hs.encodable, trivial⟩ fun n =>
        bind_upTo (ht.vectorType n) (bind_upTo (hi.exprs n)
          (bind_upTo (flat (readNat_uint hstray)) (bind_upTo (hs.span n) (flat rfl))))
    rw [Write.expr]
    exact hr.variant exprs_proper (by decide) fun r w hw => by rw [Read.expr, hw]; rfl
  | .list items stray s, ⟨hl, hi, hstray, hs⟩ => by
    have hi := (exprs_export items hi).array hl
    have hs := span_exports hs
    have hr : Exports Read.list (.record Shape.list
        [.array (Write.exprs items), .uint stray, Write.span s]) (.list items stray s) :=
      .record (by decide) rfl ⟨hi.encodable, hstray, hs.encodable, trivial⟩ fun n =>
        bind_upTo (hi.exprs n) (bind_upTo (flat (readNat_uint hstray))
          (bind_upTo (hs.span n) (flat rfl)))
    rw [Write.expr]
    exact hr.variant exprs_proper (by decide) fun r w hw => by rw [Read.expr, hw]; rfl
  | .map keyword pairs s, ⟨hn, hl, hp, hs⟩ => by
    have hn := name_exports hn
    have hp := (exprs_export pairs hp).array hl
    have hs := span_exports hs
    have hr : Exports Read.map (.record Shape.map
        [Write.name keyword, .array (Write.exprs pairs), Write.span s]) (.map keyword pairs s) :=
      .record (by decide) rfl ⟨hn.encodable, hp.encodable, hs.encodable, trivial⟩ fun n =>
        bind_upTo (hn.name n) (bind_upTo (hp.exprs n) (bind_upTo (hs.span n) (flat rfl)))
    rw [Write.expr]
    exact hr.variant exprs_proper (by decide) fun r w hw => by rw [Read.expr, hw]; rfl
  | .pair left right s, ⟨hl, hr, hs⟩ => by
    have hl := expr_exports left hl
    have hr := expr_exports right hr
    have hs := span_exports hs
    have hr : Exports Read.pair (.record Shape.pair
        [Write.expr left, Write.expr right, Write.span s]) (.pair left right s) :=
      .record (by decide) rfl ⟨hl.encodable, hr.encodable, hs.encodable, trivial⟩ fun n =>
        bind_upTo (hl.expr n) (bind_upTo (hr.expr n) (bind_upTo (hs.span n) (flat rfl)))
    rw [Write.expr]
    exact hr.variant exprs_proper (by decide) fun r w hw => by rw [Read.expr, hw]; rfl
  | .unary op operand s, ⟨ho, hs⟩ => by
    have ho := expr_exports operand ho
    have hs := span_exports hs
    have hr : Exports Read.unary (.record Shape.unary
        [Write.unit Shape.unaryOps op, Write.expr operand, Write.span s]) (.unary op operand s) :=
      .record (by decide) rfl
        ⟨unaryOps_tabled.encodable op, ho.encodable, hs.encodable, trivial⟩ fun n =>
          bind_upTo (flat (unaryOps_tabled.reads op)) (bind_upTo (ho.expr n)
            (bind_upTo (hs.span n) (flat rfl)))
    rw [Write.expr]
    exact hr.variant exprs_proper (by decide) fun r w hw => by rw [Read.expr, hw]; rfl
  | .binary op left right s, ⟨hl, hr, hs⟩ => by
    have hl := expr_exports left hl
    have hr := expr_exports right hr
    have hs := span_exports hs
    have hr : Exports Read.binary (.record Shape.binary [Write.unit Shape.binaryOps op,
        Write.expr left, Write.expr right, Write.span s]) (.binary op left right s) :=
      .record (by decide) rfl
        ⟨binaryOps_tabled.encodable op, hl.encodable, hr.encodable, hs.encodable, trivial⟩ fun n =>
          bind_upTo (flat (binaryOps_tabled.reads op)) (bind_upTo (hl.expr n)
            (bind_upTo (hr.expr n) (bind_upTo (hs.span n) (flat rfl))))
    rw [Write.expr]
    exact hr.variant exprs_proper (by decide) fun r w hw => by rw [Read.expr, hw]; rfl
  | .ternary condition yes no s, ⟨hc, hy, hn, hs⟩ => by
    have hc := expr_exports condition hc
    have hy := expr_exports yes hy
    have hn := expr_exports no hn
    have hs := span_exports hs
    have hr : Exports Read.ternary (.record Shape.ternary [Write.expr condition, Write.expr yes,
        Write.expr no, Write.span s]) (.ternary condition yes no s) :=
      .record (by decide) rfl
        ⟨hc.encodable, hy.encodable, hn.encodable, hs.encodable, trivial⟩ fun n =>
          bind_upTo (hc.expr n) (bind_upTo (hy.expr n) (bind_upTo (hn.expr n)
            (bind_upTo (hs.span n) (flat rfl))))
    rw [Write.expr]
    exact hr.variant exprs_proper (by decide) fun r w hw => by rw [Read.expr, hw]; rfl
  | .group inner s, ⟨hi, hs⟩ => by
    have hi := expr?_exports inner hi
    have hs := span_exports hs
    have hr : Exports Read.group (.record Shape.group [Write.expr? inner, Write.span s])
        (.group inner s) :=
      .record (by decide) rfl ⟨hi.encodable, hs.encodable, trivial⟩ fun n =>
        bind_upTo (hi.reads n) (bind_upTo (hs.span n) (flat rfl))
    rw [Write.expr]
    exact hr.variant exprs_proper (by decide) fun r w hw => by rw [Read.expr, hw]; rfl
  | .generic n index s, ⟨hn, hi, hs⟩ => by
    have hn := name_exports hn
    have hi := expr?_exports index hi
    have hs := span_exports hs
    have hr : Exports Read.generic (.record Shape.generic
        [Write.name n, Write.expr? index, Write.span s]) (.generic n index s) :=
      .record (by decide) rfl ⟨hn.encodable, hi.encodable, hs.encodable, trivial⟩ fun n =>
        bind_upTo (hn.name n) (bind_upTo (hi.reads n) (bind_upTo (hs.span n) (flat rfl)))
    rw [Write.expr]
    exact hr.variant exprs_proper (by decide) fun r w hw => by rw [Read.expr, hw]; rfl
  | .guid raw s, ⟨ht, hs⟩ => by
    have hs := span_exports hs
    have hr : Exports Read.guid (.record Shape.guid [.text raw, Write.span s]) (.guid raw s) :=
      .record (by decide) rfl ⟨encodable_text ht, hs.encodable, trivial⟩ fun n =>
        bind_upTo (flat (readText_text _)) (bind_upTo (hs.span n) (flat rfl))
    rw [Write.expr]
    exact hr.variant exprs_proper (by decide) fun r w hw => by rw [Read.expr, hw]; rfl
  | .reference x, h => by
    rw [Write.expr]
    exact ((reference_exports x h).map Expr.reference).variant exprs_proper (by decide)
      fun r w hw => by rw [Read.expr, hw]; rfl
  | .assignment a, h => by
    rw [Write.expr]
    exact ((assignment_exports a h).map Expr.assignment).variant exprs_proper (by decide)
      fun r w hw => by rw [Read.expr, hw]; rfl
  | .visibility x, h => by
    rw [Write.expr]
    exact ((visibility_exports x h).map Expr.visibility).variant exprs_proper (by decide)
      fun r w hw => by rw [Read.expr, hw]; rfl
  | .error e, h => by
    rw [Write.expr]
    exact ((error_exports h).map Expr.error).variant exprs_proper (by decide)
      fun r w hw => by rw [Read.expr, hw]; rfl

/-- So are several. -/
theorem exprs_export : ∀ (es : List Expr), ExprsInRange es →
    ExportsAll Readers.expr (Write.exprs es) es
  | [], _ => .nil
  | e :: es, ⟨h, hs⟩ => .cons (expr_exports e h) (exprs_export es hs) rfl fun _ _ => rfl

/-- So is one that may be missing. -/
theorem expr?_exports : ∀ (e : Option Expr), InRange? e →
    ExportsOption Readers.expr (Write.expr? e) e
  | none, _ => .none
  | some e, h => (expr_exports e h).toOption (expr_exports e h).expr

/-- A reference is read back. -/
theorem reference_exports : ∀ (x : Reference), x.InRange →
    Exports Read.reference (Write.reference x) x
  | ⟨scope, segments, s⟩, ⟨hl, hg, hs⟩ => by
    have hg := (segments_export segments hg).array hl
    have hs := span_exports hs
    rw [Write.reference]
    exact .record (by decide) rfl
      ⟨scopes_tabled.encodable scope, hg.encodable, hs.encodable, trivial⟩ fun n =>
        bind_upTo (flat (scopes_tabled.reads scope)) (bind_upTo (hg.segments n)
          (bind_upTo (hs.span n) (flat rfl)))

/-- So are its segments. -/
theorem segments_export : ∀ (xs : List Segment), SegmentsInRange xs →
    ExportsAll Readers.segment (Write.segments xs) xs
  | [], _ => .nil
  | x :: xs, ⟨h, hs⟩ => .cons (segment_exports x h) (segments_export xs hs) rfl fun _ _ => rfl

/-- So is one of them. -/
theorem segment_exports : ∀ (x : Segment), x.InRange → Exports Read.segment (Write.segment x) x
  | .name n kind, h => by
    have hn := name_exports h
    have hr : Exports Read.segmentName (.record Shape.segmentName
        [Write.name n, Write.unit Shape.segmentKinds kind]) (.name n kind) :=
      .record (by decide) rfl ⟨hn.encodable, segmentKinds_tabled.encodable kind, trivial⟩ fun n =>
        bind_upTo (hn.name n) (bind_upTo (flat (segmentKinds_tabled.reads kind)) (flat rfl))
    rw [Write.segment]
    exact hr.variant segments_proper (by decide) fun r w hw => by rw [Read.segment, hw]; rfl
  | .index e, h => by
    rw [Write.segment]
    exact ((expr_exports e h).map Segment.index).variant segments_proper (by decide)
      fun r w hw => by rw [Read.segment, hw]; rfl

/-- An assignment is read back. -/
theorem assignment_exports : ∀ (a : Assignment), a.InRange →
    Exports Read.assignment (Write.assignment a) a
  | ⟨n, value, s⟩, ⟨hn, hv, hs⟩ => by
    have hn := name_exports hn
    have hv := expr_exports value hv
    have hs := span_exports hs
    rw [Write.assignment]
    exact .record (by decide) rfl ⟨hn.encodable, hv.encodable, hs.encodable, trivial⟩ fun n =>
      bind_upTo (hn.name n) (bind_upTo (hv.expr n) (bind_upTo (hs.span n) (flat rfl)))

/-- So is a declaration. -/
theorem declaration_exports : ∀ (d : Declaration), d.InRange →
    Exports Read.declaration (Write.declaration d) d
  | .assignment a, h => by
    rw [Write.declaration]
    exact ((assignment_exports a h).map Declaration.assignment).variant declarations_proper
      (by decide) fun r w hw => by rw [Read.declaration, hw]; rfl
  | .template t, h => by
    rw [Write.declaration]
    exact ((template_exports t h).map Declaration.template).variant declarations_proper (by decide)
      fun r w hw => by rw [Read.declaration, hw]; rfl

/-- So is one behind a modifier. -/
theorem visibility_exports : ∀ (x : Visibility), x.InRange →
    Exports Read.visibility (Write.visibility x) x
  | ⟨modifier, keyword, declaration, s⟩, ⟨hk, hd, hs⟩ => by
    have hk := name_exports hk
    have hd := declaration_exports declaration hd
    have hs := span_exports hs
    rw [Write.visibility]
    exact .record (by decide) rfl
      ⟨modifiers_tabled.encodable modifier, hk.encodable, hd.encodable, hs.encodable, trivial⟩
      fun n => bind_upTo (flat (modifiers_tabled.reads modifier)) (bind_upTo (hk.name n)
        (bind_upTo (hd.declaration n) (bind_upTo (hs.span n) (flat rfl))))

/-- So is a template. -/
theorem template_exports : ∀ (t : Template), t.InRange → Exports Read.template (Write.template t) t
  | ⟨n, params, body, s⟩, ⟨hn, hl, hp, hb, hs⟩ => by
    have hn := name_exports hn
    have hp := (members_export params hp).array hl
    have hb := object_exports body hb
    have hs := span_exports hs
    rw [Write.template]
    exact .record (by decide) rfl
      ⟨hn.encodable, hp.encodable, hb.encodable, hs.encodable, trivial⟩ fun n =>
        bind_upTo (hn.name n) (bind_upTo (hp.members n) (bind_upTo (hb.object n)
          (bind_upTo (hs.span n) (flat rfl))))

/-- So are several members. -/
theorem members_export : ∀ (ms : List Member), MembersInRange ms →
    ExportsAll Readers.member (Write.members ms) ms
  | [], _ => .nil
  | m :: ms, ⟨h, hs⟩ => .cons (member_exports m h) (members_export ms hs) rfl fun _ _ => rfl

/-- So is one of them. -/
theorem member_exports : ∀ (m : Member), m.InRange → Exports Read.member (Write.member m) m
  | ⟨n, type, value, legacyColon, s⟩, ⟨hn, ht, hv, hs⟩ => by
    have hn := name_exports hn
    have ht : ExportsOption Readers.type (.option Write.type type) type := by
      cases type with
      | none => exact .none
      | some t => exact (type_exports t (ht t rfl)).toOption (type_exports t (ht t rfl)).type
    have hv := expr?_exports value hv
    have hs := span_exports hs
    rw [Write.member]
    exact .record (by decide) rfl
      ⟨hn.encodable, ht.encodable, hv.encodable, trivial, hs.encodable, trivial⟩ fun n =>
        bind_upTo (hn.name n) (bind_upTo (ht.reads n) (bind_upTo (hv.reads n)
          (bind_upTo (flat (readBool_bool legacyColon)) (bind_upTo (hs.span n) (flat rfl)))))

/-- So is an entry. -/
theorem entry_exports : ∀ (e : Entry), e.InRange → Exports Read.entry (Write.entry e) e
  | .member m, h => by
    rw [Write.entry]
    exact ((member_exports m h).map Entry.member).variant entries_proper (by decide)
      fun r w hw => by rw [Read.entry, hw]; rfl
  | .assignment a, h => by
    rw [Write.entry]
    exact ((assignment_exports a h).map Entry.assignment).variant entries_proper (by decide)
      fun r w hw => by rw [Read.entry, hw]; rfl
  | .visibility x, h => by
    rw [Write.entry]
    exact ((visibility_exports x h).map Entry.visibility).variant entries_proper (by decide)
      fun r w hw => by rw [Read.entry, hw]; rfl
  | .reference x, h => by
    rw [Write.entry]
    exact ((reference_exports x h).map Entry.reference).variant entries_proper (by decide)
      fun r w hw => by rw [Read.entry, hw]; rfl
  | .error e, h => by
    rw [Write.entry]
    exact ((error_exports h).map Entry.error).variant entries_proper (by decide)
      fun r w hw => by rw [Read.entry, hw]; rfl

/-- So are several. -/
theorem entries_export : ∀ (es : List Entry), EntriesInRange es →
    ExportsAll Readers.entry (Write.entries es) es
  | [], _ => .nil
  | e :: es, ⟨h, hs⟩ => .cons (entry_exports e h) (entries_export es hs) rfl fun _ _ => rfl

/-- So is an object. -/
theorem object_exports : ∀ (o : Object), o.InRange → Exports Read.object (Write.object o) o
  | ⟨n, entries, s⟩, ⟨hn, hl, he, hs⟩ => by
    have hn := name_exports hn
    have he := (entries_export entries he).array hl
    have hs := span_exports hs
    rw [Write.object]
    exact .record (by decide) rfl ⟨hn.encodable, he.encodable, hs.encodable, trivial⟩ fun n =>
      bind_upTo (hn.name n) (bind_upTo (he.entries n) (bind_upTo (hs.span n) (flat rfl)))

end

/-! ### Documents -/

/-- So is an unnamed object. -/
theorem unnamed_exports {u : Unnamed} (ho : u.object.InRange) (hs : u.span.InRange) :
    Exports Read.unnamed (.record Shape.unnamed [Write.object u.object, Write.span u.span]) u :=
  have ho := object_exports u.object ho
  have hs := span_exports hs
  .record (by decide) rfl ⟨ho.encodable, hs.encodable, trivial⟩ fun n =>
    bind_upTo (ho.object n) (bind_upTo (hs.span n) (flat rfl))

/-- So is an item. -/
theorem item_exports (i : Item) (h : i.InRange) : Exports Read.item (Write.item i) i := by
  cases i with
  | assignment a =>
    exact ((assignment_exports a h).map Item.assignment).variant items_proper (by decide)
      fun r w hw => by rw [Read.item, hw]; rfl
  | visibility x =>
    exact ((visibility_exports x h).map Item.visibility).variant items_proper (by decide)
      fun r w hw => by rw [Read.item, hw]; rfl
  | template t =>
    exact ((template_exports t h).map Item.template).variant items_proper (by decide)
      fun r w hw => by rw [Read.item, hw]; rfl
  | unnamed u =>
    exact ((unnamed_exports h.1 h.2).map Item.unnamed).variant items_proper (by decide)
      fun r w hw => by rw [Read.item, hw]; rfl
  | member m =>
    exact ((member_exports m h).map Item.member).variant items_proper (by decide)
      fun r w hw => by rw [Read.item, hw]; rfl
  | expr e =>
    exact ((expr_exports e h).map Item.expr).variant items_proper (by decide)
      fun r w hw => by rw [Read.item, hw]; rfl
  | error e =>
    exact ((error_exports h).map Item.error).variant items_proper (by decide)
      fun r w hw => by rw [Read.item, hw]; rfl

/-- Nodes export together if each of them does. -/
theorem ExportsAll.of_forall {item : Readers → Value → Option α} {write : α → Value}
    {as : List α} (bottom : ∀ v, item .bottom v = none) (above : ∀ n r, item (.above n r) = read r)
    (h : ∀ a ∈ as, Exports read (write a) a) : ExportsAll item (as.map write) as := by
  induction as with
  | nil => exact .nil
  | cons a as ih =>
    exact .cons (h a (List.mem_cons_self ..)) (ih fun b hb => h b (List.mem_cons_of_mem a hb))
      (bottom _) above

/-- So is a document. -/
theorem document_exports {d : Document} (h : d.InRange) :
    Exports Read.document (Write.document d) d :=
  have hi : ExportsAll Readers.item (d.items.map Write.item) d.items :=
    .of_forall (fun _ => rfl) (fun _ _ => rfl) fun i hi => item_exports i (h.items i hi)
  have hi := hi.array h.length
  have hs := span_exports h.span
  .record (by decide) rfl ⟨hi.encodable, hs.encodable, trivial⟩ fun n =>
    bind_upTo (hi.items n) (bind_upTo (hs.span n) (flat rfl))

/-- So is a diagnostic. -/
theorem diagnostic_exports {d : Diagnostic} (h : d.InRange) :
    Exports Read.diagnostic (Write.diagnostic d) d :=
  have hs := span_exports h.span
  .record (by decide) rfl ⟨hs.encodable, encodable_text h.message,
    diagnosticKinds_tabled.encodable d.kind, trivial⟩ fun n =>
      bind_upTo (hs.span n) (bind_upTo (flat (readText_text _))
        (bind_upTo (flat (diagnosticKinds_tabled.reads d.kind)) (flat rfl)))

/-- So is what parsing returns as a whole. -/
theorem parsed_exports {p : Parsed} (h : p.InRange) : Exports Read.parsed (Write.parsed p) p :=
  have hd := document_exports h.document
  have hds : ExportsAll Readers.diagnostic (p.diagnostics.map Write.diagnostic) p.diagnostics :=
    .of_forall (fun _ => rfl) (fun _ _ => rfl) fun d hd => diagnostic_exports (h.diagnostics d hd)
  have hds := hds.array h.length
  .record (by decide) rfl ⟨hd.encodable, hds.encodable, trivial⟩ fun n =>
    bind_upTo (hd.document n) (bind_upTo (hds.diagnostics n) (flat rfl))

/-- The number of levels that records and lists are nested in the export of a parsed source. -/
def levels (p : Parsed) : Nat := (Write.parsed p).levels

/-- What the reader makes of an export, whatever follows it. -/
theorem ofBytes?_toBytes {p : Parsed} (h : p.InRange) (junk : Bytes) :
    ofBytes? (toBytes p ++ junk) = upTo maxLevels (levels p) p := by
  have hp := parsed_exports h
  rw [ofBytes?, toBytes, decode_encode hp.encodable]
  exact hp.reads (maxLevels - 1)

/-- **An export is read back exactly if its levels can be.**  What follows it makes no
difference. -/
theorem ofBytes_toBytes {p : Parsed} (h : p.InRange) (junk : Bytes) :
    ofBytes (toBytes p ++ junk) =
      if levels p ≤ maxLevels then .ok p else .error ⟨.serialization "not an export", none⟩ := by
  rw [ofBytes, ofBytes?_toBytes h]
  by_cases hl : levels p ≤ maxLevels
  · rw [upTo_of_le hl, if_pos hl]
  · rw [upTo_of_lt (Nat.lt_of_not_le hl), if_neg hl]

/-! ### Sums -/

/-- A sum of so many terms and one more, each operator inside the next one. -/
def sum : Nat → Expr
  | 0 => .nil Span.origin
  | n + 1 => .binary .add (sum n) (.nil Span.origin) Span.origin

/-- A source that is a sum. -/
def sumSource (n : Nat) : Parsed := ⟨⟨[.expr (sum n)], Span.origin⟩, []⟩

/-- The front of a source fits. -/
theorem origin_inRange : Span.origin.InRange := ⟨by decide, by decide, by decide, by decide⟩

/-- A sum fits, however long. -/
theorem sum_inRange (n : Nat) : (sum n).InRange := by
  induction n with
  | zero => exact origin_inRange
  | succ n ih => exact ⟨ih, origin_inRange, origin_inRange⟩

/-- So does the source of one sum. -/
theorem sumSource_inRange (n : Nat) : (sumSource n).InRange where
  document := ⟨(show 1 < 0x100000000 by decide),
    fun i hi => List.mem_singleton.1 hi ▸ sum_inRange n, origin_inRange⟩
  length := show 0 < 0x100000000 by decide
  diagnostics d hd := absurd hd List.not_mem_nil

/-- A sum of two terms, with a byte behind its export. -/
theorem ofBytes_toBytes_sum : (sumSource 1).InRange ∧
    ofBytes (toBytes (sumSource 1) ++ [0]) = .ok (sumSource 1) :=
  ⟨sumSource_inRange 1, (ofBytes_toBytes (sumSource_inRange 1) [0]).trans (if_pos (by decide))⟩

/-! ### Cuts -/

/-- **An export that is cut short is no export**, be the cut in a header, in a text or between two
fields of a record. -/
theorem ofBytes_cut {p : Parsed} (h : p.InRange) {bytes : Bytes} (hb : bytes <+: toBytes p)
    (hne : bytes ≠ toBytes p) : ofBytes bytes = .error ⟨.serialization "not an export", none⟩ := by
  rw [ofBytes, ofBytes?, decode_cut (parsed_exports h).encodable hb hne]
  rfl

/-- Without its last byte an export is none. -/
theorem ofBytes_cut_sum : (sumSource 1).InRange ∧
    (toBytes (sumSource 1)).dropLast <+: toBytes (sumSource 1) ∧
    (toBytes (sumSource 1)).dropLast ≠ toBytes (sumSource 1) ∧
    ofBytes (toBytes (sumSource 1)).dropLast = .error ⟨.serialization "not an export", none⟩ :=
  have hne : (toBytes (sumSource 1)).dropLast ≠ toBytes (sumSource 1) := by decide +kernel
  ⟨sumSource_inRange 1, List.dropLast_prefix _, hne,
    ofBytes_cut (sumSource_inRange 1) (List.dropLast_prefix _) hne⟩

/-! ### How deep a sum is -/

/-- A span opens one level. -/
theorem levels_span (s : Span) : (Write.span s).levels = 1 := by
  rw [Write.span, levels_record rfl (by simp)]
  rfl

/-- A sum opens as many levels as it has signs, and one. -/
theorem levels_sum (n : Nat) : (Write.expr (sum n)).levels = n + 1 := by
  induction n with
  | zero => simp [sum, Write.expr, levels_span]
  | succ n ih =>
    rw [sum, Write.expr, levels_variant, levels_record rfl (by simp)]
    simp [ih, Write.expr, levels_span]

/-- **A sum is exported as deep as it has terms.** -/
theorem levels_sumSource (n : Nat) : levels (sumSource n) = n + 4 := by
  simp [levels, sumSource, Write.parsed, Write.document, levels_record, Shape.parsed,
    Shape.document, levels_span, Write.item, levels_sum]

/-- Not every parsed source that fits the format is read back: a sum of 1022 terms is not. -/
theorem exists_unread :
    ∃ p : Parsed, p.InRange ∧ ∀ junk, ofBytes (toBytes p ++ junk) ≠ .ok p := by
  refine ⟨sumSource 1021, sumSource_inRange 1021, fun junk => ?_⟩
  have hl : maxLevels < levels (sumSource 1021) := by
    rw [levels_sumSource]
    decide
  rw [ofBytes, ofBytes?_toBytes (sumSource_inRange 1021), upTo_of_lt hl]
  simp

end Export
end Ndf
