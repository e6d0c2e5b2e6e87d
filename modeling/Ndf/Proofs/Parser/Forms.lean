/-
# How simple forms are read

The runs of the grammar over declarations, members, objects and literals whose values are read as
the level below says.  Each lemma takes the kinds of the tokens that tell the form and the run over
the value, and gives the run over the whole with the node that comes back; its span is that of the
tokens (`Token.across`).

What starts at a word is settled by the token behind it: in front of a sign it starts no
declaration (`Lookahead.Signed`).
-/

import Ndf.Proofs.Parser.Reads
import Ndf.Proofs.Parser.Scans
import Ndf.Proofs.Token.Piece

namespace Ndf

namespace Lookahead

variable {t u : Token} {ts : List Token}

/-- In front of `is` a word starts a declaration, unless another `is` follows. -/
theorem startsAssignment_cons (ht : t.kind.isWord = true) (hu : u.kind.keyword? = some .is)
    (hts : ∀ v ∈ ts.head?, v.kind.keyword? ≠ some .is) :
    startsAssignment (t :: u :: ts) 0 = true := by
  have h0 : isWord (t :: u :: ts) 0 = true := ht
  have h1 : isKeyword (t :: u :: ts) 1 .is = true := beq_iff_eq.2 hu
  have h2 : isKeyword (t :: u :: ts) 2 .is = false := by
    cases ts with
    | nil => rfl
    | cons v ts => exact beq_false_of_ne (hts v rfl)
  rw [startsAssignment, h0, h1, h2]
  rfl

/-- What follows the next token is no word. -/
def Signed (ts : List Token) : Prop := isWord ts 1 = false

namespace Signed

/-- In front of a sign no assignment starts. -/
theorem assignment (h : Signed ts) : startsAssignment ts 0 = false := by
  rw [startsAssignment, isKeyword_of_not_isWord h, Bool.and_false, Bool.false_and]

/-- Nor does a template. -/
theorem template (h : Signed ts) : startsTemplate ts 0 = false := by
  rw [startsTemplate, h, Bool.and_false, Bool.false_and]

/-- Nor does an unnamed object. -/
theorem unnamed (h : Signed ts) : startsUnnamed ts 0 = false := by
  rw [startsUnnamed, h, Bool.and_false, Bool.false_and]

/-- Nor does a declaration behind a modifier. -/
theorem visibility (h : Signed ts) : startsVisibility ts 0 = false := by
  rw [startsVisibility, startsAssignment, startsTemplate, h, isKeyword_of_not_isWord h,
    Bool.false_and, Bool.false_and, Bool.false_and, Bool.false_and, Bool.or_false, Bool.and_false]

/-- Nor is there a modifier with a word behind it. -/
theorem modifier (h : Signed ts) : (isModifier ts 0 && isWord ts 1) = false := by
  rw [h, Bool.and_false]

end Signed

/-- A word and an equals sign start a member. -/
theorem startsMember_eq (ht : t.kind.isWord = true) (hu : u.kind = .eq) :
    startsMember (t :: u :: ts) 0 = true := by
  have h0 : isWord (t :: u :: ts) 0 = true := ht
  have h1 : isKind (t :: u :: ts) 1 .eq = true := beq_iff_eq.2 (congrArg some hu)
  rw [startsMember, h0, h1]
  rfl

/-- A word starts none in front of any other token. -/
theorem startsMember_other (h : ∀ u ∈ ts.head?, u.kind ≠ .eq ∧ u.kind ≠ .colon) :
    startsMember (t :: ts) 0 = false := by
  have key (kind : TokenKind) (hk : ∀ u ∈ ts.head?, u.kind ≠ kind) :
      isKind (t :: ts) 1 kind = false := by
    cases ts with
    | nil => rfl
    | cons u ts => exact beq_false_of_ne fun he => hk u rfl (Option.some.inj he)
  rw [startsMember, key .eq fun u hu => (h u hu).1, key .colon fun u hu => (h u hu).2,
    Bool.false_and, Bool.or_false, Bool.and_false]

end Lookahead

namespace Parser

variable {src : Source} {g : Grammar} {c d : Cursor} {e : Expr} {ds : List Diagnostic}
  {t u v : Token} {ts us vs : List Token}

/-- What is read over some tokens has their span. -/
theorem upTo_across (h : c.rest = us ++ ts) (hne : us ≠ []) :
    (Mark.here src c).upTo (c.beyond us) = Token.across us := by
  have hf := List.head?_eq_some_head hne
  have hl := List.getLast?_eq_some_getLast hne
  rw [upTo_beyond h hf hl, Token.across, hf, hl]

/-! ### Operands -/

/-- A mark is set where reading stands. -/
theorem mark_bind {α : Type} (f : Mark → Parser α) :
    (mark >>= f) src c = f (Mark.here src c) src c := rfl

/-- Without a sign in front an operand is read as it is. -/
theorem unary_other (h1 : (c.rest.headD src.stop).kind ≠ .minus)
    (h2 : (c.rest.headD src.stop).kind ≠ .bang) : unary g src c = primary g src c := by
  rw [unary, mark_bind, peek_bind]
  cases hk : (c.rest.headD src.stop).kind with
  | minus => exact absurd hk h1
  | bang => exact absurd hk h2
  | _ => rfl

/-- A number is read as it is. -/
theorem Reads.number {kind : NumberKind} {text : String} (h : c.rest = t :: ts)
    (hk : t.kind = .number kind text) :
    Reads src (unary g) c (.number kind text t.span) (c.beyond [t]) [] := by
  have hd : (c.rest.headD src.stop).kind = .number kind text := by rw [headD_of_rest h, hk]
  refine .congr (unary_other (by rw [hd]; simp) (by rw [hd]; simp)) (.peek ?_)
  rw [headD_of_rest h]
  simp only [hk]
  exact .bind (.bump h) (.pure _)

/-- So is a string. -/
theorem Reads.string {quote : Quote} {raw : String} (h : c.rest = t :: ts)
    (hk : t.kind = .string quote raw) :
    Reads src (unary g) c (.string quote raw t.span) (c.beyond [t]) [] := by
  have hd : (c.rest.headD src.stop).kind = .string quote raw := by rw [headD_of_rest h, hk]
  refine .congr (unary_other (by rw [hd]; simp) (by rw [hd]; simp)) (.peek ?_)
  rw [headD_of_rest h]
  simp only [hk]
  exact .bind (.bump h) (.pure _)

/-- An operand without an operator behind it is a whole expression. -/
theorem Reads.expression (hg : Advancing g) (he : src.Ended) (hu : Reads src (unary g) c e d ds)
    (ho : operator? d.rest = none) : Reads src (expression g) c e d ds := by
  have hright (rank : Nat) : Steady (climb g 5 rank) := climb_steady hg 5 rank
  have hstep : Reads src (operation g (climb g 5) 0 (Mark.here src c) e) d (.inr e) d [] := by
    refine .ahead ?_
    rw [ho]
    exact .pure _
  exact .mark (hu.then (.loop_end (operation_advances hg hright 0 _) he hstep))

/-- An operand without an operator behind it is an expression. -/
theorem Reads.above_expr (hg : Advancing g) (he : src.Ended) (hd : c.depth < maxNesting)
    (hu : Reads src (unary g) c.down e (c.down.beyond us) ds)
    (ho : operator? (c.beyond us).rest = none) :
    Reads src (Grammar.above g).expr c e (c.beyond us) ds :=
  .nested hd (.expression hg he hu ho)

/-- And an operand one level up. -/
theorem Reads.above_operand (hd : c.depth < maxNesting)
    (hu : Reads src (unary g) c.down e (c.down.beyond us) ds) :
    Reads src (Grammar.above g).operand c e (c.beyond us) ds :=
  .nested hd hu

/-! ### Declarations and members -/

/-- A name, `is` and a value are read as an assignment. -/
theorem Reads.assignment {text : String} {wordClass : WordClass} (h : c.rest = t :: u :: (us ++ ts))
    (ht : t.kind = .word text wordClass) (hu : u.kind.keyword? = some .is)
    (hv : Reads src g.expr (c.beyond [t, u]) e (c.beyond (t :: u :: us)) ds) :
    Reads src (assignment g) c ⟨⟨text, t.span⟩, e, Token.across (t :: u :: us)⟩
      (c.beyond (t :: u :: us)) ds := by
  have hspan : (Mark.here src c).upTo (c.beyond (t :: u :: us)) = Token.across (t :: u :: us) :=
    upTo_across h (List.cons_ne_nil _ _)
  refine .mark (.bind (.name h ht _) (.bind (.expectKeyword (Cursor.rest_beyond h) hu) ?_))
  rw [← Cursor.beyond_append]
  exact hv.then (.close hspan _)

/-- A declaration without a value. -/
theorem Fails.assignment {text : String} {wordClass : WordClass} (h : c.rest = t :: u :: ts)
    (ht : t.kind = .word text wordClass) (hu : u.kind.keyword? = some .is)
    (hv : Fails src g.expr (c.beyond [t, u]) d ds) : Fails src (assignment g) c d ds := by
  refine .mark (Reads.fails (.name h ht _)
    (Reads.fails (.expectKeyword (Cursor.rest_beyond h) hu) ?_))
  rw [← Cursor.beyond_append]
  exact hv.bind _

/-- A member with a value alone. -/
theorem Reads.member_valued {text : String} {wordClass : WordClass} (h : c.rest = t :: u :: ts)
    (ht : t.kind = .word text wordClass) (hu : u.kind = .eq)
    (he : Reads src g.expr (c.beyond [t, u]) e d ds) :
    Reads src (member g) c
      ⟨⟨text, t.span⟩, none, some e, false, (Mark.here src c).upTo d⟩ d ds := by
  have hrest : (c.beyond [t]).rest = u :: ts := Cursor.rest_beyond h
  rw [Cursor.beyond_cons] at he
  refine .mark (.bind (.name h ht _) (.bind (.eat_other ?_) (.ite_neg (by simp)
    (.bind (.expect hrest hu _) (he.then (.close rfl _))))))
  rw [headD_of_rest hrest, hu]
  nofun

/-- A name, an equals sign and a value are read as a member. -/
theorem Reads.member {text : String} {wordClass : WordClass} (h : c.rest = t :: u :: (us ++ ts))
    (ht : t.kind = .word text wordClass) (hu : u.kind = .eq)
    (hv : Reads src g.expr (c.beyond [t, u]) e (c.beyond (t :: u :: us)) ds) :
    Reads src (member g) c ⟨⟨text, t.span⟩, none, some e, false, Token.across (t :: u :: us)⟩
      (c.beyond (t :: u :: us)) ds := by
  rw [← upTo_across h (List.cons_ne_nil _ _)]
  exact .member_valued h ht hu hv

/-- A member without a value. -/
theorem Fails.member {text : String} {wordClass : WordClass} (h : c.rest = t :: u :: ts)
    (ht : t.kind = .word text wordClass) (hu : u.kind = .eq)
    (hv : Fails src g.expr (c.beyond [t, u]) d ds) : Fails src (member g) c d ds := by
  have hrest : (c.beyond [t]).rest = u :: ts := Cursor.rest_beyond h
  refine .mark (Reads.fails (.name h ht _) (Reads.fails (.eat_other ?_)
    (.ite_neg (by simp) (Reads.fails (.expect hrest hu _) ?_))))
  · rw [headD_of_rest hrest, hu]
    simp
  · rw [← Cursor.beyond_append]
    exact hv.bind _

/-! ### Items and entries -/

/-- An assignment is read as an item. -/
theorem Reads.item_assignment {a : Assignment} (h : Lookahead.startsAssignment c.rest 0 = true)
    (ha : Reads src (Parser.assignment g) c a d ds) : Reads src (item g) c (.assignment a) d ds :=
  .ahead (.ite_pos h (ha.map _))

/-- An assignment that fails fails as an item. -/
theorem Fails.item_assignment (h : Lookahead.startsAssignment c.rest 0 = true)
    (ha : Fails src (Parser.assignment g) c d ds) : Fails src (item g) c d ds := by
  refine .ahead ?_
  rw [if_pos h]
  exact ha.map _

/-- An expression is read as an item where nothing else starts. -/
theorem Reads.item_expr (hs : Lookahead.Signed c.rest)
    (h : Lookahead.startsMember c.rest 0 = false) (he : Reads src g.expr c e d ds) :
    Reads src (item g) c (Item.ofExpr e) d ds :=
  .ahead (.ite_neg (by simp [hs.assignment]) (.ite_neg (by simp [hs.modifier])
    (.ite_neg (by simp [hs.template]) (.ite_neg (by simp [hs.unnamed])
      (.ite_neg (by simp [h]) (he.map _))))))

/-- A member is read as an entry. -/
theorem Reads.entry_member {body : Parser Object} {m : Member} (hs : Lookahead.Signed c.rest)
    (h : Lookahead.startsMember c.rest 0 = true) (hm : Reads src (Parser.member g) c m d ds) :
    Reads src (entry g body) c (.member m) d ds :=
  .ahead (.ite_neg (by simp [hs.assignment]) (.ite_neg (by simp [hs.visibility])
    (.ite_pos h (hm.map _))))

/-- A member that fails fails as an entry. -/
theorem Fails.entry_member {body : Parser Object} (hs : Lookahead.Signed c.rest)
    (h : Lookahead.startsMember c.rest 0 = true) (hm : Fails src (Parser.member g) c d ds) :
    Fails src (entry g body) c d ds := by
  refine .ahead ?_
  rw [if_neg (by simp [hs.assignment]), if_neg (by simp [hs.visibility]), if_pos h]
  exact hm.map _

/-- An item that is read as it stands. -/
theorem Reads.itemOrError {i : Item} (hi : Reads src (item g) c i d ds) :
    Reads src (itemOrError g) c i d ds :=
  .mark ((hi.orRecover _).then (.bind (.emit _) (.pure _)))

/-- Reading an item more. -/
theorem Reads.nextItem {i : Item} {read : List Item} (h : c.rest ≠ [])
    (hi : Reads src (Parser.itemOrError g) c i d ds) :
    Reads src (nextItem g read) c (.inl (i :: read)) d ds :=
  .congr (nextItem_cons h read) (hi.then (.pure _))

/-- Where no token is left, the items read are returned. -/
theorem Reads.lastItem {read : List Item} (h : c.rest = []) :
    Reads src (Parser.nextItem g read) c (.inr (some read.reverse)) c [] := by
  exact ⟨by rw [nextItem_nil h], by rw [nextItem_nil h], fun _ => by rw [nextItem_nil h]; rfl⟩

/-- A document of one item. -/
theorem Reads.onlyItem (hg : Advancing g) (he : src.Ended) {i : Item} (h : c.rest ≠ [])
    (hi : Reads src (Parser.itemOrError g) c i d ds) (hd : d.rest = []) :
    Reads src (loop (Parser.nextItem g) []) c (some [i]) d ds := by
  have hfirst : Reads src (Parser.nextItem g []) c (.inl [i]) d ds := .nextItem h hi
  have := hfirst.loop_next (nextItem_advances hg) he
    (.loop_end (nextItem_advances hg) he (.lastItem hd))
  rwa [List.append_nil] at this

/-- Reading an entry more that starts with a word. -/
theorem Reads.nextEntry {body : Parser Object} {text : String} {wordClass : WordClass} {a : Entry}
    (h : c.rest = t :: ts) (ht : t.kind = .word text wordClass) (read : List Entry)
    (he : Reads src (Parser.orRecover (entry g body)
      (Entry.error <$> recoverEntry (Mark.here src c))) c a d ds) :
    Reads src (entryStep g body read) c (.inl (a :: read)) d ds := by
  refine .peek ?_
  rw [headD_of_rest h, ht]
  exact .mark (he.then (.pure _))

/-- The closing parenthesis of an object. -/
theorem Reads.lastEntry {body : Parser Object} (h : c.rest = t :: ts) (ht : t.kind = .rparen)
    (read : List Entry) :
    Reads src (entryStep g body read) c (.inr read.reverse) (c.beyond [t]) [] := by
  refine .peek ?_
  rw [headD_of_rest h, ht]
  exact .bind (.bump h) (.pure _)

/-- The entries of an object. -/
theorem Reads.object (hg : Advancing g) (he : src.Ended) {text : String} {wordClass : WordClass}
    {entries : List Entry} (h : c.rest = t :: u :: (us ++ ts)) (ht : t.kind = .word text wordClass)
    (hu : u.kind = .lparen)
    (hv : Reads src (loop (entryStep g (object g)) []) (c.beyond [t, u]) entries
      (c.beyond (t :: u :: us)) ds) :
    Reads src (object g) c ⟨⟨text, t.span⟩, entries, Token.across (t :: u :: us)⟩
      (c.beyond (t :: u :: us)) ds := by
  have hspan : (Mark.here src c).upTo (c.beyond (t :: u :: us)) = Token.across (t :: u :: us) :=
    upTo_across h (List.cons_ne_nil _ _)
  refine .congr (object_eq hg he) (.mark (.bind (.name h ht _)
    (.bind (.expect (Cursor.rest_beyond h) hu _) ?_)))
  rw [← Cursor.beyond_append]
  exact hv.then (.close hspan _)

/-- A name in front of a parenthesis is an object. -/
theorem Reads.unary_object {text : String} {o : Object} (h : c.rest = t :: u :: ts)
    (ht : t.kind = .word text .name) (hu : u.kind = .lparen)
    (ho : Reads src (Parser.object g) c o d ds) : Reads src (unary g) c (.object o) d ds := by
  have hd : (c.rest.headD src.stop).kind = .word text .name := by rw [headD_of_rest h, ht]
  have hs : Lookahead.Signed c.rest := by
    rw [Lookahead.Signed, h]
    exact congrArg TokenKind.isWord hu
  have hp : Lookahead.isKind c.rest 1 .lparen = true := by
    rw [h]
    exact beq_iff_eq.2 (congrArg some hu)
  refine .congr (unary_other (by rw [hd]; simp) (by rw [hd]; simp)) (.peek ?_)
  simp only [hd]
  refine .ahead (.ite_neg (by simp [hs.assignment]) (.ite_neg (by simp [hs.visibility]) ?_))
  exact .ahead (.ite_pos hp (ho.map _))

/-! ### Documents -/

/-- What the items of a source are read as is its document. -/
theorem parse_of_reads {source : String} {stop : Token} {items : List Item}
    (hs : TokenStream.ofText source = ⟨ts, stop, []⟩)
    (h : Reads ⟨source.toList, stop⟩ (loop (Parser.nextItem (.levels maxNesting)) []) (.start ts)
      (some items) d ds) :
    parse source = ⟨Document.ofItems source items, Diagnostic.sort ds⟩ := by
  have hv : (readItems (fun _ => false) source ⟨ts, stop, []⟩).value = some (some items) := h.value
  have hn : Note.diagnostics false (readItems (fun _ => false) source ⟨ts, stop, []⟩).notes = ds :=
    h.found false
  rw [parse, hs, hv, problems, hn]
  rfl

/-- A source of one item. -/
theorem parse_of_item {source : String} {stop : Token} {i : Item}
    (hs : TokenStream.ofText source = ⟨ts, stop, []⟩) (he : stop.kind = .eof) (hne : ts ≠ [])
    (hi : Reads ⟨source.toList, stop⟩ (itemOrError (.levels maxNesting)) (.start ts) i d ds)
    (hd : d.rest = []) :
    parse source = ⟨Document.ofItems source [i], Diagnostic.sort ds⟩ :=
  have he : Source.Ended ⟨source.toList, stop⟩ := he
  parse_of_reads hs (.onlyItem (advancing_levels maxNesting) he hne hi hd)

end Parser
end Ndf
