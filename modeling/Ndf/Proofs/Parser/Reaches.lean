/-
# Where a cursor can get to

A parser moves a cursor by reading tokens and, behind a list of type parameters, by reading the
first half of a `>=`.  `Cursor.Passes c u d` says that the tokens `u` and nothing else are read
between `c` and `d`; `Cursor.Splits c d` says that `d` stands in the middle of a token, of which
an equals sign is left, and that something was read before it.  A cursor reaches another in one of
these two ways, and the ways compose (`Cursor.Reaches.trans`).

The cursor counts what it has read, a `>=` that was read in two halves twice, and it counts the
levels that are open.  What a parser opens it closes, so between `c` and `d` the levels are the
same (`Cursor.Reaches.depth`, `Cursor.Reaches.up`).
-/

import Ndf.Parser.Basic

namespace Ndf

/-- The second list is the first one with some `>=` in two halves. -/
inductive Halved : List Token → List Token → Prop where
  | nil : Halved [] []
  | whole (t : Token) {u v : List Token} : Halved u v → Halved (t :: u) (t :: v)
  | halves {t : Token} {u v : List Token} (kind : t.kind = .gtEq) :
    Halved u v → Halved (t :: u) (t.firstHalf :: t.secondHalf :: v)

namespace Halved

variable {u v u' v' : List Token}

/-- No token has no halves. -/
theorem of_nil (h : Halved [] v) : v = [] := by
  cases h
  rfl

/-- Halves behind halves. -/
theorem append (h : Halved u v) (h' : Halved u' v') : Halved (u ++ u') (v ++ v') := by
  induction h with
  | nil => exact h'
  | whole t _ ih => exact .whole t ih
  | halves kind _ ih => exact .halves kind ih

/-- With halves there are no fewer tokens. -/
theorem length_le (h : Halved u v) : u.length ≤ v.length := by
  induction h with
  | nil => exact Nat.le_refl _
  | whole t _ ih => simpa using ih
  | halves kind _ ih =>
    simp only [List.length_cons]
    omega

/-- Both lists end at the same place. -/
theorem getLast?_stop (h : Halved u v) :
    v.getLast?.map (·.span.stop) = u.getLast?.map (·.span.stop) := by
  induction h with
  | nil => rfl
  | @whole t u v h ih =>
    cases h with
    | nil => rfl
    | whole t h => simpa using ih
    | halves kind h => simpa using ih
  | @halves t u v kind h ih =>
    cases h with
    | nil => rfl
    | whole t h => simpa using ih
    | halves kind h => simpa using ih

end Halved

namespace Cursor

variable {c d e : Cursor} {u v : List Token}

/-- The span of the last token of what was read last. -/
def lastOf (c : Cursor) (v : List Token) : Span := (v.getLast?.map Token.span).getD c.last

/-- The last token of two lists is that of the second, if it has one. -/
theorem lastOf_append (h : d.last = c.lastOf u) (v : List Token) :
    d.lastOf v = c.lastOf (u ++ v) := by
  rw [lastOf, lastOf, List.getLast?_append, h, lastOf]
  cases v.getLast? with
  | none => simp
  | some t => simp

/-- Between two places the tokens `u` are read. -/
structure Passes (c : Cursor) (u : List Token) (d : Cursor) : Prop where
  rest : c.rest = u ++ d.rest
  read : ∃ v, Halved u v ∧ d.count = c.count + v.length ∧ d.last = c.lastOf v
  depth : d.depth = c.depth

/-- Between two places the tokens `u` are read, and then the first half of `t`. -/
structure SplitsAt (c : Cursor) (u : List Token) (t : Token) (ts : List Token) (d : Cursor) :
    Prop where
  nonempty : u ≠ []
  rest : c.rest = u ++ t :: ts
  behind : d.rest = t.secondHalf :: ts
  kind : t.kind = .gtEq
  read : ∃ v, Halved u v ∧ d.count = c.count + v.length + 1
  last : d.last = t.firstHalf.span
  depth : d.depth = c.depth

/-- Between two places some tokens are read and the first half of one more. -/
def Splits (c d : Cursor) : Prop := ∃ u t ts, c.SplitsAt u t ts d

/-- One place can be got to from another. -/
def Reaches (c d : Cursor) : Prop := (∃ u, c.Passes u d) ∨ c.Splits d

/-- No token lies between a place and itself. -/
theorem Passes.refl (c : Cursor) : c.Passes [] c := ⟨rfl, ⟨[], .nil, rfl, rfl⟩, rfl⟩

/-- Without a token read the place is the same. -/
theorem Passes.same (h : c.Passes u d) (hu : u = []) : d = c := by
  subst hu
  obtain ⟨v, hv, hcount, hlast⟩ := h.read
  obtain rfl := hv.of_nil
  have hrest := h.rest
  have hdepth := h.depth
  cases c
  cases d
  simp_all [lastOf]

/-- The same of no tokens at all. -/
theorem Passes.nil (h : c.Passes [] d) : d = c := h.same rfl

/-- Reading one token. -/
theorem Passes.one {t : Token} {ts : List Token} (h : c.rest = t :: ts) :
    c.Passes [t] ⟨ts, c.count + 1, t.span, c.depth⟩ :=
  ⟨h, ⟨[t], .whole t .nil, rfl, rfl⟩, rfl⟩

/-- Reading moves the cursor on, and the last token read is the last one passed. -/
theorem Passes.moved (h : c.Passes u d) (hu : u ≠ []) :
    c.count < d.count ∧ d.last.stop = (u.getLast hu).span.stop := by
  obtain ⟨v, hv, hcount, hlast⟩ := h.read
  have hle := hv.length_le
  have hpos := List.length_pos_iff.2 hu
  have hstop := hv.getLast?_stop
  have hne : v ≠ [] := List.length_pos_iff.1 (by omega)
  rw [List.getLast?_eq_some_getLast hu, List.getLast?_eq_some_getLast hne, Option.map_some,
    Option.map_some, Option.some.injEq] at hstop
  refine ⟨by omega, ?_⟩
  rw [hlast, lastOf, List.getLast?_eq_some_getLast hne, Option.map_some, Option.getD_some, hstop]

/-- Behind some tokens others are read. -/
theorem Passes.trans (h : c.Passes u d) (h' : d.Passes v e) : c.Passes (u ++ v) e := by
  obtain ⟨x, hx, hcount, hlast⟩ := h.read
  obtain ⟨y, hy, hcount', hlast'⟩ := h'.read
  refine ⟨by rw [h.rest, h'.rest, List.append_assoc], ⟨x ++ y, hx.append hy, ?_, ?_⟩,
    h'.depth.trans h.depth⟩
  · rw [hcount', hcount, List.length_append, Nat.add_assoc]
  · rw [hlast', lastOf_append hlast]

/-- Behind some tokens one can be split. -/
theorem Passes.splits (h : c.Passes u d) (h' : d.Splits e) : c.Splits e := by
  obtain ⟨v, t, ts, h'⟩ := h'
  obtain ⟨x, hx, hcount, -⟩ := h.read
  obtain ⟨y, hy, hcount'⟩ := h'.read
  refine ⟨u ++ v, t, ts, by simp [h'.nonempty], ?_, h'.behind, h'.kind, ⟨x ++ y, hx.append hy, ?_⟩,
    h'.last, h'.depth.trans h.depth⟩
  · rw [h.rest, h'.rest, List.append_assoc]
  · rw [hcount', hcount, List.length_append]
    omega

/-- Reading on from the middle of a token reads its second half first. -/
theorem Splits.passes (h : c.Splits d) (h' : d.Passes v e) (hv : v ≠ []) : ∃ u, c.Passes u e := by
  obtain ⟨u, t, ts, h⟩ := h
  obtain ⟨x, hx, hcount⟩ := h.read
  obtain ⟨y, hy, hcount', hlast'⟩ := h'.read
  obtain ⟨s, w, rfl⟩ := List.exists_cons_of_ne_nil hv
  have hs := h'.rest
  rw [h.behind, List.cons_append, List.cons.injEq] at hs
  obtain ⟨rfl, rfl⟩ := hs
  cases hy with
  | halves kind _ => cases kind
  | @whole _ _ y hy =>
    refine ⟨u ++ t :: w, by rw [h.rest, List.append_assoc]; rfl,
      ⟨x ++ t.firstHalf :: t.secondHalf :: y, hx.append (.halves h.kind hy), ?_, ?_⟩,
      h'.depth.trans h.depth⟩
    · rw [hcount', hcount]
      simp only [List.length_append, List.length_cons]
      omega
    · rw [hlast']
      simp [lastOf, List.getLast?_cons]

/-- Half a token counts as read. -/
theorem Splits.count_lt (h : c.Splits d) : c.count < d.count := by
  obtain ⟨u, t, ts, h⟩ := h
  obtain ⟨v, -, hcount⟩ := h.read
  omega

/-- It leaves fewer tokens, since one at least stands in front of it. -/
theorem Splits.length_lt (h : c.Splits d) : d.rest.length < c.rest.length := by
  obtain ⟨u, t, ts, h⟩ := h
  have := List.length_pos_iff.2 h.nonempty
  simp only [h.rest, h.behind, List.length_append, List.length_cons]
  omega

/-- In the middle of a token an equals sign comes next. -/
theorem Splits.head (h : c.Splits d) : ∃ t ts, d.rest = t :: ts ∧ t.kind = .eq := by
  obtain ⟨u, t, ts, h⟩ := h
  exact ⟨t.secondHalf, ts, h.behind, rfl⟩

/-- A second split lies behind the second half of the first. -/
theorem Splits.trans (h : c.Splits d) (h' : d.Splits e) : c.Splits e := by
  obtain ⟨u, t, ts, h⟩ := h
  obtain ⟨v, t', ts', h'⟩ := h'
  obtain ⟨x, hx, hcount⟩ := h.read
  obtain ⟨y, hy, hcount'⟩ := h'.read
  obtain ⟨s, w, rfl⟩ := List.exists_cons_of_ne_nil h'.nonempty
  have hs := h'.rest
  rw [h.behind, List.cons_append, List.cons.injEq] at hs
  obtain ⟨rfl, rfl⟩ := hs
  cases hy with
  | halves kind _ => cases kind
  | @whole _ _ y hy =>
    refine ⟨u ++ t :: w, t', ts', by simp, by rw [h.rest, List.append_assoc]; rfl, h'.behind,
      h'.kind,
      ⟨x ++ t.firstHalf :: t.secondHalf :: y, hx.append (.halves h.kind hy), ?_⟩, h'.last,
      h'.depth.trans h.depth⟩
    rw [hcount', hcount]
    simp only [List.length_append, List.length_cons]
    omega

/-- A place is got to from itself. -/
theorem Reaches.refl (c : Cursor) : c.Reaches c := .inl ⟨[], .refl c⟩

/-- A place is got to by whole tokens. -/
theorem Passes.reaches (h : c.Passes u d) : c.Reaches d := .inl ⟨u, h⟩

/-- Ways behind each other are one way. -/
theorem Reaches.trans (h : c.Reaches d) (h' : d.Reaches e) : c.Reaches e := by
  rcases h with ⟨u, h⟩ | h <;> rcases h' with ⟨v, h'⟩ | h'
  · exact (h.trans h').reaches
  · exact .inr (h.splits h')
  · by_cases hv : v = []
    · subst hv
      exact h'.nil ▸ .inr h
    · exact .inl (h.passes h' hv)
  · exact .inr (h.trans h')

/-- A token read leaves fewer. -/
theorem Passes.length_lt (h : c.Passes u d) (hu : u ≠ []) : d.rest.length < c.rest.length := by
  have := List.length_pos_iff.2 hu
  rw [h.rest, List.length_append]
  omega

/-- A cursor that moved has fewer tokens left; one that did not is where it was. -/
theorem Reaches.eq_or_lt (h : c.Reaches d) :
    d = c ∨ d.rest.length < c.rest.length ∧ c.count < d.count := by
  rcases h with ⟨u, h⟩ | h
  · by_cases hu : u = []
    · exact .inl (h.same hu)
    · exact .inr ⟨h.length_lt hu, (h.moved hu).1⟩
  · exact .inr ⟨h.length_lt, h.count_lt⟩

/-- Tokens are never given back. -/
theorem Reaches.length_le (h : c.Reaches d) : d.rest.length ≤ c.rest.length := by
  rcases h.eq_or_lt with rfl | h
  · exact Nat.le_refl _
  · exact Nat.le_of_lt h.1

/-- Tokens have been read exactly if fewer are left. -/
theorem Reaches.count_lt_iff (h : c.Reaches d) :
    c.count < d.count ↔ d.rest.length < c.rest.length := by
  rcases h.eq_or_lt with rfl | h
  · simp
  · simp [h]

/-- As many levels are open as before. -/
theorem Reaches.depth (h : c.Reaches d) : d.depth = c.depth := by
  rcases h with ⟨u, h⟩ | ⟨u, t, ts, h⟩
  · exact h.depth
  · exact h.depth

/-! ### One level deeper -/

@[simp] theorem down_rest (c : Cursor) : c.down.rest = c.rest := rfl

@[simp] theorem down_count (c : Cursor) : c.down.count = c.count := rfl

@[simp] theorem down_depth (c : Cursor) : c.down.depth = c.depth + 1 := rfl

@[simp] theorem up_rest (c : Cursor) : c.up.rest = c.rest := rfl

@[simp] theorem up_count (c : Cursor) : c.up.count = c.count := rfl

@[simp] theorem up_depth (c : Cursor) : c.up.depth = c.depth - 1 := rfl

/-- Tokens read one level deeper are read on this one. -/
theorem Passes.up (h : c.down.Passes u d) : c.Passes u d.up :=
  ⟨h.rest, h.read, by simp [h.depth]⟩

/-- So is half a token. -/
theorem Splits.up (h : c.down.Splits d) : c.Splits d.up := by
  obtain ⟨u, t, ts, h⟩ := h
  exact ⟨u, t, ts, h.nonempty, h.rest, h.behind, h.kind, h.read, h.last, by simp [h.depth]⟩

/-- What is opened before and closed afterwards makes no difference. -/
theorem Reaches.up (h : c.down.Reaches d) : c.Reaches d.up := by
  rcases h with ⟨u, h⟩ | h
  · exact h.up.reaches
  · exact .inr h.up

/-! ### Broken tokens -/

/-- No broken token is left that tokenizing reported. -/
def Fair (c : Cursor) : Prop := ∀ t ∈ c.rest, ∀ e, t.kind = .error e → e.isReported = false

/-- No broken token turns up on the way. -/
theorem Reaches.fair (h : c.Reaches d) (hc : c.Fair) : d.Fair := by
  intro t ht e hk
  rcases h with ⟨u, h⟩ | ⟨u, x, ts, h⟩
  · exact hc t (h.rest ▸ List.mem_append_right _ ht) e hk
  · rw [h.behind, List.mem_cons] at ht
    rcases ht with rfl | ht
    · cases hk
    · exact hc t (h.rest ▸ by simp [ht]) e hk

end Cursor

end Ndf
