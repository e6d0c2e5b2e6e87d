/-
# Nodes in a row

What a parser returns has nodes that stand one behind the other in the stretch that was read for it
(`Scene.Row`), and each of them is well placed: it is not empty, starts at a token and ends at one,
or in the middle of a `>=` if it is a type, and its parts are a row in it (`Node.Proper`).

The stretch is told by two numbers: where the first token starts (`Scene.next` of the place where
reading began) and where the last one ends (the end of `last` of the place where it stopped).
Reading on never makes the second smaller, so a row grows at its end.
-/

import Ndf.Proofs.Parser.Accounts
import Ndf.Proofs.Tree.Outline

namespace Ndf
namespace Scene

variable {S : Scene} {c d : Cursor} {lo hi lo' hi' : Nat} {u : List Token}

/-! ### Places between two tokens -/

/-- A place that is not in the middle of a token. -/
def Whole (S : Scene) (c : Cursor) : Prop :=
  ∃ u, (⟨S.tokens, 0, Span.origin, c.depth⟩ : Cursor).Passes u c

/-- A place between two tokens is a place of the scene. -/
theorem Whole.on (hc : S.Whole c) : c.On S.tokens := .inl hc

/-- Reading starts between two tokens. -/
theorem Whole.start (S : Scene) : S.Whole (.start S.tokens) := ⟨[], .refl _⟩

/-- Behind some more tokens one is between two again. -/
theorem Whole.passes (hc : S.Whole c) (h : c.Passes u d) : S.Whole d := by
  obtain ⟨v, hv⟩ := hc
  exact ⟨v ++ u, h.depth ▸ hv.trans h⟩

/-- One level deeper the place is the same. -/
theorem Whole.down (hc : S.Whole c) : S.Whole c.down := by
  obtain ⟨v, hv⟩ := hc
  exact ⟨v, hv.rest, hv.read, rfl⟩

/-- A place that can be got to is between two tokens, or in the middle of a `>=`. -/
theorem whole_or_half (hc : c.On S.tokens) : S.Whole c ∨ ∃ t ts, t ∈ S.tokens ∧ t.kind = .gtEq ∧
    c.rest = t.secondHalf :: ts ∧ c.last = t.firstHalf.span := by
  rcases hc with hc | ⟨v, t, ts, h⟩
  · exact .inl hc
  · have hrest : S.tokens = v ++ t :: ts := h.rest
    exact .inr ⟨t, ts, by simp [hrest], h.kind, h.behind, h.last⟩

/-- In front of an equals sign in the middle of a token, and behind it. -/
theorem half_bump (hc : c.On S.tokens) {t : Token} {ts : List Token}
    (hr : c.rest = t.secondHalf :: ts) (hw : ¬ S.Whole c) :
    S.Whole ⟨ts, c.count + 1, t.secondHalf.span, c.depth⟩ := by
  rcases hc with hc | hs
  · exact absurd hc hw
  · exact hs.passes (.one hr) (List.cons_ne_nil _ _)

/-- What is left are tokens of the source. -/
theorem Whole.mem (hc : S.Whole c) {t : Token} (ht : t ∈ c.rest) : t ∈ S.tokens := by
  obtain ⟨v, hv⟩ := hc
  have hrest : S.tokens = v ++ c.rest := hv.rest
  exact hrest ▸ List.mem_append_right v ht

/-! ### How far reading got -/

/-- What is read next does not start in front of the end of what was read last. -/
theorem last_le_next (hc : c.On S.tokens) : c.last.stop ≤ S.next c := by
  rcases hc with ⟨v, hv⟩ | ⟨v, t, ts, h⟩
  · by_cases hne : v = []
    · subst hne
      rw [hv.nil]
      exact Nat.zero_le _
    · have hrest : S.tokens = v ++ c.rest := hv.rest
      rw [(hv.moved hne).2]
      have hsplit : S.tokens = v.dropLast ++ v.getLast hne :: c.rest := by
        conv => lhs; rw [hrest, ← List.dropLast_append_getLast hne]
        simp
      refine stop_le_of_append hsplit ?_
      rcases c.rest with _ | ⟨t, ts⟩ <;> simp
  · rw [h.last, next_cons h.behind]
    exact Nat.le_refl _

/-- The first token of what is read starts in front of the end of the last one. -/
theorem next_lt_last (hc : S.Whole c) (h : c.Reaches d) (hm : c.count < d.count) :
    S.next c < d.last.stop := by
  rcases h with ⟨v, hv⟩ | ⟨v, t, ts, h⟩
  · have hne : v ≠ [] := by
      rintro rfl
      rw [hv.nil] at hm
      exact absurd hm (Nat.lt_irrefl _)
    have hmem : v.getLast hne ∈ c.rest := hv.rest ▸ List.mem_append_left _ (List.getLast_mem hne)
    have hle := next_le_start hc.on (t := v.getLast hne) (List.mem_append_left _ hmem)
    have hlt := S.nonempty _ (hc.mem hmem)
    rw [(hv.moved hne).2]
    omega
  · have hle := next_le_start hc.on (t := t) (by simp [h.rest])
    rw [h.last]
    show S.next c < t.span.start + 1
    omega

/-- Reading on, the last token read ends no earlier. -/
theorem last_le_last (hc : S.Whole c) (h : c.Reaches d) : c.last.stop ≤ d.last.stop := by
  rcases h.eq_or_lt with rfl | ⟨-, hm⟩
  · exact Nat.le_refl _
  · have := last_le_next hc.on
    have := next_lt_last hc h hm
    omega

/-- The first token of what is read ends where the last one does, or before. -/
theorem first_le_last (hc : S.Whole c) (h : c.Reaches d) (hm : c.count < d.count) :
    ∃ t ∈ S.tokens, c.rest.head? = some t ∧ t.span.stop ≤ d.last.stop := by
  obtain ⟨w, hw⟩ := id hc
  have hrest : S.tokens = w ++ c.rest := hw.rest
  rcases h with ⟨v, hv⟩ | ⟨v, s, ts, h⟩
  · have hne : v ≠ [] := by
      rintro rfl
      rw [hv.nil] at hm
      exact absurd hm (Nat.lt_irrefl _)
    obtain ⟨t, v, rfl⟩ := List.exists_cons_of_ne_nil hne
    have hcons : c.rest = t :: (v ++ d.rest) := hv.rest
    have ht : t ∈ S.tokens := hc.mem (by simp [hcons])
    refine ⟨t, ht, by rw [hcons, List.head?_cons], ?_⟩
    rw [(hv.moved hne).2]
    rcases List.mem_cons.1 (List.getLast_mem hne) with heq | hmem
    · rw [heq]
    · have hlast : (t :: v).getLast hne ∈ c.rest :=
        hcons ▸ List.mem_cons_of_mem _ (List.mem_append_left _ hmem)
      have := stop_le_of_append (hcons ▸ hrest) (t := (t :: v).getLast hne) (by simp [hmem])
      have := S.nonempty _ (hc.mem hlast)
      omega
  · obtain ⟨t, v, rfl⟩ := List.exists_cons_of_ne_nil h.nonempty
    have hcons : c.rest = t :: (v ++ s :: ts) := h.rest
    have ht : t ∈ S.tokens := hc.mem (by simp [hcons])
    refine ⟨t, ht, by rw [hcons, List.head?_cons], ?_⟩
    have hle := stop_le_of_append (hcons ▸ hrest) (t := s) (by simp)
    rw [h.last]
    show t.span.stop ≤ s.span.start + 1
    omega

/-- The span of what is read goes from the start of the first token to the end of the last one. -/
theorem upTo_of_moved (hc : S.Whole c) (h : c.Reaches d) (hm : c.count < d.count) :
    ((Parser.Mark.here S.source c).upTo d).stop = d.last.stop := by
  obtain ⟨t, -, ht, hle⟩ := first_le_last hc h hm
  obtain ⟨ts, hr⟩ : ∃ ts, c.rest = t :: ts := by
    cases hr : c.rest with
    | nil =>
      rw [hr] at ht
      cases ht
    | cons x xs =>
      rw [hr, List.head?_cons, Option.some.injEq] at ht
      exact ⟨xs, by rw [ht]⟩
  rw [Parser.Mark.upTo, if_pos (show (Parser.Mark.here S.source c).count < d.count from hm),
    Parser.Mark.here, hr, List.headD_cons, Span.through]
  exact Nat.max_eq_left hle

end Scene

/-! ### Nodes -/

/-- A node stands well in a scene: where tokens start and end, with its parts in it in order. -/
inductive Node.Proper (S : Scene) : Node → Prop where
  | mk {n : Node} (placed : S.Placed n.span) (lt : n.span.start < n.span.stop)
    (starts : ∃ t ∈ S.tokens, t.span.start = n.span.start)
    (stops : (∃ t ∈ S.tokens, t.span.stop = n.span.stop) ∨
      n.isType = true ∧ ∃ t ∈ S.tokens, t.kind = .gtEq ∧ t.span.start + 1 = n.span.stop)
    (ordered : n.parts.Pairwise fun a b => a.span.stop ≤ b.span.start)
    (within : ∀ p ∈ n.parts, n.span.start ≤ p.span.start ∧ p.span.stop ≤ n.span.stop)
    (parts : ∀ p ∈ n.parts, Node.Proper S p) : Node.Proper S n

/-- Nodes that stand well, one behind the other between two offsets. -/
structure Scene.Row (S : Scene) (lo hi : Nat) (ns : List Node) : Prop where
  ordered : ns.Pairwise fun a b => a.span.stop ≤ b.span.start
  within : ∀ n ∈ ns, lo ≤ n.span.start ∧ n.span.stop ≤ hi
  proper : ∀ n ∈ ns, n.Proper S

namespace Scene

variable {S : Scene} {c d : Cursor} {lo hi lo' hi' : Nat} {u : List Token} {ns ms : List Node}

/-- No nodes are a row. -/
theorem Row.nil : S.Row lo hi [] := ⟨.nil, by simp, by simp⟩

/-- A row lies between wider bounds as well. -/
theorem Row.mono (h : S.Row lo hi ns) (hl : lo' ≤ lo) (hh : hi ≤ hi') : S.Row lo' hi' ns where
  ordered := h.ordered
  within n hn := by
    have := h.within n hn
    omega
  proper := h.proper

/-- Two rows are one if the second starts where the first ended. -/
theorem Row.append (h : S.Row lo hi ns) (h' : S.Row lo' hi' ms) (hm : hi ≤ lo') (hl : lo ≤ lo')
    (hh : hi ≤ hi') : S.Row lo hi' (ns ++ ms) where
  ordered := by
    refine List.pairwise_append.2 ⟨h.ordered, h'.ordered, fun n hn m hm' => ?_⟩
    have := h.within n hn
    have := h'.within m hm'
    omega
  within n hn := by
    rcases List.mem_append.1 hn with hn | hn
    · have := h.within n hn
      omega
    · have := h'.within n hn
      omega
  proper n hn := (List.mem_append.1 hn).elim (h.proper n) (h'.proper n)

/-- A node in a row can be exchanged for another one in its place. -/
theorem Row.replace {n n' : Node} (h : S.Row lo hi (ns ++ n :: ms)) (hs : n'.span = n.span)
    (hn : n.Proper S → n'.Proper S) : S.Row lo hi (ns ++ n' :: ms) where
  ordered := by
    have := h.ordered
    rw [List.pairwise_append, List.pairwise_cons] at this ⊢
    obtain ⟨hns, ⟨hnm, hms⟩, hcross⟩ := this
    refine ⟨hns, ⟨fun m hm => hs ▸ hnm m hm, hms⟩, fun a ha b hb => ?_⟩
    rcases List.mem_cons.1 hb with rfl | hb
    · exact hs ▸ hcross a ha n (List.mem_cons_self ..)
    · exact hcross a ha b (List.mem_cons_of_mem _ hb)
  within m hm := by
    rcases List.mem_append.1 hm with hm | hm
    · exact h.within m (List.mem_append_left _ hm)
    · rcases List.mem_cons.1 hm with rfl | hm
      · exact hs ▸ h.within n (by simp)
      · exact h.within m (by simp [hm])
  proper m hm := by
    rcases List.mem_append.1 hm with hm | hm
    · exact h.proper m (List.mem_append_left _ hm)
    · rcases List.mem_cons.1 hm with rfl | hm
      · exact hn (h.proper n (by simp))
      · exact h.proper m (by simp [hm])

/-- A node over what was read between two places. -/
theorem Row.node {n : Node} (hc : S.Whole c)
    (h : (∃ u, c.Passes u d) ∨ n.isType = true ∧ c.Splits d) (hm : c.count < d.count)
    (hs : n.span = (Parser.Mark.here S.source c).upTo d)
    (hp : S.Row (S.next c) d.last.stop n.parts) : S.Row (S.next c) d.last.stop [n] := by
  have hcd : c.Reaches d := h.imp id And.right
  have hstart : n.span.start = S.next c := by rw [hs, start_upTo]
  have hstop : n.span.stop = d.last.stop := by rw [hs, upTo_of_moved hc hcd hm]
  have hlt : n.span.start < n.span.stop := by
    rw [hstart, hstop]
    exact next_lt_last hc hcd hm
  have starts : ∃ t ∈ S.tokens, t.span.start = n.span.start := by
    obtain ⟨t, ht, hhead, -⟩ := first_le_last hc hcd hm
    refine ⟨t, ht, ?_⟩
    rw [hstart, next, List.headD_eq_head?_getD, hhead, Option.getD_some]
  have stops : (∃ t ∈ S.tokens, t.span.stop = n.span.stop) ∨
      n.isType = true ∧ ∃ t ∈ S.tokens, t.kind = .gtEq ∧ t.span.start + 1 = n.span.stop := by
    rw [hstop]
    rcases h with ⟨u, hu⟩ | ⟨htype, u, t, ts, hu⟩
    · have hne : u ≠ [] := by
        rintro rfl
        rw [hu.nil] at hm
        exact absurd hm (Nat.lt_irrefl _)
      have hlast : u.getLast hne ∈ c.rest := hu.rest ▸ List.mem_append_left _ (List.getLast_mem hne)
      exact .inl ⟨u.getLast hne, hc.mem hlast, (hu.moved hne).2.symm⟩
    · refine .inr ⟨htype, t, hc.mem (by simp [hu.rest]), hu.kind, ?_⟩
      rw [hu.last]
      rfl
  have within (p : Node) (hpart : p ∈ n.parts) :
      n.span.start ≤ p.span.start ∧ p.span.stop ≤ n.span.stop := by
    rw [hstart, hstop]
    exact hp.within p hpart
  have proper : n.Proper S :=
    .mk ⟨c, d, hc.on, hcd, hs⟩ hlt starts stops hp.ordered within hp.proper
  refine ⟨List.pairwise_singleton _ _, fun m hmem => ?_, fun m hmem => ?_⟩
  · rw [List.mem_singleton.1 hmem, hstart, hstop]
    exact ⟨Nat.le_refl _, Nat.le_refl _⟩
  · rw [List.mem_singleton.1 hmem]
    exact proper

end Scene

/-- A proper node stands where something was read. -/
theorem Node.Proper.isPlaced {S : Scene} {n : Node} (h : n.Proper S) : S.Placed n.span := by
  obtain ⟨placed, -, -, -, -, -, -⟩ := h
  exact placed

/-- A node that loses its parts, such as what becomes an unreadable fragment. -/
theorem Node.Proper.leaf {S : Scene} {n : Node} (h : n.Proper S) (htype : n.isType = false) :
    (Node.leaf n.span).Proper S := by
  obtain ⟨placed, lt, starts, stops, -, -, -⟩ := h
  refine .mk placed lt starts (stops.imp id fun hhalf => ?_) .nil (by simp) (by simp)
  rw [hhalf.1] at htype
  cases htype

end Ndf
