/-
# Declarations behind each other

Members, templates and objects, in a source and in its twin.  A parameter of a template that is
the last thing before the end ends there in the twin too, as does a list of parameters; an object
is closed by a parenthesis of its own.  Objects hold templates and templates objects, so they are
related through the nests that agree with `object` (`object_eq_nest`), level by level.
-/

import Ndf.Proofs.Concat.Path

namespace Ndf
namespace Parser

variable {w : Twin} {src src' : Source} {c c' : Cursor} {g : Grammar} {body : Parser Object}

/-! ### Assignments and members -/

/-- An assignment is read alike in both sources. -/
theorem assignment_alike (hg : Twinned w g) :
    Alike w w.relabel.assignment (assignment g) (assignment g) := by
  refine .mark (assignment_eats hg.advancing) fun m => .bind (.name _) fun name => ?_
  refine .bind (.expectKeyword _) fun _ => .bind hg.expr fun value => .spanFrom fun s => ?_
  rw [Relabel.assignment]
  rfl

/-- What follows the name of a member is read alike. -/
theorem memberTail_alike (hg : Twinned w g) (m : Mark) (name : Name) :
    Alike w w.relabel.member (memberTail g m name)
      (memberTail g (w.mark m) (w.relabel.name name)) := by
  have value (type : Option TypeRef) (legacy : Bool) : Alike w w.relabel.member
      (do
        let value ← g.expr
        pure ⟨name, type, some value, legacy, ← spanFrom m⟩)
      (do
        let value ← g.expr
        pure ⟨w.relabel.name name, type.map w.relabel.type, some value, legacy,
          ← spanFrom (w.mark m)⟩) :=
    .bind hg.expr fun value => .spanFrom fun s => by
      rw [Relabel.member, Relabel.expr?]
      rfl
  refine .bind (.eat rfl (by simp)) fun _ => .ite Iff.rfl ?_ ?_
  · refine .bind (.eat rfl (by simp)) fun _ => .ite Iff.rfl (value none true) ?_
    refine .bind (typeRef_alike hg) fun type => .bind (.eat rfl (by simp)) fun _ => ?_
    refine .ite Iff.rfl (value (some type) false) (.spanFrom fun s => ?_)
    rw [Relabel.member, Relabel.expr?]
    rfl
  · exact .bind (.expect rfl (by simp) _) fun _ => value none false

/-- A member is read alike. -/
theorem member_alike (hg : Twinned w g) : Alike w w.relabel.member (member g) (member g) :=
  .mark (member_eats hg.advancing) fun m => .bind (.name _) fun name => memberTail_alike hg m name

/-- A parameter is read alike; if it is a name at the end, it ends there in the twin too. -/
theorem param_alike (hg : Twinned w g) : Alike w w.relabel.member (param g) (param g) := by
  refine .mark (param_eats hg.advancing) fun m => .bind (.name _) fun name => ?_
  have alone : Alike w w.relabel.member
      (do return ⟨name, none, none, false, ← spanFrom m⟩)
      (do return ⟨w.relabel.name name, none, none, false, ← spanFrom (w.mark m)⟩) :=
    .spanFrom fun s => by
      rw [Relabel.member, Relabel.expr?]
      rfl
  intro src src' hs c c' hl
  refine .peekEnd hs hl (fun t t' _ hk _ _ => ?_) fun _ t t' text hk hk' => ?_
  · rw [hk]
    split
    · exact memberTail_alike hg m name hs hl
    · exact memberTail_alike hg m name hs hl
    · exact alone hs hl
  · rw [hk, hk']
    exact alone hs hl

/-- A parameter as a round of a loop: where the shorter source ends, no further one follows in the
twin. -/
theorem paramStep_alike (hg : Twinned w g) (read : List Member) :
    AlikeOpen w (Sum.map (List.map w.relabel.member) (List.map w.relabel.member))
      (paramStep g read) (paramStep g (read.map w.relabel.member)) := by
  intro src src' hs c c' hl
  by_cases hne : w.Inside c
  · refine AlikeAt.open (.peek hs hl hne fun t t' _ hk _ => ?_)
    have done : Alike w (Sum.map (List.map w.relabel.member) (List.map w.relabel.member))
        (pure (.inr read.reverse) : Parser (List Member ⊕ List Member))
        (pure (.inr (read.map w.relabel.member).reverse)) :=
      .pure (by rw [← List.map_reverse]; rfl)
    rw [hk]
    split
    · exact done hs hl
    · exact done hs hl
    · exact (AlikeAt.bump hl hne).bind fun _ _ _ hl' => Alike.pure rfl hs hl'
    · exact (param_alike hg hs hl).bind fun _ _ _ hl' => Alike.pure rfl hs hl'
    · exact Alike.unexpected _ hs hl
  · simp only [Twin.Inside, Classical.not_imp, Classical.not_not] at hne
    obtain ⟨hm, hr⟩ := hne
    refine .of_nil hm ?_
    have hstop : (c.rest.headD src.stop).kind = .eof := by rw [hr]; exact hs.ended
    rw [paramStep, peek_bind, hstop]
    exact hr

/-- The parameters of a template are read alike up to the end of the shorter source. -/
theorem params_alike (hg : Twinned w g) :
    AlikeOpen w (List.map w.relabel.member) (params g) (params g) :=
  AlikeOpen.loop (paramStep_advances hg.advancing) (paramStep_advances hg.advancing)
    (fun read => (paramStep_steady hg.advancing read).sound) (paramStep_alike hg) []

/-! ### Templates and visibility -/

/-- A template is read alike if its body is. -/
theorem template_alike (hg : Twinned w g) (hb : Steady body)
    (hbody : Alike w w.relabel.object body body) :
    Alike w w.relabel.template (template g body) (template g body) := by
  refine .mark (template_eats hg.advancing hb) fun m => .bind (.expectKeyword _) fun _ =>
    .bind (.name _) fun name => .bind (.expect rfl (by simp) _) fun _ => ?_
  refine (params_alike hg).close (fun params => ?_) fun params => ?_
  · exact .bind (.expect (by simp) _) fun _ => .bind (Steady.expectKeyword _).sound fun _ =>
      .bind hb.sound fun _ => .bind (Still.spanFrom m).sound fun _ => (Steady.pure _).sound
  · refine .bind (.expect rfl (by simp) _) fun _ => .bind (.expectKeyword _) fun _ =>
      .bind hbody fun body => .spanFrom fun s => ?_
    rw [Relabel.template, Relabel.members_eq_map]
    rfl

/-- A declaration behind a modifier is read alike. -/
theorem visibility_alike (hg : Twinned w g) (hb : Steady body)
    (hbody : Alike w w.relabel.object body body) :
    Alike w w.relabel.visibility (visibility g body) (visibility g body) := by
  refine .markPeek (visibility_eats hg.advancing hb) fun m t t' hk _ => ?_
  rw [hk]
  split
  · exact .unexpected _
  · rename_i modifier _
    refine .bind (.name _) fun keyword => .ahead fun ts us near => ?_
    have close (decl : Declaration) : Alike w w.relabel.visibility
        (do return ⟨modifier, keyword, decl, ← spanFrom m⟩)
        (do return ⟨modifier, w.relabel.name keyword, w.relabel.declaration decl,
          ← spanFrom (w.mark m)⟩) :=
      .spanFrom fun s => by
        rw [Relabel.visibility]
        rfl
    refine .ite (by rw [near.startsTemplate_eq (.inl (Nat.zero_le _))]) ?_ ?_
    · exact .bind (.map (template_alike hg hb hbody) fun t => by rw [Relabel.declaration]) close
    · exact .bind (.map (assignment_alike hg) fun a => by rw [Relabel.declaration]) close

/-! ### Objects -/

/-- An entry of an object is read alike, whatever it is. -/
theorem entry_alike (hg : Twinned w g) (hb : Steady body)
    (hbody : Alike w w.relabel.object body body) :
    Alike w w.relabel.entry (entry g body) (entry g body) := by
  refine .inside (entry_eats hg.advancing hb) fun src src' hs c c' hl hne => ?_
  refine .ahead hs hl hne fun ts us near hn => ?_
  refine .ite (by rw [near.startsAssignment_eq hn])
    (fun _ => Alike.map (assignment_alike hg) (fun _ => by rw [Relabel.entry]) hs hl) fun _ => ?_
  refine .ite (by rw [near.startsVisibility_eq hn])
    (fun _ => Alike.map (visibility_alike hg hb hbody) (fun _ => by rw [Relabel.entry]) hs hl)
    fun _ => ?_
  refine .ite (by rw [near.startsMember_eq hn])
    (fun _ => Alike.map (member_alike hg) (fun _ => by rw [Relabel.entry]) hs hl) fun _ => ?_
  refine .ite (by rw [near.isWord_eq hn, near.startsScoped_eq hn])
    (fun _ => Alike.map (reference_alike hg) (fun _ => by rw [Relabel.entry]) hs hl) fun _ => ?_
  exact Alike.abortHere _ hs hl

/-- An entry as a round of a loop, which is cut out alike if it is broken. -/
theorem entryStep_alike (hg : Twinned w g) (hb : Steady body)
    (hbody : Alike w w.relabel.object body body) (read : List Entry) :
    Alike w (Sum.map (List.map w.relabel.entry) (List.map w.relabel.entry))
      (entryStep g body read) (entryStep g body (read.map w.relabel.entry)) := by
  intro src src' hs c c' hl
  by_cases hne : w.Inside c
  · refine .peek hs hl hne fun t t' _ hk hspan => ?_
    rw [hk, hspan]
    split
    · exact (AlikeAt.bump hl hne).bind fun _ _ _ hl' =>
        Alike.pure (by rw [← List.map_reverse]; rfl) hs hl'
    · exact Alike.unexpected _ hs hl
    · exact AlikeAt.bind_run (Alike.report hs hl) fun _ _ _ =>
        (AlikeAt.bump hl hne).bind fun _ _ _ hl' => Alike.pure rfl hs hl'
    · refine .mark hs hl hne fun m _ => ?_
      refine AlikeAt.bind (f := w.relabel.entry) ?_ fun _ _ _ hl' => Alike.pure rfl hs hl'
      refine .orRecover (entry_steady hg.advancing hb).sound hs hl (entry_alike hg hb hbody hs hl)
        fun hm d' hl' => ?_
      exact Alike.map (recoverEntry_alike hm m) (fun _ => by rw [Relabel.entry]) hs hl'
  · simp only [Twin.Inside, Classical.not_imp, Classical.not_not] at hne
    obtain ⟨hm, hr⟩ := hne
    refine .of_none hm ?_
    have hstop : (c.rest.headD src.stop).kind = .eof := by rw [hr]; exact hs.ended
    rw [entryStep, peek_bind, hstop]
    rfl

/-- An object is read alike if the bodies of its templates are. -/
theorem objectWith_alike (hg : Twinned w g) (hb : Steady body)
    (hbody : Alike w w.relabel.object body body) :
    Alike w w.relabel.object (objectWith g body) (objectWith g body) := by
  have hstep := entryStep_advances hg.advancing hb
  refine .mark (objectWith_eats hg.advancing hb) fun m => .bind (.name _) fun name =>
    .bind (.expect rfl (by simp) _) fun _ =>
      .bind (Alike.loop hstep hstep (entryStep_alike hg hb hbody) []) fun entries =>
        .spanFrom fun s => ?_
  rw [Relabel.object, Relabel.entries_eq_map]
  rfl

/-- The same, level by level of templates. -/
theorem objectNest_alike (hg : Twinned w g) {base : Parser Object} (hb : Steady base)
    (hbase : Alike w w.relabel.object base base) (n : Nat) :
    Alike w w.relabel.object (objectNest g base n) (objectNest g base n) := by
  induction n with
  | zero => exact objectWith_alike hg hb hbase
  | succ n ih => exact objectWith_alike hg (objectNest_steady hg.advancing hb n) ih

/-- **Objects are alike.**  The twin has no fewer tokens left, so a nest that is deep enough for it
is deep enough for both. -/
theorem object_alike (hg : Twinned w g) : Alike w w.relabel.object (object g) (object g) := by
  intro src src' hs c c' hl
  have hb := Steady.unexpected (α := Object) ""
  have hle : c.rest.length ≤ c'.rest.length := by
    rw [hl.rests.length_eq]
    exact Nat.le_add_right _ _
  have hnest := objectNest_alike hg hb (Alike.unexpected "") c'.rest.length hs hl
  unfold AlikeAt at hnest ⊢
  rw [object_eq_nest hg.advancing hb hs.ended hle,
    object_eq_nest hg.advancing hb hs.ended' (Nat.le_refl _)]
  exact hnest

/-- An unnamed object is read alike. -/
theorem unnamed_alike (hg : Twinned w g) : Alike w w.relabel.unnamed (unnamed g) (unnamed g) := by
  refine .mark (unnamed_eats hg.advancing) fun _ => .bind (.expectKeyword _) fun _ => ?_
  refine .bind (object_alike hg) fun object => .spanFrom fun _ => ?_
  exact rfl

end Parser
end Ndf
