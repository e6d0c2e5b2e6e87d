/-
# Documents behind each other

`SPEC_FULL.md` §4.5: the top level repeats items, with nothing between them.

Items have no terminator, so whether a source can be put behind another one without changing what
either means is a matter of what the grammar looks at.  `parse_append` says that it can: if the
first source has no problem and does not end in a word that binds what follows, and the second
starts with a plain name, both are read as they are on their own.  However broken the second one
is, its items and problems stay the same and are only moved.

The items of the first source are read with the tokens of the second behind them
(`items_front`), and those of the second as if it stood alone (`itemStep_alike`).
-/

import Mathlib
import Ndf.Proofs.Concat.Colon
import Ndf.Proofs.Concat.Expression
import Ndf.Proofs.Concat.Tokens

namespace Ndf

/-! ### Problems -/

/-- Notes without problems in front of others change no diagnostic. -/
theorem diagnostics_append {a : List Note} (h : Quiet a) (ended : Bool) (b : List Note) :
    Note.diagnostics ended (a ++ b) = Note.diagnostics ended b := by
  induction a with
  | nil => rfl
  | cons n a ih =>
    cases n with
    | problem d => exact absurd h (not_quiet_problem d a)
    | atEnd d => exact absurd h (not_quiet_atEnd d a)
    | event e => exact ih h
    | breach b => exact ih h

/-- The diagnostics of the twin are those of the source, moved. -/
theorem diagnostics_map (w : Twin) (ended : Bool) (notes : List Note) :
    Note.diagnostics ended (notes.map w.note) =
      (Note.diagnostics ended notes).map (Diagnostic.shift w.bytes w.lines) := by
  induction notes generalizing ended with
  | nil => rfl
  | cons n notes ih =>
    cases n with
    | problem d => exact congrArg _ (ih ended)
    | atEnd d =>
      cases ended with
      | true => exact ih true
      | false => exact congrArg _ (ih true)
    | event e => exact ih ended
    | breach b => exact ih ended

/-- Moving all diagnostics keeps their order. -/
theorem sort_shift (bytes lines : Nat) (ds : List Diagnostic) :
    Diagnostic.sort (ds.map (Diagnostic.shift bytes lines)) =
      (Diagnostic.sort ds).map (Diagnostic.shift bytes lines) := by
  refine (List.map_mergeSort fun a _ b _ => ?_).symm
  refine decide_eq_decide.2 ?_
  show a.span.start ≤ b.span.start ↔ a.span.start + bytes ≤ b.span.start + bytes
  omega

/-- A source has no problem if neither its tokens nor its parse show one. -/
theorem problems_eq_nil {stream : TokenStream} {notes : List Note}
    (h : problems stream notes = []) : stream.diagnostics = [] ∧ Quiet notes := by
  have hlength := congrArg List.length h
  rw [problems, Diagnostic.sort, List.length_mergeSort, List.length_nil] at hlength
  exact List.append_eq_nil_iff.1 (List.length_eq_zero_iff.1 hlength)

/-! ### Items -/

namespace Parser

variable {w : Twin} {src src' : Source} {c c' : Cursor} {g : Grammar}

/-- One run has read everything, and the other goes on behind it with the same items. -/
def GoesOn (w : Twin) (g : Grammar) (src' : Source) (o o' : Outcome (Option (List Item))) : Prop :=
  ∃ items d', o.value = some (some items) ∧ o.cursor.rest = [] ∧ w.Linked o.cursor d' ∧
    ∃ behind, loop (nextItem g) (items.map w.relabel.item).reverse src' d' = behind ∧
      o' = ⟨behind.value, behind.cursor, o.notes.map w.note ++ behind.notes⟩

/-- **A source without problems is read to its end whatever follows**, and what follows is read
from there on. -/
theorem items_front (hg : Twinned w g) (hs : w.Sees src src') (read : List Item)
    (hl : w.Linked c c') (hq : Quiet (loop (nextItem g) read src c).notes) :
    GoesOn w g src' (loop (nextItem g) read src c)
      (loop (nextItem g) (read.map w.relabel.item) src' c') := by
  have ha := nextItem_advances hg.advancing
  -- On the rounds of the first run; the second run is at the linked place all along.
  refine loop_rec ha hs.ended (P := fun read c o => Quiet o.notes → ∀ ⦃c'⦄, w.Linked c c' →
    GoesOn w g src' o (loop (nextItem g) (read.map w.relabel.item) src' c'))
    (fun read c ih hq c' hl => ?_) read c hq hl
  by_cases hr : c.rest = []
  · -- No token is left of the first source, so the second goes on with its own.
    have hrun : (nextItem g read >>= again (loop (nextItem g))) src c =
        ⟨some (some read.reverse), c, []⟩ := by
      rw [bind_of_some (by rw [nextItem_nil hr]), nextItem_nil hr]
      rfl
    rw [hrun]
    refine ⟨read.reverse, c', rfl, hr, hl, _, rfl, ?_⟩
    rw [List.map_reverse, List.reverse_reverse]
    rfl
  · -- One item is read alike by both, and the next round starts at linked places.
    have hr' : c'.rest ≠ [] := by
      have hlength := hl.rests.length_eq
      have := List.length_pos_iff.2 hr
      refine List.length_pos_iff.1 ?_
      omega
    obtain ⟨item, hitem⟩ := Option.ne_none_iff_exists'.1 (itemOrError_returns (g := g) src c)
    have hstep : nextItem g read src c =
        ⟨some (.inl (item :: read)), (itemOrError g src c).cursor,
          (itemOrError g src c).notes⟩ := by
      rw [nextItem_cons hr, bind_of_some hitem, pure_run, List.append_nil]
    have hrun := bind_of_some (f := again (loop (nextItem g))) (congrArg Outcome.value hstep)
    rw [hrun] at hq ⊢
    obtain ⟨hfirst, hnext⟩ := (quiet_append _ _).1 hq
    rw [hstep] at hfirst hnext
    have hclean : Clean (itemOrError g src c) := ⟨hitem ▸ Option.some_ne_none _, hfirst⟩
    obtain ⟨hvalue, hcursor, hnotes⟩ :=
      itemOrError_alike hg hs hl (fun _ => hr) (.inr hclean)
    rw [hitem, Option.map_some] at hvalue
    have hstep' : nextItem g (read.map w.relabel.item) src' c' =
        ⟨some (.inl ((item :: read).map w.relabel.item)), (itemOrError g src' c').cursor,
          (itemOrError g src' c').notes⟩ := by
      rw [nextItem_cons hr', bind_of_some hvalue, pure_run, List.append_nil, List.map_cons]
    have hrun' := bind_of_some (f := again (loop (nextItem g))) (congrArg Outcome.value hstep')
    rw [loop_eq ha hs.ended', hrun', hstep, hstep']
    have hseen : (nextItem g read src c).value = some (.inl (item :: read)) := by rw [hstep]
    have hih := ih _ hseen
    rw [hstep] at hih
    obtain ⟨items, d', hv, hend, hlinked, behind, hbehind, hrest⟩ := hih hnext hcursor
    refine ⟨items, d', hv, hend, hlinked, behind, hbehind, ?_⟩
    rw [again, again, hrest, hnotes, List.map_append, List.append_assoc]

/-- Behind other items every item is read as if it came first. -/
theorem nextItem_alike (hg : Twinned w g) (hm : w.more = []) (front read : List Item) :
    Alike w (Sum.map (fun read => read.map w.relabel.item ++ front)
        (Option.map fun items => front.reverse ++ items.map w.relabel.item))
      (nextItem g read) (nextItem g (read.map w.relabel.item ++ front)) := by
  intro src src' hs c c' hl
  have hlength := hl.rests.length_eq
  rw [hm, List.length_nil, Nat.add_zero] at hlength
  by_cases hr : c.rest = []
  · have hr' : c'.rest = [] := by
      rw [hr, List.length_nil] at hlength
      exact List.length_eq_zero_iff.1 hlength
    intro _
    rw [nextItem_nil hr, nextItem_nil hr']
    refine ⟨?_, hl, rfl⟩
    rw [List.reverse_append, ← List.map_reverse]
    rfl
  · have hr' : c'.rest ≠ [] := by
      refine List.length_pos_iff.1 ?_
      rw [hlength]
      exact List.length_pos_iff.2 hr
    rw [AlikeAt, nextItem_cons hr, nextItem_cons hr']
    exact (itemOrError_alike hg hs hl (inside_of_nil hm c)).bind fun item _ _ hl' =>
      Alike.pure rfl hs hl'

end Parser

/-! ### Two sources behind each other -/

open Ndf.Parser (nextItem loop)

/-- A source whose tokens show no problem has no broken token that was reported. -/
theorem fair_of_diagnostics {s : String} (h : (TokenStream.ofText s).diagnostics = []) :
    Cursor.Fair (.start (TokenStream.ofText s).tokens) := by
  intro t ht e hk
  rw [(ofText_eq s).1] at ht
  obtain ⟨x, hx, rfl⟩ := List.mem_map.1 (mem_visibleTokens ht).1
  by_contra hreported
  obtain ⟨d, hd⟩ := Option.ne_none_iff_exists'.1 (Lexer.problem_of_isReported hx hk
    (by simpa using hreported))
  have : d ∈ (TokenStream.ofText s).diagnostics := List.mem_filterMap.2 ⟨x, hx, hd⟩
  rw [h] at this
  cases this

/-- A source without problems does not end in a colon. -/
theorem last_ne_colon {s : String} (clean : (parse s).diagnostics = []) :
    ∀ u ∈ (TokenStream.ofText s).tokens.getLast?, u.kind ≠ .colon := by
  obtain ⟨hlex, hquiet⟩ := problems_eq_nil clean
  have hended : Source.Ended ⟨s.toList, (TokenStream.ofText s).stop⟩ := (ofText_eq s).2
  have hadvancing := Parser.advancing_levels Parser.maxNesting
  intro u hu hk
  obtain ⟨its, hv, -⟩ := Parser.items_tiling hadvancing (Parser.spanning_levels Parser.maxNesting)
    hended (.start (TokenStream.ofText s).tokens)
  have hdangling := Parser.items_keeps (keeping_levels Parser.maxNesting) (fun _ => false) hended
    (.start (TokenStream.ofText s).tokens) ⟨fair_of_diagnostics hlex, u, hu, hk⟩
    ⟨hv ▸ Option.some_ne_none _, hquiet⟩
  exact hdangling.rest_ne_nil (Parser.items_ended hadvancing hended [] _ hv)

namespace Twin

/-- The first of two sources, with the tokens of the second behind it. -/
def front (more : List Token) : Twin := ⟨0, 0, 0, more⟩

/-- The second of two sources, behind the first. -/
def behind (bytes lines drift : Nat) : Twin := ⟨bytes, lines, drift, []⟩

/-- The tokens of the front are those of the whole, so nothing is relabelled. -/
theorem item_front (more : List Token) (i : Item) : (front more).relabel.item i = i :=
  Relabel.item_id i

/-- The front as it stands in front of a plain name that is not joined. -/
theorem sees_front (src src' : Source) (he : src.Ended) (he' : src'.Ended) {t : Token}
    {name : String} (hname : t.kind = .word name .name) (hj : t.joined = false) (ts : List Token) :
    (front (t :: ts)).Sees src src' where
  ended := he
  ended' := he'
  stop hm := absurd hm (List.cons_ne_nil t ts)
  text hm := absurd hm (List.cons_ne_nil t ts)
  tail _ := ⟨t, ts, name, rfl, hname, hj⟩

/-- Both runs start at the same token. -/
theorem linked_front {ts : List Token} (hfair : Cursor.Fair (.start ts))
    (loose : Lookahead.Loose ts) (more : List Token) :
    (front more).Linked (.start ts) (.start (ts ++ more)) where
  depth := rfl
  rests := by
    have hid : ts.map (front more).token = ts := List.map_id ts
    have hsame := Rests.same (w := front more) ts
    rwa [hid] at hsame
  count := rfl
  last h := absurd h (Nat.lt_irrefl 0)
  safe _ := ⟨hfair, loose⟩

/-- What is cut out behind a text is what was cut out of the rest. -/
theorem slice?_shift (a text : List Char) (start stop : Nat) :
    Text.slice? (a ++ text) (start + Text.byteSize a) (stop + Text.byteSize a) =
      Text.slice? text start stop := by
  unfold Text.slice?
  rw [Nat.add_comm start, Text.dropBytes_append, Nat.add_comm stop, Nat.add_sub_add_left]
  by_cases h : start ≤ stop
  · rw [if_pos h, if_pos (by omega)]
  · rw [if_neg h, if_neg (by omega)]

/-- The rest as it stands behind some text. -/
theorem sees_behind (a text : List Char) {stop : Token} (he : stop.kind = .eof)
    (lines drift : Nat) :
    (behind (Text.byteSize a) lines drift).Sees ⟨text, stop⟩
      ⟨a ++ text, stop.shift (Text.byteSize a) lines⟩ where
  ended := he
  ended' := he
  stop _ := rfl
  text _ span := slice?_shift a text span.start span.stop
  tail hm := absurd rfl hm

/-- Both runs start at the first token of the rest. -/
theorem linked_behind {u : Token} {us : List Token} {name : String} {bytes lines : Nat}
    {d : Cursor} (hname : u.kind = .word name .name) (hrest : d.rest =
      ⟨u.kind, u.span.shift bytes lines, false⟩ :: us.map (Token.shift bytes lines))
    (hdepth : d.depth = 0) : (behind bytes lines d.count).Linked (.start (u :: us)) d where
  depth := hdepth
  rests := by
    refine ⟨false, .inr ?_, ?_⟩
    · rw [hname]
      rfl
    · rw [hrest]
      exact congrArg _ (List.append_nil _).symm
  count := (Nat.zero_add _).symm
  last h := absurd h (Nat.lt_irrefl 0)
  safe hm := absurd rfl hm

end Twin

/-- The run over two sources behind each other is made up of the runs over each of them. -/
theorem items_append {g : Grammar} (hg : ∀ w, Twinned w g) {s a t : List Char} {stop stop' : Token}
    (he : stop.kind = .eof) (he' : stop'.kind = .eof) {ts us : List Token} {u : Token}
    {name : String} (hfair : Cursor.Fair (.start ts)) (loose : Lookahead.Loose ts)
    (hname : u.kind = .word name .name) (lines : Nat)
    {first second both : Outcome (Option (List Item))}
    (hfirst : loop (nextItem g) [] ⟨s, stop⟩ (.start ts) = first)
    (hsecond : loop (nextItem g) [] ⟨t, stop'⟩ (.start (u :: us)) = second)
    (hboth : loop (nextItem g) [] ⟨a ++ t, stop'.shift (Text.byteSize a) lines⟩
      (.start (ts ++ ⟨u.kind, u.span.shift (Text.byteSize a) lines, false⟩ ::
        us.map (Token.shift (Text.byteSize a) lines))) = both)
    (quiet : Quiet first.notes) {items items' : List Item}
    (hitems : first.value = some (some items))
    (hitems' : second.value = some (some items')) :
    both.value = some (some (items ++ items'.map (Relabel.shift (Text.byteSize a) lines).item)) ∧
      ∃ (w : Twin) (drift : Nat), both.notes =
        first.notes.map w.note ++
          second.notes.map (Twin.behind (Text.byteSize a) lines drift).note := by
  subst hfirst
  have ha := Parser.nextItem_advances (hg (.front [])).advancing
  -- In front of the seam, the long source is read as the first one.
  obtain ⟨items₁, d, hv, hend, hlinked, o, ho, hrun⟩ := Parser.items_front (hg _)
    (Twin.sees_front ⟨s, stop⟩ ⟨a ++ t, stop'.shift (Text.byteSize a) lines⟩ he he'
      (t := ⟨u.kind, u.span.shift (Text.byteSize a) lines, false⟩) hname rfl
      (us.map (Token.shift (Text.byteSize a) lines)))
    [] (Twin.linked_front hfair loose _) quiet
  rw [hitems, Option.some.injEq, Option.some.injEq] at hv
  subst hv
  have hrest := hlinked.rests
  rw [hend] at hrest
  have hdepth : d.depth = 0 := hlinked.depth.trans
    (((Parser.items_steady (hg (.front [])).advancing fun _ => false).moves
      (show Source.Ended ⟨s, stop⟩ from he) (.start ts)).depth)
  have hread : (items.map (Twin.front (⟨u.kind, u.span.shift (Text.byteSize a) lines, false⟩ ::
      us.map (Token.shift (Text.byteSize a) lines))).relabel.item).reverse = items.reverse := by
    rw [List.map_congr_left fun i _ => Twin.item_front _ i, List.map_id']
  rw [hread] at ho
  -- Behind it, as the second one, moved by what stands before.
  obtain ⟨hvalue, -, hnotes⟩ := Parser.Alike.loop ha ha
    (Parser.nextItem_alike (hg _) rfl items.reverse) []
    (Twin.sees_behind a t he' lines d.count)
    (Twin.linked_behind hname hrest hdepth) (.inl rfl)
  rw [List.map_nil, List.nil_append, ho, hsecond] at hvalue hnotes
  have hboth' : both = _ := hboth.symm.trans hrun
  rw [hboth', hvalue, hitems', hnotes]
  refine ⟨?_, _, d.count, rfl⟩
  rw [Option.map_some, Option.map_some, List.reverse_reverse]
  rfl

/-- The notes of two sources behind each other. -/
theorem problems_append {n₁ n₂ : List Note} (hquiet : Quiet n₁) (w₁ w₂ : Twin)
    (tokens : List Token) (stop : Token) (ds : List Diagnostic) :
    problems ⟨tokens, stop, ds.map (Diagnostic.shift w₂.bytes w₂.lines)⟩
        (n₁.map w₁.note ++ n₂.map w₂.note) =
      (Diagnostic.sort (ds ++ Note.diagnostics false n₂)).map
        (Diagnostic.shift w₂.bytes w₂.lines) := by
  have hquiet' : Quiet (n₁.map w₁.note) := by
    rw [Quiet, diagnostics_map, hquiet, List.map_nil]
  rw [problems, diagnostics_append hquiet', diagnostics_map, ← List.map_append, sort_shift]

/-- **Two sources behind each other mean what they mean alone.**  The first has no problem and does
not end in a word that binds what follows; the second starts with a plain name and without a byte
order mark.  Then the document of both is the items of the one and the items of the other, the
latter moved behind the former, and the problems are those of the second, moved likewise. -/
theorem parse_append {s t : String} (clean : (parse s).diagnostics = [])
    (loose : Lookahead.Loose (visibleTokens s)) (front : t.toList.head? ≠ some '\uFEFF')
    (first : ∃ u name, (visibleTokens t).head? = some u ∧ u.kind = .word name .name) :
    (parse (s ++ "\n" ++ t)).document.items = (parse s).document.items ++
        (parse t).document.items.map
          (Relabel.shift (Text.byteSize s.toList + 1) (s.toList.count '\n' + 1)).item ∧
      (parse (s ++ "\n" ++ t)).diagnostics = (parse t).diagnostics.map
        (Diagnostic.shift (Text.byteSize s.toList + 1) (s.toList.count '\n' + 1)) := by
  obtain ⟨hlex, hquiet⟩ := problems_eq_nil clean
  obtain ⟨u, name, hu, hname⟩ := first
  rw [← (ofText_eq t).1] at hu
  rw [← (ofText_eq s).1] at loose
  obtain ⟨us, htokens⟩ := List.head?_eq_some_iff.1 hu
  have hstream := TokenStream.ofText_append hlex (last_ne_colon clean) front htokens hname
  have hbytes : Text.lineBytes s.toList = Text.byteSize (s.toList ++ ['\n']) := by
    rw [Text.byteSize_append]
    rfl
  have hlist : (s ++ "\n" ++ t).toList = (s.toList ++ ['\n']) ++ t.toList := by simp
  rw [hbytes, Text.lineCount] at hstream
  have hrun (x : String) : readItems (fun _ => false) x (TokenStream.ofText x) =
      loop (nextItem (.levels Parser.maxNesting)) [] ⟨x.toList, (TokenStream.ofText x).stop⟩
        (.start (TokenStream.ofText x).tokens) := rfl
  have hsecond := (hrun t).symm
  have hboth := (hrun (s ++ "\n" ++ t)).symm
  rw [htokens] at hsecond
  rw [hstream, hlist] at hboth
  obtain ⟨hvalue, w, drift, hnotes⟩ := items_append (twinned_levels · Parser.maxNesting)
    (ofText_eq s).2 (ofText_eq t).2 (fair_of_diagnostics hlex) loose hname
    (s.toList.count '\n' + 1) (hrun s).symm hsecond hboth hquiet (readItems_value s)
    (readItems_value t)
  have hsize : Text.byteSize s.toList + 1 = Text.byteSize (s.toList ++ ['\n']) := hbytes
  show (readItems _ _ (TokenStream.ofText (s ++ "\n" ++ t))).value.join.getD [] = _ ∧
    problems (TokenStream.ofText (s ++ "\n" ++ t)) (readItems _ _ _).notes = _
  rw [hsize, hstream, hvalue, hnotes]
  exact ⟨rfl, problems_append hquiet w (.behind _ _ drift) _ _ _⟩

/-- A declaration with a broken one behind it. -/
theorem parse_declaration_append_broken :
    (parse "A is B( x = 1 )").diagnostics = [] ∧
      Lookahead.Loose (visibleTokens "A is B( x = 1 )") ∧
      "C is ( 2".toList.head? ≠ some '\uFEFF' ∧
      (∃ u name, (visibleTokens "C is ( 2").head? = some u ∧ u.kind = .word name .name) ∧
      (parse ("A is B( x = 1 )" ++ "\n" ++ "C is ( 2")).document.items =
        (parse "A is B( x = 1 )").document.items ++
          (parse "C is ( 2").document.items.map (Relabel.shift
            (Text.byteSize "A is B( x = 1 )".toList + 1)
            ("A is B( x = 1 )".toList.count '\n' + 1)).item ∧
      (parse ("A is B( x = 1 )" ++ "\n" ++ "C is ( 2")).diagnostics =
        (parse "C is ( 2").diagnostics.map (Diagnostic.shift
          (Text.byteSize "A is B( x = 1 )".toList + 1)
          ("A is B( x = 1 )".toList.count '\n' + 1)) := by
  have clean : (parse "A is B( x = 1 )").diagnostics = [] := by cbv
  have last : (visibleTokens "A is B( x = 1 )").getLast? =
      some ⟨.rparen, ⟨14, 15, 1, 15⟩, false⟩ := by cbv
  have loose : Lookahead.Loose (visibleTokens "A is B( x = 1 )") := by
    intro u hu k hk
    rw [last] at hu
    obtain rfl := Option.some.inj hu
    cases hk
  have front : "C is ( 2".toList.head? ≠ some '\uFEFF' := by decide
  have head : (visibleTokens "C is ( 2").head? =
      some ⟨.word "C" .name, ⟨0, 1, 1, 1⟩, true⟩ := by cbv
  have first : ∃ u name, (visibleTokens "C is ( 2").head? = some u ∧ u.kind = .word name .name :=
    ⟨⟨.word "C" .name, ⟨0, 1, 1, 1⟩, true⟩, "C", head, rfl⟩
  exact ⟨clean, loose, front, first, parse_append clean loose front first⟩

end Ndf
