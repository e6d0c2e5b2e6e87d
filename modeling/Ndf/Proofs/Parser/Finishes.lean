/-
# Parsing finishes

`SPEC_FULL.md` §7: a document is always returned.

Every source is parsed to its end, and no operation on the way is outside of its bounds.  This
module lists the parsers of the grammar (`Parser.Rule`) and the rounds of its loops
(`Parser.Round`) and collects what is known of them:

* a parser moves forward only, never past the end of the source, and closes the levels that it
  opens, whether it returns a value or gives up (`Parser.Rule.reaches`);
* a round that goes on reads a token, so every loop gets to a last round (`Parser.Reached`);
* every way from a parser back to itself reads a token (`Parser.Descends`);
* the number of tokens read is an index into them, those that were split counted as two
  (`Cursor.On.indexed`).
-/

import Ndf.Proofs.Parser.Explained
import Ndf.Proofs.Parser.Recursion
import Ndf.Proofs.Parser.Scans
import Ndf.Proofs.Token.Slices

namespace Ndf

namespace Parser

/-! ### Parsers -/

/-- The parsers of the grammar above a level, and those of recovery. -/
inductive Rule (g : Grammar) : ∀ {α : Type}, Parser α → Prop where
  | bump : Rule g bump
  | skip (n : Nat) : Rule g (skip n)
  | eat (kind : TokenKind) : Rule g (eat kind)
  | expect (kind : TokenKind) (due : String) : Rule g (expect kind due)
  | expectKeyword (keyword : Keyword) : Rule g (expectKeyword keyword)
  | name (due : String) : Rule g (name due)
  | leave (m : Mark) (keep : Option TokenKind) : Rule g (leave m keep)
  | recoverItem (m : Mark) : Rule g (recoverItem m)
  | recoverElement (m : Mark) : Rule g (recoverElement m)
  | recoverEntry (m : Mark) : Rule g (recoverEntry m)
  | tooDeep : Rule g tooDeep
  | deepExpr : Rule g Grammar.deepExpr
  | deepType : Rule g Grammar.deepType
  | typeParamStep (read : List TypeRef) : Rule g (typeParamStep g read)
  | typeParams : Rule g (typeParams g)
  | typeRef : Rule g (typeRef g)
  | element (e : Elements) : Rule g (element g e)
  | elements : Rule g (elements g)
  | bracketed : Rule g (bracketed g)
  | suffix (read : List Suffix) : Rule g (suffix g read)
  | suffixes : Rule g (suffixes g)
  | scopeMark : Rule g scopeMark
  | reference : Rule g (reference g)
  | vectorOrPath : Rule g (vectorOrPath g)
  | assignment : Rule g (assignment g)
  | memberTail (m : Mark) (name : Name) : Rule g (memberTail g m name)
  | member : Rule g (member g)
  | param : Rule g (param g)
  | paramStep (read : List Member) : Rule g (paramStep g read)
  | params : Rule g (params g)
  | template : Rule g (template g (object g))
  | visibility : Rule g (visibility g (object g))
  | entry : Rule g (entry g (object g))
  | entryStep (read : List Entry) : Rule g (entryStep g (object g) read)
  | object : Rule g (object g)
  | unnamed : Rule g (unnamed g)
  | list : Rule g (list g)
  | vector (type : VectorType) : Rule g (vector g type)
  | pairs (items : List Expr) : Rule g (pairs items)
  | map : Rule g (map g)
  | parenthesised : Rule g (parenthesised g)
  | index? : Rule g (index? g)
  | generic : Rule g (generic g)
  | guid : Rule g guid
  | constant (value : Span → Expr) : Rule g (constant value)
  | nameLed : Rule g (nameLed g)
  | wordLed (wordClass : WordClass) : Rule g (wordLed g wordClass)
  | brokenToken (e : LexError) : Rule g (brokenToken e)
  | noExpression : Rule g noExpression
  | primary : Rule g (primary g)
  | unary : Rule g (unary g)
  | operation (steps loosest : Nat) (m : Mark) (left : Expr) :
    Rule g (operation g (climb g steps) loosest m left)
  | climb (steps loosest : Nat) : Rule g (climb g steps loosest)
  | expression : Rule g (expression g)
  | expr : Rule g g.expr
  | operand : Rule g g.operand
  | type : Rule g g.type
  | item : Rule g (item g)
  | itemOrError : Rule g (itemOrError g)
  | itemStep (calledOff : Nat → Bool) (read : List Item) : Rule g (itemStep g calledOff read)
  | items (calledOff : Nat → Bool) : Rule g (items g calledOff)

variable {α β σ : Type} {src : Source} {g : Grammar}

/-- **Every parser moves forward and leaves as many levels open as there were**, whether it returns
a value or gives up. -/
theorem Rule.reaches (hg : Advancing g) {p : Parser α} (h : Rule g p) (he : src.Ended)
    (c : Cursor) : c.Reaches (p src c).cursor := by
  have sound {p : Parser α} (hp : Sound p) : c.Reaches (p src c).cursor := hp.moves he c
  have steady {p : Parser α} (hp : Steady p) : c.Reaches (p src c).cursor := hp.moves he c
  have plain {p : Parser α} (hp : Plain p) : c.Reaches (p src c).cursor :=
    (hp src c).elim fun _ hu => hu.reaches
  have climb (steps : Nat) (rank : Nat) := climb_steady hg steps rank
  cases h with
  | bump => exact steady .bump
  | skip n => exact plain (.skip n)
  | eat kind => exact steady (.eat kind)
  | expect kind due => exact steady (.expect kind due)
  | expectKeyword keyword => exact steady (.expectKeyword keyword)
  | name due => exact steady (.name due)
  | leave m keep => exact plain (.leave m keep)
  | recoverItem m => exact plain (.recoverItem m)
  | recoverElement m => exact plain (.recoverElement m)
  | recoverEntry m => exact plain (.recoverEntry m)
  | tooDeep => exact plain tooDeep_plain
  | deepExpr => exact steady deepExpr_steady
  | deepType => exact sound deepType_sound
  | typeParamStep read => exact sound (typeParamStep_sound hg read)
  | typeParams => exact sound (typeParams_sound hg)
  | typeRef => exact sound (typeRef_sound hg)
  | element e => exact steady (element_steady hg e)
  | elements => exact steady (elements_steady hg)
  | bracketed => exact steady (bracketed_steady hg)
  | suffix read => exact steady (suffix_steady hg read)
  | suffixes => exact steady (suffixes_steady hg)
  | scopeMark => exact steady scopeMark_steady
  | reference => exact steady (reference_steady hg)
  | vectorOrPath => exact steady (vectorOrPath_steady hg)
  | assignment => exact steady (assignment_steady hg)
  | memberTail m name => exact steady (memberTail_steady hg m name)
  | member => exact steady (member_steady hg)
  | param => exact steady (param_steady hg)
  | paramStep read => exact steady (paramStep_steady hg read)
  | params => exact steady (params_steady hg)
  | template => exact steady (template_steady hg (object_steady hg))
  | visibility => exact steady (visibility_steady hg (object_steady hg))
  | entry => exact steady (entry_steady hg (object_steady hg))
  | entryStep read => exact steady (entryStep_steady hg (object_steady hg) read)
  | object => exact steady (object_steady hg)
  | unnamed => exact steady (unnamed_steady hg)
  | list => exact steady (list_steady hg)
  | vector type => exact steady (vector_steady hg type)
  | pairs items => exact steady (pairs_still items).steady
  | map => exact steady (map_steady hg)
  | parenthesised => exact steady (parenthesised_steady hg)
  | index? => exact steady (index?_steady hg)
  | generic => exact steady (generic_steady hg)
  | guid => exact steady guid_steady
  | constant value => exact steady (constant_steady value)
  | nameLed => exact steady (nameLed_steady hg)
  | wordLed wordClass => exact steady (wordLed_steady hg wordClass)
  | brokenToken e => exact steady (brokenToken_steady e)
  | noExpression => exact steady (.abortHere fun t => .noExpression t.kind.name)
  | primary => exact steady (primary_steady hg)
  | unary => exact steady (unary_steady hg)
  | operation steps loosest m left =>
    exact steady (operation_steady hg (climb steps) loosest m left)
  | climb steps loosest => exact steady (climb steps loosest)
  | expression => exact steady (expression_steady hg)
  | expr => exact steady hg.expr
  | operand => exact steady hg.operand
  | type => exact sound hg.type
  | item => exact steady (item_steady hg)
  | itemOrError => exact steady (itemOrError_steady hg)
  | itemStep calledOff read => exact steady (itemStep_steady hg calledOff read)
  | items calledOff => exact steady (items_steady hg calledOff)

/-! ### Loops -/

/-- The rounds of all loops: those of the grammar above a level and those of recovery. -/
inductive Round (g : Grammar) : ∀ {σ β : Type}, (σ → Parser (σ ⊕ β)) → Prop where
  | items (calledOff : Nat → Bool) : Round g (itemStep g calledOff)
  | elements : Round g (element g)
  | entries : Round g (entryStep g (object g))
  | params : Round g (paramStep g)
  | typeParams : Round g (typeParamStep g)
  | suffixes : Round g (suffix g)
  | operators (steps loosest : Nat) (m : Mark) : Round g (operation g (climb g steps) loosest m)
  | brokenItem : Round g itemRound
  | brokenElement : Round g elementRound
  | brokenEntry : Round g entryRound
  | fragment : Round g fragmentRound

/-- **A round that goes on reads a token.** -/
theorem Round.advances (hg : Advancing g) {step : σ → Parser (σ ⊕ β)} (h : Round g step) :
    Advances step := by
  cases h with
  | items calledOff => exact itemStep_advances hg calledOff
  | elements => exact element_advances hg
  | entries => exact entryStep_advances hg (object_steady hg)
  | params => exact paramStep_advances hg
  | typeParams => exact Eats.advances (typeParamStep_eats hg)
  | suffixes => exact suffix_advances hg
  | operators steps loosest m =>
    exact operation_advances hg (fun rank => climb_steady hg steps rank) loosest m
  | brokenItem => exact itemRound_advances
  | brokenElement => exact elementRound_advances
  | brokenEntry => exact entryRound_advances
  | fragment => exact fragmentRound_advances

/-- Some rounds of a loop lead from one state and place to another. -/
inductive Reached (step : σ → Parser (σ ⊕ β)) (src : Source) : σ → Cursor → σ → Cursor → Prop where
  | start (s : σ) (c : Cursor) : Reached step src s c s c
  | round {s s' s'' : σ} {c c'' : Cursor} (h : (step s src c).value = some (.inl s'))
    (h' : Reached step src s' (step s src c).cursor s'' c'') : Reached step src s c s'' c''

variable {step : σ → Parser (σ ⊕ β)} {s s' : σ} {c c' : Cursor}

/-- The rounds of a loop move forward. -/
theorem Reached.reaches (hs : ∀ s, Sound (step s)) (he : src.Ended)
    (h : Reached step src s c s' c') : c.Reaches c' := by
  induction h with
  | start s c => exact .refl c
  | round _ _ ih => exact ((hs _).moves he _).trans ih

/-- **A loop gets to a last round**, and ends as that round does. -/
theorem exists_last_round (ha : Advances step) (he : src.Ended) (s : σ) (c : Cursor) :
    ∃ s' c', Reached step src s c s' c' ∧ (∀ s'', (step s' src c').value ≠ some (.inl s'')) ∧
      (loop step s src c).value = (step s' src c').value.bind Sum.getRight? ∧
      (loop step s src c).cursor = (step s' src c').cursor := by
  refine loop_rec ha he (P := fun s c o => ∃ s' c', Reached step src s c s' c' ∧
    (∀ s'', (step s' src c').value ≠ some (.inl s'')) ∧
      o.value = (step s' src c').value.bind Sum.getRight? ∧
      o.cursor = (step s' src c').cursor) (fun s c ih => ?_) s c
  cases hv : (step s src c).value with
  | none =>
    rw [bind_of_none hv]
    exact ⟨s, c, .start s c, by simp [hv], by simp [hv], rfl⟩
  | some r =>
    rw [bind_of_some hv]
    cases r with
    | inl s' =>
      obtain ⟨s'', c'', hreached, hlast, hvalue, hcursor⟩ := ih s' hv
      exact ⟨s'', c'', .round hv hreached, hlast, hvalue, hcursor⟩
    | inr b => exact ⟨s, c, .start s c, by simp [hv], by simp [hv, again, pure_run], rfl⟩

/-! ### Recursion -/

/-- The parsers that call each other do so only behind a token: what they read with at most `n`
tokens left depends on what they call with fewer than `n` left. -/
structure Descends (src : Source) (g : Grammar) : Prop where
  /-- Expressions, operands and types call those of the level below. -/
  levels : ∀ n g', g.AgreeOn src (.fewer n) g' →
    (Grammar.above g).AgreeOn src (.fewer (n + 1)) (.above g')
  /-- An object calls objects. -/
  object : ∀ c, Parser.object g src c = objectWith g (Parser.object g) src c
  /-- They are the bodies of the templates in it. -/
  bodies : ∀ n body', AgreeOn src (.fewer n) (Parser.object g) body' →
    AgreeOn src (.fewer (n + 1)) (objectWith g (Parser.object g)) (objectWith g body')
  /-- An operator calls for its right side. -/
  sides : ∀ n steps right', (∀ rank, AgreeOn src (.fewer n) (climb g steps rank) (right' rank)) →
    ∀ loosest m left, AgreeOn src (.fewer (n + 1)) (operation g (climb g steps) loosest m left)
      (operation g right' loosest m left)

/-- Whatever calls the level below has read a token. -/
theorem descends (hg : Advancing g) (he : src.Ended) : Descends src g where
  levels _ _ h := above_agree_fewer hg h
  object _ := object_eq hg he
  bodies n _ h := objectWith_agree hg (object_steady hg) (Zone.falls_fewer n) (.refl g) h
  sides n steps _ h loosest m left :=
    operation_agree hg (Zone.falls_fewer n) (fun rank => climb_steady hg steps rank) (.refl g) h
      loosest m left

end Parser

/-! ### Indexes -/

/-- Tokens that are not halved. -/
theorem Halved.refl (u : List Token) : Halved u u := by
  induction u with
  | nil => exact .nil
  | cons t u ih => exact .whole t ih

/-- With the tokens read so far, every `>=` of which one half was read apart counted as two, the
number of tokens read is an index: that of the next token, or of the end.  The one before it is that
of the last token read. -/
structure Cursor.IndexedBy (tokens : List Token) (stop : Token) (read : List Token) (c : Cursor) :
    Prop where
  halved : Halved tokens (read ++ c.rest)
  count : c.count = read.length
  next : (read ++ c.rest ++ [stop])[c.count]? = some (c.rest.headD stop)
  last : 0 < c.count → (read ++ c.rest ++ [stop])[c.count - 1]?.map Token.span = some c.last

/-- A place of a source has an index among its tokens. -/
theorem Cursor.On.indexed {tokens : List Token} {c : Cursor} (stop : Token) (h : c.On tokens) :
    ∃ read, c.IndexedBy tokens stop read := by
  have of {read : List Token} (hh : Halved tokens (read ++ c.rest)) (hc : c.count = read.length)
      (hl : 0 < c.count → read.getLast?.map Token.span = some c.last) :
      c.IndexedBy tokens stop read := by
    refine ⟨hh, hc, ?_, fun hpos => ?_⟩
    · rw [List.append_assoc, hc, List.getElem?_append_right (Nat.le_refl _), Nat.sub_self]
      cases c.rest <;> rfl
    · rw [← hl hpos, List.append_assoc, List.getElem?_append_left (by omega), hc,
        List.getLast?_eq_getElem?]
  rcases h with ⟨u, hu⟩ | ⟨u, t, ts, hu⟩
  · obtain ⟨v, hv, hcount, hlast⟩ := hu.read
    have hcount : c.count = v.length := by simpa using hcount
    refine ⟨v, of ?_ hcount fun hpos => ?_⟩
    · rw [show tokens = u ++ c.rest from hu.rest]
      exact hv.append (.refl _)
    · obtain ⟨x, hx⟩ : ∃ x, v.getLast? = some x := by
        refine ⟨v.getLast (List.length_pos_iff.1 (by omega)), List.getLast?_eq_some_getLast _⟩
      rw [hlast, Cursor.lastOf, hx]
      rfl
  · obtain ⟨v, hv, hcount⟩ := hu.read
    refine ⟨v ++ [t.firstHalf], of ?_ (by simpa using hcount) fun _ => ?_⟩
    · rw [show tokens = u ++ t :: ts from hu.rest, hu.behind, List.append_assoc]
      exact hv.append (.halves hu.kind (.refl _))
    · rw [hu.last]
      simp

/-! ### Scenes and sources -/

/-- What all parsers, loops and places over a scene have in common. -/
structure Scene.Progress (S : Scene) : Prop where
  /-- No parser moves back or past the end, and each closes the levels that it opens. -/
  moves : ∀ n {α : Type} {p : Parser α}, Parser.Rule (.levels n) p →
    ∀ c : Cursor, c.Reaches (p S.source c).cursor
  /-- A round that goes on reads a token. -/
  advances : ∀ n {σ β : Type} {step : σ → Parser (σ ⊕ β)}, Parser.Round (.levels n) step →
    ∀ s s' c, (step s S.source c).value = some (.inl s') →
      (step s S.source c).cursor.rest.length < c.rest.length
  /-- Every loop gets to a last round. -/
  ends : ∀ n {σ β : Type} {step : σ → Parser (σ ⊕ β)}, Parser.Round (.levels n) step →
    ∀ s c, ∃ s' c', Parser.Reached step S.source s c s' c' ∧
      (∀ s'', (step s' S.source c').value ≠ some (.inl s'')) ∧
      (Parser.loop step s S.source c).cursor = (step s' S.source c').cursor
  /-- Every way from a parser back to itself reads a token. -/
  descends : ∀ n, Parser.Descends S.source (.levels n)
  /-- The levels call each other without a bound of their own. -/
  recurs : (Grammar.levels Parser.maxNesting).AgreeOn S.source .all
    (.above (.levels Parser.maxNesting))
  /-- Parsers that call each other in this way read what the levels read. -/
  unique : ∀ g : Grammar, g.AgreeOn S.source .all (.above g) →
    g.AgreeOn S.source .all (.levels Parser.maxNesting)
  /-- In front of each item no level is open. -/
  closed : ∀ read c, Parser.Reached (Parser.nextItem (.levels Parser.maxNesting)) S.source
    [] (.start S.tokens) read c → c.depth = 0
  /-- At every place that can be got to, the number of tokens read is an index into them. -/
  indexed : ∀ c : Cursor, c.On S.tokens → ∃ read, c.IndexedBy S.tokens S.source.stop read
  /-- Recovery reads its cuts token by token. -/
  recovers : ∀ m c, Parser.recoverItem m S.source c = Parser.scanItem m S.source c ∧
    Parser.recoverElement m S.source c = Parser.scanElement m S.source c ∧
    Parser.recoverEntry m S.source c = Parser.scanEntry m S.source c ∧
    Parser.tooDeep S.source c = Parser.scanFragment S.source c
  /-- It closes only brackets that are open. -/
  brackets : ∀ level c, (Parser.loop Parser.elementRound level S.source c).notes = [] ∧
    (Parser.loop Parser.fragmentRound level S.source c).notes = []

/-- Every scene makes progress. -/
theorem Scene.progress (S : Scene) : S.Progress where
  moves n _ _ h c := h.reaches (Parser.advancing_levels n) S.ended c
  advances n _ _ _ h s s' c := h.advances (Parser.advancing_levels n) S.ended s s' c
  ends n _ _ _ h s c := by
    obtain ⟨s', c', hreached, hlast, -, hcursor⟩ :=
      Parser.exists_last_round (h.advances (Parser.advancing_levels n)) S.ended s c
    exact ⟨s', c', hreached, hlast, hcursor⟩
  descends n := Parser.descends (Parser.advancing_levels n) S.ended
  recurs := Parser.levels_agree_above
  unique _ := Parser.levels_unique
  closed read c h :=
    (h.reaches (fun s => (Parser.itemStep_steady (Parser.advancing_levels _) _ s).sound)
      S.ended).depth
  indexed c h := h.indexed _
  recovers m c := ⟨Parser.recoverItem_eq S.ended, Parser.recoverElement_eq S.ended,
    Parser.recoverEntry_eq S.ended, Parser.tooDeep_eq S.ended⟩
  brackets level c := by
    rw [Parser.loop_fragmentRound S.ended, Parser.loop_elementRound S.ended,
      Parser.bind_of_some (Parser.skip_value _ _ _)]
    exact ⟨by simp [Parser.skip_notes, Parser.pure_run], Parser.skip_notes _ _ _⟩

/-- The run that `parse` makes over a source. -/
def parseOutcome (source : String) : Outcome (Option (List Item)) :=
  readItems (fun _ => false) source (TokenStream.ofText source)

/-- What it means that a source is parsed to its end with every operation inside of its bounds. -/
structure Finishes (source : String) : Prop where
  /-- There is a result, and all tokens are read. -/
  reads : ∃ items, (parseOutcome source).value = some (some items) ∧
    (parseOutcome source).cursor.rest = []
  /-- Text is cut between characters and at ends in order, a token is split where there is one, a
  level is closed that is open, and no loop runs out of rounds. -/
  calm : ∀ b, .breach b ∉ (parseOutcome source).notes
  /-- What the run is made of makes progress. -/
  progress : (Scene.ofText source).Progress
  /-- Cutting off a token shortens the text, up to the end of the source. -/
  shortens : ∀ l : Lexer, l.next.token.kind ≠ .eof → l.next.next.rest.length < l.rest.length
  /-- The text that a token carries is cut between characters and at ends in order. -/
  slices : ∀ t ∈ (tokenize source).tokens, ∀ margin text, t.kind.carried? = some (margin, text) →
    Text.slice? source.toList (t.span.start + margin) (t.span.stop - margin) = some text.toList
  /-- Braces are closed only if they are open. -/
  braces : ∀ depth text, Lexeme.countedBody (depth + 1) text = some (Lexeme.braceBody depth text)

/-- **Parsing always finishes and never hits an operation that fails.** -/
theorem parse_finishes (source : String) : Finishes source where
  reads := by
    have hg := Parser.advancing_levels Parser.maxNesting
    have he := (Scene.ofText source).ended
    obtain ⟨items, hv, -⟩ := Parser.items_tiling hg (Parser.spanning_levels Parser.maxNesting) he
      (.start (Scene.ofText source).tokens)
    exact ⟨items, hv, Parser.items_ended hg he [] _ hv⟩
  calm := (readItems_accounts (fun _ => false) source).calm
  progress := (Scene.ofText source).progress
  shortens _ := Lexer.rest_next_length_lt
  slices := tokenize_slices source
  braces := Lexeme.countedBody_eq

end Ndf
