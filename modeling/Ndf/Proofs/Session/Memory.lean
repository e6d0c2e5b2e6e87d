/-
# What a session remembers

`SPEC_FULL.md` E6, the commands of the interactive session.

A call gives a session something to remember if its input is a source, or if it is `:load` with the
path of a file that can be read and is text (`Call.Gives`).  That is all that tells what is
remembered: a call that gives nothing leaves the session as it is (`Call.gives_or_keeps`), so behind
any calls it is what the last of them gave that gave anything (`Session.last_after`).

How files are read and written is a function of a world, which can be another one at each call.
Nothing is assumed of it, so files can be missing, unreadable, changed by others or refused when
they are written.
-/

import Mathlib.Data.List.Induction
import Ndf.Proofs.Session.Command
import Ndf.Session.Basic

namespace Ndf

open Input (Calls IsCommand)

variable {W : Type}

/-- An input that a session is given, and the world in which it is. -/
structure Call (W : Type) where
  input : String
  world : W

/-- The text of a file that can be loaded: it has a name, it can be read, and it is UTF-8. -/
def Disk.text? (disk : Disk (StateM W)) (path : String) (world : W) : Option String :=
  if path = "" then none
  else
    match (disk.read path world).1 with
    | .ok bytes => (Text.decode bytes).toOption
    | .error _ => none

namespace Call

/-- What a call gives a session to remember. -/
inductive Gives (disk : Disk (StateM W)) (c : Call W) : Parsed → Prop
  /-- An input that is no command gives its parse, white space around it included. -/
  | source (h : ¬ IsCommand c.input) : Gives disk c (parse c.input)
  /-- `:load` gives the parse of the text of its file. -/
  | load {path text : String} (h : Calls c.input "load" path)
      (hread : disk.text? path c.world = some text) : Gives disk c (parse text)

/-- What the last of some calls gives that gives anything. -/
def LastGives (disk : Disk (StateM W)) (calls : List (Call W)) (p : Parsed) : Prop :=
  ∃ before c after, calls = before ++ c :: after ∧ c.Gives disk p ∧
    ∀ c' ∈ after, ∀ q, ¬ c'.Gives disk q

/-- The answer to a call. -/
def answer (disk : Disk (StateM W)) (s : Session) (c : Call W) : Except Failure String :=
  (s.eval disk c.input c.world).1.2

/-- The session behind a call. -/
def next (disk : Disk (StateM W)) (s : Session) (c : Call W) : Session :=
  (s.eval disk c.input c.world).1.1

end Call

namespace Session

/-- An answer from what is remembered. -/
def fromMemory (s : Session) (f : Parsed → String) : Except Failure String :=
  match s.last with
  | some p => .ok (f p)
  | none => .error (refuse "nothing parsed yet")

/-- The session behind some calls. -/
def after (disk : Disk (StateM W)) (calls : List (Call W)) : Session :=
  calls.foldl (Call.next disk) {}

end Session

/-- What a call does to a session and what it answers from it. -/
structure Call.Heeds (disk : Disk (StateM W)) (s : Session) (c : Call W) : Prop where
  /-- What a call gives is remembered. -/
  given : ∀ p, c.Gives disk p → c.next disk s = ⟨some p⟩
  /-- A call that gives nothing to remember leaves the session as it is. -/
  unchanged : (∀ p, ¬ c.Gives disk p) → c.next disk s = s
  /-- A command other than `:load` leaves it as it is. -/
  command : ∀ name argument, Calls c.input name argument → name ≠ "load" → c.next disk s = s
  /-- A call that fails leaves it as it is. -/
  failed : ∀ e, c.answer disk s = .error e → c.next disk s = s
  /-- `:load` succeeds exactly if its file has a text. -/
  loaded : ∀ path, Calls c.input "load" path →
    ((∃ answered, c.answer disk s = .ok answered) ↔ ∃ text, disk.text? path c.world = some text)
  /-- `:tree` without a source dumps the tree of what is remembered. -/
  tree : Calls c.input "tree" "" →
    c.answer disk s = s.fromMemory fun p => p.document.dump
  /-- `:fmt` without a source prints the canonical text of what is remembered. -/
  format : Calls c.input "fmt" "" →
    c.answer disk s = s.fromMemory fun p => p.document.format {}
  /-- `:refs` without a source lists the references of what is remembered. -/
  references : Calls c.input "refs" "" →
    c.answer disk s = s.fromMemory fun p =>
      String.intercalate "\n" (p.document.references.map Reference.path)

variable {disk : Disk (StateM W)} {s : Session} {c : Call W} {world : W} {path : String}

/-! ### What the commands do -/

/-- A file either has a text, and then it is loaded and remembered, or loading it fails and
changes nothing. -/
theorem Session.load_run (disk : Disk (StateM W)) (s : Session) (path : String) (world : W) :
    (∃ text answer, disk.text? path world = some text ∧
      (s.load disk path world).1 = (⟨some (parse text)⟩, .ok answer)) ∨
    (∃ e, disk.text? path world = none ∧ (s.load disk path world).1 = (s, .error e)) := by
  by_cases hpath : path = ""
  · refine .inr ⟨refuse ":load needs a path", by rw [Disk.text?, if_pos hpath], ?_⟩
    rw [load, if_pos hpath]
    rfl
  cases hread : disk.read path world with
  | mk read world' =>
    rw [Disk.text?, if_neg hpath, load, if_neg hpath, hread]
    simp only [Disk.report, bind, StateT.bind, hread]
    cases read with
    | error e =>
      cases e with
      | opening e => exact .inr ⟨_, rfl, rfl⟩
      | reading e => exact .inr ⟨_, rfl, rfl⟩
    | ok bytes =>
      cases hd : Text.decode bytes with
      | ok text =>
        simp only [hd]
        exact .inl ⟨_, _, rfl, rfl⟩
      | error n =>
        simp only [hd]
        exact .inr ⟨_, rfl, rfl⟩

/-- Without a source a command is about what is remembered. -/
theorem Session.target_fromMemory (s : Session) (f : Parsed → String) :
    (s.target "").map f = s.fromMemory f := by
  rw [target, if_neg (by simp), fromMemory]
  cases s.last with
  | some p => rfl
  | none => rfl

namespace Call

/-- A command other than to load changes nothing. -/
theorem next_of_command {command : Command} (h : Command.ofInput c.input = command)
    (hsource : ∀ text, command ≠ .source text) (hload : ∀ path, command ≠ .load path) :
    c.next disk s = s := by
  rw [next, Session.eval, h]
  cases command with
  | source text => exact absurd rfl (hsource text)
  | load path => exact absurd rfl (hload path)
  | _ => rfl

/-- What `:load` does is what loading its file does. -/
theorem eval_load (disk : Disk (StateM W)) (s : Session) (h : Calls c.input "load" path) :
    (s.eval disk c.input c.world).1 = (s.load disk path c.world).1 := by
  rw [Session.eval, h.ofInput_eq]
  rfl

/-- `:load` gives nothing but the text of its file. -/
theorem gives_load_iff (h : Calls c.input "load" path) {p : Parsed} :
    c.Gives disk p ↔ ∃ text, disk.text? path c.world = some text ∧ p = parse text := by
  constructor
  · intro hgives
    cases hgives with
    | source hsource => exact absurd h.isCommand hsource
    | @load path' text h' hread =>
      have hsame : Command.load path = .load path' := h.ofInput_eq.symm.trans h'.ofInput_eq
      obtain rfl := Command.load.inj hsame
      exact ⟨text, hread, rfl⟩
  · rintro ⟨text, hread, rfl⟩
    exact .load h hread

/-- A command other than `:load` gives nothing. -/
theorem not_gives_of_name {name argument : String} (h : Calls c.input name argument)
    (hname : name ≠ "load") (p : Parsed) : ¬ c.Gives disk p := by
  intro hgives
  cases hgives with
  | source hsource => exact hsource h.isCommand
  | @load path text h' hread =>
    have hload : Command.named name argument = .load path := h.ofInput_eq.symm.trans h'.ofInput_eq
    exact hname (Command.named_eq_load_iff.1 hload).1

/-- A command other than `:load` leaves the session as it is. -/
theorem next_of_name {name argument : String} (h : Calls c.input name argument)
    (hname : name ≠ "load") : c.next disk s = s :=
  next_of_command h.ofInput_eq (Command.named_ne_source name argument)
    fun _ hload => hname (Command.named_eq_load_iff.1 hload).1

/-! ### One call -/

/-- **One call** gives a session something and nothing else, which is remembered, and does not fail;
or it gives nothing and leaves the session as it is. -/
theorem gives_or_keeps (disk : Disk (StateM W)) (s : Session) (c : Call W) :
    (∃ p answered, c.Gives disk p ∧ (∀ q, c.Gives disk q → q = p) ∧ c.next disk s = ⟨some p⟩ ∧
      c.answer disk s = .ok answered) ∨
    ((∀ p, ¬ c.Gives disk p) ∧ c.next disk s = s) := by
  by_cases hcommand : IsCommand c.input
  · obtain ⟨name, argument, hcalls⟩ := Input.exists_calls hcommand
    by_cases hname : name = "load"
    · subst hname
      rw [next, answer, eval_load disk s hcalls]
      rcases Session.load_run disk s argument c.world with
        ⟨text, answered, htext, hrun⟩ | ⟨e, htext, hrun⟩
      · refine .inl ⟨parse text, answered, .load hcalls htext, fun q hq => ?_, by rw [hrun],
          by rw [hrun]⟩
        obtain ⟨text', htext', rfl⟩ := (gives_load_iff hcalls).1 hq
        obtain rfl : text = text' := Option.some.inj (htext.symm.trans htext')
        rfl
      · refine .inr ⟨fun p hp => ?_, by rw [hrun]⟩
        obtain ⟨text, htext', -⟩ := (gives_load_iff hcalls).1 hp
        rw [htext] at htext'
        cases htext'
    · exact .inr ⟨not_gives_of_name hcalls hname, next_of_name hcalls hname⟩
  · have hsource := Input.ofInput_eq_source hcommand
    refine .inl ⟨parse c.input, _, .source hcommand, fun q hq => ?_,
      by rw [next, Session.eval, hsource]; rfl, by rw [answer, Session.eval, hsource]; rfl⟩
    cases hq with
    | source _ => rfl
    | load h _ => exact absurd h.isCommand hcommand

/-- What a call does follows from what it gives. -/
theorem heeds (disk : Disk (StateM W)) (s : Session) (c : Call W) : c.Heeds disk s where
  given p hp := by
    rcases c.gives_or_keeps disk s with ⟨q, _, -, honly, hnext, -⟩ | ⟨hnone, -⟩
    · rw [honly p hp, hnext]
    · exact absurd hp (hnone p)
  unchanged hnone := by
    rcases c.gives_or_keeps disk s with ⟨p, _, hgives, -⟩ | ⟨-, hnext⟩
    · exact absurd hgives (hnone p)
    · exact hnext
  command _ _ hcalls hname := next_of_name hcalls hname
  failed e herror := by
    rcases c.gives_or_keeps disk s with ⟨_, _, -, -, -, hok⟩ | ⟨-, hnext⟩
    · rw [herror] at hok
      cases hok
    · exact hnext
  loaded path hcalls := by
    rw [answer, eval_load disk s hcalls]
    rcases Session.load_run disk s path c.world with
      ⟨text, answered, htext, hrun⟩ | ⟨e, htext, hrun⟩
    · rw [hrun]
      exact ⟨fun _ => ⟨text, htext⟩, fun _ => ⟨answered, rfl⟩⟩
    · rw [hrun, htext]
      simp
  tree hcalls := by
    rw [← Session.target_fromMemory, answer, Session.eval, hcalls.ofInput_eq]
    rfl
  format hcalls := by
    rw [← Session.target_fromMemory, answer, Session.eval, hcalls.ofInput_eq]
    rfl
  references hcalls := by
    rw [← Session.target_fromMemory, answer, Session.eval, hcalls.ofInput_eq]
    rfl

/-! ### Calls one after the other -/

/-- The last of some calls that gives anything is the last call, or that one gives nothing and it is
one of the others. -/
theorem lastGives_concat_iff {calls : List (Call W)} {p : Parsed} :
    LastGives disk (calls ++ [c]) p ↔
      c.Gives disk p ∨ (∀ q, ¬ c.Gives disk q) ∧ LastGives disk calls p := by
  constructor
  · rintro ⟨before, d, after, hsplit, hgives, hnone⟩
    rcases List.eq_nil_or_concat after with rfl | ⟨rest, last, rfl⟩
    · obtain ⟨-, hlast⟩ := List.append_inj' hsplit rfl
      obtain ⟨rfl, -⟩ := List.cons.inj hlast
      exact .inl hgives
    · rw [List.concat_eq_append, ← List.cons_append, ← List.append_assoc] at hsplit
      obtain ⟨hcalls, hlast⟩ := List.append_inj' hsplit rfl
      obtain ⟨rfl, -⟩ := List.cons.inj hlast
      exact .inr ⟨hnone c (by simp), before, d, rest, hcalls, hgives,
        fun e he => hnone e (by simp [he])⟩
  · rintro (hgives | ⟨hlast, before, d, after, rfl, hgives, hnone⟩)
    · exact ⟨calls, c, [], rfl, hgives, by simp⟩
    · refine ⟨before, d, after ++ [c], by simp, hgives, fun e he => ?_⟩
      rcases List.mem_append.1 he with he | he
      · exact hnone e he
      · obtain rfl := List.mem_singleton.1 he
        exact hlast

end Call

/-- **A session remembers the last of what it was given.**  Behind any calls, however files were
read and written in them, it remembers what the last call gave that gave anything, and nothing if
none did.  Every call that comes then changes that only if it gives something itself, which neither
one that fails nor a command other than `:load` does; and `:tree`, `:fmt` and `:refs` without a
source answer from what is remembered, or fail if that is nothing. -/
theorem Session.last_after (disk : Disk (StateM W)) (calls : List (Call W)) :
    (∀ p, (Session.after disk calls).last = some p ↔ Call.LastGives disk calls p) ∧
      ((Session.after disk calls).last = none ↔ ∀ c ∈ calls, ∀ p, ¬ c.Gives disk p) ∧
      ∀ c : Call W, c.Heeds disk (Session.after disk calls) := by
  refine and_assoc.1 ⟨?_, fun c => c.heeds disk _⟩
  induction calls using List.reverseRecOn with
  | nil => simp [Session.after, Call.LastGives]
  | append_singleton calls c ih =>
    have hstep : Session.after disk (calls ++ [c]) = c.next disk (Session.after disk calls) :=
      List.foldl_append
    rw [hstep]
    rcases c.gives_or_keeps disk (Session.after disk calls) with
      ⟨p, _, hgives, honly, hnext, -⟩ | ⟨hnone, hnext⟩
    · have hlast (q : Parsed) : Call.LastGives disk (calls ++ [c]) q ↔ q = p := by
        rw [Call.lastGives_concat_iff]
        refine ⟨fun h => ?_, fun h => .inl (h ▸ hgives)⟩
        rcases h with h | ⟨hnone, -⟩
        · exact honly q h
        · exact absurd hgives (hnone p)
      rw [hnext]
      refine ⟨fun q => ?_, by simp, fun h => absurd hgives (h c (by simp) p)⟩
      rw [hlast, Option.some.injEq, eq_comm]
    · rw [hnext]
      refine ⟨fun q => ?_, ih.2.trans ?_⟩
      · rw [ih.1, Call.lastGives_concat_iff]
        exact ⟨fun h => .inr ⟨hnone, h⟩, fun h => (h.resolve_left (hnone q)).2⟩
      · simp only [List.mem_append, List.mem_singleton, or_imp, forall_and, forall_eq]
        exact (and_iff_left hnone).symm

/-- A disk with one file, on which nothing is written. -/
def Disk.single (name text : String) : Disk (StateM Unit) where
  read path := pure (if path = name then .ok text.toUTF8 else .error (.opening .notFound))
  write _ _ := pure (.error (.creating (.other "Read-only file system (os error 30)")))

/-- A source, a file that is there, one that is not, and a command with a source of its own: the
file is remembered, and printed when it is asked for. -/
theorem Session.last_after_load :
    (Session.after (Disk.single "b" "B  is  2")
      [⟨" A is 1 ", ()⟩, ⟨" :load  b ", ()⟩, ⟨":load c", ()⟩, ⟨":tree C is 3", ()⟩]).last =
        some (parse "B  is  2") ∧
      Call.answer (Disk.single "b" "B  is  2") (Session.after (Disk.single "b" "B  is  2")
        [⟨" A is 1 ", ()⟩, ⟨" :load  b ", ()⟩, ⟨":load c", ()⟩, ⟨":tree C is 3", ()⟩])
          ⟨":fmt", ()⟩ = .ok "B is 2\n" := by
  have loaded : Calls " :load  b " "load" "b" := ⟨by decide, by decide, [' '], [' ', ' '], [' '],
    by decide, by decide, by decide, by simp, rfl⟩
  have missing : Calls ":load c" "load" "c" := ⟨by decide, by decide, [], [' '], [],
    by decide, by decide, by decide, by simp, rfl⟩
  have shown : Calls ":tree C is 3" "tree" "C is 3" := ⟨by decide, by decide, [], [' '], [],
    by decide, by decide, by decide, by simp, rfl⟩
  have printed : Calls ":fmt" "fmt" "" := ⟨by decide, by decide, [], [], [],
    by decide, by decide, by decide, by simp, rfl⟩
  have remembers := ((Session.last_after (Disk.single "b" "B  is  2")
    [⟨" A is 1 ", ()⟩, ⟨" :load  b ", ()⟩, ⟨":load c", ()⟩, ⟨":tree C is 3", ()⟩]).1
      (parse "B  is  2")).2
    ⟨[⟨" A is 1 ", ()⟩], ⟨" :load  b ", ()⟩, [⟨":load c", ()⟩, ⟨":tree C is 3", ()⟩], rfl,
      .load loaded (by decide +kernel), fun c hc q hq => by
        rcases List.mem_cons.1 hc with rfl | hc
        · obtain ⟨_, hread, -⟩ := (Call.gives_load_iff missing).1 hq
          cases hread
        · obtain rfl := List.mem_singleton.1 hc
          exact Call.not_gives_of_name shown (by decide) q hq⟩
  refine ⟨remembers, ?_⟩
  rw [((Session.last_after _ _).2.2 _).format printed, Session.fromMemory, remembers]
  exact congrArg Except.ok (by decide +kernel)

end Ndf
