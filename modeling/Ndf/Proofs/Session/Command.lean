/-
# How commands are written

A command is a name behind a colon, with white space in front of the argument that may follow
(`Input.Calls`); all other input is source.  What `Command.ofInput` makes of an input is said here
of its text: every input whose first character other than white space is a colon calls a name with
an argument (`Input.exists_calls`), it stands for the command of that name
(`Input.Calls.ofInput_eq`), and every other input stands for itself (`Input.ofInput_eq_source`).
-/

import Mathlib.Data.List.TakeWhile
import Ndf.Session.Command

namespace Ndf

/-! ### White space at the ends of a text -/

namespace Text

/-- A text of white space only. -/
def Blank (text : List Char) : Prop := ∀ c ∈ text, isBlank c = true

instance (text : List Char) : Decidable (Blank text) := List.decidableBAll _ text

/-- A text without white space. -/
def Solid (text : List Char) : Prop := ∀ c ∈ text, isBlank c = false

instance (text : List Char) : Decidable (Solid text) := List.decidableBAll _ text

/-- A text with no white space at its two ends. -/
def Trimmed (text : List Char) : Prop :=
  (∀ c ∈ text.head?, isBlank c = false) ∧ ∀ c ∈ text.getLast?, isBlank c = false

instance (text : List Char) : Decidable (Trimmed text) :=
  @instDecidableAnd _ _ text.head?.decidableForallMem text.getLast?.decidableForallMem

variable {text before after : List Char}

/-- Nothing is white space. -/
theorem blank_nil : Blank [] := by simp [Blank]

/-- What starts with another character than white space has nothing to lose at its front. -/
theorem trimStart_eq_self (h : ∀ c ∈ text.head?, isBlank c = false) : trimStart text = text := by
  cases text with
  | nil => rfl
  | cons c rest =>
    have hc : isBlank c = false := h c rfl
    rw [trimStart, List.dropWhile_cons_of_neg (by simp [hc])]

/-- White space in front of a text is lost. -/
theorem trimStart_append (h : Blank before) : trimStart (before ++ text) = trimStart text :=
  List.dropWhile_append_of_pos h

/-- Trimming at the end is trimming at the front of the text read backwards. -/
theorem trimEnd_eq_reverse (text : List Char) : trimEnd text = (trimStart text.reverse).reverse :=
  rfl

/-- White space at the end is dropped. -/
theorem trimEnd_append (h : Blank after) : trimEnd (text ++ after) = trimEnd text := by
  have hr : Blank after.reverse := fun c hc => h c (List.mem_reverse.1 hc)
  rw [trimEnd_eq_reverse, List.reverse_append, trimStart_append hr, ← trimEnd_eq_reverse]

/-- A text that does not end in white space stays. -/
theorem trimEnd_eq_self (h : ∀ c ∈ text.getLast?, isBlank c = false) : trimEnd text = text := by
  rw [trimEnd_eq_reverse, trimStart_eq_self (by simpa using h), List.reverse_reverse]

/-- **Trimming takes the white space away around a trimmed text.** -/
theorem trim_eq (hb : Blank before) (ht : Trimmed text) (ha : Blank after) :
    trim (before ++ (text ++ after)) = text := by
  rw [trim, trimStart_append hb]
  cases text with
  | nil =>
    have hnil : trimStart after = [] := by
      rw [← List.append_nil after, trimStart_append ha]
      rfl
    rw [List.nil_append, hnil]
    rfl
  | cons c rest =>
    rw [trimStart_eq_self (by simpa using ht.1), trimEnd_append ha, trimEnd_eq_self ht.2]

/-- A text is white space at its front and what is left of it. -/
theorem exists_trimStart (text : List Char) :
    ∃ before, Blank before ∧ text = before ++ trimStart text :=
  ⟨text.takeWhile isBlank, fun _ hc => List.mem_takeWhile_imp hc,
    List.takeWhile_append_dropWhile.symm⟩

/-- The character that trimming stops at is no white space. -/
theorem isBlank_head?_trimStart (text : List Char) :
    ∀ c ∈ (trimStart text).head?, isBlank c = false := by
  intro c hc
  have h := List.head?_dropWhile_not isBlank text
  rw [trimStart] at hc
  rw [Option.mem_def.1 hc] at h
  simpa using h

/-- A text is white space around what trimming leaves. -/
theorem exists_trim (text : List Char) : ∃ before after, Blank before ∧ Blank after ∧
    Trimmed (trim text) ∧ text = before ++ (trim text ++ after) := by
  obtain ⟨before, hb, hfront⟩ := exists_trimStart text
  obtain ⟨after, ha, hback⟩ := exists_trimStart (trimStart text).reverse
  have hsplit : trimStart text = trim text ++ after.reverse := by
    rw [trim, trimEnd_eq_reverse, ← List.reverse_append, ← hback, List.reverse_reverse]
  have hlast := isBlank_head?_trimStart (trimStart text).reverse
  refine ⟨before, after.reverse, hb, fun c hc => ha c (List.mem_reverse.1 hc), ⟨?_, ?_⟩,
    by rw [← hsplit, ← hfront]⟩
  · intro c hc
    refine isBlank_head?_trimStart text c ?_
    rw [hsplit, List.head?_append, Option.mem_def.1 hc]
    rfl
  · simpa [trim, trimEnd_eq_reverse] using hlast

end Text

/-! ### Commands as texts -/

namespace Input

/-- An input whose first character that is no white space is a colon. -/
def IsCommand (input : String) : Prop :=
  ∃ before rest, Text.Blank before ∧ input.toList = before ++ ':' :: rest

/-- An input that is a name behind a colon with an argument behind white space, which may be
missing along with the argument. -/
def Calls (input name argument : String) : Prop :=
  Text.Solid name.toList ∧ Text.Trimmed argument.toList ∧
    ∃ before between after, Text.Blank before ∧ Text.Blank between ∧ Text.Blank after ∧
      (between = [] → argument = "") ∧
      input.toList = before ++ ':' :: (name.toList ++ (between ++ (argument.toList ++ after)))

variable {input name argument : String}

/-- An input that calls a command starts with a colon. -/
theorem Calls.isCommand (h : Calls input name argument) : IsCommand input := by
  obtain ⟨-, -, before, between, after, hb, -, -, -, htext⟩ := h
  exact ⟨before, _, hb, htext⟩

/-- A name without white space ends at the white space behind it. -/
theorem splitBlank_append {name between : List Char} (hname : Text.Solid name)
    (hbetween : Text.Blank between) (rest : List Char) (hrest : between = [] → rest = []) :
    splitBlank (name ++ (between ++ rest)) = (name, between.tail ++ rest) := by
  have pass : ∀ c ∈ name, (!Text.isBlank c) = true := fun c hc => by rw [hname c hc]; rfl
  rw [splitBlank, List.takeWhile_append_of_pos pass, List.dropWhile_append_of_pos pass]
  cases between with
  | nil => simp [hrest rfl]
  | cons b between =>
    have stop : (!Text.isBlank b) = false := by rw [hbetween b (List.mem_cons_self ..)]; rfl
    simp [stop]

/-- **An input stands for the command that it calls.** -/
theorem Calls.ofInput_eq (h : Calls input name argument) :
    Command.ofInput input = Command.named name argument := by
  obtain ⟨hname, hargument, before, between, after, hb, hm, ha, hnone, htext⟩ := h
  have colon : Text.isBlank ':' = false := by decide
  have tailBlank : Text.Blank between.tail := fun c hc => hm c (List.mem_of_mem_tail hc)
  -- Without an argument, what trimming leaves ends with the name.
  by_cases hempty : argument = ""
  · have hlast : Text.Trimmed (':' :: name.toList) := by
      refine ⟨by simp [colon], fun c hc => ?_⟩
      rcases List.mem_cons.1 (List.mem_of_getLast? hc) with rfl | hc
      · exact colon
      · exact hname c hc
    have hblank : Text.Blank (between ++ after) := fun c hc =>
      (List.mem_append.1 hc).elim (hm c) (ha c)
    have htrim : Text.trim input.toList = ':' :: name.toList := by
      rw [htext, hempty, ← Text.trim_eq hb hlast hblank]
      rfl
    have hsplit := splitBlank_append hname Text.blank_nil [] fun _ => rfl
    rw [List.append_nil, List.append_nil] at hsplit
    rw [Command.ofInput, htrim, hempty]
    simp [hsplit, Text.trim, Text.trimStart, Text.trimEnd]
  · have hbetween : between ≠ [] := fun h => hempty (hnone h)
    have hne : argument.toList ≠ [] := by simpa using hempty
    have htrimmed :
        Text.Trimmed (':' :: (name.toList ++ (between ++ argument.toList))) := by
      refine ⟨by simp [colon], fun c hc => hargument.2 c ?_⟩
      rw [← List.append_assoc, ← List.cons_append] at hc
      rwa [List.getLast?_append, List.getLast?_eq_some_getLast hne, Option.some_or,
        ← List.getLast?_eq_some_getLast hne] at hc
    have htrim : Text.trim input.toList = ':' :: (name.toList ++ (between ++ argument.toList)) := by
      rw [htext, ← Text.trim_eq hb htrimmed ha]
      simp
    have hsplit := splitBlank_append hname hm argument.toList fun h => absurd h hbetween
    have hargumentTrim : Text.trim (between.tail ++ argument.toList) = argument.toList := by
      have := Text.trim_eq tailBlank hargument Text.blank_nil
      rwa [List.append_nil] at this
    rw [Command.ofInput, htrim]
    simp [hsplit, hargumentTrim]

/-- Every input whose first character other than white space is a colon is a command. -/
theorem exists_calls (h : IsCommand input) : ∃ name argument, Calls input name argument := by
  obtain ⟨before, rest, hb, htext⟩ := h
  obtain ⟨between, after, hm, ha, htrimmed, hrest⟩ :=
    Text.exists_trim (rest.dropWhile (!Text.isBlank ·))
  refine ⟨String.ofList (rest.takeWhile (!Text.isBlank ·)),
    String.ofList (Text.trim (rest.dropWhile (!Text.isBlank ·))), ?_, by simpa using htrimmed,
    before, between, after, hb, hm, ha, ?_, ?_⟩
  · intro c hc
    rw [String.toList_ofList] at hc
    simpa using List.mem_takeWhile_imp hc
  · -- What follows the name starts with white space, so it is no argument yet.
    rintro rfl
    by_contra hne
    obtain ⟨c, cs, hcs⟩ : ∃ c cs, Text.trim (rest.dropWhile (!Text.isBlank ·)) = c :: cs :=
      List.exists_cons_of_ne_nil fun hnil => hne (by rw [hnil])
    have hhead : (rest.dropWhile (!Text.isBlank ·)).head? = some c := by
      rw [hrest, hcs]
      rfl
    have hblank := List.head?_dropWhile_not (!Text.isBlank ·) rest
    rw [hhead] at hblank
    have hclean : Text.isBlank c = false := htrimmed.1 c (by rw [hcs]; rfl)
    simp [hclean] at hblank
  · rw [htext, String.toList_ofList, String.toList_ofList, ← hrest,
      List.takeWhile_append_dropWhile]

/-- **An input that is no command is a source**, with the white space around it. -/
theorem ofInput_eq_source (h : ¬ IsCommand input) : Command.ofInput input = .source input := by
  unfold Command.ofInput
  split
  · rename_i command hcolon
    obtain ⟨before, after, hb, -, -, htext⟩ := Text.exists_trim input.toList
    rw [hcolon] at htext
    exact absurd ⟨before, command ++ after, hb, htext⟩ h
  · rfl

end Input

/-- The name of a command never stands for a source. -/
theorem Command.named_ne_source (name argument text : String) :
    Command.named name argument ≠ .source text := by
  unfold Command.named
  split <;> simp

/-- Only a file is loaded by name. -/
theorem Command.named_eq_load_iff {name argument path : String} :
    Command.named name argument = .load path ↔ name = "load" ∧ argument = path := by
  unfold Command.named
  split <;> simp_all

end Ndf
