/-
# Lines of a plain stream

Behind a terminal there is an editor; lines of a plain stream are read as they come.  They are
gathered until they make a finished input, and a backspace takes back what stands before it in that
input, line ends too.

What a backspace takes back is a cluster.  The size of a cluster is kept in one byte, so of a
cluster of 256 bytes or more only the remainder is taken back, from its end.  A text without
backspaces is what was typed (`typed_eq_self`).
-/

import Ndf.Session.Dialogue
import Ndf.Text.Cluster

namespace Ndf
namespace Stream

/-! ### Backspaces -/

/-- The character that takes back. -/
def backspace : Char := '\x08'

/-- A text while it is typed. -/
structure Typing where
  /-- The characters so far, the last one first. -/
  text : List Char := []
  /-- The sizes of the clusters that can be taken back, the last one first. -/
  sizes : List Nat := []

/-- Takes back the last cluster, if there is one.  If its size, as it is kept, ends inside a
character, the text stays. -/
def Typing.takeBack (t : Typing) : Typing :=
  match t.sizes with
  | [] => t
  | n :: sizes => ⟨(Text.dropBytes n t.text).getD t.text, sizes⟩

/-- Enters a cluster. -/
def Typing.enter (t : Typing) (cluster : List Char) : Typing :=
  if cluster = [backspace] then t.takeBack
  else ⟨cluster.reverse ++ t.text, Text.byteSize cluster % 256 :: t.sizes⟩

/-- The text that is left of one with backspaces. -/
def typed (text : List Char) : List Char :=
  ((Text.clusters text).foldl Typing.enter {}).text.reverse

/-- Without a backspace all that is typed is kept. -/
theorem text_foldl_enter {t : Typing} {clusters : List (List Char)}
    (h : ∀ c ∈ clusters, c ≠ [backspace]) :
    (clusters.foldl Typing.enter t).text = clusters.flatten.reverse ++ t.text := by
  induction clusters generalizing t with
  | nil => rfl
  | cons c clusters ih =>
    rw [List.foldl_cons, ih fun d hd => h d (List.mem_cons_of_mem _ hd), Typing.enter,
      if_neg (h c List.mem_cons_self)]
    simp

/-- A text without backspaces is what was typed. -/
theorem typed_eq_self {text : List Char} (h : backspace ∉ text) : typed text = text := by
  rw [typed, text_foldl_enter fun c hc e => ?_]
  · simp [Text.flatten_clusters]
  · refine h ?_
    rw [← Text.flatten_clusters text]
    exact List.mem_flatten_of_mem hc (e ▸ List.mem_singleton_self _)

example : typed "ab\x08\x08\x08e\u0301f\x08\x08d".toList = "d".toList := by decide +kernel

/-! ### Inputs -/

/-- The lines of a text, each with its line end. -/
def lines : List Char → List (List Char)
  | [] => []
  | c :: rest =>
    if c = '\n' then [c] :: lines rest
    else
      match lines rest with
      | [] => [[c]]
      | line :: more => (c :: line) :: more

/-- A text without the line end behind it, and that line end. -/
def chop (text : List Char) : List Char × List Char :=
  match text.reverse with
  | '\n' :: '\r' :: rest => (rest.reverse, ['\r', '\n'])
  | '\n' :: rest => (rest.reverse, ['\n'])
  | _ => (text, [])

/-- Puts a line, with its line end, behind those of an unfinished input.  The input if it is
finished now, else the lines that are to be completed. -/
def gather (before line : List Char) : String ⊕ List Char :=
  let (text, lineEnd) := chop (before ++ line)
  let text := typed text
  let input := String.ofList text
  if Input.isComplete input then .inl input else .inr (text ++ lineEnd)

/-- The finished inputs that lines make up.  Line ends inside an input are kept as they are; what
is unfinished at the end is dropped. -/
def inputs (before : List Char) : List (List Char) → List String
  | [] => []
  | line :: rest =>
    match gather before line with
    | .inl input => input :: inputs [] rest
    | .inr before => inputs before rest

/-- The readings that a text gives. -/
def readings (text : String) : List Reading := (inputs [] (lines text.toList)).map .line

end Stream
end Ndf
