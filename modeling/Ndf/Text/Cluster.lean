/-
# Clusters

A text falls into clusters, each of which a reader takes for one character.  Whether a character
belongs to the cluster in front of it is decided by its role and by the characters of that
cluster (`joins`); nothing in front of the cluster matters.  No character is lost
(`flatten_clusters`).
-/

import Ndf.Text.Cluster.Role

namespace Ndf
namespace Text

/-- Whether a character joins the cluster `before`, whose last character comes first.

* A carriage return joins a line feed; other controls join nothing.
* Marks join what is in front of them, a prepended sign joins what is behind it, and the parts of a
  syllable join.
* Two regional letters join, but not a third.
* A pictograph joins another if a joiner is between them, behind marks on the first.
* A consonant joins another if only marks are between them, one of them a linker. -/
def joins (before : List Char) (next : Char) : Bool :=
  match before with
  | [] => false
  | last :: earlier =>
    if (role last).separates || (role next).separates then
      role last == .carriageReturn && role next == .lineFeed
    else
      (role next).isExtending || role next == .joiner || role next == .spacing ||
        role last == .prepend || Role.syllable (role last) (role next) ||
        match role next with
        | .regional =>
          role last == .regional && (earlier.takeWhile (role · == .regional)).length % 2 == 0
        | .pictographic =>
          role last == .joiner &&
            (earlier.dropWhile fun c => (role c).isExtending).head?.any (role · == .pictographic)
        | .consonant =>
          (before.takeWhile fun c => (role c).binds).any (role · == .linker) &&
            (before.dropWhile fun c => (role c).binds).head?.any (role · == .consonant)
        | _ => false

/-- The clusters of a text, the first of them behind what is gathered of it already; the last
character gathered comes first. -/
def clustersFrom (gathered : List Char) : List Char → List (List Char)
  | [] => [gathered.reverse]
  | c :: text =>
    if joins gathered c then clustersFrom (c :: gathered) text
    else gathered.reverse :: clustersFrom [c] text

/-- The clusters of a text. -/
def clusters : List Char → List (List Char)
  | [] => []
  | c :: text => clustersFrom [c] text

/-- The clusters make the text again. -/
theorem flatten_clustersFrom (gathered text : List Char) :
    (clustersFrom gathered text).flatten = gathered.reverse ++ text := by
  induction text generalizing gathered with
  | nil => simp [clustersFrom]
  | cons c text ih =>
    rw [clustersFrom]
    split <;> simp [ih]

/-- Clusters put together are the text. -/
theorem flatten_clusters (text : List Char) : (clusters text).flatten = text := by
  cases text with
  | nil => rfl
  | cons c text => simp [clusters, flatten_clustersFrom]

example : clusters "e\u0301\r\n\x08".toList =
    ["e\u0301".toList, "\r\n".toList, "\x08".toList] := by
  decide +kernel

end Text
end Ndf
