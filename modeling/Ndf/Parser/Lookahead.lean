/-
# Looking ahead

`SPEC_FULL.md` §9, "lookahead discipline"; what is joined counts as §4.4 says.

Items, members and entries follow each other without separators, and any word may be a name, so
what starts at a place is told by at most four tokens.  Each test is a function of the tokens
ahead; past the last of them there is nothing, which no test takes for a word or a sign.
-/

import Ndf.Token

namespace Ndf
namespace Lookahead

/-- The kind of the `n`-th token ahead. -/
def kind? (ts : List Token) (n : Nat) : Option TokenKind := ts[n]?.map Token.kind

/-- Whether the `n`-th token ahead is a word. -/
def isWord (ts : List Token) (n : Nat) : Bool := (kind? ts n).any TokenKind.isWord

/-- The keyword that the `n`-th token ahead spells. -/
def keyword? (ts : List Token) (n : Nat) : Option Keyword :=
  (kind? ts n).bind TokenKind.keyword?

/-- Whether the `n`-th token ahead spells this keyword. -/
def isKeyword (ts : List Token) (n : Nat) (keyword : Keyword) : Bool :=
  keyword? ts n == some keyword

/-- Whether the `n`-th token ahead is of this kind. -/
def isKind (ts : List Token) (n : Nat) (kind : TokenKind) : Bool := kind? ts n == some kind

/-- Whether nothing stands in front of the `n`-th token ahead. -/
def isJoined (ts : List Token) (n : Nat) : Bool := ts[n]?.any Token.joined

@[simp] theorem kind?_nil (n : Nat) : kind? [] n = none := rfl

@[simp] theorem kind?_zero (t : Token) (ts : List Token) : kind? (t :: ts) 0 = some t.kind := rfl

@[simp] theorem kind?_succ (t : Token) (ts : List Token) (n : Nat) :
    kind? (t :: ts) (n + 1) = kind? ts n := rfl

@[simp] theorem isJoined_nil (n : Nat) : isJoined [] n = false := rfl

@[simp] theorem isJoined_zero (t : Token) (ts : List Token) :
    isJoined (t :: ts) 0 = t.joined := rfl

@[simp] theorem isJoined_succ (t : Token) (ts : List Token) (n : Nat) :
    isJoined (t :: ts) (n + 1) = isJoined ts n := rfl

/-- Keywords are words. -/
theorem isWord_of_isKeyword {ts : List Token} {n : Nat} {k : Keyword}
    (h : isKeyword ts n k = true) : isWord ts n = true := by
  unfold isKeyword keyword? at h
  unfold isWord
  cases hk : kind? ts n with
  | none => rw [hk] at h; cases h
  | some kind =>
    rw [hk] at h
    cases kind with
    | word => rfl
    | _ => cases h

/-- What is no word is no keyword. -/
theorem isKeyword_of_not_isWord {ts : List Token} {n : Nat} (h : isWord ts n = false)
    (k : Keyword) : isKeyword ts n k = false :=
  Bool.eq_false_iff.2 fun hk => by rw [isWord_of_isKeyword hk] at h; cases h

/-- Whether the `n`-th token ahead is a visibility modifier. -/
def isModifier (ts : List Token) (n : Nat) : Bool :=
  match keyword? ts n with
  | some .export | some .private | some .public => true
  | _ => false

/-- What is no word is no modifier. -/
theorem isModifier_of_not_isWord {ts : List Token} {n : Nat} (h : isWord ts n = false) :
    isModifier ts n = false := by
  have hk (k : Keyword) := isKeyword_of_not_isWord h k
  unfold isModifier
  split
  · exact absurd (hk .export) (by simp [isKeyword, *])
  · exact absurd (hk .private) (by simp [isKeyword, *])
  · exact absurd (hk .public) (by simp [isKeyword, *])
  · rfl

/-- A modifier is a word. -/
theorem isWord_of_isModifier {ts : List Token} {n : Nat} (h : isModifier ts n = true) :
    isWord ts n = true := by
  cases hw : isWord ts n with
  | false => rw [isModifier_of_not_isWord hw] at h; cases h
  | true => rfl

/-- `name is`, unless another `is` follows: in `export is is 1` the first word is a modifier and
the second the name. -/
def startsAssignment (ts : List Token) (n : Nat) : Bool :=
  isWord ts n && isKeyword ts (n + 1) .is && !isKeyword ts (n + 2) .is

/-- `template name`, unless something called `template` is declared. -/
def startsTemplate (ts : List Token) (n : Nat) : Bool :=
  isKeyword ts n .template && isWord ts (n + 1) && !startsAssignment ts n

/-- A modifier in front of an assignment or a template.  Elsewhere it is a word like any other. -/
def startsVisibility (ts : List Token) (n : Nat) : Bool :=
  isModifier ts n && (startsAssignment ts (n + 1) || startsTemplate ts (n + 1))

/-- `unnamed Type (`. -/
def startsUnnamed (ts : List Token) (n : Nat) : Bool :=
  isKeyword ts n .unnamed && isWord ts (n + 1) && isKind ts (n + 2) .lparen

/-- Whether the `n`-th token ahead is a guid payload or a broken token. -/
def isPayload (ts : List Token) (n : Nat) : Bool :=
  match kind? ts n with
  | some (.guidBody _) | some (.error _) => true
  | _ => false

/-- `name =` or `name :`, but not a guid literal. -/
def startsMember (ts : List Token) (n : Nat) : Bool :=
  isWord ts n &&
    (isKind ts (n + 1) .eq ||
      (isKind ts (n + 1) .colon && !(isKeyword ts n .guid && isPayload ts (n + 2))))

/-- A place where broken input can be taken up again: the start of a declaration. -/
def startsItem (ts : List Token) : Bool :=
  startsAssignment ts 0 || startsVisibility ts 0 || startsTemplate ts 0 || startsUnnamed ts 0

/-- A place where a broken object can be taken up again: the start of an entry. -/
def startsEntry (ts : List Token) : Bool :=
  startsMember ts 0 || startsAssignment ts 0 || startsVisibility ts 0

/-- A scope mark with a slash directly behind it. -/
def startsScoped (ts : List Token) : Bool :=
  (isKind ts 0 .dot || isKind ts 0 .tilde || isKind ts 0 .dollar) &&
    isKind ts 1 .slash && isJoined ts 1

/-- What directly continues a reference: a bracket, or a slash or point and a name, all joined. -/
def continuesPath (ts : List Token) : Bool :=
  isJoined ts 0 &&
    (isKind ts 0 .lbracket ||
      ((isKind ts 0 .slash || isKind ts 0 .dot) && isWord ts 1 && isJoined ts 1))

end Lookahead
end Ndf
