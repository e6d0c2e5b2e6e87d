/-
# Declarations

`SPEC_FULL.md` §4.5, "Declaration Parser", with the entries and parameters of E5.

Members, assignments, templates and the objects that hold them.  An object can hold a template
and a template has an object for its body, so `object` recurses; it takes the tokens ahead as the
bound of that recursion, since every template inside an object reads at least one of them.
-/

import Ndf.Parser.Path

namespace Ndf
namespace Parser

/-- Reads `name is value`. -/
def assignment (g : Grammar) : Parser Assignment := do
  let m ← mark
  let name ← name "a name"
  expectKeyword .is
  let value ← g.expr
  pure ⟨name, value, ← spanFrom m⟩

/-- Reads what follows the name of a member: `: type`, `= value`, `: type = value` or, in the old
form, `: = value`. -/
def memberTail (g : Grammar) (m : Mark) (name : Name) : Parser Member := do
  if ← eat .colon then
    if ← eat .eq then
      let value ← g.expr
      pure ⟨name, none, some value, true, ← spanFrom m⟩
    else
      let type ← typeRef g
      if ← eat .eq then
        let value ← g.expr
        pure ⟨name, some type, some value, false, ← spanFrom m⟩
      else pure ⟨name, some type, none, false, ← spanFrom m⟩
  else
    expect .eq "':' or '='"
    let value ← g.expr
    pure ⟨name, none, some value, false, ← spanFrom m⟩

/-- Reads a member. -/
def member (g : Grammar) : Parser Member := do
  let m ← mark
  let name ← name "a member name"
  memberTail g m name

/-- Reads a parameter of a template: a member, or a name alone. -/
def param (g : Grammar) : Parser Member := do
  let m ← mark
  let name ← name "a parameter name"
  match (← peek).kind with
  | .colon | .eq => memberTail g m name
  | _ => pure ⟨name, none, none, false, ← spanFrom m⟩

/-- Reads one more parameter or comma. -/
def paramStep (g : Grammar) (read : List Member) : Parser (List Member ⊕ List Member) := do
  match (← peek).kind with
  | .rbracket | .eof => pure (.inr read.reverse)
  | .comma => do
    bump
    pure (.inl read)
  | .word .. => do
    pure (.inl ((← param g) :: read))
  | _ => unexpected "a parameter name or ']'"

/-- Reads the parameters of a template, up to the closing bracket.  Commas are optional. -/
def params (g : Grammar) : Parser (List Member) := loop (paramStep g) []

/-- Reads `template name [params] is body`, given the parser of the body. -/
def template (g : Grammar) (body : Parser Object) : Parser Template := do
  let m ← mark
  expectKeyword .template
  let name ← name "a template name"
  expect .lbracket "'['"
  let params ← params g
  expect .rbracket "']'"
  expectKeyword .is
  let body ← body
  pure ⟨name, params, body, ← spanFrom m⟩

/-- The modifier that a keyword is. -/
def modifier? : Keyword → Option Modifier
  | .export => some .export
  | .private => some .private
  | .public => some .public
  | _ => none

/-- Reads a declaration behind a visibility modifier, given the parser of a template's body. -/
def visibility (g : Grammar) (body : Parser Object) : Parser Visibility := do
  let m ← mark
  match (← peek).kind.keyword?.bind modifier? with
  | none => unexpected "'export', 'private' or 'public'"
  | some modifier => do
    let keyword ← name "a visibility modifier"
    let declaration ←
      if Lookahead.startsTemplate (← ahead) 0 then Declaration.template <$> template g body
      else Declaration.assignment <$> assignment g
    pure ⟨modifier, keyword, declaration, ← spanFrom m⟩

/-- Reads an entry of an object, given the parser of a template's body. -/
def entry (g : Grammar) (body : Parser Object) : Parser Entry := do
  let ts ← ahead
  if Lookahead.startsAssignment ts 0 then Entry.assignment <$> assignment g
  else if Lookahead.startsVisibility ts 0 then Entry.visibility <$> visibility g body
  else if Lookahead.startsMember ts 0 then Entry.member <$> member g
  else if Lookahead.isWord ts 0 || Lookahead.startsScoped ts then
    Entry.reference <$> reference g
  else do
    reportHere (.noMember (← peek).kind.name)
    abort

/-- Reads one more entry, or the closing parenthesis. -/
def entryStep (g : Grammar) (body : Parser Object) (read : List Entry) :
    Parser (List Entry ⊕ List Entry) := do
  let token ← peek
  match token.kind with
  | .rparen => do
    bump
    pure (.inr read.reverse)
  | .eof => unexpected "')'"
  | .comma => do
    report .strayComma token.span
    bump
    pure (.inl read)
  | _ => do
    let m ← mark
    let entry ← orRecover (entry g body) (Entry.error <$> recoverEntry m)
    pure (.inl (entry :: read))

/-- Reads `Type( entries )`, given the parser of the bodies of templates inside. -/
def objectWith (g : Grammar) (body : Parser Object) : Parser Object := do
  let m ← mark
  let typeName ← name "an object type name"
  expect .lparen "'('"
  let entries ← loop (entryStep g body) []
  pure ⟨typeName, entries, ← spanFrom m⟩

/-- Reads an object with at most as many templates inside each other as there are tokens in
`bound`. -/
def objectWithin (g : Grammar) : List Token → Parser Object
  | [] => objectWith g (breach .rounds)
  | _ :: bound => objectWith g (objectWithin g bound)

/-- Reads an object. -/
def object (g : Grammar) : Parser Object := fun src c => objectWithin g c.rest src c

/-- Reads `unnamed Type( entries )`. -/
def unnamed (g : Grammar) : Parser Unnamed := do
  let m ← mark
  expectKeyword .unnamed
  let object ← object g
  pure ⟨object, ← spanFrom m⟩

end Parser
end Ndf
