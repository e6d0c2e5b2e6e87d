/-
# Documents

`SPEC_FULL.md` §4.5 for the items, §5 and E3 for calling off and the limit, E6 for the entry
points.

The levels of the grammar tied together, and the entry points.  `Grammar.levels n` reads what is
nested at most `n` levels deep; below that, fragments are cut out, as they are wherever the cursor
counts `maxNesting` open levels.  A document is read item by item up to the end of the tokens, a
broken item being cut out up to the next declaration.

The problems of single tokens and those of the grammar are merged by position, problems at one
position keeping their order.

* `parse` reads any source;
* `parseWith` takes a limit on the number of diagnostics and can be called off between two items;
* `parseBytes` decodes first, and `parseStrict` refuses a source with problems.
-/

import Ndf.Failure
import Ndf.Parser.Expression
import Ndf.Text.Utf8
import Ndf.Token.Lexer

namespace Ndf

namespace Grammar

/-- What is read for an expression where no further level is allowed: the fragment is cut out. -/
def deepExpr : Parser Expr := Expr.error <$> Parser.tooDeep

/-- What is read for a type parameter there: no type stands for what is cut out. -/
def deepType : Parser TypeRef := do
  let _ ← Parser.tooDeep
  Parser.abort

/-- The grammar without any level. -/
def bottom : Grammar := ⟨deepExpr, deepExpr, deepType⟩

/-- The grammar one level above another. -/
def above (g : Grammar) : Grammar where
  expr := Parser.nested deepExpr (Parser.expression g)
  operand := Parser.nested deepExpr (Parser.unary g)
  type := Parser.nested deepType (Parser.typeRef g)

/-- The grammar with a number of levels. -/
def levels : Nat → Grammar
  | 0 => bottom
  | n + 1 => above (levels n)

end Grammar

/-- An expression as an item.  A fragment that is cut out is an item of its own kind. -/
def Item.ofExpr : Expr → Item
  | .error e => .error e
  | e => .expr e

namespace Parser

/-- Reads an item. -/
def item (g : Grammar) : Parser Item := do
  let ts ← ahead
  if Lookahead.startsAssignment ts 0 then Item.assignment <$> assignment g
  else if Lookahead.isModifier ts 0 && Lookahead.isWord ts 1 then
    Item.visibility <$> visibility g (object g)
  else if Lookahead.startsTemplate ts 0 then Item.template <$> template g (object g)
  else if Lookahead.startsUnnamed ts 0 then Item.unnamed <$> unnamed g
  else if Lookahead.startsMember ts 0 then Item.member <$> member g
  else Item.ofExpr <$> g.expr

/-- Reads an item, or cuts it out if it is broken. -/
def itemOrError (g : Grammar) : Parser Item := do
  let m ← mark
  let item ← orRecover (item g) (Item.error <$> recoverItem m)
  emit (.item item.span.line item.span.column item.isError)
  pure item

/-- Reads one more item.  `calledOff n` says whether the parse is called off before item `n`; then
there is no result. -/
def itemStep (g : Grammar) (calledOff : Nat → Bool) (read : List Item) :
    Parser (List Item ⊕ Option (List Item)) := do
  if (← ahead).isEmpty then pure (.inr (some read.reverse))
  else if calledOff read.length then pure (.inr none)
  else pure (.inl ((← itemOrError g) :: read))

/-- Reads all items, unless called off. -/
def items (g : Grammar) (calledOff : Nat → Bool) : Parser (Option (List Item)) :=
  loop (itemStep g calledOff) []

end Parser

/-- The diagnostics among some notes.  The end of the input is reported once; `ended` says that it
has been. -/
def Note.diagnostics (ended : Bool) : List Note → List Diagnostic
  | [] => []
  | .problem d :: rest => d :: diagnostics ended rest
  | .atEnd d :: rest => if ended then diagnostics ended rest else d :: diagnostics true rest
  | .event _ :: rest => diagnostics ended rest
  | .breach _ :: rest => diagnostics ended rest

/-- The event that a note is. -/
def Note.event? : Note → Option ParseEvent
  | .event e => some e
  | _ => none

/-- A document and the problems found in it, by position. -/
structure Parsed where
  document : Document
  diagnostics : List Diagnostic

/-- Whether any problem was found. -/
def Parsed.hasErrors (p : Parsed) : Bool := !p.diagnostics.isEmpty

/-- How to parse. -/
structure ParseOptions where
  /-- The number of diagnostics to keep. -/
  maxDiagnostics : Option Nat := none
  /-- Whether the parse is found called off when it asks for the `n`-th time. -/
  calledOff : Nat → Bool := fun _ => false

/-- The tokens of a source that the grammar sees, and its end. -/
structure TokenStream where
  tokens : List Token
  stop : Token
  diagnostics : List Diagnostic

/-- The tokens of a source text without the comments. -/
def TokenStream.ofText (source : String) : TokenStream :=
  let lexed := tokenize source
  let kept := lexed.tokens.filter fun t => !t.kind.isTrivia
  { tokens := kept.dropLast
    stop := kept.getLastD ⟨.eof, Span.origin, true⟩
    diagnostics := lexed.diagnostics }

/-- Reads the items of a source from its tokens. -/
def readItems (calledOff : Nat → Bool) (source : String) (stream : TokenStream) :
    Outcome (Option (List Item)) :=
  Parser.items (.levels Parser.maxNesting) calledOff ⟨source.toList, stream.stop⟩
    (.start stream.tokens)

/-- Orders diagnostics by position. -/
def Diagnostic.sort (ds : List Diagnostic) : List Diagnostic :=
  ds.mergeSort fun a b => a.span.start ≤ b.span.start

/-- All problems of a source in order: those of its tokens and those in the notes of its parse. -/
def problems (stream : TokenStream) (notes : List Note) : List Diagnostic :=
  Diagnostic.sort (stream.diagnostics ++ Note.diagnostics false notes)

/-- The document with the given items. -/
def Document.ofItems (source : String) (items : List Item) : Document :=
  ⟨items, ⟨0, Text.byteSize source.toList, 1, 1⟩⟩

/-- A parse and what happened during it. -/
structure ParseRun where
  /-- The result, unless the parse was called off. -/
  result : Option Parsed
  events : List ParseEvent

/-- Parses a source and keeps the events. -/
def runParse (options : ParseOptions) (source : String) : ParseRun :=
  let stream := TokenStream.ofText source
  let outcome := readItems options.calledOff source stream
  let events := outcome.notes.filterMap Note.event?
  match outcome.value.join with
  | none => ⟨none, events ++ [.cancelled outcome.cursor.count]⟩
  | some items =>
    let found := problems stream outcome.notes
    let kept := match options.maxDiagnostics with
      | none => found
      | some n => found.take n
    ⟨some ⟨Document.ofItems source items, kept⟩, events⟩

/-- Parses a source, unless called off. -/
def parseWith (options : ParseOptions) (source : String) : Except Failure Parsed :=
  match (runParse options source).result with
  | some parsed => .ok parsed
  | none => .error ⟨.cancelled, none⟩

/-- Parses a source. -/
def parse (source : String) : Parsed :=
  let stream := TokenStream.ofText source
  let outcome := readItems (fun _ => false) source stream
  ⟨Document.ofItems source (outcome.value.join.getD []), problems stream outcome.notes⟩

/-- Parses the bytes of a source, which have to be UTF-8. -/
def parseBytes (bytes : ByteArray) : Except Failure Parsed :=
  match Text.decode bytes with
  | .ok source => .ok (parse source)
  | .error validUpTo => .error ⟨.invalidEncoding validUpTo, none⟩

/-- Parses a source and refuses it if it has a problem. -/
def parseStrict (source : String) : Except Failure Document :=
  let parsed := parse source
  match parsed.diagnostics with
  | [] => .ok parsed.document
  | d :: _ =>
    .error ⟨.malformed (d.kind.label ++ ": " ++ d.message) d.span.line d.span.column
      (String.ofList (Text.sourceLine source.toList d.span)), none⟩

end Ndf
