/-
# The shape of an export

The names under which trees and diagnostics are exported: the fields of each record in their order,
and the variants of each choice in theirs.  Writing and reading both go by these lists, so the
position of a name in its list is its index.  Each list is named for the node that it describes.
-/

import Ndf.Parser.Document

namespace Ndf
namespace Export
namespace Shape

/-! ### Records -/

def span : List String := ["start", "end", "line", "column"]

def name : List String := ["text", "span"]

def error : List String := ["span", "text"]

def number : List String := ["kind", "text", "span"]

def string : List String := ["quote", "raw", "span"]

def vectorType : List String := ["name", "builtin"]

def vector : List String := ["ty", "items", "stray_commas", "span"]

def list : List String := ["items", "stray_commas", "span"]

def map : List String := ["keyword", "pairs", "span"]

def pair : List String := ["left", "right", "span"]

def unary : List String := ["op", "operand", "span"]

def binary : List String := ["op", "left", "right", "span"]

def ternary : List String := ["cond", "then", "otherwise", "span"]

def group : List String := ["inner", "span"]

def generic : List String := ["name", "index", "span"]

def guid : List String := ["raw", "span"]

def reference : List String := ["scope", "segments", "span"]

def segmentName : List String := ["name", "kind"]

def assignment : List String := ["name", "value", "span"]

def visibility : List String := ["modifier", "keyword", "declaration", "span"]

def template : List String := ["name", "params", "body", "span"]

def type : List String := ["name", "class", "params", "span"]

def member : List String := ["name", "ty", "value", "legacy_colon", "span"]

def object : List String := ["type_name", "entries", "span"]

def unnamed : List String := ["object", "span"]

def document : List String := ["items", "span"]

def diagnostic : List String := ["span", "message", "kind"]

def parsed : List String := ["document", "diagnostics"]

/-! ### Choices with content -/

def wordClasses : List String := ["Keyword", "Type", "VectorType", "Name"]

def exprs : List String :=
  ["Nil", "Bool", "Number", "String", "Object", "Vector", "List", "Map", "Pair", "Unary", "Binary",
   "Ternary", "Group", "Generic", "Guid", "Reference", "Assignment", "Visibility", "Error"]

def segments : List String := ["Name", "Index"]

def declarations : List String := ["Assignment", "Template"]

def entries : List String := ["Member", "Assignment", "Visibility", "Reference", "Error"]

def items : List String :=
  ["Assignment", "Visibility", "Template", "Unnamed", "Member", "Expr", "Error"]

/-! ### Choices without content -/

def keywords : List (String × Keyword) :=
  [("Export", .export), ("Unnamed", .unnamed), ("Private", .private), ("Public", .public),
   ("Template", .template), ("Is", .is), ("Nil", .nil), ("Div", .div), ("Guid", .guid),
   ("True", .true), ("False", .false)]

def scalarTypes : List (String × ScalarType) :=
  [("Bool", .bool), ("String", .string), ("TGuid", .tguid), ("Int", .int), ("Float", .float)]

def vectorTypes : List (String × VectorType) :=
  [("Int2", .int2), ("Int3", .int3), ("Int4", .int4), ("Float2", .float2), ("Float3", .float3),
   ("Float4", .float4), ("Rgba", .rgba), ("Vector", .vector), ("Ifte", .ifte), ("Pair", .pair),
   ("Map", .map)]

def numberKinds : List (String × NumberKind) :=
  [("Decimal", .decimal), ("Hex", .hex), ("Float", .float)]

def quotes : List (String × Quote) := [("Double", .double), ("Single", .single)]

def modifiers : List (String × Modifier) :=
  [("Export", .export), ("Private", .private), ("Public", .public)]

def scopes : List (String × Scope) :=
  [("None", .none), ("Current", .current), ("Root", .root), ("Global", .global)]

def segmentKinds : List (String × SegmentKind) :=
  [("Terminal", .terminal), ("Nested", .nested), ("Member", .member)]

def unaryOps : List (String × UnaryOp) := [("Neg", .neg), ("Not", .not)]

def binaryOps : List (String × BinaryOp) :=
  [("Mul", .mul), ("Div", .div), ("Rem", .rem), ("Add", .add), ("Sub", .sub), ("Eq", .eq),
   ("NotEq", .notEq), ("Lt", .lt), ("LtEq", .ltEq), ("Gt", .gt), ("GtEq", .gtEq), ("And", .and),
   ("Or", .or)]

def diagnosticKinds : List (String × Diagnostic.Kind) :=
  [("UnterminatedComment", .unterminatedComment), ("UnterminatedString", .unterminatedString),
   ("UnterminatedBraceBody", .unterminatedBraceBody), ("UnexpectedToken", .unexpectedToken),
   ("UnrecoverableFragment", .unrecoverableFragment)]

end Shape
end Export
end Ndf
