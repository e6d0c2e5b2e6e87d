/-
# Words

`SPEC_FULL.md` §4.2, "Token Classifier", and §9, "Case-insensitive keywords".

An identifier-shaped word is a keyword, the name of a built-in type or a plain name.  Keywords and
built-in types are recognised in any letter case; classification looks at a word and never
changes its spelling.  Whether a keyword acts as one is decided by the grammar: in many places any
word is a name.
-/

namespace Ndf

/-- The reserved words. -/
inductive Keyword where
  | «export» | unnamed | «private» | «public» | template | is | nil | div | guid | true | false
deriving DecidableEq, Repr

/-- The built-in scalar types. -/
inductive ScalarType where
  | bool | string | tguid | int | float
deriving DecidableEq, Repr

/-- The built-in types whose name opens a bracketed literal. -/
inductive VectorType where
  | int2 | int3 | int4 | float2 | float3 | float4 | rgba | vector | ifte | pair | map
deriving DecidableEq, Repr

/-- What a word is, going by its letters alone. -/
inductive WordClass where
  | keyword (keyword : Keyword)
  | scalar (type : ScalarType)
  | vector (type : VectorType)
  | name
deriving DecidableEq, Repr

namespace Keyword

/-- All keywords. -/
def all : List Keyword :=
  [.export, .unnamed, .private, .public, .template, .is, .nil, .div, .guid, .true, .false]

/-- The lower-case spelling. -/
def spelling : Keyword → String
  | .export => "export"
  | .unnamed => "unnamed"
  | .private => "private"
  | .public => "public"
  | .template => "template"
  | .is => "is"
  | .nil => "nil"
  | .div => "div"
  | .guid => "guid"
  | .true => "true"
  | .false => "false"

end Keyword

namespace ScalarType

/-- All scalar types. -/
def all : List ScalarType := [.bool, .string, .tguid, .int, .float]

/-- The lower-case spelling. -/
def spelling : ScalarType → String
  | .bool => "bool"
  | .string => "string"
  | .tguid => "tguid"
  | .int => "int"
  | .float => "float"

end ScalarType

namespace VectorType

/-- All vector types. -/
def all : List VectorType :=
  [.int2, .int3, .int4, .float2, .float3, .float4, .rgba, .vector, .ifte, .pair, .map]

/-- The lower-case spelling. -/
def spelling : VectorType → String
  | .int2 => "int2"
  | .int3 => "int3"
  | .int4 => "int4"
  | .float2 => "float2"
  | .float3 => "float3"
  | .float4 => "float4"
  | .rgba => "rgba"
  | .vector => "vector"
  | .ifte => "ifte"
  | .pair => "pair"
  | .map => "map"

/-- The spelling of canonical source text. -/
def canonical : VectorType → String
  | .rgba => "RGBA"
  | .vector => "Vector"
  | .map => "MAP"
  | type => type.spelling

end VectorType

namespace WordClass

/-- The keyword, if the word is one. -/
def keyword? : WordClass → Option Keyword
  | .keyword k => some k
  | _ => none

/-- Whether the word is a plain name. -/
def isName : WordClass → Bool
  | .name => true
  | _ => false

end WordClass

namespace Word

/-- The words that are not plain names, in lower case. -/
def reserved : List (String × WordClass) :=
  Keyword.all.map (fun k => (k.spelling, .keyword k)) ++
  ScalarType.all.map (fun t => (t.spelling, .scalar t)) ++
  VectorType.all.map (fun t => (t.spelling, .vector t))

/-- A word with its ASCII letters in lower case. -/
def lower (text : String) : String := String.ofList (text.toList.map Char.toLower)

/-- The class of a word, whatever the case of its letters. -/
def classify (text : String) : WordClass := (reserved.lookup (lower text)).getD .name

/-- Whether a word can start with this character: an ASCII letter or an underscore. -/
def isStart (c : Char) : Bool := c.isAlpha || c == '_'

/-- Whether a word can go on with this character. -/
def isPart (c : Char) : Bool := c.isAlphanum || c == '_'

/-- What starts a word may stand in one. -/
theorem isPart_of_isStart {c : Char} (h : isStart c = true) : isPart c = true := by
  simp only [isStart, isPart, Char.isAlphanum, Bool.or_eq_true] at *
  rcases h with h | h
  · exact .inl (.inl h)
  · exact .inr h

end Word

end Ndf
