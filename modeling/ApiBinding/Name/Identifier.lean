import ApiBinding.Name.CamelCase
import ApiBinding.Name.Lexicon
import ApiBinding.Name.Reserved
import ApiBinding.Name.Template
import ApiBinding.Options.Basic

/-! Identifiers for records and operations, made from the free texts of a document. -/

namespace ApiBinding.Name

/-- Characters that a name keeps: plain letters, digits, the low line and common ideographs. -/
def isNameChar (c : Char) : Bool :=
  ('0' ≤ c && c ≤ '9') || ('A' ≤ c && c ≤ 'Z') || ('a' ≤ c && c ≤ 'z') || c == '_' ||
    ('\u4e00' ≤ c && c ≤ '\u9fa5')

/-- Whether a name needs the numeric prefix in front. -/
def needsPrefix (name : List Char) : Bool :=
  match name with
  | [] => true
  | ['_'] => true
  | c :: _ => Text.isDigit c

/-- Drops what no name can hold, spells ideographs in letters and guards the start. -/
def finish (lexicon : Lexicon) (options : Options) (text : List Char) : String :=
  let name := lexicon.spell (text.filter isNameChar)
  if needsPrefix name then options.numericPrefix ++ String.ofList name else String.ofList name

/-! ## Records -/

/-- The record name of a definition: its last path and package segment in camel case. A
reserved word keeps its form behind the reserved prefix. -/
def ofDefinition (lexicon : Lexicon) (options : Options) (raw : String) : String :=
  if isReserved raw then options.reservedPrefix ++ raw
  else
    let segment := Text.afterLast '.' (Text.afterLast '/' raw.toList)
    finish lexicon options (camelCase segment)

/-! ## Operations -/

def upperFirst (name : String) : String :=
  String.ofList (Text.upperFirst name.toList)

/-- The name of an operation without an identifier: the method and the raised path segments. -/
def ofPath (method path : String) : List Char :=
  Text.lower method.toList ++
    (Template.segments path).flatMap fun segment => Text.upperFirst (camelCase segment)

/-- The text before the first occurrence of a mark, or the whole text without one. -/
def before (mark : List Char) : List Char → List Char
  | [] => []
  | c :: rest => if mark.isPrefixOf (c :: rest) then [] else c :: before mark rest

/-- What a framework appends to an identifier together with the method. -/
def methodMark : List Char := "Using".toList

/-- Cuts an identifier at the first method mark, unless it begins with one. -/
def dropMethodMark (name : List Char) : List Char :=
  if methodMark.isPrefixOf name then name else before methodMark name

/-- The name of an operation, from its identifier if it has one. A reserved word gets the
method mark and the method behind it. -/
def ofOperation (lexicon : Lexicon) (options : Options) (identifier : Option String)
    (method path : String) : String :=
  let raw :=
    match identifier with
    | some text => if text.isEmpty then ofPath method path else text.toList
    | none => ofPath method path
  let name := finish lexicon options (camelCase (dropMethodMark raw))
  if isReserved name then
    name ++ String.ofList (methodMark ++ Text.upper method.toList)
  else name

end ApiBinding.Name
