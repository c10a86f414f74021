import ApiBinding.Text.Class
import ApiBinding.Value.Display

/-! Type expressions: the types of bodies, responses and record fields, their text, and the
records they mention. -/

namespace ApiBinding

/-- One line of an object type that is written in place. -/
structure Member (τ : Type) where
  name : Key
  required : Bool
  type : τ
  description : Option String

inductive TypeExpr where
  /-- A built-in keyword. -/
  | primitive (name : String)
  /-- The name of a record. -/
  | reference (name : String)
  /-- A text of the document that is copied unchanged. -/
  | verbatim (text : String)
  | array (element : TypeExpr)
  /-- An array of fixed length with one type per position. -/
  | tuple (elements : List TypeExpr)
  | union (members : List TypeExpr)
  | intersection (members : List TypeExpr)
  /-- A union of literal values that are already text. -/
  | literals (texts : List String)
  | struct (members : List (Member TypeExpr))

namespace TypeExpr

instance : Inhabited TypeExpr := ⟨.primitive "object"⟩

def object : TypeExpr := .primitive "object"
def string : TypeExpr := .primitive "string"
def number : TypeExpr := .primitive "number"
def boolean : TypeExpr := .primitive "boolean"
def date : TypeExpr := .primitive "Date"
def file : TypeExpr := .primitive "File"

/-! ## Text -/

/-- Whether the text of an expression has a bar outside all brackets, so that it needs
parentheses under an array. -/
def isOpenUnion : TypeExpr → Bool
  | .union members => members.length > 1
  | .literals texts => texts.length > 1
  | _ => false

/-- A character of a member name inside single quotes. -/
def escapeNameChar (c : Char) : List Char :=
  if c == '\\' || c == '\'' then ['\\', c] else [c]

/-- A member name in single quotes. -/
def quoteName (name : String) : String :=
  String.ofList ('\'' :: name.toList.flatMap escapeNameChar ++ ['\''])

/-- A description on one line: its words with single blanks between them. -/
def commentText (description : String) : String :=
  String.intercalate " " ((Text.words description.toList).map String.ofList)

/-- The line of a member whose type is already text. -/
def memberLine (name : Key) (required : Bool) (type : String) (description : Option String) :
    String :=
  let line := quoteName name.display ++ (if required then ": " else "?: ") ++ type ++ ";"
  match description with
  | some text => if text.isEmpty then line else line ++ " // " ++ commentText text
  | none => line

mutual

def render : TypeExpr → String
  | .primitive name => name
  | .reference name => name
  | .verbatim text => text
  | .array element =>
    if element.isOpenUnion then "(" ++ render element ++ ")[]" else render element ++ "[]"
  | .tuple elements => "[" ++ String.intercalate ", " (renderAll elements) ++ "]"
  | .union members => String.intercalate " | " (renderAll members)
  | .intersection members => "(" ++ String.intercalate " & " (renderAll members) ++ ")"
  | .literals texts => String.intercalate " | " texts
  | .struct members =>
    "\x7b\n" ++ String.intercalate "\n" (renderMembers members) ++ "\n\x7d"

def renderAll : List TypeExpr → List String
  | [] => []
  | expr :: rest => render expr :: renderAll rest

def renderMembers : List (Member TypeExpr) → List String
  | [] => []
  | ⟨name, required, type, description⟩ :: rest =>
    memberLine name required (render type) description :: renderMembers rest

end

/-! ## Contents -/

mutual

/-- The records an expression mentions, in order and with repeats. -/
def references : TypeExpr → List String
  | .reference name => [name]
  | .array element => references element
  | .tuple elements => referencesOfAll elements
  | .union members => referencesOfAll members
  | .intersection members => referencesOfAll members
  | .struct members => referencesOfMembers members
  | .primitive _ => []
  | .verbatim _ => []
  | .literals _ => []

def referencesOfAll : List TypeExpr → List String
  | [] => []
  | expr :: rest => references expr ++ referencesOfAll rest

def referencesOfMembers : List (Member TypeExpr) → List String
  | [] => []
  | ⟨_, _, type, _⟩ :: rest => references type ++ referencesOfMembers rest

end

mutual

/-- Whether every member name is a text. Only then has the expression a text of its own. -/
def isPrintable : TypeExpr → Bool
  | .array element => isPrintable element
  | .tuple elements => areAllPrintable elements
  | .union members => areAllPrintable members
  | .intersection members => areAllPrintable members
  | .struct members => areMembersPrintable members
  | .primitive _ => true
  | .reference _ => true
  | .verbatim _ => true
  | .literals _ => true

def areAllPrintable : List TypeExpr → Bool
  | [] => true
  | expr :: rest => isPrintable expr && areAllPrintable rest

def areMembersPrintable : List (Member TypeExpr) → Bool
  | [] => true
  | ⟨.text _, _, type, _⟩ :: rest => isPrintable type && areMembersPrintable rest
  | _ :: _ => false

end

end TypeExpr

end ApiBinding
