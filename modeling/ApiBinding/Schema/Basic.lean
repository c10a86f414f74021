import ApiBinding.Failure
import ApiBinding.TypeExpr.Literal

/-! Schema nodes: the keys that give a value its type, and the kind of type they ask for. -/

namespace ApiBinding.Schema

/-! ## Keys -/

def numberTypes : List String :=
  ["int64", "integer", "long", "float", "double", "number", "int", "int32"]

def dateTypes : List String := ["Date", "date", "dateTime", "date-time", "datetime"]

def textTypes : List String := ["string", "email", "password", "url", "byte", "binary"]

def fileTypes : List String := ["file", "File"]

/-- A schema with none of these keys has no usable type. -/
def typeKeys : List String := [
  "type", "$ref", "enum", "oneOf", "anyOf", "allOf", "properties", "items", "prefixItems",
  "format", "additionalProperties"]

/-- The type word of a schema. Of several words the first one other than null counts. -/
def typeWord? (schema : Mapping) : Option String :=
  match schema.field "type" with
  | .text word => some word
  | .list words => some (((words.filterMap Value.text?).find? (· != "null")).getD "null")
  | _ => none

def format? (node : Value) : Option String :=
  node.object?.bind fun schema => (schema.field "format").text?

/-- Whether a node is a schema that has a type. -/
def isTyped (node : Value) : Bool :=
  match node with
  | .object schema => typeKeys.any (Mapping.has schema)
  | _ => false

/-- The title and the description of a schema in one text. -/
def description? (schema : Mapping) : Option String :=
  match (schema.field "title").nonemptyText?, (schema.field "description").nonemptyText? with
  | some title, some text => some (title ++ " " ++ text)
  | some title, none => some title
  | none, text => text

/-! ## Required properties -/

/-- Which properties of an object are required: all or none of them, or those in a list. -/
inductive Requirement where
  | all (required : Bool)
  | listed (names : List Value)

def Requirement.ofValue : Value → Requirement
  | .bool required => .all required
  | .list names => .listed names
  | _ => .listed []

def Requirement.requires (requirement : Requirement) (name : Key) : Bool :=
  match requirement with
  | .all required => required
  | .listed names => (names.filterMap Key.ofValue?).any (·.same name)

/-- Whether a property is required. Its own word goes before that of the object it is in. -/
def isRequired (name : Key) (property : Mapping) (parent : Requirement) : Bool :=
  match property.field "required" with
  | .bool own => own
  | _ => parent.requires name

/-! ## Shapes -/

/-- What a schema asks for, with the schemas inside it still to be typed. -/
inductive Shape where
  | reference (target : Value)
  /-- A type without schemas inside. -/
  | leaf (type : TypeExpr)
  | array (items : Value)
  | tuple (elements : List Value)
  | union (members : List Value)
  | intersection (members : List Value)
  | object (properties : Mapping) (requirement : Requirement)

/-- The word that decides the shape: an enumeration goes first, then a numeric format. -/
def decisiveWord? (schema : Mapping) : Option String :=
  if schema.has "enum" then some "enum"
  else
    match format? (.object schema) with
    | some format => if numberTypes.contains format then some "number" else typeWord? schema
    | none => typeWord? schema

/-- The built-in type of a type word. -/
def builtin? (word : String) : Option TypeExpr :=
  if numberTypes.contains word then some .number
  else if dateTypes.contains word then some .date
  else if fileTypes.contains word then some .file
  else if textTypes.contains word then some .string
  else if word == "boolean" then some .boolean
  else none

/-- The schema of a tuple position, which may be wrapped in a mapping of its own. -/
def elementSchema (item : Value) : Value :=
  match item with
  | .object entries => (Mapping.find? entries "schema").getD item
  | _ => item

def arrayShape (schema : Mapping) : Shape :=
  match schema.field "prefixItems" with
  | .list elements => .tuple elements
  | _ =>
    match schema.field "items" with
    | .list elements => .tuple (elements.map elementSchema)
    | items => .array items

/-- Values that are no list, or an empty one, leave a plain text type. -/
def enumShape (values : Value) : Except Failure Shape :=
  match values with
  | .list (first :: rest) => do .ok (.leaf (← TypeExpr.ofLiterals (first :: rest)))
  | _ => .ok (.leaf .string)

def objectShape (schema : Mapping) : Shape :=
  match schema.field "properties" with
  | .object (first :: rest) =>
    .object (first :: rest) (Requirement.ofValue (schema.field "required"))
  | _ => .leaf .object

/-- The shape of a schema that no single word decides. -/
def composedShape (word : Option String) (schema : Mapping) : Shape :=
  match schema.field "oneOf", schema.field "anyOf", schema.field "allOf" with
  | .list (first :: rest), _, _ => .union (first :: rest)
  | _, .list (first :: rest), _ => .union (first :: rest)
  | _, _, .list (first :: rest) => .intersection (first :: rest)
  | _, _, _ =>
    if word == some "object" || schema.has "properties" then objectShape schema
    else
      match word with
      | some other => .leaf (.verbatim other)
      | none => .leaf .object

def shape (schema : Mapping) : Except Failure Shape :=
  match schema.find? "$ref" with
  | some target => .ok (.reference target)
  | none =>
    let word := decisiveWord? schema
    match word.bind builtin? with
    | some type => .ok (.leaf type)
    | none =>
      if word == some "array" || (word.isNone && (schema.has "items" || schema.has "prefixItems"))
      then .ok (arrayShape schema)
      else if word == some "enum" then
        match schema.find? "enum" with
        | some values => enumShape values
        | none => .error (.defect .enumWithoutValues)
      else .ok (composedShape word schema)

end ApiBinding.Schema
