import ApiBinding.Operation.Parameter

/-! The two dialects of API documents: where each keeps definitions, parameter types and
response schemas. -/

namespace ApiBinding

inductive Dialect where
  | swagger2
  | openApi3
deriving DecidableEq, Repr

namespace Dialect

def word : Dialect → String
  | .swagger2 => "v2"
  | .openApi3 => "v3"

/-- A definition table or a version key at the top marks the older dialect. -/
def ofDocument (document : Mapping) : Dialect :=
  match document.field "definitions" with
  | .object _ => .swagger2
  | _ => if document.has "swagger" then .swagger2 else .openApi3

/-- The text with which references to definitions start. -/
def root : Dialect → String
  | .swagger2 => "#/definitions/"
  | .openApi3 => "#/components/schemas/"

/-- The mapping under a key of the document; one that is missing or empty is the empty one. -/
def tableIn (parent : Mapping) (key : String) (table : TableName) : Except Failure Mapping :=
  match parent.field key with
  | .object entries => .ok entries
  | other => if other.isTruthy then .error (.fault (.tableNotMapping table)) else .ok []

def definitions (dialect : Dialect) (document : Mapping) : Except Failure Mapping :=
  match dialect with
  | .swagger2 => tableIn document "definitions" .definitions
  | .openApi3 => do
    let components ← tableIn document "components" .components
    tableIn components "schemas" .schemas

/-! ## Parameters -/

/-- The keys of a parameter that make up its schema in the older dialect. -/
def inlineKeys : List String := ["type", "format", "items", "enum"]

/-- The schema made of the type keys of a parameter, null if there are none. -/
def liftedSchema (raw : Mapping) : Value :=
  match inlineKeys.filterMap fun key => (raw.find? key).map ((Key.text key, ·)) with
  | [] => .null
  | entries => .object entries

/-- The first schema in a mapping from media types, null if there is none. -/
def firstSchema (content : Mapping) : Value :=
  let schemaOf (entry : Key × Value) : Option Value :=
    match entry.2.object?.map (Mapping.field · "schema") with
    | some (.object schema) => some (.object schema)
    | _ => none
  (content.findSome? schemaOf).getD .null

/-- The place where a dialect keeps the schema of a parameter. -/
def parameterSchema (dialect : Dialect) (raw : Mapping) (location : Location) : Value :=
  match dialect with
  | .swagger2 => if location == .body then raw.field "schema" else liftedSchema raw
  | .openApi3 =>
    match raw.field "schema", raw.field "content" with
    | .null, .object content => firstSchema content
    | schema, _ => schema

/-- A raw parameter in normal form, unless its location is unknown or its name is no text. -/
def normalize (dialect : Dialect) (raw : Mapping) : Except Failure (Option Parameter) :=
  match Parameter.location? raw, raw.field "name" with
  | some location, .text name => do
    let parameter ← Parameter.ofRaw raw name location (dialect.parameterSchema raw location)
    .ok (some parameter)
  | _, _ => .ok none

/-! ## Responses -/

/-- The schema of a response. In the newer dialect a response with content always has one, if
only the empty schema. -/
def responseSchema? (dialect : Dialect) (response : Mapping) : Option Value :=
  match dialect with
  | .swagger2 =>
    match response.field "schema" with
    | .null => none
    | schema => some schema
  | .openApi3 =>
    match response.field "content" with
    | .object ((_, media) :: _) =>
      match media.object?.map (Mapping.field · "schema") with
      | none => some (.object [])
      | some .null => some (.object [])
      | some schema => some schema
    | _ => none

end Dialect

end ApiBinding
