import ApiBinding.Failure
import ApiBinding.Validation.Reader

/-! Parameters of an operation in one form for both document dialects, and the merge of the
parameters of a path with those of its operations. -/

namespace ApiBinding

inductive Location where
  | path
  | query
  | header
  | cookie
  | formData
  | body
deriving DecidableEq, Repr

namespace Location

def all : List Location := [.path, .query, .header, .cookie, .formData, .body]

def word : Location → String
  | .path => "path"
  | .query => "query"
  | .header => "header"
  | .cookie => "cookie"
  | .formData => "formData"
  | .body => "body"

def ofValue? (value : Value) : Option Location :=
  value.text?.bind fun word => all.find? (·.word == word)

end Location

/-- A parameter whose type, wherever its dialect writes it, is a schema. -/
structure Parameter where
  name : String
  location : Location
  required : Bool
  description : Option String
  schema : Option Mapping

namespace Parameter

/-! ## Raw parameters -/

def location? (raw : Mapping) : Option Location :=
  Location.ofValue? (raw.field "in")

/-- The scalars that tell raw parameters apart; a collection is none. -/
inductive Label where
  | key (key : Key)
  | date (text : String)

def Label.ofValue? : Value → Option Label
  | .date text => some (.date text)
  | value => (Key.ofValue? value).map .key

def Label.same : Label → Label → Bool
  | .key a, .key b => a.same b
  | .date a, .date b => a == b
  | _, _ => false

/-- The name and the location of a raw parameter, empty where they are missing. -/
def labels (raw : Mapping) : Except Failure (Label × Label) :=
  let labelOf (name : String) := Label.ofValue? ((raw.find? name).getD (.text ""))
  match labelOf "name", labelOf "in" with
  | some name, some location => .ok (name, location)
  | _, _ => .error (.defect .collectionParameterKey)

/-- The parameters of a path without those that the operation declares anew, and then the
parameters of the operation. -/
def merge (shared own : List Mapping) : Except Failure (List Mapping) := do
  let taken ← own.mapM labels
  let kept ← shared.filterM fun raw => do
    let (name, location) ← labels raw
    .ok (!taken.any fun other => other.1.same name && other.2.same location)
  .ok (kept ++ own)

/-! ## Normal form -/

/-- A parameter with a given schema. Path parameters are always required. The schema must be a
mapping with text keys; a value of another kind is dropped. -/
def ofRaw (raw : Mapping) (name : String) (location : Location) (schema : Value) :
    Except Failure Parameter :=
  let parameter : Parameter := {
    name := name
    location := location
    required :=
      match raw.field "required" with
      | .bool required => required || location == .path
      | _ => location == .path
    description := (raw.field "description").text?
    schema := schema.object? }
  match Validated.keyIssues (parameter.schema.getD []) with
  | [] => .ok parameter
  | issues => .error (.defect (.invalid (issues.map (·.within (.field "schema")))))

end Parameter

end ApiBinding
