import ApiBinding.Validation.Issue

/-! Why a document cannot be used. A fault is a defined outcome with a message; a defect is a
value in a place where the formats allow none of its kind. -/

namespace ApiBinding

/-- Why a reference leads nowhere. -/
inductive Unresolved where
  | outsideTable (root : String)
  | undefined (key : String)
  | missingKey (segment : String)
  | invalidIndex (segment : String)
  | notCollection (kind : String)
  | emptyTarget
deriving DecidableEq, Repr

def Unresolved.reason : Unresolved → String
  | .outsideTable root => "expected a reference starting with '" ++ root ++ "'"
  | .undefined key => "no definition named '" ++ key ++ "'"
  | .missingKey segment => "key '" ++ segment ++ "' not found at path"
  | .invalidIndex segment => "invalid array index '" ++ segment ++ "'"
  | .notCollection kind => "cannot navigate into " ++ kind
  | .emptyTarget => "target is empty"

/-- The message for a reference that leads nowhere, with the reason if one is given. -/
def unresolvedMessage (ref : String) (reason : Option String) : String :=
  let message := "Cannot resolve $ref '" ++ ref ++ "'"
  match reason with
  | some text => if text.isEmpty then message else message ++ ": " ++ text
  | none => message

/-- The mappings of a document without which no schema can be found. -/
inductive TableName where
  | definitions
  | components
  | schemas
deriving DecidableEq, Repr

def TableName.path : TableName → String
  | .definitions => "definitions"
  | .components => "components"
  | .schemas => "components.schemas"

inductive Fault where
  | documentNotMapping (kind : String)
  | tableNotMapping (table : TableName)
  | externalReference (target : String)
  | referenceNotText (kind : String)
  | circularReference (ref : String)
  | unresolved (ref : String) (cause : Unresolved)
deriving DecidableEq, Repr

def Fault.message : Fault → String
  | .documentNotMapping kind => "API document must be a mapping (got " ++ kind ++ ")"
  | .tableNotMapping table => "'" ++ table.path ++ "' must be a mapping"
  | .externalReference target =>
    "External $ref not supported: " ++ target ++
      ". Only internal references (#/...) are handled."
  | .referenceNotText kind => "$ref must be a string, got " ++ kind
  | .circularReference ref => "Circular $ref chain at '" ++ ref ++ "'"
  | .unresolved ref cause => unresolvedMessage ref cause.reason

inductive Defect where
  /-- A collection where a reference is followed. -/
  | collectionReference
  /-- A collection as the name or the location of a parameter. -/
  | collectionParameterKey
  /-- Composition members that are a number, a truth value or a date. -/
  | membersNotIterable
  /-- The type of an enumeration without its values. -/
  | enumWithoutValues
  /-- A file list without a mapping of its items. -/
  | itemsMissing
  | itemsNotMapping
  /-- A member of an object type written in place whose name is no text. -/
  | memberNameNotText
  | mediaTypeNotText
  /-- A status code of digits that are no decimal digits. -/
  | statusNotDecimal
  /-- An integer with too many digits, in a value that is written. -/
  | integerTooLong
  /-- A value that a record, parameter or file cannot hold. -/
  | invalid (issues : List Issue)
  /-- The bound on the depth of a walk through the schemas is used up. -/
  | depthExhausted
deriving DecidableEq, Repr

inductive Failure where
  | fault (cause : Fault)
  | defect (cause : Defect)
deriving DecidableEq, Repr

end ApiBinding
