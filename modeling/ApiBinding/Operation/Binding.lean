import ApiBinding.Operation.Response

/-! The typed binding of an operation: everything needed to call it from a typed language. -/

namespace ApiBinding

structure Binding (τ : Type) where
  name : String
  comment : String
  /-- Every record that the types mention, directly or through other records. -/
  records : List (Record τ)
  body : Option τ
  isFormData : Bool
  /-- The record of the path parameters. -/
  pathRecord : Option String
  /-- The record of the query parameters. -/
  queryRecord : Option String
  response : Option τ
  files : List FileField

/-- Replaces the types of a binding and of its records. -/
def Binding.mapType {σ τ : Type} (f : σ → τ) (binding : Binding σ) : Binding τ where
  name := binding.name
  comment := binding.comment
  records := binding.records.map (Record.mapType f)
  body := binding.body.map f
  isFormData := binding.isFormData
  pathRecord := binding.pathRecord
  queryRecord := binding.queryRecord
  response := binding.response.map f
  files := binding.files

namespace Operation

/-- The operations of a path. -/
def pathItem? (document : Mapping) (path : String) : Option Mapping :=
  ((document.field "paths").object?.map (Mapping.field · path)).bind Value.object?

def find? (document : Mapping) (path method : String) : Option (Mapping × Mapping) := do
  let item ← pathItem? document path
  let operation ← (item.field method).object?
  some (item, operation)

/-- The summary and the description of an operation. -/
def comment (operation : Mapping) : String :=
  String.intercalate ", "
    (["summary", "description"].filterMap fun key => (operation.field key).nonemptyText?)

/-- The parameters under a key, with references replaced by what they lead to. -/
def rawParameters (document parent : Mapping) : Except Failure (List Mapping) :=
  match parent.field "parameters" with
  | .list items => do
    let targets ← items.mapM (Pointer.follow (.object document))
    .ok (targets.filterMap Value.object?)
  | _ => .ok []

/-- The parameters of an operation and its path in normal form. -/
def parameters (dialect : Dialect) (document item operation : Mapping) :
    Except Failure (List Parameter) := do
  let shared ← rawParameters document item
  let own ← rawParameters document operation
  let merged ← Parameter.merge shared own
  let normal ← merged.mapM dialect.normalize
  .ok (normal.filterMap id)

def body (scope : Scope) (dialect : Dialect) (document operation : Mapping) (stem : String)
    (placeholders : List String) (parameters : List Parameter) : Synthesis (Option Body) :=
  match dialect with
  | .swagger2 => swaggerBody scope document operation stem placeholders parameters
  | .openApi3 => openApiBody scope document operation stem

/-- Types the parts of an operation in turn: path, query, body and response. Records keep the
placement of the part in which they were first needed. -/
def bindingOf (scope : Scope) (dialect : Dialect) (document item operation : Mapping)
    (path method : String) : Synthesis (Binding TypeExpr) := do
  let identifier := (operation.field "operationId").text?
  let name := Name.ofOperation scope.lexicon scope.options identifier method path
  let stem := Name.upperFirst name
  let placeholders := Name.Template.placeholders path
  let parameters ← Synthesis.lift (parameters dialect document item operation)
  let pathRecord ← groupPath scope stem placeholders parameters
  let queryRecord ← groupQuery scope stem placeholders parameters
  let body ←
    body { scope with placement := some .body } dialect document operation stem placeholders
      parameters
  let response ←
    responseType { scope with placement := some .response } dialect document operation stem
  pure {
    name := name
    comment := comment operation
    records := (← get).catalog.records
    body := body.bind (·.type)
    isFormData := body.any (·.isFormData)
    pathRecord := pathRecord
    queryRecord := queryRecord
    response := response
    files := (body.map (·.files)).getD [] }

end Operation

namespace Binding

/-- The binding of an operation of a document of known dialect, with the warnings; nothing if
the document has no such operation. -/
def ofOperation (dialect : Dialect) (document : Mapping) (path method : String)
    (options : Options) (lexicon : Name.Lexicon) :
    Except Failure (Option (Binding TypeExpr) × List Warning) :=
  match Operation.find? document path method with
  | none => .ok (none, [])
  | some (item, operation) => do
    let definitions ← dialect.definitions document
    let scope : Scope := ⟨⟨dialect.root, definitions⟩, options, lexicon, none⟩
    let (result, session) :=
      (Operation.bindingOf scope dialect document item operation path method).outcome .empty
    let binding ← result
    .ok (some binding, session.warnings)

/-- The binding of an operation. The dialect is read off the document, and the case of the
method does not matter. -/
def ofDocument (document : Value) (path method : String) (options : Options)
    (lexicon : Name.Lexicon) : Except Failure (Option (Binding TypeExpr) × List Warning) :=
  match document with
  | .object entries =>
    ofOperation (Dialect.ofDocument entries) entries path
      (String.ofList (Text.lower method.toList)) options lexicon
  | other => .error (.fault (.documentNotMapping other.kindName))

end Binding

end ApiBinding
