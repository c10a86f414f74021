import ApiBinding.Operation.Group
import ApiBinding.Operation.Upload
import ApiBinding.Reference.Pointer

/-! The request body of an operation: its type, whether it is sent as a form, and its files. -/

namespace ApiBinding.Operation

structure Body where
  type : Option TypeExpr
  isFormData : Bool
  files : List FileField

/-- An object schema that is written in place: it has properties and no reference, and its type
is that of an object or left out. -/
def inlineObject? (schema : Value) : Option Mapping :=
  schema.object?.filter fun entries =>
    !entries.has "$ref" &&
      (match entries.field "properties" with
        | .object properties => !properties.isEmpty
        | _ => false) &&
      (Schema.typeWord? entries).all (· == "object")

/-! ## Bodies of one schema -/

/-- The file fields among the own and inherited properties of a form schema. -/
def fileFields (table : Table) (schema : Value) : Except Failure (List FileField) :=
  match schema with
  | .object entries => do
    let target ←
      match Mapping.field entries "$ref" with
      | .text ref => table.resolve ref
      | _ => .ok entries
    let flat ← Schema.flatten table target
    let found ← flat.properties.mapM fun (name, property) => FileField.ofProperty? name property
    .ok (found.filterMap id)
  | _ => .ok []

/-- Marks the files among the own properties of an object schema. -/
def markFiles (entries : Mapping) (files : List FileField) : Except Failure Mapping :=
  match files, entries.field "properties" with
  | _ :: _, .object properties => do
    let marked ← FileField.markAll properties files
    .ok (entries.insert (.text "properties") (.object marked))
  | _, _ => .ok entries

def isMultipart (mediaType : String) : Bool :=
  "multipart/".toList.isPrefixOf mediaType.toList

def isForm (mediaType : String) : Bool :=
  Text.occursIn "form".toList mediaType.toList

/-- Types a body schema. An object written in place becomes a record, in which the files of a
multipart body are marked; any other schema is typed as it stands. -/
def bodyOfSchema (scope : Scope) (stem : String) (mediaType : String) (schema : Value) :
    Synthesis Body := do
  let files ←
    if isMultipart mediaType then Synthesis.lift (fileFields scope.table schema) else pure []
  let type ←
    match inlineObject? schema with
    | some entries => do
      let marked ← Synthesis.lift (markFiles entries files)
      Synthesis.declareRecord scope (stem ++ "Body") marked
    | none => Synthesis.printedType scope schema
  pure ⟨some type, isForm mediaType || !files.isEmpty, files⟩

/-! ## The older dialect -/

/-- A form parameter with its file, if it takes one, marked in its schema. -/
def formParameter (parameter : Parameter) : Except Failure (Parameter × Option FileField) :=
  match parameter.schema with
  | some schema => do
    match ← FileField.ofProperty? (.text parameter.name) (.object schema) with
    | some file => do
      let marked ← FileField.mark schema file.multiple
      .ok ({ parameter with schema := some marked }, some file)
    | none => .ok (parameter, none)
  | none => .ok (parameter, none)

/-- The body made of form parameters. -/
def formBody (scope : Scope) (stem : String) (parameters : List Parameter) :
    Synthesis Body := do
  let marked ← Synthesis.lift (parameters.mapM formParameter)
  let name ← groupRecord scope (stem ++ "Body") (marked.map (·.1))
  pure ⟨name.map .reference, true, marked.filterMap (·.2)⟩

/-- The media type of a body: the first that the operation, or else the document, consumes. -/
def consumedMedia (document operation : Mapping) : Value :=
  let own := operation.field "consumes"
  match if own.isTruthy then own else document.field "consumes" with
  | .list (first :: _) => first
  | _ => .text "application/json"

/-- Form parameters make a form together with body parameters; without them the first body
parameter is the body. A body parameter that a template placeholder names is no body. -/
def swaggerBody (scope : Scope) (document operation : Mapping) (stem : String)
    (placeholders : List String) (parameters : List Parameter) : Synthesis (Option Body) := do
  let isBody (p : Parameter) := p.location == .body && !placeholders.contains p.name
  if parameters.any (·.location == .formData) then
    let form := parameters.filter fun p => p.location == .formData || isBody p
    return some (← formBody scope stem form)
  match parameters.find? isBody with
  | none => return none
  | some body =>
    let schema := (body.schema.map Value.object).getD .null
    let mediaType ← Synthesis.lift (consumedMedia document operation).shown
    return some (← bodyOfSchema scope stem mediaType schema)

/-! ## The newer dialect -/

/-- The schema of a media type entry, null if it has none. -/
def mediaSchema (media : Value) : Value :=
  (media.object?.map (Mapping.field · "schema")).getD .null

def multipartForm : String := "multipart/form-data"

/-- The first media type gives the body its type; a multipart form behind it still makes the
body a form if it has files. -/
def openApiBody (scope : Scope) (document operation : Mapping) (stem : String) :
    Synthesis (Option Body) := do
  let request ← Synthesis.lift (Pointer.follow (.object document) (operation.field "requestBody"))
  match request.object?.map (Mapping.field · "content") with
  | some (.object ((.text mediaType, media) :: rest)) =>
    let content : Mapping := (.text mediaType, media) :: rest
    let body ← bodyOfSchema scope stem mediaType (mediaSchema media)
    match mediaType == multipartForm, content.field multipartForm with
    | false, .object multipart => do
      let files ←
        Synthesis.lift (fileFields scope.table (Mapping.field multipart "schema"))
      if files.isEmpty then return some body else return some ⟨body.type, true, files⟩
    | _, _ => return some body
  | some (.object (_ :: _)) => Synthesis.fail (.defect .mediaTypeNotText)
  | _ => return none

end ApiBinding.Operation
