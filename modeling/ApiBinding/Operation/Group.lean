import ApiBinding.Name.Template
import ApiBinding.Operation.Parameter
import ApiBinding.Synthesis.TypeOf

/-! Records made of parameters: one for the path, one for the query and, for forms, one for the
body. -/

namespace ApiBinding.Operation

/-- The field of a parameter; one without a type is left out with a warning. -/
def parameterField (scope : Scope) (owner : String) (parameter : Parameter) :
    Synthesis (Option (Field TypeExpr)) :=
  match parameter.schema with
  | some schema =>
    if Schema.isTyped (.object schema) then do
      let type ← Synthesis.printedType scope (.object schema)
      pure (some {
        name := parameter.name
        required := parameter.required
        type := type
        description := parameter.description
        format := Schema.format? (.object schema) })
    else do
      Synthesis.warn (.untypedParameter parameter.name owner)
      pure none
  | none => do
    Synthesis.warn (.untypedParameter parameter.name owner)
    pure none

/-- The fields of parameters, in order. -/
def parameterFields (scope : Scope) (owner : String) :
    List Parameter → Synthesis (List (Field TypeExpr))
  | [] => pure []
  | parameter :: rest => do
    let field ← parameterField scope owner parameter
    let fields ← parameterFields scope owner rest
    pure (field.toList ++ fields)

/-- Stores a record with a field per parameter and returns its name, or nothing if there are no
fields. A name that is taken keeps its record. -/
def groupRecord (scope : Scope) (name : String) (parameters : List Parameter) :
    Synthesis (Option String) := do
  match ← parameterFields scope name parameters with
  | [] => pure none
  | fields =>
    if ← Synthesis.reserve name then
      Synthesis.store ⟨name, none, fields, scope.placement⟩
    pure (some name)

/-! ## Path and query -/

/-- Whether a parameter fills a segment of the path. -/
def fillsPath (placeholders : List String) (parameter : Parameter) : Bool :=
  parameter.location == .path ||
    (parameter.location == .query && placeholders.contains parameter.name)

/-- The parameter of a template placeholder that nothing declares. -/
def undeclared (options : Options) (name : String) : Parameter where
  name := name
  location := .path
  required := true
  description := none
  schema := some [(.text "type", .text options.defaultPathType)]

/-- The parameters of the path, all of them required: the declared ones, and one for each
template placeholder that none of them is named after. -/
def pathParameters (options : Options) (placeholders : List String) (parameters : List Parameter) :
    List Parameter :=
  let declared := (parameters.filter (fillsPath placeholders)).map ({ · with required := true })
  let names := declared.map (·.name)
  declared ++ ((placeholders.eraseDups.filter (!names.contains ·)).map (undeclared options))

/-- The query parameters that no template placeholder binds to the path. -/
def queryParameters (placeholders : List String) (parameters : List Parameter) : List Parameter :=
  parameters.filter fun parameter =>
    parameter.location == .query && !placeholders.contains parameter.name

def groupPath (scope : Scope) (stem : String) (placeholders : List String)
    (parameters : List Parameter) : Synthesis (Option String) :=
  groupRecord { scope with placement := some .path } (stem ++ "PathVar")
    (pathParameters scope.options placeholders parameters)

def groupQuery (scope : Scope) (stem : String) (placeholders : List String)
    (parameters : List Parameter) : Synthesis (Option String) :=
  groupRecord { scope with placement := some .body } (stem ++ "Query")
    (queryParameters placeholders parameters)

end ApiBinding.Operation
