import ApiBinding.Operation.Body
import ApiBinding.Operation.Dialect

/-! The response of an operation: the first usable one among the status codes looked at. -/

namespace ApiBinding.Operation

/-- Whether a status code is a number of digits. -/
def isDigits (code : String) : Bool :=
  !code.isEmpty && code.toList.all Text.isDigit

/-- The entry of a status code, null without one. A code of digits may be written as a number
where it is not written as a text. -/
def responseEntry (responses : Mapping) (code : String) : Except Failure Value :=
  match responses.field code with
  | .null =>
    if isDigits code then
      match Integer.read? code.toList with
      | some status => .ok ((responses.get? (.int status)).getD .null)
      | none => .error (.defect .statusNotDecimal)
    else .ok .null
  | entry => .ok entry

/-- The first entry that is present among those of the given status codes. -/
def selectResponse (responses : Mapping) : List String → Except Failure (Option Value)
  | [] => .ok none
  | code :: rest => do
    let entry ← responseEntry responses code
    if entry.isTruthy then .ok (some entry) else selectResponse responses rest

/-- The schema of the selected response. -/
def selectedSchema (dialect : Dialect) (options : Options) (document operation : Mapping) :
    Except Failure (Option Value) :=
  match operation.field "responses" with
  | .object responses => do
    match ← selectResponse responses options.responseCodes with
    | none => .ok none
    | some entry =>
      match ← Pointer.follow (.object document) entry with
      | .object response => .ok (dialect.responseSchema? response)
      | _ => .ok none
  | _ => .ok none

/-- Types the selected response. An object written in place becomes a record if the options ask
for it. -/
def responseType (scope : Scope) (dialect : Dialect) (document operation : Mapping)
    (stem : String) : Synthesis (Option TypeExpr) := do
  match ← Synthesis.lift (selectedSchema dialect scope.options document operation) with
  | none => pure none
  | some schema =>
    match if scope.options.promoteInlineResponse then inlineObject? schema else none with
    | some entries => return some (← Synthesis.declareRecord scope (stem ++ "Response") entries)
    | none => return some (← Synthesis.printedType scope schema)

end ApiBinding.Operation
