import ApiBinding.Synthesis.Session

/-! The type expression of a schema. A reference to a record-shaped definition yields the name
of a record, which is put into the catalog with its fields; any other target is written in
place. A reference is named before its fields are typed, so circles end at the name; a target
that is met again while it is written in place becomes a plain object. -/

namespace ApiBinding.Synthesis

open ApiBinding.Schema

/-- How the steps below type the schemas inside a node. -/
abbrev Typing := Value → Synthesis TypeExpr

/-! ## Fields -/

/-- The type of a schema whose text is needed at once. -/
def printed (typing : Typing) (node : Value) : Synthesis TypeExpr := do
  let type ← typing node
  if type.isPrintable then pure type else fail (.defect .memberNameNotText)

/-- The field of a typed property. -/
def fieldOf (typing : Typing) (requirement : Requirement) (name : Key) (property : Mapping) :
    Synthesis (Field TypeExpr) := do
  let type ← printed typing (.object property)
  match name with
  | .text text =>
    pure {
      name := text
      required := isRequired name property requirement
      type := type
      description := description? property
      format := format? (.object property) }
  | _ => fail (.defect (.invalid [⟨[.field "name"], .textExpected⟩]))

/-- The fields of an object's properties, in order. A property without a type is left out with
a warning. -/
def fieldsWith (typing : Typing) (owner : String) (requirement : Requirement) :
    Mapping → Synthesis (List (Field TypeExpr))
  | [] => pure []
  | (name, .object property) :: rest =>
    if isTyped (.object property) then do
      let field ← fieldOf typing requirement name property
      let fields ← fieldsWith typing owner requirement rest
      pure (field :: fields)
    else do
      warn (.untypedField name owner)
      fieldsWith typing owner requirement rest
  | (name, _) :: rest => do
    warn (.untypedField name owner)
    fieldsWith typing owner requirement rest

/-- The members of an object that is written in place, in order. -/
def membersWith (typing : Typing) (requirement : Requirement) :
    Mapping → Synthesis (List (Member TypeExpr))
  | [] => pure []
  | (name, .object property) :: rest =>
    if isTyped (.object property) then do
      let type ← typing (.object property)
      let members ← membersWith typing requirement rest
      let required := isRequired name property requirement
      pure (⟨name, required, type, description? property⟩ :: members)
    else do
      warn (.untypedMember name)
      membersWith typing requirement rest
  | (name, _) :: rest => do
    warn (.untypedMember name)
    membersWith typing requirement rest

/-! ## Records -/

/-- Reserves a record name and tells whether it was free. -/
def reserve (name : String) : Synthesis Bool :=
  fun session =>
    let (free, catalog) := session.catalog.reserve name
    (.ok free, { session with catalog := catalog })

/-- Stores a record unless its name has one. -/
def store (record : Record TypeExpr) : Synthesis Unit :=
  fun session => (.ok (), { session with catalog := (session.catalog.add record).2 })

/-- Makes a schema the record of a name and returns a reference to it. A name that is taken
keeps its record, and the schema is not looked at. -/
def declareWith (scope : Scope) (typing : Typing) (name : String) (schema : Mapping) :
    Synthesis TypeExpr := do
  if ← reserve name then
    let flat ← lift (flatten scope.table schema)
    let fields ← fieldsWith typing name flat.requirement flat.properties
    store ⟨name, (schema.field "description").text?, fields, scope.placement⟩
  pure (.reference name)

/-! ## Types -/

/-- Writes the target of a reference in place. -/
def inlineWith (typing : Typing) (ref : String) (schema : Mapping) : Synthesis TypeExpr :=
  fun session =>
    match session.beginInline ref with
    | (true, opened) => closing ref (typing (.object schema)) opened
    | (false, _) => (.ok .object, session)

/-- The type of a reference that has no record name yet. -/
def targetType (scope : Scope) (typing : Typing) (ref : String) : Synthesis TypeExpr := do
  let schema ← lift (scope.table.resolve ref)
  if ← lift (isRecordShaped scope.table (.object schema)) then
    let key ← lift (scope.table.keyOf ref)
    let name := Name.ofDefinition scope.lexicon scope.options key
    modify (·.register ref name)
    declareWith scope typing name schema
  else inlineWith typing ref schema

def referenceType (scope : Scope) (typing : Typing) (target : Value) : Synthesis TypeExpr :=
  match target with
  | .text ref => do
    match (← get).nameOf? ref with
    | some name => pure (.reference name)
    | none => targetType scope typing ref
  | other => fail (.fault (.referenceNotText other.kindName))

/-- A combination of one member is that member. -/
def unionOf : List TypeExpr → TypeExpr
  | [member] => member
  | members => .union members

def shapeType (scope : Scope) (typing : Typing) : Shape → Synthesis TypeExpr
  | .reference target => referenceType scope typing target
  | .leaf type => pure type
  | .array items => return .array (← typing items)
  | .tuple elements => return .tuple (← elements.mapM typing)
  | .union members => return unionOf (← members.mapM typing)
  | .intersection members => return .intersection (← members.mapM typing)
  | .object properties requirement => do
    match ← membersWith typing requirement properties with
    | [] => pure .object
    | members => pure (.struct members)

/-- The type of a node, given the types of the schemas it leads to. A missing schema is a plain
object, and a value that is no schema is copied. -/
def typeStep (scope : Scope) (typing : Typing) (node : Value) : Synthesis TypeExpr :=
  match node with
  | .null => pure .object
  | .object schema => do shapeType scope typing (← lift (shape schema))
  | other => return .verbatim (← lift other.shown)

def typeWithin (scope : Scope) : Nat → Typing
  | 0 => fun _ => fail (.defect .depthExhausted)
  | depth + 1 => typeStep scope (typeWithin scope depth)

/-- The type expression of a schema node. -/
def typeOf (scope : Scope) (node : Value) : Synthesis TypeExpr :=
  typeWithin scope (depthBound scope.table node) node

/-- The type expression of a schema node, which has a text. -/
def printedType (scope : Scope) (node : Value) : Synthesis TypeExpr :=
  printed (typeOf scope) node

/-- The fields of properties that belong to `owner`. -/
def fields (scope : Scope) (owner : String) (properties : Mapping) (requirement : Requirement) :
    Synthesis (List (Field TypeExpr)) :=
  fieldsWith (typeOf scope) owner requirement properties

/-- Makes a schema the record of a name. -/
def declareRecord (scope : Scope) (name : String) (schema : Mapping) : Synthesis TypeExpr :=
  declareWith scope (typeWithin scope (depthBound scope.table (.object schema))) name schema

end ApiBinding.Synthesis
