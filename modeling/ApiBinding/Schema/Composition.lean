import ApiBinding.Reference.Table
import ApiBinding.Schema.Basic

/-! Composed schemas: what an object inherits from its parts, and which schemas become records.
Parts may refer to definitions in circles, so each walk remembers the references it followed. -/

namespace ApiBinding.Schema

/-- No walk from a node through the definitions goes deeper. Between two references it goes down
inside one node, and no reference is followed twice. -/
def depthBound (table : Table) (node : Value) : Nat :=
  let nodes := Value.mappingSize table.definitions + node.size + 2
  3 * nodes * nodes

/-! ## Inherited properties -/

structure Flattened where
  properties : Mapping
  requirement : Requirement

/-- What has been gathered from the parts so far, and the references followed. -/
structure Gathering where
  properties : Mapping
  required : List Value
  seen : List String

/-- The parts of a composed schema. A text or a mapping in their place holds no schemas. -/
def parts (schema : Mapping) : Except Failure (List Mapping) :=
  match schema.field "allOf" with
  | .list members => .ok (members.filterMap Value.object?)
  | .text _ => .ok []
  | .object _ => .ok []
  | other => if other.isTruthy then .error (.defect .membersNotIterable) else .ok []

/-- Adds a flattened part. Properties declared before stay as they are. -/
def Gathering.absorb (gathered : Gathering) (part : Flattened) (seen : List String) :
    Gathering where
  properties := gathered.properties.extend part.properties
  required :=
    match part.requirement with
    | .listed names => gathered.required ++ names
    | .all _ => gathered.required
  seen := seen

/-- Adds one part; a part that is a reference followed before adds nothing. -/
def gatherPart (table : Table)
    (walk : List String → Mapping → Except Failure (Flattened × List String))
    (gathered : Gathering) (part : Mapping) : Except Failure Gathering :=
  match part.field "$ref" with
  | .text ref =>
    if gathered.seen.contains ref then .ok gathered
    else do
      let target ← table.resolve ref
      let (flat, seen) ← walk (ref :: gathered.seen) target
      .ok (gathered.absorb flat seen)
  | _ => do
    let (flat, seen) ← walk gathered.seen part
    .ok (gathered.absorb flat seen)

/-- The properties of the parts come before the schema's own. A required list is added to those
of the parts, and a truth value stands for all of them. -/
def flattenStep (table : Table)
    (walk : List String → Mapping → Except Failure (Flattened × List String))
    (seen : List String) (schema : Mapping) : Except Failure (Flattened × List String) := do
  let members ← parts schema
  let gathered ← members.foldlM (gatherPart table walk) ⟨[], [], seen⟩
  let properties :=
    match schema.field "properties" with
    | .object own => gathered.properties.extend own
    | _ => gathered.properties
  let requirement :=
    match schema.field "required" with
    | .bool required => .all required
    | .list names => .listed (gathered.required ++ names)
    | _ => .listed gathered.required
  .ok (⟨properties, requirement⟩, gathered.seen)

def flattenWithin (table : Table) :
    Nat → List String → Mapping → Except Failure (Flattened × List String)
  | 0 => fun _ _ => .error (.defect .depthExhausted)
  | depth + 1 => flattenStep table (flattenWithin table depth)

/-- The own and inherited properties of a schema, in declaration order and each as first
declared, and which of them are required. -/
def flatten (table : Table) (schema : Mapping) : Except Failure Flattened :=
  (flattenWithin table (depthBound table (.object schema)) [] schema).map (·.1)

/-! ## Record-shaped schemas -/

/-- Whether a schema is a union or an enumeration and declares no properties. -/
def isAlternative (schema : Mapping) : Bool :=
  !schema.has "properties" &&
    ((schema.field "oneOf").isTruthy || (schema.field "anyOf").isTruthy || schema.has "enum")

/-- Whether a schema has the form of an object by itself. -/
def isObject (schema : Mapping) : Bool :=
  schema.has "properties" || typeWord? schema == some "object"

/-- Whether one of the parts is record-shaped. Parts that are references followed before are
passed over. -/
def anyRecordShaped (table : Table)
    (walk : List String → Value → Except Failure (Bool × List String))
    (seen : List String) : List Value → Except Failure (Bool × List String)
  | [] => .ok (false, seen)
  | part :: rest =>
    match part.object?.map (Mapping.field · "$ref") with
    | some (.text ref) =>
      if seen.contains ref then anyRecordShaped table walk seen rest
      else do
        let target ← table.resolve ref
        let (found, seen) ← walk (ref :: seen) (.object target)
        if found then .ok (true, seen) else anyRecordShaped table walk seen rest
    | _ => do
      let (found, seen) ← walk seen part
      if found then .ok (true, seen) else anyRecordShaped table walk seen rest

def recordShapedStep (table : Table)
    (walk : List String → Value → Except Failure (Bool × List String))
    (seen : List String) (node : Value) : Except Failure (Bool × List String) :=
  match node with
  | .object schema =>
    if isAlternative schema then .ok (false, seen)
    else if isObject schema then .ok (true, seen)
    else
      match Mapping.field schema "allOf" with
      | .list members => anyRecordShaped table walk seen members
      | _ => .ok (false, seen)
  | _ => .ok (false, seen)

def recordShapedWithin (table : Table) :
    Nat → List String → Value → Except Failure (Bool × List String)
  | 0 => fun _ _ => .error (.defect .depthExhausted)
  | depth + 1 => recordShapedStep table (recordShapedWithin table depth)

/-- Whether a schema becomes a named record: an object, or a composition with an object among
its parts. Unions and enumerations are written in place. -/
def isRecordShaped (table : Table) (node : Value) : Except Failure Bool :=
  (recordShapedWithin table (depthBound table node) [] node).map (·.1)

end ApiBinding.Schema
