import ApiBinding.Proofs.Schema.Depth
import ApiBinding.Proofs.Value.Moved
import ApiBinding.Proofs.Value.Writable

/-! Schemas whose references are moved, over a table that is moved with them: they have the same
shape, the same inherited properties and the same class as before. -/

namespace ApiBinding

open Value

/-! ## Results -/

def Unresolved.moved : Unresolved → Unresolved
  | .outsideTable root => .outsideTable (Pointer.moveRef root)
  | cause => cause

/-- The failure with the reference and the table that it names moved. -/
def Failure.moved : Failure → Failure
  | .fault (.unresolved ref cause) => .fault (.unresolved (Pointer.moveRef ref) cause.moved)
  | .fault (.tableNotMapping .definitions) => .fault (.tableNotMapping .schemas)
  | failure => failure

section Results

variable {α β γ δ : Type}

/-- The result of a moved computation, where `f` moves what it returns. -/
def movedResult (f : α → β) : Except Failure α → Except Failure β
  | .ok value => .ok (f value)
  | .error failure => .error failure.moved

@[simp] theorem movedResult_ok (f : α → β) (value : α) :
    movedResult f (.ok value) = .ok (f value) := rfl

@[simp] theorem movedResult_error (f : α → β) (failure : Failure) :
    movedResult f (.error failure) = .error failure.moved := rfl

theorem movedResult_bind {f : α → β} {g : γ → δ} {result : Except Failure α}
    {next : α → Except Failure γ} {next' : β → Except Failure δ}
    (h : ∀ value, next' (f value) = movedResult g (next value)) :
    (movedResult f result >>= next') = movedResult g (result >>= next) := by
  cases result with
  | ok value => exact h value
  | error failure => rfl

theorem movedResult_map {f : α → β} {g : γ → δ} {k : α → γ} {k' : β → δ}
    (h : ∀ value, k' (f value) = g (k value)) (result : Except Failure α) :
    (movedResult f result).map k' = movedResult g (result.map k) := by
  cases result with
  | ok value => exact congrArg Except.ok (h value)
  | error failure => rfl

theorem movedResult_foldlM {f : α → β} {g : γ → δ} {step : α → γ → Except Failure α}
    {step' : β → δ → Except Failure β}
    (h : ∀ state item, step' (f state) (g item) = movedResult f (step state item)) (start : α)
    (items : List γ) :
    (items.map g).foldlM step' (f start) = movedResult f (items.foldlM step start) := by
  induction items generalizing start with
  | nil => rfl
  | cons item rest ih =>
      rw [List.map_cons, List.foldlM_cons, List.foldlM_cons, h]
      exact movedResult_bind fun state => ih state

theorem movedResult_mapM {f : α → β} {g : γ → δ} {step : α → Except Failure γ}
    {step' : β → Except Failure δ} (h : ∀ item, step' (f item) = movedResult g (step item))
    (items : List α) :
    (items.map f).mapM step' = movedResult (List.map g) (items.mapM step) := by
  induction items with
  | nil => rfl
  | cons item rest ih =>
      rw [List.map_cons, List.mapM_cons, List.mapM_cons, h, ih]
      refine movedResult_bind fun found => ?_
      exact movedResult_bind fun others => rfl

end Results

/-! ## Tables -/

/-- The table of the other dialect with the same definitions, in which references are moved. -/
def Table.moved (table : Table) : Table where
  root := Pointer.moveRef table.root
  definitions := table.definitions.mapValues Value.moved

theorem Value.mappingSize_mapValues {f : Value → Value}
    (same : ∀ value, (f value).size = value.size) (m : Mapping) :
    mappingSize (m.mapValues f) = mappingSize m := by
  unfold Mapping.mapValues
  induction m with
  | nil => rfl
  | cons entry rest ih => simp [mappingSize, same, ih]

theorem Pointer.moveRef_root : moveRef Dialect.swagger2.root = Dialect.openApi3.root := by decide

namespace Schema

variable {table : Table}

theorem keyOf_moved (rooted : table.root = Dialect.swagger2.root) (ref : String) :
    table.moved.keyOf (Pointer.moveRef ref) = movedResult id (table.keyOf ref) := by
  unfold Table.keyOf Table.moved
  rw [rooted, Pointer.moveRef_root]
  cases old : Text.dropStart? Dialect.swagger2.root.toList ref.toList with
  | some key =>
      rw [Pointer.eq_append_of_dropStart? old, Pointer.moveRef_swagger2,
        Pointer.dropStart?_root_append]
      rfl
  | none =>
      cases new : Text.dropStart? Dialect.openApi3.root.toList (Pointer.moveRef ref).toList with
      | some key =>
          have back := congrArg Pointer.moveRef (Pointer.eq_append_of_dropStart? new)
          rw [Pointer.moveRef_moveRef, Pointer.moveRef_openApi3] at back
          rw [back, Pointer.dropStart?_root_append] at old
          simp at old
      | none => simp [Failure.moved, Unresolved.moved, Pointer.moveRef_root]

theorem resolve_moved (rooted : table.root = Dialect.swagger2.root) (ref : String) :
    table.moved.resolve (Pointer.moveRef ref) = movedResult movedEntries (table.resolve ref) := by
  unfold Table.resolve
  rw [keyOf_moved rooted]
  refine movedResult_bind fun key => ?_
  rw [Table.moved, id_eq, Mapping.find?_mapValues]
  cases found : table.definitions.find? key with
  | none => simp [Failure.moved, Unresolved.moved]
  | some value => cases value <;> simp [Value.moved, Failure.moved, Unresolved.moved]

theorem depthBound_moved (table : Table) (node : Value) :
    depthBound table.moved node.moved = depthBound table node := by
  simp [depthBound, Table.moved, mappingSize_mapValues size_moved]

/-! ## Reading a schema -/

theorem filterMap_text?_moved (items : List Value) :
    (items.map moved).filterMap Value.text? = items.filterMap Value.text? := by
  induction items with
  | nil => rfl
  | cons item rest ih => simp [List.filterMap_cons, ih]

theorem typeWord?_moved (schema : Mapping) :
    typeWord? (movedEntries schema) = typeWord? schema := by
  unfold typeWord?
  rw [Mapping.field_movedEntries]
  cases schema.field "type" with
  | text word => simp [movedUnder]
  | list words =>
      rw [movedUnder_list (by decide)]
      simp only [filterMap_text?_moved]
  | _ => simp [movedUnder]

theorem format?_moved (node : Value) : format? node.moved = format? node := by
  unfold format?
  cases node with
  | object schema =>
      simp [Value.object?, Mapping.field_movedEntries, text?_movedUnder]
  | _ => rfl

theorem isTyped_movedUnder (key : Key) (node : Value) :
    isTyped (movedUnder key node) = isTyped node := by
  have same : ∀ schema : Mapping,
      Mapping.has (movedEntries schema) = Mapping.has schema :=
    fun schema => funext (Mapping.has_movedEntries schema)
  cases node <;> simp [isTyped, movedUnder, same]

theorem description?_moved (schema : Mapping) :
    description? (movedEntries schema) = description? schema := by
  have same : ∀ {name : String}, name ≠ "$ref" →
      (Mapping.field (movedEntries schema) name).nonemptyText? =
        (schema.field name).nonemptyText? := by
    intro name other
    rw [Mapping.field_movedEntries, nonemptyText?, text?_movedUnder (by simpa using other)]
    rfl
  simp [description?, same]

/-- The requirement with the names that are no names moved. -/
def Requirement.moved : Requirement → Requirement
  | .all required => .all required
  | .listed names => .listed (names.map Value.moved)

theorem ofValue_movedUnder (value : Value) :
    Requirement.ofValue (movedUnder (.text "required") value) =
      (Requirement.ofValue value).moved := by
  cases value with
  | list names =>
      rw [movedUnder_list (by decide)]
      rfl
  | _ => simp [movedUnder, Requirement.ofValue, Requirement.moved]

theorem requires_moved (requirement : Requirement) (name : Key) :
    requirement.moved.requires name = requirement.requires name := by
  have same : ∀ names : List Value,
      (names.map Value.moved).filterMap Key.ofValue? = names.filterMap Key.ofValue? := by
    intro names
    induction names with
    | nil => rfl
    | cons first rest ih =>
        cases first <;> simp [List.filterMap_cons, Value.moved, Key.ofValue?, ih]
  cases requirement <;> simp [Requirement.moved, Requirement.requires, same]

theorem isRequired_moved (name : Key) (property : Mapping) (parent : Requirement) :
    isRequired name (movedEntries property) parent.moved = isRequired name property parent := by
  unfold isRequired
  rw [Mapping.field_movedEntries, requires_moved]
  cases property.field "required" <;> simp [movedUnder]

/-! ## Shapes -/

/-- The shape with the references in it moved. -/
def Shape.moved : Shape → Shape
  | .reference target => .reference (movedUnder (.text "$ref") target)
  | .leaf type => .leaf type
  | .array items => .array items.moved
  | .tuple elements => .tuple (elements.map Value.moved)
  | .union members => .union (members.map Value.moved)
  | .intersection members => .intersection (members.map Value.moved)
  | .object properties requirement => .object (movedEntries properties) requirement.moved

theorem decisiveWord?_moved (schema : Mapping) :
    decisiveWord? (movedEntries schema) = decisiveWord? schema := by
  have format := format?_moved (.object schema)
  rw [moved_object] at format
  simp [decisiveWord?, typeWord?_moved, format]

theorem elementSchema_moved (item : Value) :
    elementSchema item.moved = (elementSchema item).moved := by
  cases item with
  | object entries =>
      simp only [elementSchema, moved_object, Mapping.find?_movedEntries]
      cases found : Mapping.find? entries "schema" with
      | none => rfl
      | some value =>
          cases value with
          | list items => simp [movedUnder_data, holdsData, Value.moved]
          | _ => simp [movedUnder, Value.moved]
  | _ => rfl

theorem arrayShape_moved (schema : Mapping) :
    arrayShape (movedEntries schema) = (arrayShape schema).moved := by
  have items : arrayShape [(.text "items", movedUnder (.text "items") (schema.field "items"))] =
      (arrayShape [(.text "items", schema.field "items")]).moved := by
    simp only [arrayShape, Mapping.field, Mapping.find?_cons, Key.same_text, Mapping.find?_nil]
    cases (schema.find? "items").getD .null with
    | list elements =>
        rw [movedUnder_list (by decide)]
        simp [Shape.moved, elementSchema_moved]
    | _ => simp [movedUnder, Shape.moved, Value.moved]
  simp only [arrayShape, Mapping.field_movedEntries]
  cases schema.field "prefixItems" with
  | list elements =>
      rw [movedUnder_list (by decide)]
      rfl
  | _ =>
      rw [movedUnder]
      exact items

theorem enumShape_moved (values : Value) :
    enumShape (movedUnder (.text "enum") values) = movedResult Shape.moved (enumShape values) := by
  cases values with
  | list items =>
      rw [movedUnder_data (by decide)]
      cases items with
      | nil => rfl
      | cons first rest =>
          rw [enumShape]
          cases made : TypeExpr.ofLiterals (first :: rest) with
          | ok type => rfl
          | error failure =>
              obtain ⟨rfl, -⟩ := TypeExpr.ofLiterals_eq_error_iff.mp made
              rfl
  | _ => simp [movedUnder, enumShape, Shape.moved]

theorem objectShape_moved (schema : Mapping) :
    objectShape (movedEntries schema) = (objectShape schema).moved := by
  unfold objectShape
  rw [Mapping.field_movedEntries, Mapping.field_movedEntries, ofValue_movedUnder]
  cases schema.field "properties" with
  | object properties => cases properties <;> simp [movedEntries, Shape.moved]
  | _ => simp [movedUnder, Shape.moved]

/-- The members of a list that has some. -/
def members? : Value → Option (List Value)
  | .list (first :: rest) => some (first :: rest)
  | _ => none

/-- The shape of a schema that is no composition. -/
def plainShape (word : Option String) (schema : Mapping) : Shape :=
  if word == some "object" || schema.has "properties" then objectShape schema
  else .leaf (word.elim .object .verbatim)

theorem composedShape_eq (word : Option String) (schema : Mapping) :
    composedShape word schema =
      match members? (schema.field "oneOf"), members? (schema.field "anyOf"),
        members? (schema.field "allOf") with
      | some members, _, _ => .union members
      | none, some members, _ => .union members
      | none, none, some members => .intersection members
      | none, none, none => plainShape word schema := by
  unfold composedShape members?
  split
  · simp_all
  · simp_all
  · simp_all
  · cases word <;> simp_all [plainShape]

theorem members?_movedUnder {key : Key} (schemas : holdsData key = false) (value : Value) :
    members? (movedUnder key value) = (members? value).map (List.map Value.moved) := by
  cases value with
  | list items =>
      rw [movedUnder_list schemas]
      cases items <;> rfl
  | _ => simp [movedUnder, members?]

theorem plainShape_moved (word : Option String) (schema : Mapping) :
    plainShape word (movedEntries schema) = (plainShape word schema).moved := by
  unfold plainShape
  rw [Mapping.has_movedEntries, objectShape_moved]
  split <;> rfl

theorem composedShape_moved (word : Option String) (schema : Mapping) :
    composedShape word (movedEntries schema) = (composedShape word schema).moved := by
  simp only [composedShape_eq, Mapping.field_movedEntries, plainShape_moved]
  rw [members?_movedUnder (by decide), members?_movedUnder (by decide),
    members?_movedUnder (by decide)]
  cases members? (schema.field "oneOf") with
  | some members => rfl
  | none =>
      cases members? (schema.field "anyOf") with
      | some members => rfl
      | none => cases members? (schema.field "allOf") <;> rfl

theorem shape_moved (schema : Mapping) :
    shape (movedEntries schema) = movedResult Shape.moved (shape schema) := by
  unfold shape
  simp only [Mapping.find?_movedEntries, decisiveWord?_moved, Mapping.has_movedEntries,
    arrayShape_moved, composedShape_moved]
  cases schema.find? "$ref" with
  | some target => rfl
  | none =>
      dsimp only [Option.map_none]
      cases (decisiveWord? schema).bind builtin? with
      | some type => rfl
      | none =>
          dsimp only
          split
          · rfl
          · split
            · cases schema.find? "enum" with
              | none => rfl
              | some values => simp [enumShape_moved]
            · rfl

/-! ## Inherited properties -/

def Flattened.moved (flat : Flattened) : Flattened where
  properties := movedEntries flat.properties
  requirement := flat.requirement.moved

def Gathering.moved (gathered : Gathering) : Gathering where
  properties := movedEntries gathered.properties
  required := gathered.required.map Value.moved
  seen := gathered.seen.map Pointer.moveRef

/-- What a walk returns: the properties found and the references followed. -/
def movedWalk {α β : Type} (f : α → β) (answer : α × List String) : β × List String :=
  (f answer.1, answer.2.map Pointer.moveRef)

theorem contains_map_moveRef (seen : List String) (ref : String) :
    (seen.map Pointer.moveRef).contains (Pointer.moveRef ref) = seen.contains ref := by
  rw [Bool.eq_iff_iff]
  simp

theorem parts_moved (schema : Mapping) :
    parts (movedEntries schema) = movedResult (List.map movedEntries) (parts schema) := by
  have members : ∀ items : List Value, (items.map Value.moved).filterMap Value.object? =
      (items.filterMap Value.object?).map movedEntries := by
    intro items
    induction items with
    | nil => rfl
    | cons item rest ih => cases item <;> simp [List.filterMap_cons, Value.moved, object?, ih]
  unfold parts
  rw [Mapping.field_movedEntries]
  cases schema.field "allOf" with
  | list items =>
      rw [movedUnder_list (by decide)]
      simp [members]
  | text _ => rw [movedUnder_text (by decide)]; rfl
  | object _ => rw [movedUnder_object]; rfl
  | _ =>
      simp only [movedUnder]
      split <;> rfl

theorem absorb_moved (gathered : Gathering) (part : Flattened) (seen : List String) :
    gathered.moved.absorb part.moved (seen.map Pointer.moveRef) =
      (gathered.absorb part seen).moved := by
  obtain ⟨properties, requirement⟩ := part
  cases requirement <;>
    simp [Gathering.absorb, Gathering.moved, Flattened.moved, Requirement.moved,
      Mapping.movedEntries_extend]

theorem gatherPart_moved (rooted : table.root = Dialect.swagger2.root)
    {walk walk' : List String → Mapping → Except Failure (Flattened × List String)}
    (h : ∀ seen schema, walk' (seen.map Pointer.moveRef) (movedEntries schema) =
      movedResult (movedWalk Flattened.moved) (walk seen schema))
    (gathered : Gathering) (part : Mapping) :
    gatherPart table.moved walk' gathered.moved (movedEntries part) =
      movedResult Gathering.moved (gatherPart table walk gathered part) := by
  have own : (do
        let answer ← walk' gathered.moved.seen (movedEntries part)
        .ok (gathered.moved.absorb answer.1 answer.2)) =
      movedResult Gathering.moved (do
        let answer ← walk gathered.seen part
        .ok (gathered.absorb answer.1 answer.2)) := by
    simp only [Gathering.moved, h]
    exact movedResult_bind fun answer =>
      congrArg Except.ok (absorb_moved gathered answer.1 answer.2)
  unfold gatherPart
  rw [Mapping.field_movedEntries]
  cases cited : part.field "$ref" with
  | text ref =>
      have seen : gathered.moved.seen.contains (Pointer.moveRef ref) =
          gathered.seen.contains ref := contains_map_moveRef gathered.seen ref
      simp only [movedUnder, beq_self_eq_true, if_true, seen]
      split
      · rfl
      · rw [resolve_moved rooted]
        refine movedResult_bind fun target => ?_
        have next := h (ref :: gathered.seen) target
        simp only [List.map_cons] at next
        simp only [Gathering.moved, next]
        exact movedResult_bind fun answer =>
          congrArg Except.ok (absorb_moved gathered answer.1 answer.2)
  | _ =>
      simp only [movedUnder]
      exact own

theorem flattenWithin_moved (rooted : table.root = Dialect.swagger2.root) (depth : Nat)
    (seen : List String) (schema : Mapping) :
    flattenWithin table.moved depth (seen.map Pointer.moveRef) (movedEntries schema) =
      movedResult (movedWalk Flattened.moved) (flattenWithin table depth seen schema) := by
  induction depth generalizing seen schema with
  | zero => rfl
  | succ depth ih =>
      simp only [flattenWithin, flattenStep, parts_moved]
      refine movedResult_bind fun members => ?_
      have start : (⟨[], [], seen.map Pointer.moveRef⟩ : Gathering) =
          Gathering.moved ⟨[], [], seen⟩ := rfl
      rw [start, movedResult_foldlM (gatherPart_moved rooted ih)]
      refine movedResult_bind fun gathered => ?_
      refine congrArg Except.ok (Prod.ext (?_ : Flattened.mk _ _ = Flattened.mk _ _) rfl)
      simp only [Mapping.field_movedEntries]
      congr 1
      · cases schema.field "properties" with
        | object own => simp [Mapping.movedEntries_extend, Gathering.moved]
        | list items => simp only [movedUnder]; rfl
        | _ => simp only [movedUnder]; rfl
      · cases schema.field "required" with
        | list names =>
            rw [movedUnder_list (by decide)]
            simp [Requirement.moved, Gathering.moved]
        | _ => simp only [movedUnder]; rfl

theorem flatten_moved (rooted : table.root = Dialect.swagger2.root) (schema : Mapping) :
    flatten table.moved (movedEntries schema) =
      movedResult Flattened.moved (flatten table schema) := by
  unfold flatten
  have bound := depthBound_moved table (.object schema)
  rw [moved_object] at bound
  rw [bound]
  have walked := flattenWithin_moved rooted (depthBound table (.object schema)) [] schema
  rw [List.map_nil] at walked
  rw [walked]
  have first : ∀ answer, (movedWalk Flattened.moved answer).1 = Flattened.moved answer.1 :=
    fun _ => rfl
  exact movedResult_map first _

/-! ## Record-shaped schemas -/

theorem isAlternative_moved (schema : Mapping) :
    isAlternative (movedEntries schema) = isAlternative schema := by
  have truthy : ∀ {name : String}, name ≠ "$ref" →
      (Mapping.field (movedEntries schema) name).isTruthy = (schema.field name).isTruthy := by
    intro name other
    rw [Mapping.field_movedEntries, isTruthy_movedUnder (by simpa using other)]
  simp [isAlternative, truthy]

theorem isObject_moved (schema : Mapping) :
    isObject (movedEntries schema) = isObject schema := by
  simp [isObject, typeWord?_moved]

theorem anyRecordShaped_moved (rooted : table.root = Dialect.swagger2.root)
    {walk walk' : List String → Value → Except Failure (Bool × List String)}
    (h : ∀ seen node, walk' (seen.map Pointer.moveRef) node.moved =
      movedResult (movedWalk id) (walk seen node))
    (seen : List String) (members : List Value) :
    anyRecordShaped table.moved walk' (seen.map Pointer.moveRef) (members.map Value.moved) =
      movedResult (movedWalk id) (anyRecordShaped table walk seen members) := by
  induction members generalizing seen with
  | nil => rfl
  | cons part rest ih =>
      have onward : ∀ answer : Bool × List String,
          (if (movedWalk id answer).1 then .ok (true, (movedWalk id answer).2)
            else anyRecordShaped table.moved walk' (movedWalk id answer).2
              (rest.map Value.moved)) =
          movedResult (movedWalk id) (if answer.1 then .ok (true, answer.2)
            else anyRecordShaped table walk answer.2 rest) := by
        rintro ⟨found, later⟩
        cases found with
        | true => rfl
        | false => exact ih later
      have descend : ∀ node : Value, ∀ later : List String,
          (do
            let answer ← walk' (later.map Pointer.moveRef) node.moved
            if answer.1 then .ok (true, answer.2)
            else anyRecordShaped table.moved walk' answer.2 (rest.map Value.moved)) =
          movedResult (movedWalk id) (do
            let answer ← walk later node
            if answer.1 then .ok (true, answer.2)
            else anyRecordShaped table walk answer.2 rest) := by
        intro node later
        rw [h]
        exact movedResult_bind onward
      rw [List.map_cons]
      cases part with
      | object entries =>
          simp only [anyRecordShaped, moved_object, object?, Option.map_some,
            Mapping.field_movedEntries]
          cases Mapping.field entries "$ref" with
          | text ref =>
              simp only [movedUnder, beq_self_eq_true, if_true, contains_map_moveRef]
              split
              · exact ih seen
              · rw [resolve_moved rooted]
                exact movedResult_bind fun target => descend (.object target) (ref :: seen)
          | _ =>
              simp only [movedUnder]
              exact descend (.object entries) seen
      | _ => exact descend _ seen

theorem recordShapedWithin_moved (rooted : table.root = Dialect.swagger2.root) (depth : Nat)
    (seen : List String) (node : Value) :
    recordShapedWithin table.moved depth (seen.map Pointer.moveRef) node.moved =
      movedResult (movedWalk id) (recordShapedWithin table depth seen node) := by
  induction depth generalizing seen node with
  | zero => rfl
  | succ depth ih =>
      simp only [recordShapedWithin, recordShapedStep]
      cases node with
      | object schema =>
          simp only [moved_object, isAlternative_moved, isObject_moved,
            Mapping.field_movedEntries]
          split
          · rfl
          · split
            · rfl
            · cases Mapping.field schema "allOf" with
              | list members =>
                  rw [movedUnder_list (by decide)]
                  exact anyRecordShaped_moved rooted ih seen members
              | _ =>
                  simp only [movedUnder]
                  rfl
      | _ => rfl

theorem isRecordShaped_moved (rooted : table.root = Dialect.swagger2.root) (node : Value) :
    isRecordShaped table.moved node.moved = movedResult id (isRecordShaped table node) := by
  unfold isRecordShaped
  rw [depthBound_moved]
  have walked := recordShapedWithin_moved rooted (depthBound table node) [] node
  rw [List.map_nil] at walked
  rw [walked]
  have first : ∀ answer : Bool × List String, (movedWalk id answer).1 = id answer.1 :=
    fun _ => rfl
  exact movedResult_map first _

end Schema

end ApiBinding
