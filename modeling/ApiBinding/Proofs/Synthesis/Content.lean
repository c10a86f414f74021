import ApiBinding.Proofs.Synthesis.Closure
import ApiBinding.Proofs.Synthesis.Termination
import ApiBinding.Validation.Writer

/-! The content of a record: one field for each property that has a type, in order, and a warning
for each other one. What is typed inside leaves every name alone that was mentioned before, so the
slot of the record waits, reserved and empty, until all its fields are there. -/

namespace ApiBinding

/-- The record in which a property was left out. -/
def Warning.owner? : Warning → Option String
  | .untypedMember _ => none
  | .untypedField _ owner => some owner
  | .untypedParameter _ _ => none

namespace Session

/-- Between two sessions no record under one of the names was stored or replaced, and no warning
arose about one of them. -/
structure Spares (names : List String) (before after : Session) : Prop where
  stored : ∀ name ∈ names, after.catalog.find? name = before.catalog.find? name
  warned : ∃ logged, after.warnings = before.warnings ++ logged ∧
    ∀ warning ∈ logged, ∀ owner, warning.owner? = some owner → owner ∉ names

namespace Spares

variable {names : List String}

theorem refl (session : Session) : Spares names session session :=
  ⟨fun _ _ => rfl, [], by simp, by simp⟩

theorem trans {first second third : Session} (h : Spares names first second)
    (h' : Spares names second third) : Spares names first third := by
  obtain ⟨logged, same, others⟩ := h.warned
  obtain ⟨later, same', others'⟩ := h'.warned
  refine ⟨?_, logged ++ later, ?_, ?_⟩
  · intro name member
    rw [h'.stored name member, h.stored name member]
  · rw [same', same, List.append_assoc]
  · intro warning member
    rcases List.mem_append.mp member with member | member
    · exact others warning member
    · exact others' warning member

theorem warn (session : Session) {warning : Warning}
    (others : ∀ owner, warning.owner? = some owner → owner ∉ names) :
    Spares names session (session.warn warning) := by
  refine ⟨fun _ _ => rfl, [warning], rfl, ?_⟩
  intro other member
  obtain rfl := List.mem_singleton.mp member
  exact others

theorem reserve (session : Session) (name : String) :
    Spares names session (session.reserve name) := by
  refine ⟨?_, [], by simp [Session.reserve], by simp⟩
  intro other _
  simp [Session.reserve]

theorem store (session : Session) {record : Record TypeExpr} (others : record.name ∉ names) :
    Spares names session (session.store record) := by
  refine ⟨?_, [], by simp [Session.store], by simp⟩
  intro name member
  have hne : name ≠ record.name := by
    rintro rfl
    exact others member
  exact session.catalog.find?_add_of_ne hne

end Spares

end Session

namespace Synthesis

open ApiBinding.Schema

variable {scope : Scope}

/-! ## Names mentioned before -/

/-- The warnings that steps give by themselves. -/
def skipWarnings (steps : List Step) : List Warning :=
  steps.filterMap fun
    | .skip warning => some warning
    | .type _ _ => none

theorem skipWarnings_plainSteps (nodes : List Value) : skipWarnings (plainSteps nodes) = [] := by
  induction nodes with
  | nil => rfl
  | cons node rest ih => simp [skipWarnings, plainSteps]

theorem skipWarnings_propertySteps (warning : Key → Warning)
    (refusal : Key → TypeExpr → Option Failure) (properties : Mapping) :
    skipWarnings (properties.map (propertyStep warning refusal)) =
      (properties.filter fun entry => !isTyped entry.2).map fun entry => warning entry.1 := by
  induction properties with
  | nil => rfl
  | cons entry rest ih =>
      by_cases typed : isTyped entry.2 = true
      · simpa [skipWarnings, propertyStep, typed] using ih
      · simpa [skipWarnings, propertyStep, typed] using ih

/-- A judgement that leaves alone what was mentioned before. -/
def Judgement.Sparing (typed : Judgement) : Prop :=
  ∀ ⦃session node result after events⦄, typed session node result after events →
    session.Grows after ∧
      ∀ names ⊆ session.catalog.names, Session.Spares names session after

theorem StepsDerivation.spares {typed : Judgement} (sparing : typed.Sparing)
    {names : List String} {session : Session} {steps : List Step}
    {result : Except Failure (List TypeExpr)} {after : Session} {events : List Event}
    (derivation : StepsDerivation typed session steps result after events)
    (mentioned : names ⊆ session.catalog.names)
    (others : ∀ warning ∈ skipWarnings steps, ∀ owner, warning.owner? = some owner →
      owner ∉ names) : Session.Spares names session after := by
  induction derivation with
  | nil session => exact .refl session
  | @skip session warning rest _ _ _ _ ih =>
      have here := Session.Spares.warn session (others warning (by simp [skipWarnings]))
      exact here.trans (ih mentioned fun other member =>
        others other (List.mem_cons_of_mem warning member))
  | stop typed => exact (sparing typed).2 names mentioned
  | refuse typed _ => exact (sparing typed).2 names mentioned
  | next typed _ _ ih =>
      obtain ⟨grown, spared⟩ := sparing typed
      have mentioned' := List.Subset.trans mentioned grown.catalog.names.subset
      refine (spared names mentioned).trans (ih mentioned' fun warning member => ?_)
      exact others warning (by simpa [skipWarnings] using member)

theorem owner_of_skipWarnings_fieldSteps {owner : String} {properties : Mapping}
    {warning : Warning} (member : warning ∈ skipWarnings (fieldSteps owner properties)) :
    warning.owner? = some owner := by
  rw [fieldSteps, skipWarnings_propertySteps] at member
  obtain ⟨entry, _, rfl⟩ := List.mem_map.mp member
  rfl

/-- A record is declared under a name of its own or not at all. -/
theorem RecordDerivation.spares {typed : Judgement} (sparing : typed.Sparing)
    {names : List String} {result : Except Failure TypeExpr} {session : Session}
    {name : String} {schema : Mapping} {after : Session} {events : List Event}
    (derivation : RecordDerivation scope typed result session name schema after events)
    (mentioned : names ⊆ session.catalog.names) : Session.Spares names session after := by
  have own : session.catalog.mentions name = false → name ∉ names := by
    intro free member
    have taken := (Catalog.mentions_iff _ _).mpr (mentioned member)
    simp [free] at taken
  have mentioned' := List.Subset.trans mentioned
    (session.grows_reserve name).catalog.names.subset
  have steps_spare : ∀ {flat : Flattened} {result : Except Failure (List TypeExpr)}
      {after : Session} {events : List Event}, session.catalog.mentions name = false →
      StepsDerivation typed (session.reserve name) (fieldSteps name flat.properties) result after
        events → Session.Spares names session after := by
    intro flat result after events free steps
    refine (Session.Spares.reserve session name).trans (steps.spares sparing mentioned' ?_)
    intro warning member owner known
    rw [owner_of_skipWarnings_fieldSteps member] at known
    obtain rfl := Option.some.inj known
    exact own free
  cases derivation with
  | taken _ => exact .refl session
  | unreadable _ _ => exact .reserve session name
  | broken free _ steps => exact steps_spare free steps
  | stored free _ steps => exact (steps_spare free steps).trans (.store _ (own free))

/-- Typing a node, whether it fails or not, leaves alone what was mentioned before: however it
refers back to a name, it neither stores a record under it nor warns about it. -/
theorem TypeDerivation.spares {session : Session} {node : Value}
    {result : Except Failure TypeExpr} {after : Session} {events : List Event}
    (derivation : TypeDerivation scope session node result after events) :
    ∀ names ⊆ session.catalog.names, Session.Spares names session after := by
  induction derivation using TypeDerivation.induct with
  | done _ => exact fun _ _ => .refl _
  | compose work steps =>
      intro names mentioned
      refine steps.spares (fun _ _ _ _ _ both => ⟨both.choose.grows, both.choose_spec⟩)
        mentioned ?_
      intro warning member owner known
      obtain ⟨_, _, _, _, rule⟩ := workOf_eq_compose work
      cases rule with
      | object properties requirement =>
          rw [memberSteps, skipWarnings_propertySteps] at member
          obtain ⟨entry, _, rfl⟩ := List.mem_map.mp member
          simp [Warning.owner?] at known
      | _ => simp [skipWarnings_plainSteps] at member
  | @declare session _ ref name _ _ _ _ _ record =>
      intro names mentioned
      have fields := record.spares
        (fun _ _ _ _ _ both => ⟨both.choose.grows, both.choose_spec⟩) mentioned
      exact ⟨fields.stored, fields.warned⟩
  | expand _ _ ih =>
      intro names mentioned
      have inside := ih names mentioned
      exact ⟨inside.stored, inside.warned⟩

theorem RequestDerivation.spares {session : Session} {request : Request}
    {result : Except Failure TypeExpr} {after : Session} {events : List Event}
    (derivation : RequestDerivation scope session request result after events) :
    ∀ names ⊆ session.catalog.names, Session.Spares names session after := by
  cases derivation with
  | type typed => exact typed.spares
  | declare record =>
      exact fun _ => record.spares fun _ _ _ _ _ typed => ⟨typed.grows, typed.spares⟩

theorem Request.perform_spares (scope : Scope) (session : Session) (request : Request)
    {names : List String} (mentioned : names ⊆ session.catalog.names) :
    session.Grows (outcome (request.perform scope) session).2 ∧
      Session.Spares names session (outcome (request.perform scope) session).2 := by
  obtain ⟨events, derivation⟩ := request.performWithin_derivation scope session (le_refl _)
  rw [← request.perform_eq] at derivation
  exact ⟨derivation.grows, derivation.spares names mentioned⟩

/-! ## Descriptions and formats -/

/-- A schema has a text under a name that is not empty. -/
def Says (schema : Mapping) (name text : String) : Prop :=
  schema.find? name = some (.text text) ∧ text ≠ ""

/-- The description of a property: its title and what it says under "description", with a blank
between them, or the one of them that there is. -/
inductive DescribedAs (property : Mapping) : Option String → Prop where
  | both {title text} : Says property "title" title → Says property "description" text →
      DescribedAs property (some (title ++ " " ++ text))
  | title {title} : Says property "title" title → (∀ text, ¬ Says property "description" text) →
      DescribedAs property (some title)
  | text {text} : (∀ title, ¬ Says property "title" title) → Says property "description" text →
      DescribedAs property (some text)
  | silent : (∀ title, ¬ Says property "title" title) →
      (∀ text, ¬ Says property "description" text) → DescribedAs property none

/-- The format of a property is the text under this name, even if it is empty. -/
def HasFormat (property : Mapping) (format : Option String) : Prop :=
  ∀ word, format = some word ↔ property.find? "format" = some (.text word)

theorem text?_field_eq_some_iff {schema : Mapping} {name text : String} :
    (schema.field name).text? = some text ↔ schema.find? name = some (.text text) := by
  rw [Mapping.field]
  cases schema.find? name with
  | none => simp [Value.text?]
  | some value => cases value <;> simp [Value.text?]

theorem nonemptyText?_field_eq_some_iff {schema : Mapping} {name text : String} :
    (schema.field name).nonemptyText? = some text ↔ Says schema name text := by
  simp [Value.nonemptyText?, text?_field_eq_some_iff, Says]

theorem nonemptyText?_field_eq_none_iff {schema : Mapping} {name : String} :
    (schema.field name).nonemptyText? = none ↔ ∀ text, ¬ Says schema name text := by
  simp only [Option.eq_none_iff_forall_ne_some, Ne, nonemptyText?_field_eq_some_iff]

theorem describedAs_description? (property : Mapping) :
    DescribedAs property (description? property) := by
  unfold description?
  split
  · rename_i title text hasTitle hasText
    exact .both (nonemptyText?_field_eq_some_iff.mp hasTitle)
      (nonemptyText?_field_eq_some_iff.mp hasText)
  · rename_i title hasTitle noText
    exact .title (nonemptyText?_field_eq_some_iff.mp hasTitle)
      (nonemptyText?_field_eq_none_iff.mp noText)
  · rename_i noTitle
    have untitled := nonemptyText?_field_eq_none_iff.mp noTitle
    cases found : (property.field "description").nonemptyText? with
    | none => exact .silent untitled (nonemptyText?_field_eq_none_iff.mp found)
    | some text => exact .text untitled (nonemptyText?_field_eq_some_iff.mp found)

theorem hasFormat_format? (property : Mapping) : HasFormat property (format? (.object property)) :=
  fun _ => text?_field_eq_some_iff

/-! ## Fields -/

/-- The fields of properties, one property after the other: a typed one becomes a field with the
type that it has in the session left by the earlier ones, and any other one leaves a warning. -/
inductive FieldsDerivation (scope : Scope) (owner : String) (requirement : Requirement) :
    Session → Mapping → List (Field TypeExpr) → Session → Prop where
  | nil (session) : FieldsDerivation scope owner requirement session [] [] session
  | untyped {session name property rest fields after} :
      isTyped property = false →
      FieldsDerivation scope owner requirement (session.warn (.untypedField name owner)) rest
        fields after →
      FieldsDerivation scope owner requirement session ((name, property) :: rest) fields after
  | typed {session name property rest type middle description format fields after} :
      isTyped (.object property) = true →
      outcome (printedType scope (.object property)) session = (.ok type, middle) →
      DescribedAs property description → HasFormat property format →
      FieldsDerivation scope owner requirement middle rest fields after →
      FieldsDerivation scope owner requirement session ((.text name, .object property) :: rest)
        ({ name := name
           required := isRequired (.text name) property requirement
           type := type
           description := description
           format := format } :: fields) after

/-- The warnings about the properties of an owner that have no type, in order. -/
def untypedWarnings (owner : String) (properties : Mapping) : List Warning :=
  (properties.filter fun entry => !isTyped entry.2).map fun entry => .untypedField entry.1 owner

/-- A type that follows the rules and has a text is the printed type. -/
theorem TypeDerivation.printedType {session : Session} {node : Value} {type : TypeExpr}
    {after : Session} {events : List Event}
    (derivation : TypeDerivation scope session node (.ok type) after events)
    (printable : type.isPrintable = true) :
    outcome (printedType scope node) session = (.ok type, after) := by
  rw [Synthesis.printedType, printed, outcome_bind_of_ok _ derivation.outcome_eq, if_pos printable,
    outcome_pure]

theorem typeOf_of_printedType {session : Session} {node : Value} {type : TypeExpr}
    {after : Session} (h : outcome (printedType scope node) session = (.ok type, after)) :
    outcome (typeOf scope node) session = (.ok type, after) := by
  rw [printedType, printed, outcome_bind] at h
  generalize outcome (typeOf scope node) session = found at h
  obtain ⟨result, middle⟩ := found
  cases result with
  | error failure => simp at h
  | ok found =>
      by_cases printable : found.isPrintable = true
      · simpa [printable] using h
      · simp [printable] at h

theorem isPrintable_of_printedType {session : Session} {node : Value} {type : TypeExpr}
    {after : Session} (h : outcome (printedType scope node) session = (.ok type, after)) :
    type.isPrintable = true := by
  rw [printedType, printed, outcome_bind_of_ok _ (typeOf_of_printedType h)] at h
  by_contra unprintable
  simp [unprintable] at h

theorem printedType_derivation {session : Session} {node : Value} {type : TypeExpr}
    {after : Session} (h : outcome (printedType scope node) session = (.ok type, after)) :
    ∃ events, TypeDerivation scope session node (.ok type) after events := by
  obtain ⟨events, derivation⟩ := typeOf_derivation scope session node (le_refl _)
  have typed : outcome (typeWithin scope (depthBound scope.table node) node) session =
    (.ok type, after) := typeOf_of_printedType h
  rw [typed] at derivation
  exact ⟨events, derivation⟩

theorem fieldRefusal_eq_none {name : Key} {type : TypeExpr}
    (accepted : fieldRefusal name type = none) :
    (∃ text, name = .text text) ∧ type.isPrintable = true := by
  unfold fieldRefusal at accepted
  split at accepted
  · rename_i printable
    split at accepted
    · exact ⟨⟨_, rfl⟩, printable⟩
    · simp at accepted
  · simp at accepted

/-- Steps that were taken for the properties of a record give its fields. -/
theorem StepsDerivation.fields {owner : String} (requirement : Requirement)
    {properties : Mapping} {session : Session} {result : Except Failure (List TypeExpr)}
    {types : List TypeExpr} {after : Session} {events : List Event}
    (derivation : StepsDerivation (TypeDerivation scope) session (fieldSteps owner properties)
      result after events)
    (success : result = .ok types) :
    FieldsDerivation scope owner requirement session properties
      (fieldsOf requirement properties types) after := by
  induction properties generalizing session result types events with
  | nil =>
      cases derivation
      obtain rfl := Except.ok.inj success
      exact .nil _
  | cons entry rest ih =>
      obtain ⟨name, property⟩ := entry
      by_cases hasType : isTyped property = true
      · have schema : ∃ own, property = .object own := by
          cases property with
          | object own => exact ⟨own, rfl⟩
          | _ => simp [isTyped] at hasType
        obtain ⟨own, rfl⟩ := schema
        simp only [fieldSteps, List.map_cons, propertyStep, hasType, if_true] at derivation
        cases derivation with
        | stop _ => simp at success
        | refuse _ _ => simp at success
        | @next _ _ _ _ type middle result _ _ _ typed accepted steps =>
            cases result with
            | error failure => simp [Except.map] at success
            | ok others =>
                obtain rfl : type :: others = types := by simpa [Except.map] using success
                obtain ⟨⟨text, rfl⟩, printable⟩ := fieldRefusal_eq_none accepted
                have later := ih steps rfl
                have printed := typed.printedType printable
                have fields := @FieldsDerivation.typed _ _ requirement _ text _ _ _ _ _ _ _ _
                  hasType printed (describedAs_description? own) (hasFormat_format? own) later
                simpa [fieldsOf, typedProperties, hasType, Key.display] using fields
      · simp only [fieldSteps, List.map_cons, propertyStep, hasType, if_false,
          Bool.false_eq_true] at derivation
        cases derivation with
        | skip steps =>
            have later := ih steps success
            have fields := FieldsDerivation.untyped (by simpa using hasType) later
            cases property with
            | object own => simpa [fieldsOf, typedProperties, hasType] using fields
            | _ => simpa [fieldsOf, typedProperties] using fields

/-- While the fields of a mentioned owner are typed, its slot stays as it is, and the only
warnings about it are those for its own properties. -/
theorem FieldsDerivation.spares {owner : String} {requirement : Requirement} {session : Session}
    {properties : Mapping} {fields : List (Field TypeExpr)} {after : Session}
    (derivation : FieldsDerivation scope owner requirement session properties fields after)
    (mentioned : owner ∈ session.catalog.names) :
    session.Grows after ∧ after.catalog.find? owner = session.catalog.find? owner ∧
      ∃ logged, after.warnings = session.warnings ++ logged ∧
        logged.filter (fun warning => warning.owner? == some owner) =
          untypedWarnings owner properties := by
  induction derivation with
  | nil session => exact ⟨.refl session, rfl, [], by simp, rfl⟩
  | @untyped session name property rest fields after noType _ ih =>
      obtain ⟨grown, kept, logged, same, own⟩ := ih mentioned
      refine ⟨(session.grows_warn _).trans grown, kept, .untypedField name owner :: logged, ?_, ?_⟩
      · simp [same, Session.warn]
      · have here : Warning.owner? (.untypedField name owner) = some owner := rfl
        simp [untypedWarnings, here, noType, own]
  | @typed session name property rest type middle _ _ fields after hasType typed _ _ _ ih =>
      have only : [owner] ⊆ session.catalog.names := by simpa using mentioned
      obtain ⟨_, derivation⟩ := printedType_derivation typed
      have before := derivation.grows
      have spared := derivation.spares _ only
      obtain ⟨grown, kept, logged, same, own⟩ := ih (before.catalog.mem_names mentioned)
      obtain ⟨earlier, same', others⟩ := spared.warned
      refine ⟨before.trans grown, ?_, earlier ++ logged, ?_, ?_⟩
      · rw [kept, spared.stored owner (by simp)]
      · rw [same, same', List.append_assoc]
      · have none : earlier.filter (fun warning => warning.owner? == some owner) = [] := by
          rw [List.filter_eq_nil_iff]
          intro warning member known
          exact others warning member owner (by simpa using known) (by simp)
        simp [untypedWarnings, hasType, own, none]

/-! ## Records -/

/-- The record of a free name: its slot is reserved behind all others and stays empty while the
fields are typed one after the other, and is then filled with exactly those fields. Each property
without a type leaves one warning. No typing and no declaration from a session that mentions the
name stores, replaces or moves its record. -/
theorem record_of_declareRecord {session after : Session} {name : String} {schema : Mapping}
    {type : TypeExpr} (free : session.catalog.mentions name = false)
    (h : outcome (declareRecord scope name schema) session = (.ok type, after)) :
    ∃ flat fields filled,
      flatten scope.table schema = .ok flat ∧
      FieldsDerivation scope name flat.requirement (session.reserve name) flat.properties fields
        filled ∧
      (session.catalog.names ++ [name] <+: filled.catalog.names ∧
        filled.catalog.find? name = none) ∧
      (type = .reference name ∧
        after = filled.store
          ⟨name, (schema.field "description").text?, fields, scope.placement⟩ ∧
        after.catalog.names = filled.catalog.names ∧
        after.catalog.find? name =
          some ⟨name, (schema.field "description").text?, fields, scope.placement⟩) ∧
      (∃ logged, after.warnings = session.warnings ++ logged ∧
        logged.filter (fun warning => warning.owner? == some name) =
          untypedWarnings name flat.properties) ∧
      ∀ (request : Request) (during : Session), name ∈ during.catalog.names →
        (outcome (request.perform scope) during).2.catalog.find? name =
          during.catalog.find? name ∧
        during.catalog.names <+: (outcome (request.perform scope) during).2.catalog.names := by
  have new : name ∉ session.catalog.names := by
    rw [← Catalog.mentions_iff, free]
    simp
  have nested : ∀ (request : Request) (during : Session), name ∈ during.catalog.names →
      (outcome (request.perform scope) during).2.catalog.find? name =
        during.catalog.find? name ∧
      during.catalog.names <+: (outcome (request.perform scope) during).2.catalog.names := by
    intro request during mentioned
    have only : [name] ⊆ during.catalog.names := by simpa using mentioned
    obtain ⟨grown, spared⟩ := request.perform_spares scope during only
    exact ⟨spared.stored name (by simp), grown.catalog.names⟩
  obtain ⟨events, derivation⟩ :=
    declareRecord_derivation scope session name schema (le_refl _)
  change outcome (declareWith scope (typeWithin scope _) name schema) session = _ at h
  rw [h] at derivation
  generalize success : Except.ok type = result at derivation
  cases derivation with
  | taken taken => simp [free] at taken
  | unreadable _ _ => simp at success
  | broken _ _ _ => simp at success
  | @stored _ _ _ flat types filled _ _ flattened steps =>
      have fields := steps.fields flat.requirement rfl
      have reserved : (session.reserve name).catalog.names = session.catalog.names ++ [name] := by
        rw [Session.reserve, Catalog.names_reserve, if_neg new]
      have empty : (session.reserve name).catalog.find? name = none := by
        simpa [Session.reserve] using Catalog.find?_eq_none_of_not_mem new
      obtain ⟨grown, kept, logged, same, own⟩ :=
        fields.spares (session.mem_names_reserve name)
      rw [empty] at kept
      have mentioned := grown.catalog.mem_names (session.mem_names_reserve name)
      refine ⟨flat, _, filled, flattened, fields, ⟨?_, kept⟩, ⟨Except.ok.inj success, rfl, ?_, ?_⟩,
        ⟨logged, same, own⟩, nested⟩
      · rw [← reserved]
        exact grown.catalog.names
      · exact (filled.catalog.names_add _).trans (if_pos mentioned)
      · exact filled.catalog.find?_add_self kept

/-- A record whose properties refer to itself, to another definition with its name, and to
nothing. -/
def nodeSchema : Mapping := [
  (.text "type", .text "object"),
  (.text "description", .text "A node of a list."),
  (.text "required", .list [.text "label"]),
  (.text "properties", .ofFields [
    ("next", .ofFields [("$ref", .text "#/definitions/Node")]),
    ("twin", .ofFields [("$ref", .text "#/definitions/v2~1Node")]),
    ("note", .ofFields [("title", .text "Note")]),
    ("label", .ofFields [
      ("type", .text "string"), ("title", .text "Label"), ("description", .text "What it shows."),
      ("format", .text "email")])])]

def nodeScope : Scope where
  table := ⟨"#/definitions/", [
    (.text "Node", .object nodeSchema),
    (.text "v2/Node", .ofFields [
      ("type", .text "object"),
      ("properties", .ofFields [("size", .ofFields [("type", .text "integer")])])])]⟩
  options := {}
  lexicon := .standard
  placement := some .body

/-- Neither its own reference nor the other definition changes the record. -/
theorem record_of_nodeSchema :
    Session.empty.catalog.mentions "Node" = false ∧
    ∃ type after,
      outcome (declareRecord nodeScope "Node" nodeSchema) .empty = (.ok type, after) ∧
      ∃ (flat : Flattened) (fields : List (Field TypeExpr)) (filled : Session),
        flatten nodeScope.table nodeSchema = .ok flat ∧
        FieldsDerivation nodeScope "Node" flat.requirement (Session.empty.reserve "Node")
          flat.properties fields filled ∧
        after.catalog.find? "Node" =
          some ⟨"Node", some "A node of a list.", fields, some .body⟩ ∧
        fields.map (fun field => (field.name, field.required, field.type.render)) =
          [("next", false, "Node"), ("twin", false, "Node"), ("label", true, "string")] ∧
        fields.map (fun field => (field.description, field.format)) =
          [(none, none), (none, none), (some "Label What it shows.", some "email")] ∧
        after.warnings = [.untypedField (.text "note") "Node"] := by
  refine ⟨rfl, ?_⟩
  have fields : ((outcome (declareRecord nodeScope "Node" nodeSchema) .empty).2.catalog.find?
      "Node").map (fun record => record.fields.map fun field =>
        (field.name, field.required, field.type.render)) =
      some [("next", false, "Node"), ("twin", false, "Node"), ("label", true, "string")] := by
    decide +kernel
  have texts : ((outcome (declareRecord nodeScope "Node" nodeSchema) .empty).2.catalog.find?
      "Node").map (fun record => record.fields.map fun field =>
        (field.description, field.format)) =
      some [(none, none), (none, none), (some "Label What it shows.", some "email")] := by
    decide +kernel
  have warnings : (outcome (declareRecord nodeScope "Node" nodeSchema) .empty).2.warnings =
      [.untypedField (.text "note") "Node"] := by
    decide +kernel
  have succeeds : (outcome (declareRecord nodeScope "Node" nodeSchema) .empty).1.toBool = true := by
    decide +kernel
  generalize made : outcome (declareRecord nodeScope "Node" nodeSchema) .empty = found at *
  obtain ⟨result, after⟩ := found
  cases result with
  | error failure => simp [Except.toBool] at succeeds
  | ok type =>
      obtain ⟨flat, own, filled, flattened, derivation, -, ⟨-, -, -, record⟩, -⟩ :=
        record_of_declareRecord rfl made
      refine ⟨type, after, rfl, flat, own, filled, flattened, derivation, record, ?_, ?_, warnings⟩
      · simpa [record] using fields
      · simpa [record] using texts

end Synthesis

end ApiBinding
