import ApiBinding.Synthesis.Equations

/-! Composite schemas are typed in steps. Every step leaves an entry out with a warning or types
one node, so that the fields of a record, the members of an object and the parts of a combination
are one kind of work. -/

namespace ApiBinding.Synthesis

open ApiBinding.Schema

/-- One step of the work on a composite schema. A type that was found may still be refused. -/
inductive Step where
  | skip (warning : Warning)
  | type (node : Value) (refusal : TypeExpr → Option Failure)

/-- The nodes that steps type, in order. -/
def typedNodes : List Step → List Value
  | [] => []
  | .skip _ :: rest => typedNodes rest
  | .type node _ :: rest => node :: typedNodes rest

/-- Takes steps in order; the first failure or refusal is the result. -/
def typeAll (typing : Typing) : List Step → Synthesis (List TypeExpr)
  | [] => pure []
  | .skip warning :: rest => do
    warn warning
    typeAll typing rest
  | .type node refusal :: rest => do
    let type ← typing node
    match refusal type with
    | some failure => fail failure
    | none => do
      let types ← typeAll typing rest
      pure (type :: types)

/-! ## Computation rules -/

/-- Applies a function to the result of a step that succeeded. -/
def mapResult {α β : Type} (f : α → β) (outcome : Except Failure α × Session) :
    Except Failure β × Session :=
  (outcome.1.map f, outcome.2)

theorem outcome_bind_pure {α β : Type} (step : Synthesis α) (f : α → β) (session : Session) :
    outcome (step >>= fun value => pure (f value)) session =
      mapResult f (outcome step session) := by
  rw [outcome_bind]
  cases h : outcome step session with
  | mk result after => cases result <;> rfl

/-- A sequence that succeeds succeeds in both of its parts. -/
theorem outcome_bind_eq_ok {α β : Type} {step : Synthesis α} {next : α → Synthesis β}
    {session after : Session} {value : β}
    (h : outcome (step >>= next) session = (.ok value, after)) :
    ∃ middle first, outcome step session = (.ok first, middle) ∧
      outcome (next first) middle = (.ok value, after) := by
  rw [outcome_bind] at h
  generalize found : outcome step session = result at h
  obtain ⟨result, middle⟩ := result
  cases result with
  | error failure => simp at h
  | ok first => exact ⟨middle, first, rfl, h⟩

@[simp] theorem outcome_typeAll_skip (typing : Typing) (warning : Warning) (rest : List Step)
    (session : Session) :
    outcome (typeAll typing (.skip warning :: rest)) session =
      outcome (typeAll typing rest) (session.warn warning) := by
  rw [typeAll, outcome_bind, outcome_warn]

theorem outcome_typeAll_type (typing : Typing) (node : Value)
    (refusal : TypeExpr → Option Failure) (rest : List Step) (session : Session) :
    outcome (typeAll typing (.type node refusal :: rest)) session =
      match outcome (typing node) session with
      | (.error failure, after) => (.error failure, after)
      | (.ok type, after) =>
        match refusal type with
        | some failure => (.error failure, after)
        | none => mapResult (type :: ·) (outcome (typeAll typing rest) after) := by
  rw [typeAll, outcome_bind]
  cases h : outcome (typing node) session with
  | mk result after =>
      cases result with
      | error failure => rfl
      | ok type =>
          simp only
          cases refusal type with
          | some failure => rfl
          | none => exact outcome_bind_pure _ _ after

theorem mapResult_mapResult {α β γ : Type} (f : α → β) (g : β → γ)
    (outcome : Except Failure α × Session) :
    mapResult g (mapResult f outcome) = mapResult (g ∘ f) outcome := by
  obtain ⟨result, after⟩ := outcome
  cases result <;> rfl

/-- Typing every node of a list takes one step for each. -/
theorem outcome_mapM (typing : Typing) (nodes : List Value) (session : Session) :
    outcome (nodes.mapM typing) session =
      outcome (typeAll typing (nodes.map (.type · fun _ => none))) session := by
  induction nodes generalizing session with
  | nil => rfl
  | cons node rest ih =>
      rw [List.mapM_cons, List.map_cons, outcome_typeAll_type, outcome_bind]
      cases h : outcome (typing node) session with
      | mk result after =>
          cases result with
          | error failure => rfl
          | ok type => simp only [outcome_bind_pure, ih]

/-! ## Properties -/

/-- The step of a property: one without a type is left out. -/
def propertyStep (warning : Key → Warning) (refusal : Key → TypeExpr → Option Failure)
    (entry : Key × Value) : Step :=
  if isTyped entry.2 then .type entry.2 (refusal entry.1) else .skip (warning entry.1)

/-- The properties that have a type. -/
def typedProperties : Mapping → List (Key × Mapping)
  | [] => []
  | (name, .object property) :: rest =>
    if isTyped (.object property) then (name, property) :: typedProperties rest
    else typedProperties rest
  | (_, _) :: rest => typedProperties rest

def memberSteps (properties : Mapping) : List Step :=
  properties.map (propertyStep .untypedMember fun _ _ => none)

/-- The members of an object whose typed properties have the given types. -/
def membersOf (requirement : Requirement) (properties : Mapping) (types : List TypeExpr) :
    List (Member TypeExpr) :=
  List.zipWith
    (fun entry type =>
      ⟨entry.1, isRequired entry.1 entry.2 requirement, type, description? entry.2⟩)
    (typedProperties properties) types

theorem outcome_membersWith (typing : Typing) (requirement : Requirement) (properties : Mapping)
    (session : Session) :
    outcome (membersWith typing requirement properties) session =
      mapResult (membersOf requirement properties)
        (outcome (typeAll typing (memberSteps properties)) session) := by
  induction properties generalizing session with
  | nil => rfl
  | cons entry rest ih =>
      obtain ⟨name, property⟩ := entry
      cases property with
      | object property =>
          by_cases typed : isTyped (.object property) = true
          · simp only [membersWith, memberSteps, List.map_cons, propertyStep, typed, if_true]
            rw [outcome_typeAll_type, outcome_bind]
            cases h : outcome (typing (.object property)) session with
            | mk result after =>
                cases result with
                | error failure => rfl
                | ok type =>
                    simp only [outcome_bind_pure, ih, mapResult_mapResult, memberSteps]
                    congr 1
                    funext types
                    simp [membersOf, typedProperties, typed]
          · simp only [membersWith, memberSteps, List.map_cons, propertyStep, typed]
            rw [if_neg (by simp), if_neg (by simp), outcome_bind, outcome_warn,
              outcome_typeAll_skip]
            simp only [ih, memberSteps]
            congr 1
            funext types
            simp [membersOf, typedProperties, typed]
      | _ =>
          rw [membersWith, outcome_bind, outcome_warn]
          · exact ih _
          · simp

/-- Why the type of a record field is refused: it has no text, or the field has no name. -/
def fieldRefusal (name : Key) (type : TypeExpr) : Option Failure :=
  if type.isPrintable then
    match name with
    | .text _ => none
    | _ => some (.defect (.invalid [⟨[.field "name"], .textExpected⟩]))
  else some (.defect .memberNameNotText)

def fieldSteps (owner : String) (properties : Mapping) : List Step :=
  properties.map (propertyStep (.untypedField · owner) fieldRefusal)

/-- The fields of a record whose typed properties have the given types. -/
def fieldsOf (requirement : Requirement) (properties : Mapping) (types : List TypeExpr) :
    List (Field TypeExpr) :=
  List.zipWith
    (fun entry type => {
      name := entry.1.display
      required := isRequired entry.1 entry.2 requirement
      type := type
      description := description? entry.2
      format := format? (.object entry.2) })
    (typedProperties properties) types

/-- The check of a record field after its type was found. -/
theorem outcome_fieldOf (typing : Typing) (requirement : Requirement) (name : Key)
    (property : Mapping) (session : Session) :
    outcome (fieldOf typing requirement name property) session =
      match outcome (typing (.object property)) session with
      | (.error failure, after) => (.error failure, after)
      | (.ok type, after) =>
        match fieldRefusal name type with
        | some failure => (.error failure, after)
        | none => (.ok {
            name := name.display
            required := isRequired name property requirement
            type := type
            description := description? property
            format := format? (.object property) }, after) := by
  rw [fieldOf, outcome_bind, printed, outcome_bind]
  cases h : outcome (typing (.object property)) session with
  | mk result after =>
      cases result with
      | error failure => rfl
      | ok type =>
          by_cases printable : type.isPrintable = true
          · simp only [printable, if_true, outcome_pure, fieldRefusal]
            cases name <;> rfl
          · simp [printable, fieldRefusal]

theorem outcome_fieldsWith (typing : Typing) (owner : String) (requirement : Requirement)
    (properties : Mapping) (session : Session) :
    outcome (fieldsWith typing owner requirement properties) session =
      mapResult (fieldsOf requirement properties)
        (outcome (typeAll typing (fieldSteps owner properties)) session) := by
  induction properties generalizing session with
  | nil => rfl
  | cons entry rest ih =>
      obtain ⟨name, property⟩ := entry
      cases property with
      | object property =>
          by_cases typed : isTyped (.object property) = true
          · simp only [fieldsWith, fieldSteps, List.map_cons, propertyStep, typed, if_true]
            rw [outcome_typeAll_type, outcome_bind, outcome_fieldOf]
            cases h : outcome (typing (.object property)) session with
            | mk result after =>
                cases result with
                | error failure => rfl
                | ok type =>
                    simp only
                    cases refused : fieldRefusal name type with
                    | some failure => rfl
                    | none =>
                        simp only [outcome_bind_pure, ih, mapResult_mapResult, fieldSteps]
                        congr 1
                        funext types
                        simp [fieldsOf, typedProperties, typed]
          · simp only [fieldsWith, fieldSteps, List.map_cons, propertyStep, typed]
            rw [if_neg (by simp), if_neg (by simp), outcome_bind, outcome_warn,
              outcome_typeAll_skip]
            simp only [ih, fieldSteps]
            congr 1
            funext types
            simp [fieldsOf, typedProperties, typed]
      | _ =>
          rw [fieldsWith, outcome_bind, outcome_warn]
          · exact ih _
          · simp

end ApiBinding.Synthesis
