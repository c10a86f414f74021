import ApiBinding.Proofs.Schema.Moved
import ApiBinding.Proofs.Synthesis.Depth

/-! A run over moved references is the run over the references as they were: it gives the same
types, records and warnings, and the same failures up to the references that they name. Only which
references are alike counts for a run, and the move keeps them apart. -/

namespace ApiBinding

open Value

namespace Session

/-- The session of a run over moved references. -/
def moved (session : Session) : Session :=
  { session with
    names := session.names.map fun entry => (Pointer.moveRef entry.1, entry.2)
    inlining := session.inlining.map Pointer.moveRef }

@[simp] theorem moved_empty : Session.empty.moved = .empty := rfl

@[simp] theorem nameOf?_moved (session : Session) (ref : String) :
    session.moved.nameOf? (Pointer.moveRef ref) = session.nameOf? ref := by
  have same : ∀ names : List (String × String),
      (names.map fun entry => (Pointer.moveRef entry.1, entry.2)).lookup (Pointer.moveRef ref) =
        names.lookup ref := by
    intro names
    induction names with
    | nil => rfl
    | cons entry rest ih =>
        obtain ⟨own, name⟩ := entry
        by_cases here : ref = own
        · subst here
          simp
        · have apart : Pointer.moveRef ref ≠ Pointer.moveRef own := by simpa using here
          simp [List.lookup_cons, beq_false_of_ne here, beq_false_of_ne apart, ih]
  exact same session.names

theorem moved_register (session : Session) (ref name : String) :
    (session.register ref name).moved = session.moved.register (Pointer.moveRef ref) name := by
  have same : ∀ names : List (String × String),
      (assign ref name names).map (fun entry => (Pointer.moveRef entry.1, entry.2)) =
        assign (Pointer.moveRef ref) name
          (names.map fun entry => (Pointer.moveRef entry.1, entry.2)) := by
    intro names
    induction names with
    | nil => rfl
    | cons entry rest ih =>
        by_cases here : entry.1 = ref <;> simp [assign, here, ih]
  simp [register, moved, same]

theorem mem_inlining_moved (session : Session) (ref : String) :
    Pointer.moveRef ref ∈ session.moved.inlining ↔ ref ∈ session.inlining := by
  simp [moved]

theorem moved_endInline (session : Session) (ref : String) :
    (session.endInline ref).moved = session.moved.endInline (Pointer.moveRef ref) := by
  have same : ∀ refs : List String, (refs.filter (· != ref)).map Pointer.moveRef =
      (refs.map Pointer.moveRef).filter (· != Pointer.moveRef ref) := by
    intro refs
    induction refs with
    | nil => rfl
    | cons first rest ih => by_cases here : first = ref <;> simp [here, ih]
  simp [endInline, moved, same]

end Session

/-- What a run over moved references reads. -/
def Scope.moved (scope : Scope) : Scope :=
  { scope with table := scope.table.moved }

namespace Synthesis

open ApiBinding.Schema

variable {scope : Scope}

/-! ## Steps -/

def Step.moved : Step → Step
  | .skip warning => .skip warning
  | .type node refusal => .type node.moved fun type => (refusal type).map Failure.moved

def Event.moved : Event → Event
  | .named ref name => .named (Pointer.moveRef ref) name
  | .typedFields owner => .typedFields owner

def Work.moved : Work → Work
  | .done result => .done (movedResult id result)
  | .compose composition => .compose ⟨composition.steps.map Step.moved, composition.build⟩
  | .declare ref name schema => .declare (Pointer.moveRef ref) name (movedEntries schema)
  | .expand ref schema => .expand (Pointer.moveRef ref) (movedEntries schema)

theorem plainSteps_moved (nodes : List Value) :
    plainSteps (nodes.map Value.moved) = (plainSteps nodes).map Step.moved := by
  simp [plainSteps, Step.moved]

/-- No refusal of a property names a reference. -/
theorem propertySteps_moved {warning : Key → Warning}
    {refusal : Key → TypeExpr → Option Failure}
    (unnamed : ∀ name type, (refusal name type).map Failure.moved = refusal name type)
    (properties : Mapping) :
    (movedEntries properties).map (propertyStep warning refusal) =
      (properties.map (propertyStep warning refusal)).map Step.moved := by
  rw [movedEntries_eq_map, List.map_map, List.map_map]
  refine List.map_congr_left fun entry _ => ?_
  obtain ⟨key, value⟩ := entry
  simp only [Function.comp_apply, propertyStep, isTyped_movedUnder]
  cases value with
  | object property =>
      rw [movedUnder_object]
      split <;> simp [Step.moved, unnamed]
  | _ => simp [isTyped, Step.moved]

theorem memberSteps_moved (properties : Mapping) :
    memberSteps (movedEntries properties) = (memberSteps properties).map Step.moved :=
  propertySteps_moved (fun _ _ => rfl) properties

theorem fieldSteps_moved (owner : String) (properties : Mapping) :
    fieldSteps owner (movedEntries properties) = (fieldSteps owner properties).map Step.moved := by
  refine propertySteps_moved (fun name type => ?_) properties
  unfold fieldRefusal
  split
  · cases name <;> rfl
  · rfl

theorem typedProperties_moved (properties : Mapping) :
    typedProperties (movedEntries properties) =
      (typedProperties properties).map fun entry => (entry.1, movedEntries entry.2) := by
  induction properties with
  | nil => rfl
  | cons entry rest ih =>
      obtain ⟨key, value⟩ := entry
      have typed := isTyped_movedUnder key value
      cases value with
      | object property =>
          rw [movedUnder_object] at typed
          simp only [movedEntries, movedUnder_object, typedProperties, typed]
          split <;> simp [ih]
      | _ => simp [movedEntries, movedUnder, typedProperties, ih]

theorem membersOf_moved (requirement : Requirement) (properties : Mapping)
    (types : List TypeExpr) :
    membersOf requirement.moved (movedEntries properties) types =
      membersOf requirement properties types := by
  simp [membersOf, typedProperties_moved, List.zipWith_map_left, isRequired_moved,
    description?_moved]

theorem fieldsOf_moved (requirement : Requirement) (properties : Mapping)
    (types : List TypeExpr) :
    fieldsOf requirement.moved (movedEntries properties) types =
      fieldsOf requirement properties types := by
  have format : ∀ property : Mapping, format? (.object (movedEntries property)) =
      format? (.object property) := fun property => format?_moved (.object property)
  simp [fieldsOf, typedProperties_moved, List.zipWith_map_left, isRequired_moved,
    description?_moved, format]

/-! ## Work -/

def Definition.moved : Definition → Definition
  | .record name schema => .record name (movedEntries schema)
  | .inPlace schema => .inPlace (movedEntries schema)

theorem definitionOf_moved (rooted : scope.table.root = Dialect.swagger2.root) (ref : String) :
    definitionOf scope.moved (Pointer.moveRef ref) =
      movedResult Definition.moved (definitionOf scope ref) := by
  unfold definitionOf
  simp only [Scope.moved, resolve_moved rooted, keyOf_moved rooted]
  refine movedResult_bind fun schema => ?_
  have shaped := isRecordShaped_moved rooted (.object schema)
  rw [moved_object] at shaped
  rw [shaped]
  refine movedResult_bind fun recordShaped => ?_
  cases recordShaped with
  | true => exact movedResult_bind fun key => rfl
  | false => rfl

/-- Showing a value that is no schema has nothing to do with references. -/
theorem movedResult_shown (node : Value) :
    movedResult id (node.shown.map TypeExpr.verbatim) = node.shown.map TypeExpr.verbatim := by
  cases shown : node.shown with
  | ok text => rfl
  | error failure =>
      obtain ⟨rfl, -⟩ := shown_eq_error shown
      rfl

theorem workOf_moved (rooted : scope.table.root = Dialect.swagger2.root) (session : Session)
    (node : Value) :
    workOf scope.moved session.moved node.moved = (workOf scope session node).moved := by
  cases node with
  | object schema =>
      simp only [workOf, moved_object, shape_moved]
      cases shape schema with
      | error failure => rfl
      | ok found =>
          cases found with
          | reference target =>
              cases target with
              | text ref =>
                  simp only [movedResult_ok, Shape.moved, movedUnder, beq_self_eq_true, if_true,
                    shapeWork, referenceWork, Session.nameOf?_moved, definitionOf_moved rooted]
                  cases session.nameOf? ref with
                  | some name => rfl
                  | none =>
                      cases definitionOf scope ref with
                      | error failure => rfl
                      | ok definition =>
                          cases definition with
                          | record name schema => rfl
                          | inPlace schema =>
                              simp only [movedResult_ok, Definition.moved,
                                Session.mem_inlining_moved]
                              split <;> rfl
              | _ => simp [Shape.moved, movedUnder, shapeWork, referenceWork, Work.moved,
                  Failure.moved, kindName]
          | leaf type => rfl
          | object properties requirement =>
              have build : objectOf requirement.moved (movedEntries properties) =
                  objectOf requirement properties := by
                funext types
                simp only [objectOf, membersOf_moved]
              simp only [movedResult_ok, Shape.moved, shapeWork, Work.moved, memberSteps_moved,
                build]
          | array items =>
              simp [Shape.moved, shapeWork, Work.moved, plainSteps, Step.moved]
          | _ => simp [Shape.moved, shapeWork, Work.moved, plainSteps_moved]
  | null => rfl
  | _ => exact congrArg Work.done (movedResult_shown _).symm

/-! ## Derivations -/

theorem map_movedResult {α β : Type} (f : α → β) (result : Except Failure α) :
    (movedResult id result).map f = movedResult id (result.map f) := by
  cases result <;> rfl

/-- The second judgement holds of what is moved where the first one holds. -/
def Judgement.Follows (typed typed' : Judgement) : Prop :=
  ∀ ⦃session node result after events⦄, typed session node result after events →
    typed' session.moved node.moved (movedResult id result) after.moved (events.map Event.moved)

theorem StepsDerivation.moved {typed typed' : Judgement} (h : typed.Follows typed')
    {session after : Session} {steps : List Step} {result : Except Failure (List TypeExpr)}
    {events : List Event} (derivation : StepsDerivation typed session steps result after events) :
    StepsDerivation typed' session.moved (steps.map Step.moved) (movedResult id result) after.moved
      (events.map Event.moved) := by
  induction derivation with
  | nil session => exact .nil session.moved
  | skip _ ih => exact .skip ih
  | stop typed => exact .stop (h typed)
  | refuse typed refused => exact .refuse (h typed) (by simp [refused])
  | next typed accepted _ ih =>
      rw [← map_movedResult, List.map_append]
      exact .next (h typed) (by simp [accepted]) ih

theorem RecordDerivation.moved (rooted : scope.table.root = Dialect.swagger2.root)
    {typed typed' : Judgement} (h : typed.Follows typed') {session after : Session}
    {name : String} {schema : Mapping} {result : Except Failure TypeExpr} {events : List Event}
    (derivation : RecordDerivation scope typed result session name schema after events) :
    RecordDerivation scope.moved typed' (movedResult id result) session.moved name
      (movedEntries schema) after.moved (events.map Event.moved) := by
  cases derivation with
  | taken taken => exact .taken taken
  | unreadable free unreadable =>
      refine .unreadable free ?_
      rw [Scope.moved, flatten_moved rooted, unreadable]
      rfl
  | broken free flattened steps =>
      have flattened' := flatten_moved rooted schema
      rw [flattened] at flattened'
      have steps' := steps.moved h
      rw [← fieldSteps_moved] at steps'
      exact .broken free flattened' steps'
  | @stored session name schema flat types after events free flattened steps =>
      have flattened' := flatten_moved rooted schema
      rw [flattened] at flattened'
      have steps' := steps.moved h
      rw [← fieldSteps_moved] at steps'
      have description : (Mapping.field (movedEntries schema) "description").text? =
          (schema.field "description").text? := by
        rw [Mapping.field_movedEntries, text?_movedUnder (by decide)]
      have stored := @RecordDerivation.stored scope.moved typed' session.moved name
        (movedEntries schema) flat.moved types after.moved _ free flattened' steps'
      simp only [Flattened.moved, fieldsOf_moved, description] at stored
      exact stored

/-- The rules do not look into references, so they hold of moved ones. -/
theorem TypeDerivation.moved (rooted : scope.table.root = Dialect.swagger2.root)
    {session after : Session} {node : Value} {result : Except Failure TypeExpr}
    {events : List Event} (derivation : TypeDerivation scope session node result after events) :
    TypeDerivation scope.moved session.moved node.moved (movedResult id result) after.moved
      (events.map Event.moved) := by
  induction derivation using TypeDerivation.induct with
  | done work =>
      refine .done ?_
      rw [workOf_moved rooted, work]
      rfl
  | @compose session node composition result after events work steps =>
      have work' := workOf_moved rooted session node
      rw [work, Work.moved] at work'
      rw [← map_movedResult]
      exact @TypeDerivation.compose scope.moved session.moved node.moved
        ⟨composition.steps.map Step.moved, composition.build⟩ _ after.moved _ work'
        (steps.moved fun _ _ _ _ _ both => both.choose_spec)
  | @declare session node ref name schema result after events work record =>
      have work' := workOf_moved rooted session node
      rw [work] at work'
      have record' := record.moved rooted fun _ _ _ _ _ both => both.choose_spec
      rw [Session.moved_register] at record'
      exact .declare work' record'
  | @expand session node ref schema result after events work _ ih =>
      have work' := workOf_moved rooted session node
      rw [work] at work'
      rw [Session.moved_endInline]
      exact .expand work' ih

/-! ## Runs -/

/-- The second step does on moved references what the first one does, where `f` moves what it
returns. -/
def Moves {α β : Type} (f : α → β) (step : Synthesis α) (other : Synthesis β) : Prop :=
  ∀ session, outcome other session.moved =
    (movedResult f (outcome step session).1, (outcome step session).2.moved)

namespace Moves

variable {α β γ δ : Type} {f : α → β} {g : γ → δ}

theorem pure {value : α} {value' : β} (h : value' = f value) :
    Moves f (Pure.pure value) (Pure.pure value') := by
  intro session
  simp [h]

theorem lift {result : Except Failure α} {other : Except Failure β}
    (h : other = movedResult f result) :
    Moves f (Synthesis.lift result) (Synthesis.lift other) := by
  intro session
  simp [h]

theorem fail {failure other : Failure} (h : other = failure.moved) :
    Moves f (Synthesis.fail failure) (Synthesis.fail other) := by
  intro session
  simp [h]

theorem warn (warning : Warning) : Moves id (Synthesis.warn warning) (Synthesis.warn warning) :=
  fun _ => rfl

theorem bind {step : Synthesis α} {other : Synthesis β} {next : α → Synthesis γ}
    {next' : β → Synthesis δ} (h : Moves f step other)
    (hnext : ∀ value, Moves g (next value) (next' (f value))) :
    Moves g (step >>= next) (other >>= next') := by
  intro session
  rw [outcome_bind, outcome_bind, h]
  cases made : outcome step session with
  | mk result after =>
      cases result with
      | error failure => rfl
      | ok value => exact hnext value after

end Moves

theorem moves_typeOf (rooted : scope.table.root = Dialect.swagger2.root) (node : Value) :
    Moves id (typeOf scope node) (typeOf scope.moved node.moved) := by
  intro session
  obtain ⟨events, derivation⟩ := typeOf_derivation scope session node (le_refl _)
  exact (derivation.moved rooted).outcome_eq

theorem moves_printedType (rooted : scope.table.root = Dialect.swagger2.root) (node : Value) :
    Moves id (printedType scope node) (printedType scope.moved node.moved) := by
  refine (moves_typeOf rooted node).bind fun type => ?_
  rw [id_eq]
  split
  · exact .pure rfl
  · exact .fail rfl

theorem moves_declareRecord (rooted : scope.table.root = Dialect.swagger2.root) (name : String)
    (schema : Mapping) :
    Moves id (declareRecord scope name schema)
      (declareRecord scope.moved name (movedEntries schema)) := by
  intro session
  obtain ⟨events, derivation⟩ := declareRecord_derivation scope session name schema (le_refl _)
  obtain ⟨_, other⟩ :=
    declareRecord_derivation scope.moved session.moved name (movedEntries schema) (le_refl _)
  have moved := derivation.moved rooted fun _ _ _ _ _ typed => typed.moved rooted
  obtain ⟨result, left, -⟩ := moved.deterministic
    (fun _ _ _ _ _ _ _ _ typed typed' => typed.deterministic typed') other
  exact (Prod.ext result left).symm

end Synthesis

end ApiBinding
