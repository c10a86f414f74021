import ApiBinding.Proofs.Synthesis.Content

/-! The calls that the typing of schemas answers. Whether a call succeeds or fails, the state
only grows: no alias stays open, no name or record is lost or replaced, and a reference has a
name exactly when it was visited. -/

namespace ApiBinding.Synthesis

open ApiBinding.Schema

variable {scope : Scope}

/-! ## Calls -/

/-- What can be called: the type of a node or a record under a name, the text of a node's type,
the properties that a schema has with its parts, and the fields of properties. -/
inductive Call where
  | request (asked : Request)
  | text (node : Value)
  | flatten (schema : Mapping)
  | fields (owner : String) (properties : Mapping) (requirement : Requirement)

/-- What a call returns if it does not fail. -/
abbrev Call.Answer : Call → Type
  | .request _ => TypeExpr
  | .text _ => String
  | .flatten _ => Flattened
  | .fields _ _ _ => List (Field TypeExpr)

def Call.perform (scope : Scope) : (call : Call) → Synthesis call.Answer
  | .request asked => asked.perform scope
  | .text node => return (← printedType scope node).render
  | .flatten schema => lift (Schema.flatten scope.table schema)
  | .fields owner properties requirement => Synthesis.fields scope owner properties requirement

/-- The session that a call leaves, also when it fails. -/
def Call.after (scope : Scope) (call : Call) (session : Session) : Session :=
  (outcome (call.perform scope) session).2

/-- The session after calls in order. The placement of records is set for each call; a failure
does not end the run. -/
def afterCalls (scope : Scope) (session : Session) : List (Option Placement × Call) → Session
  | [] => session
  | (placement, call) :: rest =>
    afterCalls scope (call.after { scope with placement := placement } session) rest

/-! ## Derivations of calls -/

/-- What a call does to the session, by the rules of the typing, and its events. -/
inductive CallDerivation (scope : Scope) : Session → Call → Session → List Event → Prop where
  | request {session request result after events} :
      RequestDerivation scope session request result after events →
      CallDerivation scope session (.request request) after events
  | text {session node result after events} :
      TypeDerivation scope session node result after events →
      CallDerivation scope session (.text node) after events
  | flatten (session schema) : CallDerivation scope session (.flatten schema) session []
  | fields {session owner properties requirement result after events} :
      StepsDerivation (TypeDerivation scope) session (fieldSteps owner properties) result after
        events →
      CallDerivation scope session (.fields owner properties requirement) after events

/-- Calls are answered in order, each by its derivation. -/
inductive CallsDerivation (scope : Scope) :
    Session → List (Option Placement × Call) → Session → List Event → Prop where
  | nil (session) : CallsDerivation scope session [] session []
  | next {session placement call rest middle after events later} :
      CallDerivation { scope with placement := placement } session call middle events →
      CallsDerivation scope middle rest after later →
      CallsDerivation scope session ((placement, call) :: rest) after (events ++ later)

theorem after_text (scope : Scope) (session : Session) (node : Value) :
    (Call.text node).after scope session = (outcome (typeOf scope node) session).2 := by
  have same : (Call.text node).after scope session =
      (outcome (printedType scope node) session).2 := by
    rw [Call.after, Call.perform, outcome_bind]
    cases h : outcome (printedType scope node) session with
    | mk result after => cases result <;> rfl
  rw [same, printedType, printed, outcome_bind]
  cases h : outcome (typeOf scope node) session with
  | mk result after =>
      cases result with
      | error failure => rfl
      | ok type =>
          dsimp only
          split <;> rfl

theorem follows_typeOf (scope : Scope) (session : Session) (node : Value) :
    Follows scope (typeOf scope) session node :=
  fun later _ => typeOf_derivation scope later node (le_refl _)

/-- Every call follows the rules. -/
theorem call_derivation (scope : Scope) (session : Session) (call : Call) :
    ∃ events, CallDerivation scope session call (call.after scope session) events := by
  cases call with
  | request request =>
      obtain ⟨events, derivation⟩ := request.performWithin_derivation scope session (le_refl _)
      rw [← request.perform_eq] at derivation
      exact ⟨events, .request derivation⟩
  | text node =>
      obtain ⟨events, derivation⟩ := typeOf_derivation scope session node (le_refl _)
      rw [after_text]
      exact ⟨events, .text derivation⟩
  | flatten schema => exact ⟨[], .flatten session schema⟩
  | fields owner properties requirement =>
      have parts : ∀ node ∈ typedNodes (fieldSteps owner properties),
          Follows scope (typeOf scope) session node :=
        fun node _ => follows_typeOf scope session node
      obtain ⟨events, steps⟩ := typeAll_derivation parts
      have same : (Call.fields owner properties requirement).after scope session =
          (outcome (typeAll (typeOf scope) (fieldSteps owner properties)) session).2 := by
        rw [Call.after, Call.perform, Synthesis.fields, outcome_fieldsWith]
        rfl
      rw [same]
      exact ⟨events, .fields steps⟩

theorem afterCalls_derivation (scope : Scope) (session : Session)
    (calls : List (Option Placement × Call)) :
    ∃ events, CallsDerivation scope session calls (afterCalls scope session calls) events := by
  induction calls generalizing session with
  | nil => exact ⟨[], .nil session⟩
  | cons entry rest ih =>
      obtain ⟨placement, call⟩ := entry
      obtain ⟨events, first⟩ :=
        call_derivation { scope with placement := placement } session call
      obtain ⟨later, others⟩ := ih (call.after { scope with placement := placement } session)
      exact ⟨events ++ later, .next first others⟩

/-! ## Growth -/

theorem CallDerivation.grows {session after : Session} {call : Call} {events : List Event}
    (derivation : CallDerivation scope session call after events) : session.Grows after := by
  cases derivation with
  | request answered => exact answered.grows
  | text typed => exact typed.grows
  | flatten _ => exact .refl session
  | fields steps => exact steps.grows fun _ _ _ _ _ typed => typed.grows

theorem CallDerivation.once {session after : Session} {call : Call} {events : List Event}
    (derivation : CallDerivation scope session call after events) :
    Once session events after := by
  cases derivation with
  | request answered => exact answered.once
  | text typed => exact typed.once
  | flatten _ => exact .nil rfl
  | fields steps => exact steps.once fun _ _ _ _ _ typed => ⟨typed.grows, typed.once⟩

theorem CallsDerivation.grows {session after : Session} {calls : List (Option Placement × Call)}
    {events : List Event} (derivation : CallsDerivation scope session calls after events) :
    session.Grows after := by
  induction derivation with
  | nil session => exact .refl session
  | next first _ ih => exact first.grows.trans ih

theorem CallsDerivation.once {session after : Session} {calls : List (Option Placement × Call)}
    {events : List Event} (derivation : CallsDerivation scope session calls after events) :
    Once session events after := by
  induction derivation with
  | nil session => exact .nil rfl
  | next first rest ih => exact first.once.append ih first.grows rest.grows

/-! ## Visited references -/

private theorem lookup_replay (session : Session) (events : List Event) (ref : String) :
    (events.foldl Event.replay session.names).lookup ref ≠ none ↔
      session.nameOf? ref ≠ none ∨ ref ∈ namedRefs events := by
  induction events generalizing session with
  | nil => simp [namedRefs, Session.nameOf?]
  | cons event rest ih =>
      cases event with
      | named own name =>
          refine (ih (session.register own name)).trans ?_
          rw [Session.nameOf?_register]
          by_cases same : ref = own
          · simp [same, namedRefs, Event.named?]
          · simp [same, namedRefs, Event.named?]
      | typedFields owner => exact ih session

/-- The references with a name are those that had one before and those that were visited. -/
theorem Once.nameOf?_ne_none {before after : Session} {events : List Event}
    (h : Once before events after) (ref : String) :
    after.nameOf? ref ≠ none ↔ before.nameOf? ref ≠ none ∨ ref ∈ namedRefs events := by
  rw [Session.nameOf?, h.names]
  exact lookup_replay before events ref

/-- The state only grows. Whether a call succeeds or fails, and whatever the session before:
the open aliases are those that were open before, references keep their names, stored records
stay as they are, and the slots of the catalog stay in front and in order. After any calls from
the start, failed ones among them, no alias is open, and a reference has a name exactly when it
was visited. -/
theorem state_only_grows (scope : Scope) :
    (∀ (session : Session) (call : Call),
      (call.after scope session).inlining = session.inlining ∧
      (∀ ref name, session.nameOf? ref = some name →
        (call.after scope session).nameOf? ref = some name) ∧
      (∀ name record, session.catalog.find? name = some record →
        (call.after scope session).catalog.find? name = some record) ∧
      session.catalog.names <+: (call.after scope session).catalog.names ∧
      ∃ events, CallDerivation scope session call (call.after scope session) events ∧
        ∀ ref, (call.after scope session).nameOf? ref ≠ none ↔
          session.nameOf? ref ≠ none ∨ ref ∈ namedRefs events) ∧
    ∀ calls : List (Option Placement × Call),
      (afterCalls scope .empty calls).inlining = [] ∧
      ∃ log, CallsDerivation scope .empty calls (afterCalls scope .empty calls) log ∧
        ∀ ref, ref ∈ namedRefs log ↔
          ∃ name, (afterCalls scope .empty calls).nameOf? ref = some name := by
  refine ⟨fun session call => ?_, fun calls => ?_⟩
  · obtain ⟨events, derivation⟩ := call_derivation scope session call
    have grown := derivation.grows
    refine ⟨grown.inlining, fun _ _ => grown.names, fun _ _ => grown.catalog.records,
      grown.catalog.names, events, derivation, derivation.once.nameOf?_ne_none⟩
  · obtain ⟨log, derivation⟩ := afterCalls_derivation scope .empty calls
    refine ⟨derivation.grows.inlining, log, derivation, fun ref => ?_⟩
    have visited := derivation.once.nameOf?_ne_none ref
    have fresh : Session.empty.nameOf? ref = none := rfl
    rw [← Option.ne_none_iff_exists', visited]
    simp [fresh]

/-- An alias of a record with a field that refers to nothing. -/
def brokenScope : Scope where
  table := ⟨"#/definitions/", [
    (.text "Pets", .ofFields [
      ("type", .text "array"), ("items", .ofFields [("$ref", .text "#/definitions/Pet")])]),
    (.text "Pet", .ofFields [
      ("properties", .ofFields [
        ("owner", .ofFields [("$ref", .text "#/definitions/Owner")])])])]⟩
  options := {}
  lexicon := .standard
  placement := some .body

/-- The failure inside the record closes the alias; the record keeps its name and its slot. -/
example :
    let call := Call.text (.ofFields [("$ref", .text "#/definitions/Pets")])
    let after := call.after brokenScope .empty
    (outcome (call.perform brokenScope) .empty).1.toBool = false ∧ after.inlining = [] ∧
      after.names = [("#/definitions/Pet", "Pet")] ∧ after.catalog.names = ["Pet"] := by
  decide +kernel

end ApiBinding.Synthesis
