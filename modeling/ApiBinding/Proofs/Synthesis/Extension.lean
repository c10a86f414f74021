import ApiBinding.Proofs.Schema.Extension
import ApiBinding.Proofs.Synthesis.Depth

/-! A schema that gets a type gets the same one, with the same records and warnings, when the
definition table is extended: only definitions that were there are looked at. -/

namespace ApiBinding

/-- What a run reads, with another definition table. -/
def Scope.withTable (scope : Scope) (table : Table) : Scope :=
  { scope with table := table }

namespace Synthesis

open ApiBinding.Schema

variable {scope : Scope} {wide : Table}

/-! ## Derivations -/

theorem kept_definitionOf (extension : scope.table.Extends wide) (ref : String) :
    Kept (definitionOf scope ref) (definitionOf (scope.withTable wide) ref) := by
  unfold definitionOf
  refine (kept_resolve extension ref).bind ?_
  intro schema
  refine (kept_isRecordShaped extension (.object schema)).bind ?_
  intro recordShaped
  split
  · rw [Scope.withTable, keyOf_extends extension]
    exact .refl _
  · exact .refl _

/-- Work that does not fail at once is the same work. -/
theorem workOf_withTable (extension : scope.table.Extends wide) {session : Session}
    {node : Value} (sound : ∀ failure, workOf scope session node ≠ .done (.error failure)) :
    workOf (scope.withTable wide) session node = workOf scope session node := by
  cases node with
  | object schema =>
      simp only [workOf] at sound ⊢
      cases shaped : shape schema with
      | error failure => rfl
      | ok found =>
          cases found with
          | reference target =>
              cases target with
              | text ref =>
                  simp only [shaped, shapeWork, referenceWork] at sound ⊢
                  cases named : session.nameOf? ref with
                  | some name => rfl
                  | none =>
                      cases defined : definitionOf scope ref with
                      | error failure => simp [named, defined] at sound
                      | ok definition =>
                          simp only [kept_definitionOf extension ref defined]
              | _ => rfl
          | _ => rfl
  | _ => rfl

/-- Steps that all succeed are taken by any judgement that keeps what succeeds. -/
theorem StepsDerivation.of_ok {typed typed' : Judgement}
    (h : ∀ {session node type after events}, typed session node (.ok type) after events →
      typed' session node (.ok type) after events)
    {session : Session} {steps : List Step} {result : Except Failure (List TypeExpr)}
    {after : Session} {events : List Event}
    (derivation : StepsDerivation typed session steps result after events)
    {types : List TypeExpr} (success : result = .ok types) :
    StepsDerivation typed' session steps result after events := by
  induction derivation generalizing types with
  | nil session => exact .nil session
  | skip _ ih => exact .skip (ih success)
  | stop _ => simp at success
  | refuse _ _ => simp at success
  | @next _ _ _ _ _ _ result _ _ _ typed accepted _ ih =>
      cases result with
      | error failure => simp [Except.map] at success
      | ok types => exact .next (h typed) accepted (ih rfl)

theorem RecordDerivation.withTable (extension : scope.table.Extends wide)
    {typed typed' : Judgement}
    (h : ∀ {session node type after events}, typed session node (.ok type) after events →
      typed' session node (.ok type) after events)
    {session after : Session} {name : String} {schema : Mapping}
    {result : Except Failure TypeExpr} {events : List Event}
    (derivation : RecordDerivation scope typed result session name schema after events)
    {type : TypeExpr} (success : result = .ok type) :
    RecordDerivation (scope.withTable wide) typed' result session name schema after events := by
  cases derivation with
  | taken taken => exact .taken taken
  | unreadable _ _ => simp at success
  | broken _ _ _ => simp at success
  | stored free flattened steps =>
      have flattened' := kept_flatten extension schema flattened
      exact @RecordDerivation.stored (scope.withTable wide) typed' _ _ _ _ _ _ _ free flattened'
        (steps.of_ok h rfl)

/-- The induction is on the derivation; each rule that leads to success is also one over the
extended table. -/
theorem TypeDerivation.withTable (extension : scope.table.Extends wide) {session after : Session}
    {node : Value} {result : Except Failure TypeExpr} {events : List Event}
    (derivation : TypeDerivation scope session node result after events) {type : TypeExpr}
    (success : result = .ok type) :
    TypeDerivation (scope.withTable wide) session node result after events := by
  induction derivation using TypeDerivation.induct generalizing type with
  | done work =>
      refine .done ((workOf_withTable extension ?_).trans work)
      simp [work, success]
  | @compose _ _ _ result _ _ work steps =>
      have same := (workOf_withTable extension (by simp [work])).trans work
      cases result with
      | error failure => simp [Except.map] at success
      | ok types => exact .compose same (steps.of_ok (fun both => both.choose_spec rfl) rfl)
  | declare work record =>
      have same := (workOf_withTable extension (by simp [work])).trans work
      exact .declare same (record.withTable extension (fun both => both.choose_spec rfl) success)
  | expand work _ ih =>
      have same := (workOf_withTable extension (by simp [work])).trans work
      exact .expand same (ih success)

/-! ## Steps -/

/-- Where a step succeeds the other one does, with the same value and session. -/
def Carries {α : Type} (step other : Synthesis α) : Prop :=
  ∀ ⦃session value after⦄, outcome step session = (.ok value, after) →
    outcome other session = (.ok value, after)

namespace Carries

variable {α β : Type}

theorem refl (step : Synthesis α) : Carries step step := fun _ _ _ h => h

theorem lift {result other : Except Failure α} (h : Kept result other) :
    Carries (Synthesis.lift result) (Synthesis.lift other) := by
  intro session value after success
  obtain ⟨found, rfl⟩ := Prod.mk.inj success
  simp [h found]

theorem bind {step other : Synthesis α} {next next' : α → Synthesis β} (h : Carries step other)
    (hnext : ∀ value, Carries (next value) (next' value)) :
    Carries (step >>= next) (other >>= next') := by
  intro session value after success
  obtain ⟨middle, first, hfirst, hsecond⟩ := outcome_bind_eq_ok success
  rw [outcome_bind_of_ok next' (h hfirst)]
  exact hnext first hsecond

end Carries

theorem carries_typeOf (extension : scope.table.Extends wide) (node : Value) :
    Carries (typeOf scope node) (typeOf (scope.withTable wide) node) := by
  intro session type after success
  obtain ⟨events, derivation⟩ := derivation_of_outcome success
  exact (derivation.withTable extension rfl).outcome_eq

theorem carries_printedType (extension : scope.table.Extends wide) (node : Value) :
    Carries (printedType scope node) (printedType (scope.withTable wide) node) :=
  (carries_typeOf extension node).bind fun _ => .refl _

theorem carries_declareRecord (extension : scope.table.Extends wide) (name : String)
    (schema : Mapping) :
    Carries (declareRecord scope name schema)
      (declareRecord (scope.withTable wide) name schema) := by
  intro session type after success
  obtain ⟨events, derivation⟩ := declareRecord_derivation scope session name schema (le_refl _)
  change outcome (declareWith scope (typeWithin scope _) name schema) session = _ at success
  rw [success] at derivation
  obtain ⟨_, other⟩ :=
    declareRecord_derivation (scope.withTable wide) session name schema (le_refl _)
  have kept := derivation.withTable extension
    (fun typed => TypeDerivation.withTable extension typed rfl) rfl
  obtain ⟨result, left, -⟩ := kept.deterministic
    (fun _ _ _ _ _ _ _ _ typed typed' => typed.deterministic typed') other
  exact (Prod.ext result left).symm

end Synthesis

end ApiBinding
