import ApiBinding.Synthesis.TypeOf

/-! Computation rules for the steps of a run: the result and the session of each step in terms
of those of its parts. -/

namespace ApiBinding.Synthesis

variable {α β : Type}

@[simp] theorem outcome_pure (value : α) (session : Session) :
    outcome (pure value) session = (.ok value, session) := rfl

/-- A sequence stops at the first failure and keeps the session that the failure left. -/
theorem outcome_bind (step : Synthesis α) (next : α → Synthesis β) (session : Session) :
    outcome (step >>= next) session =
      match step.outcome session with
      | (.ok value, after) => (next value).outcome after
      | (.error failure, after) => (.error failure, after) := by
  cases h : step.outcome session with
  | mk result after =>
    have h' : step session = (result, after) := h
    simp only [outcome, bind, ExceptT.bind, ExceptT.mk, StateT.bind, h']
    cases result <;> rfl

theorem outcome_bind_of_ok {step : Synthesis α} {value : α} {session after : Session}
    (next : α → Synthesis β) (h : step.outcome session = (.ok value, after)) :
    outcome (step >>= next) session = (next value).outcome after := by
  rw [outcome_bind, h]

@[simp] theorem outcome_lift (result : Except Failure α) (session : Session) :
    outcome (lift result) session = (result, session) := rfl

@[simp] theorem bind_lift_ok (value : α) (next : α → Synthesis β) :
    lift (.ok value) >>= next = next value := rfl

@[simp] theorem outcome_fail (failure : Failure) (session : Session) :
    outcome (fail failure : Synthesis α) session = (.error failure, session) := rfl

@[simp] theorem outcome_warn (warning : Warning) (session : Session) :
    outcome (warn warning) session = (.ok (), session.warn warning) := rfl

@[simp] theorem outcome_get (session : Session) :
    outcome (get : Synthesis Session) session = (.ok session, session) := rfl

@[simp] theorem outcome_modify (f : Session → Session) (session : Session) :
    outcome (modify f : Synthesis Unit) session = (.ok (), f session) := rfl

@[simp] theorem outcome_reserve (name : String) (session : Session) :
    outcome (reserve name) session =
      (.ok (session.catalog.reserve name).1,
        { session with catalog := (session.catalog.reserve name).2 }) := rfl

@[simp] theorem outcome_store (record : Record TypeExpr) (session : Session) :
    outcome (store record) session =
      (.ok (), { session with catalog := (session.catalog.add record).2 }) := rfl

/-! ## Types -/

@[simp] theorem outcome_typeStep_null (scope : Scope) (typing : Typing) (session : Session) :
    outcome (typeStep scope typing .null) session = (.ok .object, session) := rfl

/-- A reference that has a name is that name; its target is not looked at again. -/
theorem outcome_referenceType_of_named (scope : Scope) (typing : Typing) {ref name : String}
    {session : Session} (h : session.nameOf? ref = some name) :
    outcome (referenceType scope typing (.text ref)) session =
      (.ok (.reference name), session) := by
  rw [referenceType, outcome_bind, outcome_get]
  simp [h]

/-- A reference without a name is typed by its target. -/
theorem outcome_referenceType_of_unnamed (scope : Scope) (typing : Typing) {ref : String}
    {session : Session} (h : session.nameOf? ref = none) :
    outcome (referenceType scope typing (.text ref)) session =
      outcome (targetType scope typing ref) session := by
  rw [referenceType, outcome_bind, outcome_get]
  simp [h]

end ApiBinding.Synthesis
