import ApiBinding.Proofs.Synthesis.Work

/-! Derivations: what a run of the typing of a node can do, by local rules without any bound on
the depth of the recursion. A derivation lists the events of its run. -/

namespace ApiBinding.Synthesis

open ApiBinding.Schema

/-- What a run did, apart from its result and the session it left. -/
inductive Event where
  /-- A reference was given the name of its record. -/
  | named (ref name : String)
  /-- The fields of a record were typed. -/
  | typedFields (owner : String)

/-- How a node is typed: the session before, the node, the result, the session after, and the
events. -/
abbrev Judgement := Session → Value → Except Failure TypeExpr → Session → List Event → Prop

/-- Steps are taken in order until the first failure or refusal. -/
inductive StepsDerivation (typed : Judgement) :
    Session → List Step → Except Failure (List TypeExpr) → Session → List Event → Prop where
  | nil (session) : StepsDerivation typed session [] (.ok []) session []
  | skip {session warning rest result after events} :
      StepsDerivation typed (session.warn warning) rest result after events →
      StepsDerivation typed session (.skip warning :: rest) result after events
  | stop {session node refusal rest failure after events} :
      typed session node (.error failure) after events →
      StepsDerivation typed session (.type node refusal :: rest) (.error failure) after events
  | refuse {session node refusal rest type failure after events} :
      typed session node (.ok type) after events → refusal type = some failure →
      StepsDerivation typed session (.type node refusal :: rest) (.error failure) after events
  | next {session node refusal rest type middle result after events later} :
      typed session node (.ok type) middle events → refusal type = none →
      StepsDerivation typed middle rest result after later →
      StepsDerivation typed session (.type node refusal :: rest) (result.map (type :: ·)) after
        (events ++ later)

/-- A schema is declared under a name: a taken name keeps its record, a free one is reserved
before the fields are typed and gets its record after that. -/
inductive RecordDerivation (scope : Scope) (typed : Judgement) :
    Except Failure TypeExpr → Session → String → Mapping → Session → List Event → Prop where
  | taken {session name schema} : session.catalog.mentions name = true →
      RecordDerivation scope typed (.ok (.reference name)) session name schema session []
  | unreadable {session name schema failure} : session.catalog.mentions name = false →
      flatten scope.table schema = .error failure →
      RecordDerivation scope typed (.error failure) session name schema (session.reserve name) []
  | broken {session name schema flat failure after events} :
      session.catalog.mentions name = false → flatten scope.table schema = .ok flat →
      StepsDerivation typed (session.reserve name) (fieldSteps name flat.properties)
        (.error failure) after events →
      RecordDerivation scope typed (.error failure) session name schema after
        (.typedFields name :: events)
  | stored {session name schema flat types after events} :
      session.catalog.mentions name = false → flatten scope.table schema = .ok flat →
      StepsDerivation typed (session.reserve name) (fieldSteps name flat.properties)
        (.ok types) after events →
      RecordDerivation scope typed (.ok (.reference name)) session name schema
        (after.store ⟨name, (schema.field "description").text?,
          fieldsOf flat.requirement flat.properties types, scope.placement⟩)
        (.typedFields name :: events)

/-- A node is typed by the work on it. The rules do not invoke the typing of the library. -/
inductive TypeDerivation (scope : Scope) : Judgement where
  | done {session node result} : workOf scope session node = .done result →
      TypeDerivation scope session node result session []
  | compose {session node composition result after events} :
      workOf scope session node = .compose composition →
      StepsDerivation (TypeDerivation scope) session composition.steps result after events →
      TypeDerivation scope session node (result.map composition.build) after events
  | declare {session node ref name schema result after events} :
      workOf scope session node = .declare ref name schema →
      RecordDerivation scope (TypeDerivation scope) result (session.register ref name) name schema
        after events →
      TypeDerivation scope session node result after (.named ref name :: events)
  | expand {session node ref schema result after events} :
      workOf scope session node = .expand ref schema →
      TypeDerivation scope (session.openInline ref) (.object schema) result after events →
      TypeDerivation scope session node result (after.endInline ref) events

/-! ## Induction -/

theorem StepsDerivation.mono {typed typed' : Judgement}
    (h : ∀ {session node result after events}, typed session node result after events →
      typed' session node result after events)
    {session : Session} {steps : List Step} {result : Except Failure (List TypeExpr)}
    {after : Session} {events : List Event}
    (derivation : StepsDerivation typed session steps result after events) :
    StepsDerivation typed' session steps result after events := by
  induction derivation with
  | nil session => exact .nil session
  | skip _ ih => exact .skip ih
  | stop typed => exact .stop (h typed)
  | refuse typed refused => exact .refuse (h typed) refused
  | next typed accepted _ ih => exact .next (h typed) accepted ih

theorem RecordDerivation.mono {scope : Scope} {typed typed' : Judgement}
    (h : ∀ {session node result after events}, typed session node result after events →
      typed' session node result after events)
    {result : Except Failure TypeExpr} {session : Session} {name : String} {schema : Mapping}
    {after : Session} {events : List Event}
    (derivation : RecordDerivation scope typed result session name schema after events) :
    RecordDerivation scope typed' result session name schema after events := by
  cases derivation with
  | taken taken => exact .taken taken
  | unreadable free unreadable => exact .unreadable free unreadable
  | broken free flattened steps => exact .broken free flattened (steps.mono h)
  | stored free flattened steps => exact .stored free flattened (steps.mono h)

/-- A relation of the sessions before and after that holds of the typing of each node, and of
warnings, holds of steps. -/
theorem StepsDerivation.leads {R : Session → Session → Prop} {typed : Judgement}
    (refl : ∀ session, R session session)
    (trans : ∀ {first second third}, R first second → R second third → R first third)
    (warn : ∀ session warning, R session (session.warn warning))
    (h : ∀ {session node result after events}, typed session node result after events →
      R session after)
    {session : Session} {steps : List Step} {result : Except Failure (List TypeExpr)}
    {after : Session} {events : List Event}
    (derivation : StepsDerivation typed session steps result after events) :
    R session after := by
  induction derivation with
  | nil session => exact refl session
  | skip _ ih => exact trans (warn _ _) ih
  | stop typed => exact h typed
  | refuse typed _ => exact h typed
  | next typed _ _ ih => exact trans (h typed) ih

/-- A property that the work on a node passes on from its parts holds of every derivation. -/
theorem TypeDerivation.induct {scope : Scope}
    {motive : ∀ s n r a e, TypeDerivation scope s n r a e → Prop}
    (done : ∀ {session node result} (work : workOf scope session node = .done result),
      motive session node result session [] (.done work))
    (compose : ∀ {session node composition result after events}
      (work : workOf scope session node = .compose composition)
      (steps : StepsDerivation (fun s n r a e => ∃ d, motive s n r a e d)
        session composition.steps result after events),
      motive session node (result.map composition.build) after events
        (.compose work (steps.mono Exists.choose)))
    (declare : ∀ {session node ref name schema result after events}
      (work : workOf scope session node = .declare ref name schema)
      (record : RecordDerivation scope (fun s n r a e => ∃ d, motive s n r a e d)
        result (session.register ref name) name schema after events),
      motive session node result after (.named ref name :: events)
        (.declare work (record.mono Exists.choose)))
    (expand : ∀ {session node ref schema result after events}
      (work : workOf scope session node = .expand ref schema)
      (inner : TypeDerivation scope (session.openInline ref) (.object schema) result after events),
      motive (session.openInline ref) (.object schema) result after events inner →
      motive session node result (after.endInline ref) events (.expand work inner))
    {session : Session} {node : Value} {result : Except Failure TypeExpr} {after : Session}
    {events : List Event} (derivation : TypeDerivation scope session node result after events) :
    motive session node result after events derivation := by
  let Both : Judgement := fun s n r a e => ∃ d, motive s n r a e d
  refine @TypeDerivation.rec scope motive
    (fun s steps r a e _ => StepsDerivation Both s steps r a e)
    (fun r s name schema a e _ => RecordDerivation scope Both r s name schema a e)
    done ?_ ?_ ?_ ?_ ?_ ?_ ?_ ?_ ?_ ?_ ?_ ?_
    session node result after events derivation
  · intro session node composition result after events work _ ih
    exact compose work ih
  · intro session node ref name schema result after events work _ ih
    exact declare work ih
  · intro session node ref schema result after events work inner ih
    exact expand work inner ih
  · exact StepsDerivation.nil
  · intro session warning rest result after events _ ih
    exact .skip ih
  · intro session node refusal rest failure after events typed ih
    exact .stop ⟨typed, ih⟩
  · intro session node refusal rest type failure after events typed refused ih
    exact .refuse ⟨typed, ih⟩ refused
  · intro session node refusal rest type middle result after events later typed accepted _ ih ihr
    exact .next ⟨typed, ih⟩ accepted ihr
  · intro session name schema taken
    exact .taken taken
  · intro session name schema failure free unreadable
    exact .unreadable free unreadable
  · intro session name schema flat failure after events free flattened _ ih
    exact .broken free flattened ih
  · intro session name schema flat types after events free flattened _ ih
    exact .stored free flattened ih

/-! ## Determinism -/

/-- Two judgements give one answer where they both give one. -/
def Judgement.Agrees (typed typed' : Judgement) : Prop :=
  ∀ ⦃session node result after events result' after' events'⦄,
    typed session node result after events → typed' session node result' after' events' →
    result = result' ∧ after = after' ∧ events = events'

theorem StepsDerivation.deterministic {typed typed' : Judgement} (h : typed.Agrees typed')
    {session : Session} {steps : List Step} {result result' : Except Failure (List TypeExpr)}
    {after after' : Session} {events events' : List Event}
    (derivation : StepsDerivation typed session steps result after events)
    (other : StepsDerivation typed' session steps result' after' events') :
    result = result' ∧ after = after' ∧ events = events' := by
  induction derivation generalizing result' after' events' with
  | nil session =>
      cases other
      exact ⟨rfl, rfl, rfl⟩
  | skip _ ih =>
      cases other with
      | skip rest => exact ih rest
  | stop typed =>
      cases other with
      | stop typed' => simpa using h typed typed'
      | refuse typed' _ => simpa using (h typed typed').1
      | next typed' _ _ => simpa using (h typed typed').1
  | refuse typed refused =>
      cases other with
      | stop typed' => simpa using (h typed typed').1
      | refuse typed' refused' =>
          obtain ⟨same, rfl, rfl⟩ := h typed typed'
          obtain rfl := Except.ok.inj same
          simp [Option.some.inj (refused.symm.trans refused')]
      | next typed' accepted _ =>
          obtain rfl := Except.ok.inj (h typed typed').1
          simp [accepted] at refused
  | next typed accepted _ ih =>
      cases other with
      | stop typed' => simpa using (h typed typed').1
      | refuse typed' refused =>
          obtain rfl := Except.ok.inj (h typed typed').1
          simp [accepted] at refused
      | next typed' _ rest =>
          obtain ⟨same, rfl, rfl⟩ := h typed typed'
          obtain rfl := Except.ok.inj same
          obtain ⟨rfl, rfl, rfl⟩ := ih rest
          exact ⟨rfl, rfl, rfl⟩

theorem RecordDerivation.deterministic {scope : Scope} {typed typed' : Judgement}
    (h : typed.Agrees typed') {session : Session} {name : String} {schema : Mapping}
    {result result' : Except Failure TypeExpr} {after after' : Session}
    {events events' : List Event}
    (derivation : RecordDerivation scope typed result session name schema after events)
    (other : RecordDerivation scope typed' result' session name schema after' events') :
    result = result' ∧ after = after' ∧ events = events' := by
  cases derivation with
  | taken taken => cases other <;> simp_all
  | unreadable free unreadable => cases other <;> simp_all
  | broken free flattened steps =>
      cases other with
      | taken taken => simp [free] at taken
      | unreadable _ unreadable => simp [flattened] at unreadable
      | broken _ flattened' steps' =>
          obtain rfl := Except.ok.inj (flattened.symm.trans flattened')
          obtain ⟨same, rfl, rfl⟩ := steps.deterministic h steps'
          simpa using same
      | stored _ flattened' steps' =>
          obtain rfl := Except.ok.inj (flattened.symm.trans flattened')
          simpa using (steps.deterministic h steps').1
  | stored free flattened steps =>
      cases other with
      | taken taken => simp [free] at taken
      | unreadable _ unreadable => simp [flattened] at unreadable
      | broken _ flattened' steps' =>
          obtain rfl := Except.ok.inj (flattened.symm.trans flattened')
          simpa using (steps.deterministic h steps').1
      | stored _ flattened' steps' =>
          obtain rfl := Except.ok.inj (flattened.symm.trans flattened')
          obtain ⟨same, rfl, rfl⟩ := steps.deterministic h steps'
          obtain rfl := Except.ok.inj same
          exact ⟨rfl, rfl, rfl⟩

/-- The rules leave no choice: a node is typed in one way. -/
theorem TypeDerivation.deterministic {scope : Scope} {session : Session} {node : Value}
    {result result' : Except Failure TypeExpr} {after after' : Session}
    {events events' : List Event}
    (derivation : TypeDerivation scope session node result after events)
    (other : TypeDerivation scope session node result' after' events') :
    result = result' ∧ after = after' ∧ events = events' := by
  induction derivation using TypeDerivation.induct generalizing result' after' events' with
  | done work =>
      cases other <;> simp_all
  | compose work steps =>
      cases other with
      | done work' => simp [work] at work'
      | compose work' steps' =>
          obtain rfl := Work.compose.inj (work.symm.trans work')
          obtain ⟨rfl, rfl, rfl⟩ := steps.deterministic
            (fun _ _ _ _ _ _ _ _ both typed' => both.choose_spec typed') steps'
          exact ⟨rfl, rfl, rfl⟩
      | declare work' _ => simp [work] at work'
      | expand work' _ => simp [work] at work'
  | declare work record =>
      cases other with
      | done work' => simp [work] at work'
      | compose work' _ => simp [work] at work'
      | declare work' record' =>
          obtain ⟨rfl, rfl, rfl⟩ := Work.declare.inj (work.symm.trans work')
          obtain ⟨rfl, rfl, rfl⟩ := record.deterministic
            (fun _ _ _ _ _ _ _ _ both typed' => both.choose_spec typed') record'
          exact ⟨rfl, rfl, rfl⟩
      | expand work' _ => simp [work] at work'
  | expand work _ ih =>
      cases other with
      | done work' => simp [work] at work'
      | compose work' _ => simp [work] at work'
      | declare work' _ => simp [work] at work'
      | expand work' inner =>
          obtain ⟨rfl, rfl⟩ := Work.expand.inj (work.symm.trans work')
          obtain ⟨rfl, rfl, rfl⟩ := ih inner
          exact ⟨rfl, rfl, rfl⟩

end ApiBinding.Synthesis
