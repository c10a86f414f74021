import ApiBinding.Proofs.Synthesis.Growth
import Mathlib.Logic.Relation

/-! Aliases: a definition that is no record is written in place, and while it is written it
degrades to a plain object where it is met again. Two runs give a node one type if they agree on
the open aliases that it meets. -/

namespace ApiBinding.Synthesis

open ApiBinding.Schema Relation

variable {scope : Scope}

/-! ## Schemas in schemas -/

/-- One schema is written in another: as a part of it, or as the target of an alias. -/
def WrittenIn (scope : Scope) (node inner : Value) : Prop :=
  (∃ composition, workOf scope .empty node = .compose composition ∧
      inner ∈ typedNodes composition.steps) ∨
    ∃ ref schema, RefersTo node ref ∧ definitionOf scope ref = .ok (.inPlace schema) ∧
      inner = .object schema

/-- An alias is met while a schema is written. -/
def MeetsAlias (scope : Scope) (node : Value) (ref : String) (schema : Mapping) : Prop :=
  ∃ holder, ReflTransGen (WrittenIn scope) node holder ∧ RefersTo holder ref ∧
    definitionOf scope ref = .ok (.inPlace schema)

/-! ## Work on references -/

theorem workOf_of_refersTo {node : Value} {ref : String} (h : RefersTo node ref)
    (session : Session) : workOf scope session node = referenceWork scope session (.text ref) := by
  obtain ⟨schema, rfl, shaped⟩ := h
  simp [workOf, shaped, shapeWork]

/-- Only the work on a reference depends on the session. -/
theorem refersTo_or_workOf_eq (scope : Scope) (node : Value) :
    (∃ ref, RefersTo node ref) ∨
      ∀ session session', workOf scope session node = workOf scope session' node := by
  cases node with
  | object schema =>
      cases shaped : shape schema with
      | error failure =>
          right
          intro session session'
          simp [workOf, shaped]
      | ok found =>
          cases found with
          | reference target =>
              cases target with
              | text ref => exact .inl ⟨ref, schema, rfl, shaped⟩
              | _ =>
                  right
                  intro session session'
                  simp [workOf, shaped, shapeWork, referenceWork]
          | _ =>
              right
              intro session session'
              simp [workOf, shaped, shapeWork]
  | _ => exact .inr fun _ _ => rfl

theorem workOf_compose_eq {session : Session} {node : Value} {composition : Composition}
    (work : workOf scope session node = .compose composition) (session' : Session) :
    workOf scope session' node = .compose composition := by
  rcases refersTo_or_workOf_eq scope node with ⟨ref, refers⟩ | same
  · rw [workOf_of_refersTo refers] at work
    exact (referenceWork_ne_compose _ _ _ _ work).elim
  · rw [same session' session, work]

/-- A session in which every reference with a name designates the record of that name. -/
def Canonical (scope : Scope) (session : Session) : Prop :=
  ∀ ref name, session.nameOf? ref = some name →
    ∃ schema, definitionOf scope ref = .ok (.record name schema)

theorem RecordDerivation.eq_reference {typed : Judgement} {result : Except Failure TypeExpr}
    {type : TypeExpr} {session : Session} {name : String} {schema : Mapping} {after : Session}
    {events : List Event}
    (derivation : RecordDerivation scope typed result session name schema after events)
    (success : result = .ok type) : type = .reference name := by
  cases derivation with
  | taken _ => exact (Except.ok.inj success).symm
  | unreadable _ _ => simp at success
  | broken _ _ _ => simp at success
  | stored _ _ _ => exact (Except.ok.inj success).symm

theorem nameOf?_of_inPlace {session : Session} (canonical : Canonical scope session)
    {ref : String} {schema : Mapping} (defined : definitionOf scope ref = .ok (.inPlace schema)) :
    session.nameOf? ref = none := by
  cases known : session.nameOf? ref with
  | none => rfl
  | some name =>
      obtain ⟨target, record⟩ := canonical ref name known
      simp [defined] at record

theorem Canonical.eq_name {session : Session} (canonical : Canonical scope session)
    {ref name own : String} {schema : Mapping}
    (defined : definitionOf scope ref = .ok (.record name schema))
    (known : session.nameOf? ref = some own) : own = name := by
  obtain ⟨target, record⟩ := canonical ref own known
  have same : name = own ∧ schema = target := by simpa [defined] using record
  exact same.1.symm

/-- An alias is written in place once on the way down. -/
theorem workOf_alias {session : Session} {node : Value} {ref : String} (refers : RefersTo node ref)
    (unnamed : session.nameOf? ref = none) {schema : Mapping}
    (defined : definitionOf scope ref = .ok (.inPlace schema)) :
    workOf scope session node =
      if ref ∈ session.inlining then .done (.ok .object) else .expand ref schema := by
  rw [workOf_of_refersTo refers, referenceWork, unnamed]
  simp only [defined]

/-- A reference to a record becomes its name, whatever was found before. -/
theorem TypeDerivation.eq_reference {session : Session} {node : Value} {ref name : String}
    {schema : Mapping} {type : TypeExpr} {after : Session} {events : List Event}
    (derivation : TypeDerivation scope session node (.ok type) after events)
    (refers : RefersTo node ref) (defined : definitionOf scope ref = .ok (.record name schema))
    (named : ∀ {own}, session.nameOf? ref = some own → own = name) : type = .reference name := by
  generalize success : Except.ok type = result at derivation
  cases derivation with
  | done work =>
      subst success
      rw [workOf_of_refersTo refers, referenceWork] at work
      split at work
      · rename_i own known
        obtain rfl := named known
        simpa using work.symm
      · simp [defined] at work
  | compose work _ =>
      rw [workOf_of_refersTo refers] at work
      exact (referenceWork_ne_compose _ _ _ _ work).elim
  | declare work record =>
      have same := record.eq_reference success.symm
      rw [workOf_of_refersTo refers] at work
      obtain ⟨own, _, record'⟩ := referenceWork_eq_declare work
      obtain rfl := Value.text.inj own
      obtain ⟨rfl, rfl⟩ : name = _ ∧ schema = _ := by simpa [defined] using record'
      exact same
  | expand work inner =>
      rw [workOf_of_refersTo refers] at work
      obtain ⟨own, _, inPlace, _⟩ := referenceWork_eq_expand work
      obtain rfl := Value.text.inj own
      simp [defined] at inPlace

/-- An open alias degrades. -/
theorem TypeDerivation.eq_object {session : Session} {node : Value} {ref : String}
    {schema : Mapping} {type : TypeExpr} {after : Session} {events : List Event}
    (derivation : TypeDerivation scope session node (.ok type) after events)
    (refers : RefersTo node ref) (unnamed : session.nameOf? ref = none)
    (defined : definitionOf scope ref = .ok (.inPlace schema)) (opened : ref ∈ session.inlining) :
    type = .object := by
  have work := workOf_alias refers unnamed defined
  rw [if_pos opened] at work
  have usual := derivation.deterministic (.done work)
  exact Except.ok.inj usual.1

/-- An alias that is not open is typed as its target. -/
theorem TypeDerivation.inside {session : Session} {node : Value} {ref : String}
    {schema : Mapping} {result : Except Failure TypeExpr} {after : Session} {events : List Event}
    (derivation : TypeDerivation scope session node result after events)
    (refers : RefersTo node ref) (unnamed : session.nameOf? ref = none)
    (defined : definitionOf scope ref = .ok (.inPlace schema)) (closed : ref ∉ session.inlining) :
    ∃ inner, TypeDerivation scope (session.openInline ref) (.object schema) result inner events ∧
      after = inner.endInline ref := by
  have usual := workOf_alias refers unnamed defined
  rw [if_neg closed] at usual
  cases derivation with
  | done work => simp [usual] at work
  | compose work _ => simp [usual] at work
  | declare work _ => simp [usual] at work
  | expand work inner =>
      obtain ⟨rfl, rfl⟩ := Work.expand.inj (usual.symm.trans work)
      exact ⟨_, inner, rfl⟩

/-! ## Two runs -/

/-- Two sessions in which the same aliases are open, of those that a node meets. -/
def Alike (scope : Scope) (session session' : Session) (node : Value) : Prop :=
  ∀ ref schema, MeetsAlias scope node ref schema →
    (ref ∈ session.inlining ↔ ref ∈ session'.inlining)

theorem Alike.inner {session session' : Session} {node inner : Value}
    (h : Alike scope session session' node) (written : WrittenIn scope node inner) :
    Alike scope session session' inner := by
  rintro ref schema ⟨holder, path, refers, defined⟩
  exact h ref schema ⟨holder, .head written path, refers, defined⟩

theorem Alike.grow {session session' after after' : Session} {node : Value}
    (h : Alike scope session session' node) (grown : session.Grows after)
    (grown' : session'.Grows after') : Alike scope after after' node := by
  intro ref schema meets
  rw [grown.inlining, grown'.inlining]
  exact h ref schema meets

theorem Alike.openInline {session session' : Session} {node : Value}
    (h : Alike scope session session' node) (ref : String) :
    Alike scope (session.openInline ref) (session'.openInline ref) node := by
  intro other schema meets
  simp only [Session.openInline, List.mem_cons]
  rw [h other schema meets]

theorem canonical_register {session : Session} (h : Canonical scope session) {ref name : String}
    {schema : Mapping} (defined : definitionOf scope ref = .ok (.record name schema)) :
    Canonical scope (session.register ref name) := by
  intro other own found
  rw [Session.nameOf?_register] at found
  split at found
  · rename_i same
    subst same
    obtain rfl := Option.some.inj found
    exact ⟨schema, defined⟩
  · exact h other own found

/-- What holds of the names of a session holds after steps that keep it. -/
theorem StepsDerivation.keepsNames {P : List (String × String) → Prop} {typed : Judgement}
    (h : ∀ {session node result after events}, typed session node result after events →
      P session.names → P after.names)
    {session : Session} {steps : List Step} {result : Except Failure (List TypeExpr)}
    {after : Session} {events : List Event}
    (derivation : StepsDerivation typed session steps result after events)
    (held : P session.names) : P after.names :=
  derivation.leads (R := fun before after => P before.names → P after.names)
    (fun _ => id) (fun first second held => second (first held)) (fun _ _ => id) h held

/-- Names are given to the references of records only. -/
theorem TypeDerivation.keepsNames {P : List (String × String) → Prop}
    (assign : ∀ {names ref name schema}, definitionOf scope ref = .ok (.record name schema) →
      P names → P (Session.assign ref name names))
    {session : Session} {node : Value} {result : Except Failure TypeExpr} {after : Session}
    {events : List Event} (derivation : TypeDerivation scope session node result after events)
    (held : P session.names) : P after.names := by
  induction derivation using TypeDerivation.induct with
  | done _ => exact held
  | compose _ steps => exact steps.keepsNames (fun both => both.choose_spec) held
  | declare work record =>
      obtain ⟨_, _, defined⟩ := workOf_eq_declare work
      have assigned := assign defined held
      cases record with
      | taken _ => exact assigned
      | unreadable _ _ => exact assigned
      | broken _ _ steps => exact steps.keepsNames (fun both => both.choose_spec) assigned
      | stored _ _ steps => exact steps.keepsNames (fun both => both.choose_spec) assigned
  | expand _ _ ih => exact ih held

theorem StepsDerivation.canonical {typed : Judgement}
    (h : ∀ {session node result after events}, typed session node result after events →
      Canonical scope session → Canonical scope after)
    {session : Session} {steps : List Step} {result : Except Failure (List TypeExpr)}
    {after : Session} {events : List Event}
    (derivation : StepsDerivation typed session steps result after events)
    (canonical : Canonical scope session) : Canonical scope after := by
  refine derivation.keepsNames
    (P := fun names => Canonical scope { Session.empty with names := names }) ?_ canonical
  intro session node result after events typed
  exact @h session node result after events typed

theorem TypeDerivation.canonical {session : Session} {node : Value}
    {result : Except Failure TypeExpr} {after : Session} {events : List Event}
    (derivation : TypeDerivation scope session node result after events)
    (canonical : Canonical scope session) : Canonical scope after :=
  derivation.keepsNames (P := fun names => Canonical scope { Session.empty with names := names })
    (fun defined held => canonical_register held defined) canonical

/-- Two judgements that give one type where the same aliases are open. -/
def Judgement.Congruent (scope : Scope) (typed typed' : Judgement) : Prop :=
  ∀ ⦃session session' node type type' after after' events events'⦄,
    typed session node (.ok type) after events →
    typed' session' node (.ok type') after' events' →
    Canonical scope session → Canonical scope session' → Alike scope session session' node →
    type = type'

theorem StepsDerivation.congr {typed typed' : Judgement}
    (congruent : Judgement.Congruent scope typed typed')
    (follows : ∀ {session node result after events}, typed session node result after events →
      TypeDerivation scope session node result after events)
    {placement : Option Placement}
    (follows' : ∀ {session node result after events}, typed' session node result after events →
      TypeDerivation { scope with placement := placement } session node result after events)
    {session session' : Session} {steps : List Step}
    {result result' : Except Failure (List TypeExpr)} {types types' : List TypeExpr}
    {after after' : Session} {events events' : List Event}
    (derivation : StepsDerivation typed session steps result after events)
    (other : StepsDerivation typed' session' steps result' after' events')
    (success : result = .ok types) (success' : result' = .ok types')
    (canonical : Canonical scope session) (canonical' : Canonical scope session')
    (alike : ∀ node ∈ typedNodes steps, Alike scope session session' node) :
    types = types' := by
  induction derivation generalizing session' result' types types' after' events' with
  | nil session =>
      cases other
      rw [← Except.ok.inj success, ← Except.ok.inj success']
  | skip _ ih =>
      cases other with
      | skip rest => exact ih rest success success' canonical canonical' alike
  | stop _ => simp at success
  | refuse _ _ => simp at success
  | @next _ node _ _ type middle result _ _ _ typed _ _ ih =>
      cases other with
      | stop _ => simp at success'
      | refuse _ _ => simp at success'
      | @next _ _ _ _ type' middle' result' _ _ _ typed' _ rest' =>
          cases result with
          | error failure => simp [Except.map] at success
          | ok found =>
              cases result' with
              | error failure => simp [Except.map] at success'
              | ok found' =>
                  obtain rfl : type :: found = types := by simpa [Except.map] using success
                  obtain rfl : type' :: found' = types' := by simpa [Except.map] using success'
                  have here := congruent typed typed' canonical canonical'
                    (alike node (by simp [typedNodes]))
                  have grown := (follows typed).grows
                  have grown' := (follows' typed').grows
                  have others := ih rest' rfl rfl ((follows typed).canonical canonical)
                    ((follows' typed').canonical canonical') fun part member =>
                      (alike part (by simp [typedNodes, member])).grow grown grown'
                  rw [here, others]

/-- Two runs give a node one type if they agree on the open aliases that it meets. Neither the
names given so far nor the records stored so far matter. -/
theorem TypeDerivation.congr {placement : Option Placement} {session session' : Session}
    {node : Value} {result : Except Failure TypeExpr} {type type' : TypeExpr}
    {after after' : Session} {events events' : List Event}
    (derivation : TypeDerivation scope session node result after events)
    (success : result = .ok type)
    (other : TypeDerivation { scope with placement := placement } session' node (.ok type') after'
      events')
    (canonical : Canonical scope session) (canonical' : Canonical scope session')
    (alike : Alike scope session session' node) : type = type' := by
  induction derivation using TypeDerivation.induct generalizing session' type type' after'
    events' with
  | @done session node result work =>
      subst success
      have here : TypeDerivation scope session node (.ok type) session [] := .done work
      rcases refersTo_or_workOf_eq scope node with ⟨ref, refers⟩ | same
      · cases defined : definitionOf scope ref with
        | error failure =>
            rw [workOf_of_refersTo refers, referenceWork] at work
            split at work
            · rename_i name known
              obtain ⟨schema, record⟩ := canonical ref name known
              simp [defined] at record
            · simp [defined] at work
        | ok definition =>
            cases definition with
            | record name schema =>
                rw [here.eq_reference refers defined (canonical.eq_name defined),
                  other.eq_reference refers defined (canonical'.eq_name defined)]
            | inPlace schema =>
                have unnamed := nameOf?_of_inPlace canonical defined
                have unnamed' := nameOf?_of_inPlace canonical' defined
                have opened : ref ∈ session.inlining := by
                  by_cases opened : ref ∈ session.inlining
                  · exact opened
                  · simp [workOf_alias refers unnamed defined, opened] at work
                have opened' := (alike ref schema ⟨node, .refl, refers, defined⟩).mp opened
                rw [here.eq_object refers unnamed defined opened,
                  other.eq_object refers unnamed' defined opened']
      · rw [same session session'] at work
        exact (Except.ok.inj (other.deterministic (.done work)).1).symm
  | @compose session node composition result after events work steps =>
      have usual : workOf { scope with placement := placement } session' node =
          .compose composition := workOf_compose_eq work session'
      generalize success' : Except.ok type' = result' at other
      cases other with
      | done work' => simp [usual] at work'
      | declare work' _ => simp [usual] at work'
      | expand work' _ => simp [usual] at work'
      | @compose _ _ _ result' _ _ work' steps' =>
          obtain rfl := Work.compose.inj (usual.symm.trans work')
          cases result with
          | error failure => simp [Except.map] at success
          | ok types =>
              cases result' with
              | error failure => simp [Except.map] at success'
              | ok types' =>
                  obtain rfl : composition.build types = type := by
                    simpa [Except.map] using success
                  obtain rfl : type' = composition.build types' := by
                    simpa [Except.map] using success'
                  have parts := steps.congr
                    (fun _ _ _ _ _ _ _ _ _ both typed' => both.choose_spec rfl typed')
                    Exists.choose id steps' rfl rfl canonical canonical' fun part member =>
                      alike.inner (.inl ⟨composition, workOf_compose_eq work .empty, member⟩)
                  rw [parts]
  | @declare session node ref name schema result after events work record =>
      obtain ⟨refers, _, defined⟩ := workOf_eq_declare work
      rw [record.eq_reference success,
        other.eq_reference refers defined (canonical'.eq_name defined)]
  | @expand session node ref schema result after events work inner ih =>
      obtain ⟨refers, _, defined, closed⟩ := workOf_eq_expand work
      have closed' : ref ∉ session'.inlining := by
        rwa [← alike ref schema ⟨node, .refl, refers, defined⟩]
      obtain ⟨inner', derivation', -⟩ :=
        other.inside refers (nameOf?_of_inPlace canonical' defined) defined closed'
      have alike' := (alike.inner (.inr ⟨ref, schema, refers, defined, rfl⟩)).openInline ref
      exact ih success derivation' canonical canonical' alike'

end ApiBinding.Synthesis
