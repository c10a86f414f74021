import ApiBinding.Proofs.Synthesis.Plan
import ApiBinding.Proofs.Value.Writable
import ApiBinding.Record.Equations

/-! What typing a node comes to: a result at once, the steps of a composite schema, a record to
declare, or a definition to write in place. -/

namespace ApiBinding

/-- The session after a name was reserved. -/
def Session.reserve (session : Session) (name : String) : Session :=
  { session with catalog := (session.catalog.reserve name).2 }

/-- The session after a record was stored. -/
def Session.store (session : Session) (record : Record TypeExpr) : Session :=
  { session with catalog := (session.catalog.add record).2 }

/-- The session while the target of a reference is written in place. -/
def Session.openInline (session : Session) (ref : String) : Session :=
  { session with inlining := ref :: session.inlining }

end ApiBinding

namespace ApiBinding.Synthesis

open ApiBinding.Schema

/-- The steps of a composite schema, and what becomes of the types found. -/
structure Composition where
  steps : List Step
  build : List TypeExpr → TypeExpr

/-- The steps that type every node of a list. -/
def plainSteps (nodes : List Value) : List Step :=
  nodes.map (.type · fun _ => none)

def objectOf (requirement : Requirement) (properties : Mapping) (types : List TypeExpr) :
    TypeExpr :=
  match membersOf requirement properties types with
  | [] => .object
  | members => .struct members

/-- What the target of a reference becomes: a record with a name, or a type written in place. -/
inductive Definition where
  | record (name : String) (schema : Mapping)
  | inPlace (schema : Mapping)

/-- The definition that a reference designates. -/
def definitionOf (scope : Scope) (ref : String) : Except Failure Definition := do
  let schema ← scope.table.resolve ref
  if ← isRecordShaped scope.table (.object schema) then
    let key ← scope.table.keyOf ref
    .ok (.record (Name.ofDefinition scope.lexicon scope.options key) schema)
  else .ok (.inPlace schema)

inductive Work where
  | done (result : Except Failure TypeExpr)
  | compose (composition : Composition)
  | declare (ref name : String) (schema : Mapping)
  | expand (ref : String) (schema : Mapping)

def referenceWork (scope : Scope) (session : Session) : Value → Work
  | .text ref =>
    match session.nameOf? ref with
    | some name => .done (.ok (.reference name))
    | none =>
      match definitionOf scope ref with
      | .error failure => .done (.error failure)
      | .ok (.record name schema) => .declare ref name schema
      | .ok (.inPlace schema) =>
        if ref ∈ session.inlining then .done (.ok .object) else .expand ref schema
  | other => .done (.error (.fault (.referenceNotText other.kindName)))

def shapeWork (scope : Scope) (session : Session) : Shape → Work
  | .reference target => referenceWork scope session target
  | .leaf type => .done (.ok type)
  | .array items => .compose ⟨plainSteps [items], fun types => .array (types.headD .object)⟩
  | .tuple elements => .compose ⟨plainSteps elements, .tuple⟩
  | .union members => .compose ⟨plainSteps members, unionOf⟩
  | .intersection members => .compose ⟨plainSteps members, .intersection⟩
  | .object properties requirement =>
    .compose ⟨memberSteps properties, objectOf requirement properties⟩

/-- The work on a node in a session. -/
def workOf (scope : Scope) (session : Session) : Value → Work
  | .null => .done (.ok .object)
  | .object schema =>
    match shape schema with
    | .error failure => .done (.error failure)
    | .ok shape => shapeWork scope session shape
  | other => .done (other.shown.map .verbatim)

/-! ## Computation rules -/

/-- A name that is taken keeps its record. Otherwise the fields are typed after the name is
reserved and before the record is stored. -/
theorem outcome_declareWith (scope : Scope) (typing : Typing) (name : String) (schema : Mapping)
    (session : Session) :
    outcome (declareWith scope typing name schema) session =
      if session.catalog.mentions name then (.ok (.reference name), session)
      else
        match flatten scope.table schema with
        | .error failure => (.error failure, session.reserve name)
        | .ok flat =>
          match outcome (typeAll typing (fieldSteps name flat.properties))
              (session.reserve name) with
          | (.error failure, after) => (.error failure, after)
          | (.ok types, after) => (.ok (.reference name),
              after.store ⟨name, (schema.field "description").text?,
                fieldsOf flat.requirement flat.properties types, scope.placement⟩) := by
  rw [declareWith, outcome_bind, outcome_reserve, Catalog.reserve_eq]
  by_cases taken : session.catalog.mentions name = true
  · simp [taken]
  · simp only [taken, Bool.not_false, if_true, if_false, Bool.false_eq_true]
    rw [outcome_bind, outcome_lift]
    have reserved : { session with catalog :=
        ⟨session.catalog.slots ++ [(name, none)]⟩ } = session.reserve name := by
      simp [Session.reserve, Catalog.reserve_eq, taken]
    rw [reserved]
    cases flatten scope.table schema with
    | error failure => rfl
    | ok flat =>
        dsimp only
        rw [outcome_bind, outcome_fieldsWith]
        generalize outcome (typeAll typing (fieldSteps name flat.properties))
          (session.reserve name) = found
        obtain ⟨result, after⟩ := found
        cases result <;> rfl

theorem outcome_inlineWith (typing : Typing) (ref : String) (schema : Mapping)
    (session : Session) :
    outcome (inlineWith typing ref schema) session =
      if ref ∈ session.inlining then (.ok .object, session)
      else
        ((outcome (typing (.object schema)) (session.openInline ref)).1,
          (outcome (typing (.object schema)) (session.openInline ref)).2.endInline ref) := by
  by_cases reentered : ref ∈ session.inlining
  · simp [inlineWith, outcome, Session.beginInline, reentered]
  · have opened : session.beginInline ref = (true, session.openInline ref) := by
      simp [Session.beginInline, Session.openInline, reentered]
    rw [if_neg reentered]
    show inlineWith typing ref schema session = _
    simp only [inlineWith, opened]
    rfl

theorem outcome_targetType (scope : Scope) (typing : Typing) (ref : String)
    (session : Session) :
    outcome (targetType scope typing ref) session =
      match definitionOf scope ref with
      | .error failure => (.error failure, session)
      | .ok (.record name schema) =>
        outcome (declareWith scope typing name schema) (session.register ref name)
      | .ok (.inPlace schema) => outcome (inlineWith typing ref schema) session := by
  rw [targetType, outcome_bind, outcome_lift]
  cases resolved : scope.table.resolve ref with
  | error failure => simp only [definitionOf, resolved, bind, Except.bind]
  | ok schema =>
      dsimp only
      rw [outcome_bind, outcome_lift]
      cases shaped : isRecordShaped scope.table (.object schema) with
      | error failure => simp only [definitionOf, resolved, shaped, bind, Except.bind]
      | ok recordShaped =>
          cases recordShaped with
          | false => simp [definitionOf, resolved, shaped, bind, Except.bind]
          | true =>
              dsimp only
              rw [if_pos rfl, outcome_bind, outcome_lift]
              cases keyed : scope.table.keyOf ref with
              | error failure => simp [definitionOf, resolved, shaped, keyed, bind, Except.bind]
              | ok key =>
                  dsimp only
                  rw [outcome_bind, outcome_modify]
                  simp [definitionOf, resolved, shaped, keyed, bind, Except.bind]

theorem outcome_referenceType (scope : Scope) (typing : Typing) (target : Value)
    (session : Session) :
    outcome (referenceType scope typing target) session =
      match referenceWork scope session target with
      | .done result => (result, session)
      | .compose composition =>
        mapResult composition.build (outcome (typeAll typing composition.steps) session)
      | .declare ref name schema =>
        outcome (declareWith scope typing name schema) (session.register ref name)
      | .expand ref schema => outcome (inlineWith typing ref schema) session := by
  cases target with
  | text ref =>
      cases known : session.nameOf? ref with
      | some name =>
          rw [outcome_referenceType_of_named scope typing known]
          simp [referenceWork, known]
      | none =>
          rw [outcome_referenceType_of_unnamed scope typing known, outcome_targetType]
          simp only [referenceWork, known]
          cases definitionOf scope ref with
          | error failure => rfl
          | ok definition =>
              cases definition with
              | record name schema => rfl
              | inPlace schema =>
                  by_cases reentered : ref ∈ session.inlining
                  · simp [outcome_inlineWith, reentered]
                  · simp [reentered]
  | _ => rfl

theorem outcome_shapeType (scope : Scope) (typing : Typing) (shape : Shape)
    (session : Session) :
    outcome (shapeType scope typing shape) session =
      match shapeWork scope session shape with
      | .done result => (result, session)
      | .compose composition =>
        mapResult composition.build (outcome (typeAll typing composition.steps) session)
      | .declare ref name schema =>
        outcome (declareWith scope typing name schema) (session.register ref name)
      | .expand ref schema => outcome (inlineWith typing ref schema) session := by
  cases shape with
  | reference target => exact outcome_referenceType scope typing target session
  | leaf type => rfl
  | array items =>
      simp only [shapeType, shapeWork, outcome_bind_pure, plainSteps, List.map_cons, List.map_nil]
      rw [outcome_typeAll_type]
      cases outcome (typing items) session with
      | mk result after => cases result <;> rfl
  | tuple elements => simp only [shapeType, shapeWork, outcome_bind_pure, outcome_mapM, plainSteps]
  | union members => simp only [shapeType, shapeWork, outcome_bind_pure, outcome_mapM, plainSteps]
  | intersection members =>
      simp only [shapeType, shapeWork, outcome_bind_pure, outcome_mapM, plainSteps]
  | object properties requirement =>
      simp only [shapeType, shapeWork]
      rw [outcome_bind, outcome_membersWith]
      generalize outcome (typeAll typing (memberSteps properties)) session = found
      obtain ⟨result, after⟩ := found
      cases result with
      | error failure => rfl
      | ok types =>
          simp only [mapResult, Except.map, objectOf]
          cases membersOf requirement properties types <;> rfl

/-- A value that is no schema is copied, or it cannot be shown. -/
theorem outcome_copied (node : Value) (session : Session) :
    outcome (do return TypeExpr.verbatim (← lift node.shown)) session =
      (node.shown.map .verbatim, session) := by
  rw [outcome_bind_pure, outcome_lift]
  rfl

/-- One step of typing does the work on its node. -/
theorem outcome_typeStep (scope : Scope) (typing : Typing) (node : Value) (session : Session) :
    outcome (typeStep scope typing node) session =
      match workOf scope session node with
      | .done result => (result, session)
      | .compose composition =>
        mapResult composition.build (outcome (typeAll typing composition.steps) session)
      | .declare ref name schema =>
        outcome (declareWith scope typing name schema) (session.register ref name)
      | .expand ref schema => outcome (inlineWith typing ref schema) session := by
  cases node with
  | object schema =>
      rw [typeStep, outcome_bind, outcome_lift, workOf]
      cases shape schema with
      | error failure => rfl
      | ok shape => exact outcome_shapeType scope typing shape session
  | null => rfl
  | _ => exact outcome_copied _ session

/-! ## What the work tells about the node -/

/-- Where the definition that a reference designates comes from. -/
inductive DefinitionRule (scope : Scope) (ref : String) : Definition → Prop where
  | record {schema key} : scope.table.resolve ref = .ok schema →
      isRecordShaped scope.table (.object schema) = .ok true → scope.table.keyOf ref = .ok key →
      DefinitionRule scope ref (.record (Name.ofDefinition scope.lexicon scope.options key) schema)
  | inPlace {schema} : scope.table.resolve ref = .ok schema →
      isRecordShaped scope.table (.object schema) = .ok false →
      DefinitionRule scope ref (.inPlace schema)

theorem definitionOf_eq_ok {scope : Scope} {ref : String} {definition : Definition}
    (h : definitionOf scope ref = .ok definition) : DefinitionRule scope ref definition := by
  rw [definitionOf] at h
  cases resolved : scope.table.resolve ref with
  | error failure => simp [resolved, bind, Except.bind] at h
  | ok schema =>
      cases shaped : isRecordShaped scope.table (.object schema) with
      | error failure => simp [resolved, shaped, bind, Except.bind] at h
      | ok recordShaped =>
          cases recordShaped with
          | false =>
              obtain rfl : Definition.inPlace schema = definition := by
                simpa [resolved, shaped, bind, Except.bind] using h
              exact .inPlace resolved shaped
          | true =>
              cases keyed : scope.table.keyOf ref with
              | error failure => simp [resolved, shaped, keyed, bind, Except.bind] at h
              | ok key =>
                  obtain rfl : Definition.record _ schema = definition := by
                    simpa [resolved, shaped, keyed, bind, Except.bind] using h
                  exact .record resolved shaped keyed

/-- Whether a node refers to a text. -/
def RefersTo (node : Value) (ref : String) : Prop :=
  ∃ schema, node = .object schema ∧ shape schema = .ok (.reference (.text ref))

theorem referenceWork_eq_declare {scope : Scope} {session : Session} {target : Value}
    {ref name : String} {schema : Mapping}
    (work : referenceWork scope session target = .declare ref name schema) :
    target = .text ref ∧ session.nameOf? ref = none ∧
      definitionOf scope ref = .ok (.record name schema) := by
  cases target with
  | text own =>
      simp only [referenceWork] at work
      split at work
      · simp at work
      · rename_i unnamed
        split at work
        · simp at work
        · rename_i defined
          obtain ⟨rfl, rfl, rfl⟩ := Work.declare.inj work
          exact ⟨rfl, unnamed, defined⟩
        · split at work <;> simp at work
  | _ => simp [referenceWork] at work

theorem referenceWork_eq_expand {scope : Scope} {session : Session} {target : Value}
    {ref : String} {schema : Mapping}
    (work : referenceWork scope session target = .expand ref schema) :
    target = .text ref ∧ session.nameOf? ref = none ∧
      definitionOf scope ref = .ok (.inPlace schema) ∧ ref ∉ session.inlining := by
  cases target with
  | text own =>
      simp only [referenceWork] at work
      split at work
      · simp at work
      · rename_i unnamed
        split at work
        · simp at work
        · simp at work
        · rename_i defined
          split at work
          · simp at work
          · rename_i closed
            obtain ⟨rfl, rfl⟩ := Work.expand.inj work
            exact ⟨rfl, unnamed, defined, closed⟩
  | _ => simp [referenceWork] at work

theorem referenceWork_ne_compose (scope : Scope) (session : Session) (target : Value)
    (composition : Composition) : referenceWork scope session target ≠ .compose composition := by
  cases target with
  | text ref =>
      simp only [referenceWork]
      repeat' split
      all_goals simp
  | _ => simp [referenceWork]

/-- What a composite shape comes to. -/
inductive ComposeRule : Shape → Composition → Prop where
  | array (items) :
      ComposeRule (.array items) ⟨plainSteps [items], fun types => .array (types.headD .object)⟩
  | tuple (elements) : ComposeRule (.tuple elements) ⟨plainSteps elements, .tuple⟩
  | union (members) : ComposeRule (.union members) ⟨plainSteps members, unionOf⟩
  | intersection (members) :
      ComposeRule (.intersection members) ⟨plainSteps members, .intersection⟩
  | object (properties requirement) :
      ComposeRule (.object properties requirement)
        ⟨memberSteps properties, objectOf requirement properties⟩

/-- Only a composite schema is composed. -/
theorem workOf_eq_compose {scope : Scope} {session : Session} {node : Value}
    {composition : Composition} (work : workOf scope session node = .compose composition) :
    ∃ schema found, node = .object schema ∧ shape schema = .ok found ∧
      ComposeRule found composition := by
  cases node with
  | object schema =>
      simp only [workOf] at work
      split at work
      · simp at work
      · rename_i found shaped
        refine ⟨schema, found, rfl, shaped, ?_⟩
        cases found with
        | reference target => exact (referenceWork_ne_compose _ _ _ _ work).elim
        | leaf type => simp [shapeWork] at work
        | array items =>
            obtain rfl := Work.compose.inj work
            exact .array items
        | tuple elements =>
            obtain rfl := Work.compose.inj work
            exact .tuple elements
        | union members =>
            obtain rfl := Work.compose.inj work
            exact .union members
        | intersection members =>
            obtain rfl := Work.compose.inj work
            exact .intersection members
        | object properties requirement =>
            obtain rfl := Work.compose.inj work
            exact .object properties requirement
  | _ => simp [workOf] at work

/-- How the work on a node can be done at once. -/
inductive DoneRule (scope : Scope) (session : Session) :
    Value → Except Failure TypeExpr → Prop where
  | missing : DoneRule scope session .null (.ok .object)
  | copied {node text} : node.shown = .ok text → DoneRule scope session node (.ok (.verbatim text))
  | unshown {node} : node.object? = none → node.HasLongInteger →
      DoneRule scope session node (.error (.defect .integerTooLong))
  | malformed {schema failure} : shape schema = .error failure →
      DoneRule scope session (.object schema) (.error failure)
  | leaf {schema type} : shape schema = .ok (.leaf type) →
      DoneRule scope session (.object schema) (.ok type)
  | notText (schema : Mapping) (target : Value) :
      DoneRule scope session (.object schema)
        (.error (.fault (.referenceNotText target.kindName)))
  | named {node ref name} : RefersTo node ref → session.nameOf? ref = some name →
      DoneRule scope session node (.ok (.reference name))
  | unknown {node ref failure} : RefersTo node ref → definitionOf scope ref = .error failure →
      DoneRule scope session node (.error failure)
  | reentered {node ref schema} : RefersTo node ref →
      definitionOf scope ref = .ok (.inPlace schema) → ref ∈ session.inlining →
      DoneRule scope session node (.ok .object)

theorem doneRule_of_shown (scope : Scope) (session : Session) {node : Value}
    (plain : node.object? = none) :
    DoneRule scope session node (node.shown.map .verbatim) := by
  cases shown : node.shown with
  | ok text => exact .copied shown
  | error failure =>
      obtain ⟨rfl, long⟩ := Value.shown_eq_error shown
      exact .unshown plain long

theorem doneRule_of_referenceWork {scope : Scope} {session : Session} {schema : Mapping}
    {target : Value} {result : Except Failure TypeExpr}
    (shaped : shape schema = .ok (.reference target))
    (work : referenceWork scope session target = .done result) :
    DoneRule scope session (.object schema) result := by
  cases target with
  | text ref =>
      have refers : RefersTo (.object schema) ref := ⟨schema, rfl, shaped⟩
      simp only [referenceWork] at work
      split at work
      · rename_i name known
        obtain rfl := Work.done.inj work
        exact .named refers known
      · split at work
        · rename_i failure unresolved
          obtain rfl := Work.done.inj work
          exact .unknown refers unresolved
        · simp at work
        · rename_i target defined
          split at work
          · rename_i opened
            obtain rfl := Work.done.inj work
            exact .reentered refers defined opened
          · simp at work
  | _ =>
      obtain rfl := Work.done.inj work
      exact .notText schema _

theorem workOf_eq_done {scope : Scope} {session : Session} {node : Value}
    {result : Except Failure TypeExpr} (work : workOf scope session node = .done result) :
    DoneRule scope session node result := by
  cases node with
  | object schema =>
      simp only [workOf] at work
      split at work
      · rename_i failure shaped
        obtain rfl := Work.done.inj work
        exact .malformed shaped
      · rename_i found shaped
        cases found with
        | reference target => exact doneRule_of_referenceWork shaped work
        | leaf type =>
            obtain rfl := Work.done.inj work
            exact .leaf shaped
        | _ => simp [shapeWork] at work
  | null =>
      obtain rfl := Work.done.inj work
      exact .missing
  | _ =>
      obtain rfl := Work.done.inj work
      exact doneRule_of_shown scope session rfl

/-- Only a reference without a name is declared, and only as the record that it designates. -/
theorem workOf_eq_declare {scope : Scope} {session : Session} {node : Value}
    {ref name : String} {schema : Mapping}
    (work : workOf scope session node = .declare ref name schema) :
    RefersTo node ref ∧ session.nameOf? ref = none ∧
      definitionOf scope ref = .ok (.record name schema) := by
  cases node with
  | object own =>
      simp only [workOf] at work
      split at work
      · simp at work
      · rename_i found shaped
        cases found with
        | reference target =>
            obtain ⟨rfl, unnamed, defined⟩ := referenceWork_eq_declare work
            exact ⟨⟨own, rfl, shaped⟩, unnamed, defined⟩
        | _ => simp [shapeWork] at work
  | _ => simp [workOf] at work

/-- Only a reference that has no name and is not open is written in place. -/
theorem workOf_eq_expand {scope : Scope} {session : Session} {node : Value}
    {ref : String} {schema : Mapping}
    (work : workOf scope session node = .expand ref schema) :
    RefersTo node ref ∧ session.nameOf? ref = none ∧
      definitionOf scope ref = .ok (.inPlace schema) ∧ ref ∉ session.inlining := by
  cases node with
  | object own =>
      simp only [workOf] at work
      split at work
      · simp at work
      · rename_i found shaped
        cases found with
        | reference target =>
            obtain ⟨rfl, unnamed, defined, closed⟩ := referenceWork_eq_expand work
            exact ⟨⟨own, rfl, shaped⟩, unnamed, defined, closed⟩
        | _ => simp [shapeWork] at work
  | _ => simp [workOf] at work

end ApiBinding.Synthesis
