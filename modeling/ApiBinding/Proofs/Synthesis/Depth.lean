import ApiBinding.Proofs.Schema.Shape
import ApiBinding.Proofs.Synthesis.Growth

/-! The typing of a node has a derivation, on every definition table and in every session: the
bound on the depth of the recursion is never used up. -/

namespace ApiBinding.Synthesis

open ApiBinding.Schema

variable {scope : Scope} {pool : List String} {limit : Nat}

/-! ## Nodes of steps -/

theorem typedNodes_plainSteps (nodes : List Value) : typedNodes (plainSteps nodes) = nodes := by
  induction nodes with
  | nil => rfl
  | cons node rest ih => simpa [plainSteps, typedNodes] using ih

theorem typedNodes_propertySteps (warning : Key → Warning)
    (refusal : Key → TypeExpr → Option Failure) (properties : Mapping) :
    typedNodes (properties.map (propertyStep warning refusal)) =
      (properties.map (·.2)).filter isTyped := by
  induction properties with
  | nil => rfl
  | cons entry rest ih =>
      by_cases typed : isTyped entry.2 = true <;>
        simp [propertyStep, typed, typedNodes, ih]

/-- A composition types schemas that its node leads to without a reference. -/
theorem nodes_of_compose {session : Session} {node : Value} {composition : Composition}
    (work : workOf scope session node = .compose composition) :
    ∃ schema found, node = .object schema ∧ shape schema = .ok found ∧
      typedNodes composition.steps ⊆ found.nodes := by
  obtain ⟨schema, found, rfl, shaped, rule⟩ := workOf_eq_compose work
  refine ⟨schema, found, rfl, shaped, ?_⟩
  intro part member
  cases rule with
  | object properties requirement =>
      rw [memberSteps, typedNodes_propertySteps] at member
      exact (List.mem_filter.mp member).1
  | _ => rwa [typedNodes_plainSteps] at member

/-- A composition types parts of its node. -/
theorem partOf_compose {session : Session} {node : Value} {composition : Composition}
    (work : workOf scope session node = .compose composition)
    (within : node.Within pool limit) {part : Value}
    (member : part ∈ typedNodes composition.steps) : PartOf pool limit node part := by
  obtain ⟨schema, found, rfl, shaped, nodes⟩ := nodes_of_compose work
  exact partOf_shape within shaped (nodes member)

/-! ## Definitions -/

theorem definitionOf_reached (scope : Scope) (ref : String) :
    definitionOf scope ref ≠ .error (.defect .depthExhausted) := by
  have resolving := resolve_reached scope.table ref
  have keying := keyOf_reached scope.table ref
  unfold definitionOf
  cases resolved : scope.table.resolve ref with
  | error failure => simpa [resolved, bind, Except.bind] using resolving
  | ok schema =>
      have shaping := (isRecordShaped_settled scope.table (.object schema) (le_refl _)).reached
      simp only [bind, Except.bind]
      cases shaped : isRecordShaped scope.table (.object schema) with
      | error failure => simpa [shaped] using shaping
      | ok recordShaped =>
          cases recordShaped with
          | false => simp
          | true =>
              cases keyed : scope.table.keyOf ref with
              | error failure => simpa [keyed] using keying
              | ok key => simp

/-- What a reference designates is the schema that it points at. -/
theorem resolve_of_definition {ref : String} {schema : Mapping}
    (h : definitionOf scope ref = .ok (.inPlace schema) ∨
      ∃ name, definitionOf scope ref = .ok (.record name schema)) :
    scope.table.resolve ref = .ok schema := by
  rcases h with h | ⟨name, h⟩
  · cases definitionOf_eq_ok h with
    | inPlace resolved _ => exact resolved
  · cases definitionOf_eq_ok h with
    | record resolved _ _ => exact resolved

/-- The target of a reference is a definition of the table. -/
theorem within_definition (bounded : Bounded pool limit scope.table) {ref : String}
    {schema : Mapping} (h : definitionOf scope ref = .ok (.inPlace schema) ∨
      ∃ name, definitionOf scope ref = .ok (.record name schema)) :
    (Value.object schema).Within pool limit := by
  obtain ⟨key, member⟩ := mem_of_resolve (resolve_of_definition h)
  exact bounded _ member

theorem mem_pool_of_refersTo {node : Value} {ref : String} (within : node.Within pool limit)
    (h : RefersTo node ref) : ref ∈ pool := by
  obtain ⟨schema, rfl, shaped⟩ := h
  exact mem_pool_of_ref within (by simp [Mapping.field, find?_of_shape shaped])

/-! ## References left -/

/-- How often a reference can still be named or opened: each at most once on the way down. -/
def unvisited (pool : List String) (session : Session) : Nat :=
  unmet pool (fun ref => (session.nameOf? ref).isSome) + unmet pool session.inlining.contains

theorem unvisited_le (pool : List String) (session : Session) :
    unvisited pool session ≤ 2 * pool.length := by
  have := unmet_le_length pool fun ref => (session.nameOf? ref).isSome
  have := unmet_le_length pool session.inlining.contains
  unfold unvisited
  omega

theorem unmet_names_mono (pool : List String) {before after : Session} (h : before.Grows after) :
    unmet pool (fun ref => (after.nameOf? ref).isSome) ≤
      unmet pool (fun ref => (before.nameOf? ref).isSome) := by
  apply unmet_mono
  intro ref known
  obtain ⟨name, found⟩ := Option.isSome_iff_exists.mp known
  simp [h.names found]

theorem unvisited_mono (pool : List String) {before after : Session} (h : before.Grows after) :
    unvisited pool after ≤ unvisited pool before := by
  have := unmet_names_mono pool h
  unfold unvisited
  rw [h.inlining]
  omega

theorem unvisited_register_lt {session : Session} {ref : String} (name : String)
    (member : ref ∈ pool) (unnamed : session.nameOf? ref = none) :
    unvisited pool (session.register ref name) < unvisited pool session := by
  have fewer : unmet pool (fun other => ((session.register ref name).nameOf? other).isSome) <
      unmet pool (fun other => (session.nameOf? other).isSome) := by
    refine unmet_lt ?_ member (by simp [unnamed]) (by simp [Session.nameOf?_register])
    intro other known
    rw [Session.nameOf?_register]
    split <;> simp [known]
  have same : (session.register ref name).inlining = session.inlining := rfl
  unfold unvisited
  rw [same]
  omega

theorem unvisited_openInline_lt {session : Session} {ref : String} (member : ref ∈ pool)
    (closed : ref ∉ session.inlining) :
    unvisited pool (session.openInline ref) < unvisited pool session := by
  have fewer : unmet pool (session.openInline ref).inlining.contains <
      unmet pool session.inlining.contains := by
    refine unmet_lt ?_ member (by simpa using closed) (by simp [Session.openInline])
    intro other known
    simp only [List.contains_iff_mem] at known ⊢
    exact List.mem_cons_of_mem _ known
  have same : (session.openInline ref).nameOf? = session.nameOf? := rfl
  unfold unvisited
  rw [same]
  omega

/-! ## Existence -/

/-- A way of typing that follows the rules on a node, from a session on. -/
def Follows (scope : Scope) (typing : Typing) (start : Session) (node : Value) : Prop :=
  ∀ ⦃session⦄, start.Grows session → ∃ events,
    TypeDerivation scope session node (outcome (typing node) session).1
      (outcome (typing node) session).2 events

theorem typeAll_derivation {typing : Typing} {steps : List Step} {session : Session}
    (h : ∀ node ∈ typedNodes steps, Follows scope typing session node) :
    ∃ events, StepsDerivation (TypeDerivation scope) session steps
      (outcome (typeAll typing steps) session).1 (outcome (typeAll typing steps) session).2
      events := by
  induction steps generalizing session with
  | nil => exact ⟨[], .nil session⟩
  | cons step rest ih =>
      cases step with
      | skip warning =>
          obtain ⟨events, derivation⟩ := @ih (session.warn warning)
            fun node member _ grown => h node member ((session.grows_warn warning).trans grown)
          rw [outcome_typeAll_skip]
          exact ⟨events, .skip derivation⟩
      | type node refusal =>
          obtain ⟨events, typed⟩ := h node (by simp [typedNodes]) (.refl session)
          rw [outcome_typeAll_type]
          generalize outcome (typing node) session = first at typed
          obtain ⟨result, middle⟩ := first
          cases result with
          | error failure => exact ⟨events, .stop typed⟩
          | ok type =>
              dsimp only
              cases refused : refusal type with
              | some failure => exact ⟨events, .refuse typed refused⟩
              | none =>
                  obtain ⟨later, others⟩ := @ih middle fun other member _ grown =>
                    h other (by simp [typedNodes, member]) (typed.grows.trans grown)
                  exact ⟨events ++ later, .next typed refused others⟩

theorem declareWith_derivation {typing : Typing} {name : String} {schema : Mapping}
    {session : Session}
    (h : ∀ flat, flatten scope.table schema = .ok flat →
      ∀ node ∈ typedNodes (fieldSteps name flat.properties),
        Follows scope typing (session.reserve name) node) :
    ∃ events, RecordDerivation scope (TypeDerivation scope)
      (outcome (declareWith scope typing name schema) session).1 session name schema
      (outcome (declareWith scope typing name schema) session).2 events := by
  rw [outcome_declareWith]
  cases taken : session.catalog.mentions name with
  | true => exact ⟨[], .taken taken⟩
  | false =>
      simp only [Bool.false_eq_true, if_false]
      cases flattened : flatten scope.table schema with
      | error failure => exact ⟨[], .unreadable taken flattened⟩
      | ok flat =>
          obtain ⟨events, steps⟩ := typeAll_derivation (h flat flattened)
          dsimp only
          generalize outcome (typeAll typing (fieldSteps name flat.properties))
            (session.reserve name) = found at steps
          obtain ⟨result, after⟩ := found
          cases result with
          | error failure => exact ⟨_, .broken taken flattened steps⟩
          | ok types => exact ⟨_, .stored taken flattened steps⟩

/-- The fields of a record are within bounds, so each takes less than a whole table. -/
theorem within_fieldSteps (bounded : Bounded pool limit scope.table) {name : String}
    {schema : Mapping} (within : (Value.object schema).Within pool limit) {flat : Flattened}
    (flattened : flatten scope.table schema = .ok flat) {node : Value}
    (member : node ∈ typedNodes (fieldSteps name flat.properties)) : node.Within pool limit := by
  rw [fieldSteps, typedNodes_propertySteps] at member
  obtain ⟨entry, hentry, rfl⟩ := List.mem_map.mp (List.mem_filter.mp member).1
  exact flatten_confined bounded within flattened entry hentry

/-- The induction is on the depth; what is left to reach goes down with it. -/
theorem typeWithin_derivation (bounded : Bounded pool limit scope.table) {depth : Nat}
    {session : Session} {node : Value} (within : node.Within pool limit)
    (enough : reach limit (unvisited pool session) node ≤ depth) :
    ∃ events, TypeDerivation scope session node
      (outcome (typeWithin scope depth node) session).1
      (outcome (typeWithin scope depth node) session).2 events := by
  induction depth generalizing session node with
  | zero =>
      have := reach_pos limit (unvisited pool session) node
      omega
  | succ depth ih =>
      rw [typeWithin, outcome_typeStep]
      cases work : workOf scope session node with
      | done result => exact ⟨[], .done work⟩
      | compose composition =>
          have parts : ∀ part ∈ typedNodes composition.steps,
              Follows scope (typeWithin scope depth) session part := by
            intro part member later grown
            have inside := partOf_compose work within member
            have less := reach_part limit (unvisited_mono pool grown) inside.2
            exact ih inside.1 (by omega)
          obtain ⟨events, steps⟩ := typeAll_derivation parts
          exact ⟨events, .compose work steps⟩
      | declare ref name schema =>
          obtain ⟨refers, unnamed, defined⟩ := workOf_eq_declare work
          have target := within_definition bounded (.inr ⟨name, defined⟩)
          have fewer := unvisited_register_lt name (mem_pool_of_refersTo within refers) unnamed
          have fields : ∀ flat, flatten scope.table schema = .ok flat →
              ∀ field ∈ typedNodes (fieldSteps name flat.properties),
                Follows scope (typeWithin scope depth)
                  ((session.register ref name).reserve name) field := by
            intro flat flattened field member later grown
            have inside := within_fieldSteps bounded target flattened member
            have fewer' := unvisited_mono pool ((Session.grows_reserve _ name).trans grown)
            have less := reach_target node (fewer'.trans_lt fewer) inside.size
            exact ih inside (by omega)
          obtain ⟨events, record⟩ := declareWith_derivation fields
          exact ⟨_, .declare work record⟩
      | expand ref schema =>
          obtain ⟨refers, unnamed, defined, closed⟩ := workOf_eq_expand work
          have target := within_definition bounded (.inl defined)
          have fewer := unvisited_openInline_lt (mem_pool_of_refersTo within refers) closed
          have less := reach_target node fewer target.size
          obtain ⟨events, inner⟩ := @ih (session.openInline ref) _ target (by omega)
          dsimp only
          rw [outcome_inlineWith, if_neg closed]
          exact ⟨events, .expand work inner⟩

theorem typeOf_derivation (scope : Scope) (session : Session) (node : Value) {depth : Nat}
    (enough : depthBound scope.table node ≤ depth) :
    ∃ events, TypeDerivation scope session node
      (outcome (typeWithin scope depth node) session).1
      (outcome (typeWithin scope depth node) session).2 events := by
  have usual := reach_le_depthBound scope.table node (unvisited_le _ session)
  exact typeWithin_derivation (bounded_poolOf scope.table node) (within_poolOf scope.table node)
    (usual.trans enough)

/-- A derivation tells what the typing of its node gives. -/
theorem TypeDerivation.outcome_eq {session : Session} {node : Value}
    {result : Except Failure TypeExpr} {after : Session} {events : List Event}
    (derivation : TypeDerivation scope session node result after events) :
    outcome (typeOf scope node) session = (result, after) := by
  obtain ⟨_, usual⟩ := typeOf_derivation scope session node (le_refl _)
  obtain ⟨same, left, -⟩ := usual.deterministic derivation
  exact Prod.ext same left

theorem derivation_of_outcome {session : Session} {node : Value}
    {result : Except Failure TypeExpr} {after : Session}
    (typed : outcome (typeOf scope node) session = (result, after)) :
    ∃ events, TypeDerivation scope session node result after events := by
  obtain ⟨events, derivation⟩ := typeOf_derivation scope session node (le_refl _)
  change TypeDerivation scope session node (outcome (typeOf scope node) session).1
    (outcome (typeOf scope node) session).2 events at derivation
  rw [typed] at derivation
  exact ⟨events, derivation⟩

theorem declareRecord_derivation (scope : Scope) (session : Session) (name : String)
    (schema : Mapping) {depth : Nat} (enough : depthBound scope.table (.object schema) ≤ depth) :
    ∃ events, RecordDerivation scope (TypeDerivation scope)
      (outcome (declareWith scope (typeWithin scope depth) name schema) session).1 session name
      schema (outcome (declareWith scope (typeWithin scope depth) name schema) session).2
      events := by
  have bounded := bounded_poolOf scope.table (.object schema)
  have within := within_poolOf scope.table (.object schema)
  apply declareWith_derivation
  intro flat flattened node member later grown
  have inside := within_fieldSteps bounded within flattened member
  have room := room_le_depthBound scope.table (.object schema) (unvisited_le _ later)
  refine typeWithin_derivation bounded inside ?_
  have fits := inside.size
  rw [Nat.add_mul] at room
  unfold reach
  omega

/-! ## The bound is out of sight -/

theorem fieldRefusal_reached {name : Key} {type : TypeExpr} {failure : Failure}
    (h : fieldRefusal name type = some failure) : failure ≠ .defect .depthExhausted := by
  unfold fieldRefusal at h
  split at h
  · split at h
    · simp at h
    · obtain rfl := Option.some.inj h
      simp
  · obtain rfl := Option.some.inj h
    simp

/-- Steps none of which is refused for want of depth. -/
def Candid (steps : List Step) : Prop :=
  ∀ node refusal, .type node refusal ∈ steps → ∀ type failure, refusal type = some failure →
    failure ≠ .defect .depthExhausted

theorem candid_plainSteps (nodes : List Value) : Candid (plainSteps nodes) := by
  intro node refusal member type failure refused
  obtain ⟨_, _, same⟩ := List.mem_map.mp member
  obtain ⟨_, rfl⟩ := Step.type.inj same
  simp at refused

theorem candid_propertySteps {warning : Key → Warning}
    {refusal : Key → TypeExpr → Option Failure}
    (h : ∀ name type failure, refusal name type = some failure →
      failure ≠ .defect .depthExhausted) (properties : Mapping) :
    Candid (properties.map (propertyStep warning refusal)) := by
  intro node own member type failure refused
  obtain ⟨entry, _, same⟩ := List.mem_map.mp member
  unfold propertyStep at same
  split at same
  · obtain ⟨_, rfl⟩ := Step.type.inj same
    exact h _ _ _ refused
  · simp at same

theorem workOf_done_reached {session : Session} {node : Value}
    {result : Except Failure TypeExpr} (work : workOf scope session node = .done result) :
    result ≠ .error (.defect .depthExhausted) := by
  cases workOf_eq_done work with
  | @malformed schema failure shaped => simpa [shaped] using shape_reached schema
  | @unknown _ ref failure _ unresolved => simpa [unresolved] using definitionOf_reached scope ref
  | _ => simp

theorem candid_compose {session : Session} {node : Value} {composition : Composition}
    (work : workOf scope session node = .compose composition) : Candid composition.steps := by
  obtain ⟨schema, found, -, -, rule⟩ := workOf_eq_compose work
  cases rule with
  | object properties requirement => exact candid_propertySteps (by simp) properties
  | _ => exact candid_plainSteps _

/-- A judgement whose results are never that the bound was used up. -/
def Judgement.Reached (typed : Judgement) : Prop :=
  ∀ ⦃session node result after events⦄, typed session node result after events →
    result ≠ .error (.defect .depthExhausted)

theorem StepsDerivation.reached {typed : Judgement} (reached : typed.Reached)
    {session : Session} {steps : List Step} {result : Except Failure (List TypeExpr)}
    {after : Session} {events : List Event} (candid : Candid steps)
    (derivation : StepsDerivation typed session steps result after events) :
    result ≠ .error (.defect .depthExhausted) := by
  induction derivation with
  | nil session => simp
  | skip _ ih => exact ih fun node refusal member => candid node refusal (by simp [member])
  | stop typed => simpa using reached typed
  | refuse typed refused => simpa using candid _ _ List.mem_cons_self _ _ refused
  | @next _ _ _ _ _ _ result _ _ _ typed accepted _ ih =>
      have rest := ih fun node refusal member => candid node refusal (by simp [member])
      cases result with
      | error failure => simpa [Except.map] using rest
      | ok types => simp [Except.map]

theorem RecordDerivation.reached {typed : Judgement} (reached : typed.Reached)
    {result : Except Failure TypeExpr} {session : Session} {name : String} {schema : Mapping}
    {after : Session} {events : List Event}
    (derivation : RecordDerivation scope typed result session name schema after events) :
    result ≠ .error (.defect .depthExhausted) := by
  cases derivation with
  | taken _ => simp
  | unreadable _ unreadable =>
      have := (flatten_settled scope.table schema (le_refl _)).reached
      simpa [unreadable] using this
  | broken _ _ steps =>
      refine fun same => steps.reached reached ?_ (by simpa using same)
      exact candid_propertySteps (fun _ _ _ refused => fieldRefusal_reached refused) _
  | stored _ _ _ => simp

/-- The rules never give the failure that stands for the bound. -/
theorem TypeDerivation.reached {session : Session} {node : Value}
    {result : Except Failure TypeExpr} {after : Session} {events : List Event}
    (derivation : TypeDerivation scope session node result after events) :
    result ≠ .error (.defect .depthExhausted) := by
  induction derivation using TypeDerivation.induct with
  | done work => exact workOf_done_reached work
  | @compose _ _ _ result _ _ work steps =>
      have parts := steps.reached (fun _ _ _ _ _ both => both.choose_spec) (candid_compose work)
      cases result with
      | error failure => simpa [Except.map] using parts
      | ok types => simp [Except.map]
  | declare _ record => exact record.reached fun _ _ _ _ _ both => both.choose_spec
  | expand _ _ ih => exact ih

end ApiBinding.Synthesis
