import ApiBinding.Proofs.Synthesis.Depth

/-! Every run of the typing ends, and does nothing twice: a reference is named at most once, and
the fields of a record are typed at most once. -/

namespace ApiBinding.Synthesis

open ApiBinding.Schema

/-! ## Events -/

def Event.named? : Event → Option String
  | .named ref _ => some ref
  | .typedFields _ => none

def Event.owner? : Event → Option String
  | .named _ _ => none
  | .typedFields owner => some owner

/-- The references that were named, in order. -/
def namedRefs (events : List Event) : List String :=
  events.filterMap Event.named?

/-- The records whose fields were typed, in order. -/
def typedOwners (events : List Event) : List String :=
  events.filterMap Event.owner?

/-- The names of references after an event. -/
def Event.replay (names : List (String × String)) : Event → List (String × String)
  | .named ref name => Session.assign ref name names
  | .typedFields _ => names

/-- Between two sessions each event happened for the first time, and every name that was given
is in the events. -/
structure Once (before : Session) (events : List Event) (after : Session) : Prop where
  names : after.names = events.foldl Event.replay before.names
  refs : (namedRefs events).Nodup
  unnamed : ∀ ref ∈ namedRefs events, before.nameOf? ref = none
  named : ∀ ref ∈ namedRefs events, after.nameOf? ref ≠ none
  owners : (typedOwners events).Nodup
  free : ∀ owner ∈ typedOwners events, owner ∉ before.catalog.names
  mentioned : ∀ owner ∈ typedOwners events, owner ∈ after.catalog.names

namespace Once

theorem nil {before after : Session} (same : after.names = before.names) :
    Once before [] after := by
  refine ⟨same, ?_, ?_, ?_, ?_, ?_, ?_⟩ <;> simp [namedRefs, typedOwners]

/-- What happened first cannot happen again, since sessions grow. -/
theorem append {first second third : Session} {events later : List Event}
    (h : Once first events second) (h' : Once second later third) (grown : first.Grows second)
    (grown' : second.Grows third) : Once first (events ++ later) third where
  names := by rw [h'.names, h.names, List.foldl_append]
  refs := by
    rw [namedRefs, List.filterMap_append, List.nodup_append]
    refine ⟨h.refs, h'.refs, ?_⟩
    rintro ref member _ member' rfl
    exact h.named ref member (h'.unnamed ref member')
  unnamed := by
    intro ref member
    rw [namedRefs, List.filterMap_append, List.mem_append] at member
    rcases member with member | member
    · exact h.unnamed ref member
    · cases known : first.nameOf? ref with
      | none => rfl
      | some name => simpa [grown.names known] using h'.unnamed ref member
  named := by
    intro ref member
    rw [namedRefs, List.filterMap_append, List.mem_append] at member
    rcases member with member | member
    · obtain ⟨name, known⟩ := Option.ne_none_iff_exists'.mp (h.named ref member)
      simp [grown'.names known]
    · exact h'.named ref member
  owners := by
    rw [typedOwners, List.filterMap_append, List.nodup_append]
    refine ⟨h.owners, h'.owners, ?_⟩
    rintro owner member _ member' rfl
    exact h'.free owner member' (h.mentioned owner member)
  free := by
    intro owner member
    rw [typedOwners, List.filterMap_append, List.mem_append] at member
    rcases member with member | member
    · exact h.free owner member
    · exact fun known => h'.free owner member (grown.catalog.mem_names known)
  mentioned := by
    intro owner member
    rw [typedOwners, List.filterMap_append, List.mem_append] at member
    rcases member with member | member
    · exact grown'.catalog.mem_names (h.mentioned owner member)
    · exact h'.mentioned owner member

/-- The sessions matter only for their names and for the mentioned names of their catalogs. -/
theorem congr {before before' after after' : Session} {events : List Event}
    (h : Once before events after) (names : before'.names = before.names)
    (catalog : before'.catalog.names = before.catalog.names)
    (names' : after'.names = after.names)
    (catalog' : after.catalog.names ⊆ after'.catalog.names) : Once before' events after' where
  names := by rw [names', h.names, names]
  refs := h.refs
  unnamed ref member := by
    rw [Session.nameOf?, names]
    exact h.unnamed ref member
  named ref member := by
    rw [Session.nameOf?, names']
    exact h.named ref member
  owners := h.owners
  free owner member := by
    rw [catalog]
    exact h.free owner member
  mentioned owner member := catalog' (h.mentioned owner member)

theorem register {session : Session} {ref name : String}
    (unnamed : session.nameOf? ref = none) :
    Once session [.named ref name] (session.register ref name) := by
  refine ⟨rfl, List.pairwise_singleton _ ref, ?_, ?_, List.nodup_nil, ?_, ?_⟩ <;>
    simp [namedRefs, typedOwners, Event.named?, Event.owner?, unnamed,
      Session.nameOf?_register]

theorem reserve {session : Session} {name : String}
    (free : session.catalog.mentions name = false) :
    Once session [.typedFields name] (session.reserve name) := by
  have new : name ∉ session.catalog.names := by
    rw [← Catalog.mentions_iff, free]
    simp
  have mentioned : name ∈ (session.reserve name).catalog.names := by
    rw [Session.reserve, Catalog.names_reserve, if_neg new]
    simp
  refine ⟨rfl, List.nodup_nil, ?_, ?_, List.pairwise_singleton _ name, ?_, ?_⟩ <;>
    simp [namedRefs, typedOwners, Event.named?, Event.owner?, new, mentioned]

end Once

/-! ## Derivations -/

/-- A judgement under which every event is the first of its kind. -/
def Judgement.HappensOnce (typed : Judgement) : Prop :=
  ∀ ⦃session node result after events⦄, typed session node result after events →
    session.Grows after ∧ Once session events after

variable {scope : Scope}

theorem StepsDerivation.once {typed : Judgement} (h : typed.HappensOnce) {session : Session}
    {steps : List Step} {result : Except Failure (List TypeExpr)} {after : Session}
    {events : List Event} (derivation : StepsDerivation typed session steps result after events) :
    Once session events after := by
  induction derivation with
  | nil session => exact .nil rfl
  | skip _ ih => exact ih.congr rfl rfl rfl (List.Subset.refl _)
  | stop typed => exact (h typed).2
  | refuse typed _ => exact (h typed).2
  | next typed _ rest ih =>
      obtain ⟨grown, once⟩ := h typed
      exact once.append ih grown (rest.grows fun _ _ _ _ _ typed => (h typed).1)

theorem RecordDerivation.once {typed : Judgement} (h : typed.HappensOnce)
    {result : Except Failure TypeExpr} {session : Session} {name : String} {schema : Mapping}
    {after : Session} {events : List Event}
    (derivation : RecordDerivation scope typed result session name schema after events) :
    Once session events after := by
  have growing : typed.Growing := fun _ _ _ _ _ typed => (h typed).1
  cases derivation with
  | taken _ => exact .nil rfl
  | unreadable _ _ => exact .nil rfl
  | broken free _ steps =>
      exact (Once.reserve free).append (steps.once h) (session.grows_reserve name)
        (steps.grows growing)
  | stored free _ steps =>
      have fields := (Once.reserve free).append (steps.once h) (session.grows_reserve name)
        (steps.grows growing)
      exact fields.congr rfl rfl rfl (Catalog.grows_add _ _).names.subset

/-- A run names no reference twice and types no record's fields twice. -/
theorem TypeDerivation.once {session : Session} {node : Value}
    {result : Except Failure TypeExpr} {after : Session} {events : List Event}
    (derivation : TypeDerivation scope session node result after events) :
    Once session events after := by
  induction derivation using TypeDerivation.induct with
  | done _ => exact .nil rfl
  | compose _ steps => exact steps.once fun _ _ _ _ _ both => ⟨both.choose.grows, both.choose_spec⟩
  | declare work record =>
      obtain ⟨_, unnamed, _⟩ := workOf_eq_declare work
      have fields := record.once fun _ _ _ _ _ both => ⟨both.choose.grows, both.choose_spec⟩
      exact (Once.register unnamed).append fields (Session.grows_register _ unnamed)
        (record.grows fun _ _ _ _ _ both => both.choose.grows)
  | expand _ _ ih => exact ih.congr rfl rfl rfl (List.Subset.refl _)

/-! ## Runs -/

/-- What can be asked of a run: the type of a node, or that a schema becomes the record of a
name. -/
inductive Request where
  | type (node : Value)
  | declare (name : String) (schema : Mapping)

/-- A request is answered with a bound on the depth. -/
def Request.performWithin (scope : Scope) (depth : Nat) : Request → Synthesis TypeExpr
  | .type node => typeWithin scope depth node
  | .declare name schema => declareWith scope (typeWithin scope depth) name schema

def Request.perform (scope : Scope) : Request → Synthesis TypeExpr
  | .type node => typeOf scope node
  | .declare name schema => declareRecord scope name schema

def Request.bound (table : Table) : Request → Nat
  | .type node => depthBound table node
  | .declare _ schema => depthBound table (.object schema)

/-- The placement of records is set for each request; a failure does not end the run. -/
def performAll (scope : Scope) (session : Session) :
    List (Option Placement × Request) → List (Except Failure TypeExpr) × Session
  | [] => ([], session)
  | (placement, request) :: rest =>
    let (result, middle) := (request.perform { scope with placement := placement }).outcome session
    let (results, after) := performAll scope middle rest
    (result :: results, after)

inductive RequestDerivation (scope : Scope) :
    Session → Request → Except Failure TypeExpr → Session → List Event → Prop where
  | type {session node result after events} :
      TypeDerivation scope session node result after events →
      RequestDerivation scope session (.type node) result after events
  | declare {session name schema result after events} :
      RecordDerivation scope (TypeDerivation scope) result session name schema after events →
      RequestDerivation scope session (.declare name schema) result after events

/-- Requests are answered in order, each by its derivation. -/
inductive RunDerivation (scope : Scope) : Session → List (Option Placement × Request) →
    List (Except Failure TypeExpr) → Session → List Event → Prop where
  | nil (session) : RunDerivation scope session [] [] session []
  | next {session placement request rest result middle results after events later} :
      RequestDerivation { scope with placement := placement } session request result middle
        events →
      RunDerivation scope middle rest results after later →
      RunDerivation scope session ((placement, request) :: rest) (result :: results) after
        (events ++ later)

theorem RequestDerivation.grows {session : Session} {request : Request}
    {result : Except Failure TypeExpr} {after : Session} {events : List Event}
    (derivation : RequestDerivation scope session request result after events) :
    session.Grows after := by
  cases derivation with
  | type typed => exact typed.grows
  | declare record => exact record.grows fun _ _ _ _ _ typed => typed.grows

theorem RequestDerivation.once {session : Session} {request : Request}
    {result : Except Failure TypeExpr} {after : Session} {events : List Event}
    (derivation : RequestDerivation scope session request result after events) :
    Once session events after := by
  cases derivation with
  | type typed => exact typed.once
  | declare record => exact record.once fun _ _ _ _ _ typed => ⟨typed.grows, typed.once⟩

theorem RequestDerivation.reached {session : Session} {request : Request}
    {result : Except Failure TypeExpr} {after : Session} {events : List Event}
    (derivation : RequestDerivation scope session request result after events) :
    result ≠ .error (.defect .depthExhausted) := by
  cases derivation with
  | type typed => exact typed.reached
  | declare record => exact record.reached fun _ _ _ _ _ typed => typed.reached

/-- A request is answered by the rules, with any bound that is large enough. -/
theorem Request.performWithin_derivation (scope : Scope) (session : Session)
    (request : Request) {depth : Nat} (enough : request.bound scope.table ≤ depth) :
    ∃ events, RequestDerivation scope session request
      (outcome (request.performWithin scope depth) session).1
      (outcome (request.performWithin scope depth) session).2 events := by
  cases request with
  | type node =>
      obtain ⟨events, typed⟩ := typeOf_derivation scope session node enough
      exact ⟨events, .type typed⟩
  | declare name schema =>
      obtain ⟨events, record⟩ := declareRecord_derivation scope session name schema enough
      exact ⟨events, .declare record⟩

theorem Request.perform_eq (scope : Scope) (request : Request) :
    request.perform scope = request.performWithin scope (request.bound scope.table) := by
  cases request <;> rfl

theorem RequestDerivation.deterministic {session : Session} {request : Request}
    {result result' : Except Failure TypeExpr} {after after' : Session}
    {events events' : List Event}
    (derivation : RequestDerivation scope session request result after events)
    (other : RequestDerivation scope session request result' after' events') :
    result = result' ∧ after = after' ∧ events = events' := by
  cases derivation with
  | type typed =>
      cases other with
      | type typed' => exact typed.deterministic typed'
  | declare record =>
      cases other with
      | declare record' =>
          exact record.deterministic (fun _ _ _ _ _ _ _ _ typed typed' =>
            typed.deterministic typed') record'

/-- A larger bound changes nothing. -/
theorem Request.performWithin_eq (scope : Scope) (session : Session) (request : Request)
    {depth : Nat} (enough : request.bound scope.table ≤ depth) :
    outcome (request.performWithin scope depth) session =
      outcome (request.perform scope) session := by
  obtain ⟨_, large⟩ := request.performWithin_derivation scope session enough
  obtain ⟨_, usual⟩ := request.performWithin_derivation scope session (le_refl _)
  rw [request.perform_eq]
  obtain ⟨result, after, _⟩ := large.deterministic usual
  exact Prod.ext result after

theorem performAll_derivation (scope : Scope) (session : Session)
    (requests : List (Option Placement × Request)) :
    ∃ events, RunDerivation scope session requests (performAll scope session requests).1
      (performAll scope session requests).2 events := by
  induction requests generalizing session with
  | nil => exact ⟨[], .nil session⟩
  | cons entry rest ih =>
      obtain ⟨placement, request⟩ := entry
      obtain ⟨events, first⟩ := request.performWithin_derivation
        { scope with placement := placement } session (le_refl _)
      rw [← request.perform_eq] at first
      obtain ⟨later, others⟩ :=
        ih (outcome (request.perform { scope with placement := placement }) session).2
      exact ⟨events ++ later, .next first others⟩

theorem RunDerivation.grows {session : Session} {requests : List (Option Placement × Request)}
    {results : List (Except Failure TypeExpr)} {after : Session} {events : List Event}
    (derivation : RunDerivation scope session requests results after events) :
    session.Grows after := by
  induction derivation with
  | nil session => exact .refl session
  | next first _ ih => exact first.grows.trans ih

theorem RunDerivation.once {session : Session} {requests : List (Option Placement × Request)}
    {results : List (Except Failure TypeExpr)} {after : Session} {events : List Event}
    (derivation : RunDerivation scope session requests results after events) :
    Once session events after := by
  induction derivation with
  | nil session => exact .nil rfl
  | next first rest ih => exact first.once.append ih first.grows rest.grows

theorem RunDerivation.reached {session : Session} {requests : List (Option Placement × Request)}
    {results : List (Except Failure TypeExpr)} {after : Session} {events : List Event}
    (derivation : RunDerivation scope session requests results after events) :
    .error (.defect .depthExhausted) ∉ results := by
  induction derivation with
  | nil session => simp
  | next first _ ih => simpa using ⟨first.reached.symm, ih⟩

/-- Every run ends, on any definition table and from any session: it follows rules that know no
bound, so that no reference is named twice and no record's fields are typed twice, and neither
the typing nor the two walks through composed schemas ever depend on their bounds. -/
theorem typing_terminates (scope : Scope) (session : Session)
    (requests : List (Option Placement × Request)) :
    (∃ events, RunDerivation scope session requests (performAll scope session requests).1
        (performAll scope session requests).2 events ∧
      Once session events (performAll scope session requests).2) ∧
    .error (.defect .depthExhausted) ∉ (performAll scope session requests).1 ∧
    (∀ (request : Request) (more : Nat),
      outcome (request.performWithin scope (request.bound scope.table + more)) session =
        outcome (request.perform scope) session) ∧
    (∀ (schema : Mapping) (more : Nat),
      flatten scope.table schema =
        (flattenWithin scope.table (depthBound scope.table (.object schema) + more) []
          schema).map (·.1) ∧
      flatten scope.table schema ≠ .error (.defect .depthExhausted)) ∧
    (∀ (node : Value) (more : Nat),
      isRecordShaped scope.table node =
        (recordShapedWithin scope.table (depthBound scope.table node + more) [] node).map (·.1) ∧
      isRecordShaped scope.table node ≠ .error (.defect .depthExhausted)) := by
  obtain ⟨events, run⟩ := performAll_derivation scope session requests
  refine ⟨⟨events, run, run.once⟩, run.reached, ?_, ?_, ?_⟩
  · intro request more
    exact request.performWithin_eq scope session (Nat.le_add_right _ more)
  · intro schema more
    have settled := flatten_settled scope.table schema (Nat.le_add_right _ more)
    exact ⟨settled.same, settled.reached⟩
  · intro node more
    have settled := isRecordShaped_settled scope.table node (Nat.le_add_right _ more)
    exact ⟨settled.same, settled.reached⟩

end ApiBinding.Synthesis
