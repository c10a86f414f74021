import ApiBinding.Proofs.Synthesis.Alias
import ApiBinding.Proofs.Synthesis.Termination
import ApiBinding.Validation.Writer

/-! When the fields of a record do not depend on where its definition is first met. A record that
is found while an alias is open would keep the degraded type of the alias, so its fields are
independent of discovery if no alias that is written in them needs the record. -/

namespace ApiBinding.Synthesis

open ApiBinding.Schema Relation

variable {scope : Scope}

/-! ## Schemas that lead to schemas -/

/-- One schema leads to another: it is written in it, or it is a field of a record that is
referred to. -/
def LeadsTo (scope : Scope) (node next : Value) : Prop :=
  WrittenIn scope node next ∨
    ∃ ref name schema flat, RefersTo node ref ∧
      definitionOf scope ref = .ok (.record name schema) ∧
      flatten scope.table schema = .ok flat ∧
      next ∈ typedNodes (fieldSteps name flat.properties)

/-- A record is needed for a schema, directly or through other records. -/
def NeedsRecord (scope : Scope) (node : Value) (name : String) : Prop :=
  ∃ user ref schema, ReflTransGen (LeadsTo scope) node user ∧ RefersTo user ref ∧
    definitionOf scope ref = .ok (.record name schema)

/-! ## Where records come from -/

/-- A record was made for a definition: its fields were typed while only aliases that need the
record were open. -/
inductive MadeFor (scope : Scope) : Record TypeExpr → Prop where
  | intro {placement : Option Placement} {session : Session} {ref name : String}
      {schema : Mapping} {flat : Flattened} {types : List TypeExpr} {after : Session}
      {events : List Event} :
      Canonical scope session → definitionOf scope ref = .ok (.record name schema) →
      flatten scope.table schema = .ok flat →
      StepsDerivation (TypeDerivation { scope with placement := placement }) session
        (fieldSteps name flat.properties) (.ok types) after events →
      (∀ opened ∈ session.inlining, ∃ target, definitionOf scope opened = .ok (.inPlace target) ∧
        NeedsRecord scope (.object target) name) →
      MadeFor scope ⟨name, (schema.field "description").text?,
        fieldsOf flat.requirement flat.properties types, placement⟩

/-- Names designate records, and the stored records were made for definitions. -/
structure Traced (scope : Scope) (session : Session) : Prop where
  canonical : Canonical scope session
  records : ∀ name record, session.catalog.find? name = some record →
    record.name = name ∧ MadeFor scope record

/-- Every open alias leads to a node. -/
def Awaits (scope : Scope) (session : Session) (node : Value) : Prop :=
  ∀ ref ∈ session.inlining, ∃ target, definitionOf scope ref = .ok (.inPlace target) ∧
    ReflTransGen (LeadsTo scope) (.object target) node

theorem Awaits.next {session : Session} {node next : Value} (h : Awaits scope session node)
    (leads : LeadsTo scope node next) : Awaits scope session next := by
  intro ref opened
  obtain ⟨target, defined, path⟩ := h ref opened
  exact ⟨target, defined, path.tail leads⟩

theorem Awaits.grow {session after : Session} {node : Value} (h : Awaits scope session node)
    (grown : session.Grows after) : Awaits scope after node := by
  intro ref opened
  rw [grown.inlining] at opened
  exact h ref opened

/-- An alias that is opened leads to its own target. -/
theorem Awaits.openInline {session : Session} {node : Value} (h : Awaits scope session node)
    {ref : String} {schema : Mapping} (refers : RefersTo node ref)
    (defined : definitionOf scope ref = .ok (.inPlace schema)) :
    Awaits scope (session.openInline ref) (.object schema) := by
  intro other opened
  rcases List.mem_cons.mp opened with rfl | opened
  · exact ⟨schema, defined, .refl⟩
  · exact h.next (.inl (.inr ⟨ref, schema, refers, defined, rfl⟩)) other opened

theorem traced_empty (scope : Scope) : Traced scope .empty :=
  ⟨by simp [Canonical, Session.nameOf?, Session.empty],
    by simp [Session.empty, Catalog.find?, Catalog.empty]⟩

theorem Traced.reserve {session : Session} (h : Traced scope session) (name : String) :
    Traced scope (session.reserve name) := by
  refine ⟨h.canonical, ?_⟩
  intro own record found
  exact h.records own record (by simpa [Session.reserve] using found)

theorem Traced.store {session : Session} (h : Traced scope session) {record : Record TypeExpr}
    (made : MadeFor scope record) : Traced scope (session.store record) := by
  refine ⟨h.canonical, ?_⟩
  intro name stored found
  rcases Catalog.find?_add_cases found with found | ⟨rfl, rfl⟩
  · exact h.records name stored found
  · exact ⟨rfl, made⟩

/-- A judgement that keeps sessions traced. -/
def Judgement.Tracing (scope : Scope) (typed : Judgement) : Prop :=
  ∀ ⦃session node result after events⦄, typed session node result after events →
    Traced scope session → Awaits scope session node →
    Traced scope after ∧ session.Grows after

theorem StepsDerivation.traced {typed : Judgement} (tracing : typed.Tracing scope)
    {session : Session} {steps : List Step} {result : Except Failure (List TypeExpr)}
    {after : Session} {events : List Event}
    (derivation : StepsDerivation typed session steps result after events)
    (traced : Traced scope session)
    (awaits : ∀ node ∈ typedNodes steps, Awaits scope session node) : Traced scope after := by
  induction derivation with
  | nil session => exact traced
  | skip _ ih => exact ih ⟨traced.canonical, traced.records⟩ awaits
  | stop typed => exact (tracing typed traced (awaits _ (by simp [typedNodes]))).1
  | refuse typed _ => exact (tracing typed traced (awaits _ (by simp [typedNodes]))).1
  | next typed _ _ ih =>
      obtain ⟨traced', grown⟩ := tracing typed traced (awaits _ (by simp [typedNodes]))
      exact ih traced' fun node member => (awaits node (by simp [typedNodes, member])).grow grown

theorem TypeDerivation.traced {session : Session} {node : Value}
    {result : Except Failure TypeExpr} {after : Session} {events : List Event}
    (derivation : TypeDerivation scope session node result after events)
    (traced : Traced scope session) (awaits : Awaits scope session node) :
    Traced scope after := by
  induction derivation using TypeDerivation.induct with
  | done _ => exact traced
  | compose work steps =>
      refine steps.traced ?_ traced fun part member =>
        awaits.next (.inl (.inl ⟨_, workOf_compose_eq work .empty, member⟩))
      exact fun _ _ _ _ _ both traced awaits =>
        ⟨both.choose_spec traced awaits, both.choose.grows⟩
  | @declare session node ref name schema result after events work record =>
      obtain ⟨refers, _, defined⟩ := workOf_eq_declare work
      have registered : Traced scope (session.register ref name) :=
        ⟨canonical_register traced.canonical defined, traced.records⟩
      have reserved := registered.reserve name
      have fields : ∀ flat, flatten scope.table schema = .ok flat →
          ∀ field ∈ typedNodes (fieldSteps name flat.properties), Awaits scope session field :=
        fun flat flattened field member =>
          awaits.next (.inr ⟨ref, name, schema, flat, refers, defined, flattened, member⟩)
      have tracing : Judgement.Tracing scope fun s n r a e =>
          ∃ d : TypeDerivation scope s n r a e,
            Traced scope s → Awaits scope s n → Traced scope a :=
        fun _ _ _ _ _ both traced awaits =>
          ⟨both.choose_spec traced awaits, both.choose.grows⟩
      cases record with
      | taken _ => exact registered
      | unreadable _ _ => exact reserved
      | broken _ flattened steps => exact steps.traced tracing reserved (fields _ flattened)
      | stored _ flattened steps =>
          refine (steps.traced tracing reserved (fields _ flattened)).store ?_
          refine .intro reserved.canonical defined flattened (steps.mono Exists.choose) ?_
          intro other opened
          obtain ⟨target, inPlace, path⟩ := awaits other opened
          exact ⟨target, inPlace, node, ref, schema, path, refers, defined⟩
  | expand work _ ih =>
      obtain ⟨refers, _, defined, _⟩ := workOf_eq_expand work
      have inside := ih ⟨traced.canonical, traced.records⟩ (awaits.openInline refers defined)
      exact ⟨inside.canonical, inside.records⟩

/-! ## Independence of discovery -/

/-- The record name of a definition. -/
def recordName (scope : Scope) (key : String) : String :=
  Name.ofDefinition scope.lexicon scope.options key

/-- A definition of the table that becomes a record. -/
def DefinesRecord (scope : Scope) (key : String) (schema : Mapping) : Prop :=
  scope.table.definitions.find? key = some (.object schema) ∧
    isRecordShaped scope.table (.object schema) = .ok true

/-- No two definitions that become records have one record name. -/
def DistinctNames (scope : Scope) : Prop :=
  ∀ key key' schema schema', DefinesRecord scope key schema → DefinesRecord scope key' schema' →
    recordName scope key = recordName scope key' → key = key'

/-- No alias that is met while the fields of a definition are written needs the record of the
definition. -/
def FreeOfAliasCircles (scope : Scope) (key : String) (schema : Mapping) : Prop :=
  ∀ flat, flatten scope.table schema = .ok flat →
    ∀ field ∈ typedNodes (fieldSteps (recordName scope key) flat.properties),
      ∀ ref target, MeetsAlias scope field ref target →
        ¬ NeedsRecord scope (.object target) (recordName scope key)

/-- The session after nodes were typed one after the other from the start. -/
def sessionAfter (scope : Scope) (nodes : List (Option Placement × Value)) : Session :=
  (performAll scope .empty (nodes.map fun entry => (entry.1, .type entry.2))).2

theorem definesRecord_of_definitionOf {ref name : String} {schema : Mapping}
    (h : definitionOf scope ref = .ok (.record name schema)) :
    ∃ key, DefinesRecord scope key schema ∧ name = recordName scope key := by
  cases definitionOf_eq_ok h with
  | record resolved shaped keyed =>
      obtain ⟨key, keyed', found⟩ := find?_of_resolve resolved
      obtain rfl := Except.ok.inj (keyed.symm.trans keyed')
      exact ⟨_, ⟨found, shaped⟩, rfl⟩

/-- The placement of records is no part of what they are made for. -/
theorem MadeFor.of_placement {placement : Option Placement} {record : Record TypeExpr}
    (h : MadeFor { scope with placement := placement } record) : MadeFor scope record := by
  cases h with
  | intro canonical defined flattened steps opened =>
      exact .intro canonical defined flattened steps opened

theorem MadeFor.to_placement (placement : Option Placement) {record : Record TypeExpr}
    (h : MadeFor scope record) : MadeFor { scope with placement := placement } record := by
  cases h with
  | intro canonical defined flattened steps opened =>
      exact .intro canonical defined flattened steps opened

theorem traced_performAll (nodes : List (Option Placement × Value)) {session : Session}
    (traced : Traced scope session) (idle : session.inlining = []) :
    Traced scope
      (performAll scope session (nodes.map fun entry => (entry.1, .type entry.2))).2 := by
  induction nodes generalizing session with
  | nil => exact traced
  | cons entry rest ih =>
      obtain ⟨placement, node⟩ := entry
      obtain ⟨events, derivation⟩ :=
        typeOf_derivation { scope with placement := placement } session node (le_refl _)
      have here : Traced { scope with placement := placement } session :=
        ⟨traced.canonical, fun name record found =>
          ⟨(traced.records name record found).1,
            (traced.records name record found).2.to_placement placement⟩⟩
      have awaits : Awaits { scope with placement := placement } session node := by
        simp [Awaits, idle]
      have after := derivation.traced here awaits
      refine ih ⟨after.canonical, ?_⟩ (derivation.grows.inlining.trans idle)
      intro name record found
      have made := after.records name record found
      exact ⟨made.1, made.2.of_placement⟩

theorem traced_sessionAfter (scope : Scope) (nodes : List (Option Placement × Value)) :
    Traced scope (sessionAfter scope nodes) :=
  traced_performAll nodes (traced_empty scope) rfl

/-- Two records that were made for one definition have the same description and fields. -/
theorem MadeFor.fields_eq {key : String} {schema : Mapping} (distinct : DistinctNames scope)
    (defines : DefinesRecord scope key schema) (free : FreeOfAliasCircles scope key schema)
    {record record' : Record TypeExpr} (made : MadeFor scope record)
    (made' : MadeFor scope record') (own : record.name = recordName scope key)
    (own' : record'.name = recordName scope key) :
    record.fields = record'.fields ∧ record.description = record'.description := by
  have single : ∀ {ref name target}, definitionOf scope ref = .ok (.record name target) →
      name = recordName scope key → target = schema := by
    intro ref name target defined same
    obtain ⟨other, defines', rfl⟩ := definesRecord_of_definitionOf defined
    obtain rfl := distinct other key target schema defines' defines same
    have := defines'.1.symm.trans defines.1
    simpa using this
  cases made with
  | @intro _ session ref name target flat types _ _ canonical defined flattened steps opened =>
  cases made' with
  | @intro _ session' ref' name' target' flat' types' _ _ canonical' defined' flattened' steps'
      opened' =>
      obtain rfl := single defined own
      obtain rfl := single defined' own'
      obtain rfl := Except.ok.inj (flattened.symm.trans flattened')
      obtain rfl : name = recordName scope key := own
      obtain rfl : name' = recordName scope key := own'
      have alike : ∀ field ∈ typedNodes (fieldSteps (recordName scope key) flat.properties),
          Alike scope session session' field := by
        intro field member met schema meets
        have never := free flat flattened field member met schema meets
        constructor
        · intro inside
          obtain ⟨other, inPlace, needs⟩ := opened met inside
          obtain ⟨_, _, _, inPlace'⟩ := meets
          obtain rfl : schema = other := by simpa [inPlace] using inPlace'.symm
          exact (never needs).elim
        · intro inside
          obtain ⟨other, inPlace, needs⟩ := opened' met inside
          obtain ⟨_, _, _, inPlace'⟩ := meets
          obtain rfl : schema = other := by simpa [inPlace] using inPlace'.symm
          exact (never needs).elim
      have same := steps.congr (fun _ _ _ _ _ _ _ _ _ typed typed' =>
        typed.congr rfl typed') id id steps' rfl rfl canonical canonical' alike
      rw [same]
      exact ⟨rfl, rfl⟩

/-- Where record names are distinct, the fields of a record do not depend on the nodes that were
typed before its definition was met, as long as no alias that is written in them needs the
record itself. -/
theorem fields_eq_of_discovery {key : String} {schema : Mapping}
    (distinct : DistinctNames scope) (defines : DefinesRecord scope key schema)
    (free : FreeOfAliasCircles scope key schema) {nodes nodes' : List (Option Placement × Value)}
    {record record' : Record TypeExpr}
    (found : (sessionAfter scope nodes).catalog.find? (recordName scope key) = some record)
    (found' : (sessionAfter scope nodes').catalog.find? (recordName scope key) = some record') :
    record.fields = record'.fields ∧ record.description = record'.description := by
  obtain ⟨own, made⟩ := (traced_sessionAfter scope nodes).records _ _ found
  obtain ⟨own', made'⟩ := (traced_sessionAfter scope nodes').records _ _ found'
  exact made.fields_eq distinct defines free made' own own'

/-! ## A circle through an alias -/

/-- A schema that refers to a definition. -/
def refersToKey (key : String) : Value :=
  .ofFields [("$ref", .text ("#/definitions/" ++ key))]

theorem eq_of_refersTo_refersToKey {key ref : String} (refers : RefersTo (refersToKey key) ref) :
    ref = "#/definitions/" ++ key := by
  obtain ⟨schema, same, shaped⟩ := refers
  obtain rfl := Value.object.inj same
  simpa [shape, Mapping.find?_cons] using shaped.symm

/-- An alias of a list of records, each of which has such a list. -/
def circleScope : Scope where
  table := ⟨"#/definitions/", [
    (.text "A", .ofFields [("type", .text "array"), ("items", refersToKey "R")]),
    (.text "R", .ofFields [
      ("type", .text "object"), ("properties", .ofFields [("a", refersToKey "A")])])]⟩
  options := {}
  lexicon := .standard
  placement := none

/-- The texts of the field types of a record. -/
def fieldTexts (session : Session) (name : String) : Option (List String) :=
  (session.catalog.find? name).map fun record => record.fields.map (·.type.render)

theorem definesRecord_circleScope {key : String} {schema : Mapping}
    (h : DefinesRecord circleScope key schema) : key = "R" := by
  obtain ⟨found, shaped⟩ := h
  simp only [circleScope, Mapping.find?_cons, Key.same_text, Mapping.find?_nil] at found
  split at found
  · obtain rfl := Value.object.inj (Option.some.inj found)
    exact absurd shaped (by decide +kernel)
  · split at found
    · rename_i same
      exact (beq_iff_eq.mp same).symm
    · simp at found

/-- Distinct names are not enough: met from the alias, the record has a plain object where it has
a list of records when it is met by itself. -/
theorem fieldTexts_of_circle :
    DistinctNames circleScope ∧
    ((performAll circleScope .empty [(none, .type (refersToKey "A"))]).1.all (·.toBool)) = true ∧
    ((performAll circleScope .empty [(none, .type (refersToKey "R"))]).1.all (·.toBool)) = true ∧
    fieldTexts (sessionAfter circleScope [(none, refersToKey "A")]) (recordName circleScope "R") =
      some ["object"] ∧
    fieldTexts (sessionAfter circleScope [(none, refersToKey "R")]) (recordName circleScope "R") =
      some ["R[]"] := by
  refine ⟨?_, by decide +kernel, by decide +kernel, by decide +kernel, by decide +kernel⟩
  intro key key' schema schema' defines defines' _
  rw [definesRecord_circleScope defines, definesRecord_circleScope defines']

/-! ## An alias without a circle -/

def labelSchema : Mapping := [(.text "type", .text "string")]

def tagSchema : Mapping :=
  [(.text "type", .text "object"), (.text "properties", .ofFields [("label", .object labelSchema)])]

def tagsSchema : Mapping := [(.text "type", .text "array"), (.text "items", refersToKey "Tag")]

def petSchema : Mapping := [
  (.text "type", .text "object"),
  (.text "properties", .ofFields [("tags", refersToKey "Tags"), ("friend", refersToKey "Pet")])]

/-- A record with an alias of a list of other records, and with itself as a field. -/
def tagScope : Scope where
  table := ⟨"#/definitions/", [
    (.text "Tags", .object tagsSchema), (.text "Tag", .object tagSchema),
    (.text "Pet", .object petSchema)]⟩
  options := {}
  lexicon := .standard
  placement := none

theorem definitionOf_tags :
    definitionOf tagScope "#/definitions/Tags" = .ok (.inPlace tagsSchema) := rfl

theorem definitionOf_tag :
    definitionOf tagScope "#/definitions/Tag" = .ok (.record "Tag" tagSchema) := rfl

theorem definitionOf_pet :
    definitionOf tagScope "#/definitions/Pet" = .ok (.record "Pet" petSchema) := rfl

theorem distinctNames_tagScope : DistinctNames tagScope := by
  have key_cases : ∀ {key schema}, DefinesRecord tagScope key schema →
      key = "Tag" ∨ key = "Pet" := by
    rintro key schema ⟨found, shaped⟩
    simp only [tagScope, Mapping.find?_cons, Key.same_text, Mapping.find?_nil] at found
    split at found
    · obtain rfl := Value.object.inj (Option.some.inj found)
      exact absurd shaped (by decide +kernel)
    · split at found
      · rename_i same
        exact .inl (beq_iff_eq.mp same).symm
      · split at found
        · rename_i same
          exact .inr (beq_iff_eq.mp same).symm
        · simp at found
  intro key key' schema schema' defines defines' same
  rcases key_cases defines with rfl | rfl <;> rcases key_cases defines' with rfl | rfl
  · rfl
  · exact absurd same (by decide +kernel)
  · exact absurd same (by decide +kernel)
  · rfl

/-- Where the alias leads: to the records in its list and their labels. -/
def tagNodes : List Value := [.object tagsSchema, refersToKey "Tag", .object labelSchema]

theorem refersTo_of_tagNodes {node : Value} (member : node ∈ tagNodes) {ref : String}
    (refers : RefersTo node ref) : ref = "#/definitions/Tag" := by
  simp only [tagNodes, List.mem_cons, List.not_mem_nil, or_false] at member
  rcases member with rfl | rfl | rfl
  · obtain ⟨schema, same, shaped⟩ := refers
    obtain rfl := Value.object.inj same
    simp [show shape tagsSchema = .ok (.array (refersToKey "Tag")) from rfl] at shaped
  · exact eq_of_refersTo_refersToKey refers
  · obtain ⟨schema, same, shaped⟩ := refers
    obtain rfl := Value.object.inj same
    simp [show shape labelSchema = .ok (.leaf .string) from rfl] at shaped

theorem leadsTo_tagNodes {node next : Value} (member : node ∈ tagNodes)
    (leads : LeadsTo tagScope node next) : next ∈ tagNodes := by
  rcases leads with (⟨composition, work, inside⟩ | ⟨ref, schema, refers, inPlace, _⟩) |
    ⟨ref, name, schema, flat, refers, record, flattened, inside⟩
  · simp only [tagNodes, List.mem_cons, List.not_mem_nil, or_false] at member
    rcases member with rfl | rfl | rfl
    · obtain rfl := Work.compose.inj ((show workOf tagScope .empty (.object tagsSchema) =
        .compose ⟨plainSteps [refersToKey "Tag"], _⟩ from rfl).symm.trans work)
      obtain rfl : next = refersToKey "Tag" := by simpa [typedNodes_plainSteps] using inside
      simp [tagNodes]
    · simp [show workOf tagScope .empty (refersToKey "Tag") =
        .declare "#/definitions/Tag" "Tag" tagSchema from rfl] at work
    · simp [show workOf tagScope .empty (.object labelSchema) = .done (.ok .string) from rfl]
        at work
  · obtain rfl := refersTo_of_tagNodes member refers
    simp [definitionOf_tag] at inPlace
  · obtain rfl := refersTo_of_tagNodes member refers
    obtain ⟨rfl, rfl⟩ : "Tag" = name ∧ tagSchema = schema := by
      simpa [definitionOf_tag] using record
    have usual : flatten tagScope.table tagSchema =
        .ok ⟨[(.text "label", .object labelSchema)], .listed []⟩ := rfl
    obtain rfl := Except.ok.inj (usual.symm.trans flattened)
    obtain rfl : next = .object labelSchema := by
      rw [fieldSteps, typedNodes_propertySteps] at inside
      simpa using (List.mem_filter.mp inside).1
    simp [tagNodes]

/-- Where the fields of the pet lead without passing a record. -/
theorem writtenIn_petFields {field holder : Value}
    (start : field = refersToKey "Tags" ∨ field = refersToKey "Pet")
    (path : ReflTransGen (WrittenIn tagScope) field holder) :
    holder = refersToKey "Tags" ∨ holder = refersToKey "Pet" ∨ holder ∈ tagNodes := by
  induction path with
  | refl => exact start.elim .inl fun same => .inr (.inl same)
  | tail _ written ih =>
      rcases ih with rfl | rfl | member
      · rcases written with ⟨composition, work, _⟩ | ⟨ref, schema, refers, defined, rfl⟩
        · simp [show workOf tagScope .empty (refersToKey "Tags") =
            .expand "#/definitions/Tags" tagsSchema from rfl] at work
        · obtain rfl := eq_of_refersTo_refersToKey refers
          obtain rfl : tagsSchema = schema := by simpa [definitionOf_tags] using defined
          simp [tagNodes]
      · rcases written with ⟨composition, work, _⟩ | ⟨ref, schema, refers, defined, _⟩
        · simp [show workOf tagScope .empty (refersToKey "Pet") =
            .declare "#/definitions/Pet" "Pet" petSchema from rfl] at work
        · obtain rfl := eq_of_refersTo_refersToKey refers
          simp [definitionOf_pet] at defined
      · exact .inr (.inr (leadsTo_tagNodes member (.inl written)))

/-- The alias in the fields of the pet needs the tag only. -/
theorem freeOfAliasCircles_tagScope : FreeOfAliasCircles tagScope "Pet" petSchema := by
  rintro flat flattened field member ref target ⟨holder, path, refers, defined⟩
    ⟨user, other, schema, path', refers', defined'⟩
  have usual : flatten tagScope.table petSchema =
      .ok ⟨[(.text "tags", refersToKey "Tags"), (.text "friend", refersToKey "Pet")],
        .listed []⟩ := rfl
  obtain rfl := Except.ok.inj (usual.symm.trans flattened)
  have start : field = refersToKey "Tags" ∨ field = refersToKey "Pet" := by
    rw [fieldSteps, typedNodes_propertySteps] at member
    simpa using (List.mem_filter.mp member).1
  have inside : Value.object target ∈ tagNodes := by
    rcases writtenIn_petFields start path with rfl | rfl | member
    · obtain rfl := eq_of_refersTo_refersToKey refers
      obtain rfl : tagsSchema = target := by simpa [definitionOf_tags] using defined
      simp [tagNodes]
    · obtain rfl := eq_of_refersTo_refersToKey refers
      simp [definitionOf_pet] at defined
    · obtain rfl := refersTo_of_tagNodes member refers
      simp [definitionOf_tag] at defined
  have needed : user ∈ tagNodes := by
    clear refers'
    induction path' with
    | refl => exact inside
    | tail _ leads ih => exact leadsTo_tagNodes ih leads
  obtain rfl := refersTo_of_tagNodes needed refers'
  obtain ⟨name, _⟩ : "Tag" = recordName tagScope "Pet" ∧ tagSchema = schema := by
    simpa [definitionOf_tag] using defined'
  exact absurd name (by decide +kernel)

/-- Met from the alias or by itself, the pet gets the same fields. -/
theorem fields_eq_of_tagScope :
    ∃ record record',
      (sessionAfter tagScope [(none, refersToKey "Tags"), (none, refersToKey "Pet")]).catalog.find?
        (recordName tagScope "Pet") = some record ∧
      (sessionAfter tagScope [(some .body, refersToKey "Pet")]).catalog.find?
        (recordName tagScope "Pet") = some record' ∧
      record.fields = record'.fields := by
  have present : ((sessionAfter tagScope [(none, refersToKey "Tags"),
      (none, refersToKey "Pet")]).catalog.find? (recordName tagScope "Pet")).isSome = true := by
    decide +kernel
  have present' : ((sessionAfter tagScope [(some .body, refersToKey "Pet")]).catalog.find?
      (recordName tagScope "Pet")).isSome = true := by
    decide +kernel
  obtain ⟨record, found⟩ := Option.isSome_iff_exists.mp present
  obtain ⟨record', found'⟩ := Option.isSome_iff_exists.mp present'
  have defines : DefinesRecord tagScope "Pet" petSchema := ⟨rfl, by decide +kernel⟩
  exact ⟨record, record', found, found', (fields_eq_of_discovery distinctNames_tagScope defines
    freeOfAliasCircles_tagScope found found').1⟩

end ApiBinding.Synthesis
