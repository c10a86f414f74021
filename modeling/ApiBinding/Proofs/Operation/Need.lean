import ApiBinding.Proofs.Operation.Closure
import ApiBinding.Proofs.Synthesis.Need

/-! The records of a binding are exactly those that its types need, as long as no definition takes
the name of a group of parameters before the group gets its record: the fields of the group would
be dropped then, and what only they need would be left over. -/

namespace ApiBinding

namespace Synthesis

variable {α β : Type} {owed : List String} {scope : Scope}

/-! ## Thrifty steps -/

/-- A step that succeeds mentions no new name that its result does not need, and its result needs
the names that are owed by the steps before it. -/
def Thrifty (owed : List String) (step : Synthesis α) (names : α → List String) : Prop :=
  ∀ ⦃session value after⦄, outcome step session = (.ok value, after) →
    session.Grows after ∧ session.Yields (names value) after ∧
      ∀ name ∈ owed, after.catalog.Needs (names value) name

theorem thrifty_pure {value : α} {names : α → List String} (h : owed ⊆ names value) :
    Thrifty owed (pure value) names := by
  intro session found after success
  obtain ⟨same, rfl⟩ := Prod.mk.inj success
  obtain rfl := Except.ok.inj same
  exact ⟨.refl session, .refl session _, fun _ member => .start (h member)⟩

theorem thrifty_lift (result : Except Failure α) : Thrifty [] (lift result) (fun _ => []) := by
  intro session found after success
  obtain ⟨_, rfl⟩ := Prod.mk.inj success
  exact ⟨.refl session, .refl session _, by simp⟩

theorem thrifty_fail (failure : Failure) (names : α → List String) :
    Thrifty owed (fail failure) names := by
  intro session found after success
  simp at success

theorem thrifty_warn (warning : Warning) : Thrifty [] (warn warning) (fun _ => []) := by
  intro session found after success
  obtain ⟨_, rfl⟩ := Prod.mk.inj success
  exact ⟨session.grows_warn warning, fun _ member => .inl member, by simp⟩

/-- The next step owes the names that the first one found. -/
theorem Thrifty.bind {step : Synthesis α} {next : α → Synthesis β} {names : α → List String}
    {names' : β → List String} (h : Thrifty [] step names)
    (hnext : ∀ value, Thrifty (names value ++ owed) (next value) names') :
    Thrifty owed (step >>= next) names' := by
  intro session value after success
  obtain ⟨middle, first, hfirst, hsecond⟩ := outcome_bind_eq_ok success
  obtain ⟨grown, yields, -⟩ := h hfirst
  obtain ⟨grown', yields', needed⟩ := hnext first hsecond
  refine ⟨grown.trans grown', yields.trans yields' grown' ?_, ?_⟩
  · exact fun name member => needed name (List.mem_append_left _ member)
  · exact fun name member => needed name (List.mem_append_right _ member)

theorem thrifty_typeOf (scope : Scope) (node : Value) :
    Thrifty [] (typeOf scope node) TypeExpr.references := by
  intro session type after success
  obtain ⟨_, derivation⟩ := typeOf_derivation scope session node (le_refl _)
  change outcome (typeWithin scope _ node) session = _ at success
  rw [success] at derivation
  exact ⟨derivation.grows, derivation.thrifty rfl, by simp⟩

theorem thrifty_printedType (scope : Scope) (node : Value) :
    Thrifty [] (printedType scope node) TypeExpr.references := by
  refine (thrifty_typeOf scope node).bind ?_
  intro type
  split
  · exact thrifty_pure (by simp)
  · exact thrifty_fail _ _

theorem thrifty_declareRecord (scope : Scope) (name : String) (schema : Mapping) :
    Thrifty [] (declareRecord scope name schema) TypeExpr.references := by
  intro session type after success
  obtain ⟨_, derivation⟩ := declareRecord_derivation scope session name schema (le_refl _)
  change outcome (declareWith scope (typeWithin scope _) name schema) session = _ at success
  rw [success] at derivation
  have thrifty : Judgement.Thrifty (TypeDerivation scope) :=
    fun _ _ _ _ _ typed => ⟨typed.grows, typed.thrifty rfl⟩
  exact ⟨derivation.grows fun _ _ _ _ _ typed => typed.grows,
    derivation.thrifty thrifty id rfl, by simp⟩

end Synthesis

namespace Operation

open Synthesis

variable {scope : Scope}

/-! ## Records of parameters -/

theorem thrifty_parameterField (scope : Scope) (owner : String) (parameter : Parameter) :
    Thrifty [] (parameterField scope owner parameter) (fun field => fieldNames field.toList) := by
  have skipped : Thrifty []
      (do
        Synthesis.warn (.untypedParameter parameter.name owner)
        pure none : Synthesis (Option (Field TypeExpr)))
      (fun field => fieldNames field.toList) :=
    (thrifty_warn _).bind fun _ => thrifty_pure (by simp)
  unfold parameterField
  split
  · split
    · refine (thrifty_printedType scope _).bind ?_
      intro type
      exact thrifty_pure (by simp [fieldNames])
    · exact skipped
  · exact skipped

theorem thrifty_parameterFields (scope : Scope) (owner : String) (parameters : List Parameter) :
    Thrifty [] (parameterFields scope owner parameters) fieldNames := by
  induction parameters with
  | nil => exact thrifty_pure (by simp)
  | cons parameter rest ih =>
      refine (thrifty_parameterField scope owner parameter).bind ?_
      intro field
      refine ih.bind ?_
      intro fields
      refine thrifty_pure ?_
      simp only [fieldNames, List.flatMap_append, List.append_nil]
      intro name inside
      rcases List.mem_append.mp inside with inside | inside <;> simp [inside]

/-- The fields of parameters mention new names only through references. -/
theorem discovers_parameterFields {owner : String} {parameters : List Parameter}
    {session after : Session} {fields : List (Field TypeExpr)}
    (h : outcome (parameterFields scope owner parameters) session = (.ok fields, after)) :
    session.Discovers after := by
  induction parameters generalizing session fields with
  | nil =>
      obtain ⟨_, rfl⟩ := Prod.mk.inj h
      exact .refl session
  | cons parameter rest ih =>
      obtain ⟨middle, field, hfield, h⟩ := outcome_bind_eq_ok h
      obtain ⟨last, others, hrest, h⟩ := outcome_bind_eq_ok h
      obtain ⟨_, rfl⟩ := Prod.mk.inj h
      refine Session.Discovers.trans ?_ (ih hrest)
      unfold parameterField at hfield
      split at hfield
      · split at hfield
        · obtain ⟨inner, type, typed, hfield⟩ := outcome_bind_eq_ok hfield
          obtain ⟨_, rfl⟩ := Prod.mk.inj hfield
          obtain ⟨_, derivation⟩ := printedType_derivation typed
          exact derivation.discovers
        · obtain ⟨_, rfl⟩ := Prod.mk.inj hfield
          exact session.discovers_warn _
      · obtain ⟨_, rfl⟩ := Prod.mk.inj hfield
        exact session.discovers_warn _

/-- Whether a reference has the name of a group when the fields of the group have been typed: a
definition that was met has the record of that name. -/
def groupNameTaken (scope : Scope) (name : String) (parameters : List Parameter)
    (session : Session) : Bool :=
  match outcome (parameterFields scope name parameters) session with
  | (.ok _, typed) => typed.names.any (·.2 == name)
  | (.error _, _) => false

/-- Names that are mentioned apart from those of references. -/
def Sourced (own : List String) (session : Session) : Prop :=
  ∀ name ∈ session.catalog.names, name ∈ own ∨ ∃ ref, session.nameOf? ref = some name

/-- A group whose name is free gets its record, which needs all that its fields mention. -/
theorem groupRecord_yields {own : List String} {name : String} {parameters : List Parameter}
    {session after : Session} {result : Option String}
    (h : outcome (groupRecord scope name parameters) session = (.ok result, after))
    (free : groupNameTaken scope name parameters session = false)
    (sourced : Sourced own session) (foreign : name ∉ own) :
    session.Grows after ∧ session.Yields result.toList after ∧ Sourced (name :: own) after := by
  obtain ⟨typed, fields, hfields, h⟩ := outcome_bind_eq_ok h
  obtain ⟨grown, yields, -⟩ := thrifty_parameterFields scope name parameters hfields
  have discovered := discovers_parameterFields hfields
  have sourced' : Sourced own typed := by
    intro other member
    rcases discovered.sourced other member with known | named
    · exact (sourced other known).imp_right fun ⟨ref, named⟩ => ⟨ref, grown.names named⟩
    · exact .inr named
  cases fields with
  | nil =>
      obtain ⟨same, rfl⟩ := Prod.mk.inj h
      obtain rfl := Except.ok.inj same
      exact ⟨grown, yields, fun other member =>
        (sourced' other member).imp_left (List.mem_cons_of_mem _)⟩
  | cons first rest =>
      have new : name ∉ typed.catalog.names := by
        intro taken
        rcases sourced' name taken with inside | ⟨ref, named⟩
        · exact foreign inside
        · simp only [groupNameTaken, hfields, List.any_eq_false, beq_iff_eq] at free
          obtain ⟨before, later, split, _⟩ := List.lookup_eq_some_iff.mp named
          exact free (ref, name) (by simp [split]) rfl
      have mentions : typed.catalog.mentions name = false := by
        rw [Bool.eq_false_iff]
        exact fun taken => new ((Catalog.mentions_iff _ _).mp taken)
      let record : Record TypeExpr := ⟨name, none, first :: rest, scope.placement⟩
      have kept := outcome_keep record typed
      obtain ⟨same, rfl⟩ := Prod.mk.inj (kept.symm.trans h)
      obtain rfl := Except.ok.inj same
      have free' : (if typed.catalog.mentions record.name = true then typed
          else (typed.reserve record.name).store record) = (typed.reserve name).store record := by
        simp [record, mentions]
      rw [free']
      have grown' := (typed.grows_reserve name).trans (Session.grows_store _ record)
      have reserved : Session.Yields (record.fields.flatMap (·.type.references))
          (typed.reserve name) (typed.reserve name) := .refl _ _
      have empty : (typed.reserve name).catalog.find? name = none := by
        simpa [Session.reserve] using Catalog.find?_eq_none_of_not_mem new
      have stored : ((typed.reserve name).store record).catalog.find? name = some record :=
        Catalog.find?_add_self _ empty
      have own' : Session.Yields [name] typed ((typed.reserve name).store record) :=
        Session.yields_store reserved empty
      refine ⟨grown.trans grown', yields.trans own' grown' ?_, ?_⟩
      · intro inner inside
        obtain ⟨field, hfield, inside⟩ := List.mem_flatMap.mp inside
        exact .field (.start (by simp [record])) stored hfield inside
      · intro other member
        rcases Session.mem_names_of_store member with member | rfl
        · rcases Session.mem_names_of_reserve member with known | rfl
          · rcases sourced' other known with inside | ⟨ref, named⟩
            · exact .inl (List.mem_cons_of_mem _ inside)
            · exact .inr ⟨ref, grown'.names named⟩
          · exact .inl List.mem_cons_self
        · exact .inl List.mem_cons_self

/-! ## Bodies and responses -/

theorem thrifty_recordBody (scope : Scope) (name : String) (entries : Mapping)
    (files : List FileField) (isForm : Bool) :
    Thrifty [] (do
      let marked ← Synthesis.lift (markFiles entries files)
      let type ← declareRecord scope name marked
      pure (Body.mk (some type) isForm files)) (fun body => typeNames body.type) := by
  refine (thrifty_lift _).bind ?_
  intro marked
  refine (thrifty_declareRecord scope _ _).bind ?_
  intro type
  exact thrifty_pure (by simp [typeNames])

theorem thrifty_typedBody (scope : Scope) (schema : Value) (files : List FileField)
    (isForm : Bool) :
    Thrifty [] (do
      let type ← printedType scope schema
      pure (Body.mk (some type) isForm files)) (fun body => typeNames body.type) := by
  refine (thrifty_printedType scope schema).bind ?_
  intro type
  exact thrifty_pure (by simp [typeNames])

theorem thrifty_bodyOfSchema (scope : Scope) (stem mediaType : String) (schema : Value) :
    Thrifty [] (bodyOfSchema scope stem mediaType schema) (fun body => typeNames body.type) := by
  unfold bodyOfSchema
  dsimp only
  split
  · refine (thrifty_lift _).bind ?_
    intro files
    split
    · exact thrifty_recordBody scope _ _ files _
    · exact thrifty_typedBody scope schema files _
  · split
    · exact thrifty_recordBody scope _ _ [] _
    · exact thrifty_typedBody scope schema [] _

theorem thrifty_openApiBody (scope : Scope) (document operation : Mapping) (stem : String) :
    Thrifty [] (openApiBody scope document operation stem) bodyNames := by
  refine (thrifty_lift _).bind ?_
  intro request
  split
  · dsimp only
    refine (thrifty_bodyOfSchema scope stem _ _).bind ?_
    intro body
    split
    · refine (thrifty_lift _).bind ?_
      intro files
      split
      all_goals exact thrifty_pure (by simp [bodyNames])
    · exact thrifty_pure (by simp [bodyNames])
  · exact thrifty_fail _ _
  · exact thrifty_pure (by simp)

theorem thrifty_responseType (scope : Scope) (dialect : Dialect) (document operation : Mapping)
    (stem : String) :
    Thrifty [] (responseType scope dialect document operation stem) typeNames := by
  refine (thrifty_lift _).bind ?_
  intro selected
  split
  · exact thrifty_pure (by simp)
  · split
    · refine (thrifty_declareRecord scope _ _).bind ?_
      intro type
      exact thrifty_pure (by simp [typeNames])
    · refine (thrifty_printedType scope _).bind ?_
      intro type
      exact thrifty_pure (by simp [typeNames])

/-- The parameters of a form in the older dialect. -/
def formGroup (placeholders : List String) (parameters : List Parameter) : List Parameter :=
  parameters.filter fun parameter => parameter.location == .formData ||
    (parameter.location == .body && !placeholders.contains parameter.name)

/-- Whether a definition has the name of the group of form parameters, if there is one. -/
def formNameTaken (scope : Scope) (dialect : Dialect) (stem : String)
    (placeholders : List String) (parameters : List Parameter) (session : Session) : Bool :=
  dialect == .swagger2 && parameters.any (·.location == .formData) &&
    match (formGroup placeholders parameters).mapM formParameter with
    | .ok marked => groupNameTaken scope (stem ++ "Body") (marked.map (·.1)) session
    | .error _ => false

theorem formBody_yields {own : List String} {stem : String} {parameters : List Parameter}
    {session after : Session} {result : Body}
    (h : outcome (formBody scope stem parameters) session = (.ok result, after))
    (free : ∀ marked, parameters.mapM formParameter = .ok marked →
      groupNameTaken scope (stem ++ "Body") (marked.map (·.1)) session = false)
    (sourced : Sourced own session) (foreign : stem ++ "Body" ∉ own) :
    session.Grows after ∧ session.Yields (typeNames result.type) after := by
  obtain ⟨start, marked, hmarked, h⟩ := outcome_bind_eq_ok h
  obtain ⟨marks, rfl⟩ := Prod.mk.inj hmarked
  obtain ⟨middle, name, hname, h⟩ := outcome_bind_eq_ok h
  obtain ⟨same, rfl⟩ := Prod.mk.inj h
  obtain rfl := Except.ok.inj same
  obtain ⟨grown, yields, -⟩ := groupRecord_yields hname (free marked marks) sourced foreign
  refine ⟨grown, ?_⟩
  cases name <;> simpa [typeNames, TypeExpr.references] using yields

theorem body_yields {own : List String} {dialect : Dialect} {document operation : Mapping}
    {stem : String} {placeholders : List String} {parameters : List Parameter}
    {session after : Session} {result : Option Body}
    (h : outcome (body scope dialect document operation stem placeholders parameters) session =
      (.ok result, after))
    (free : formNameTaken scope dialect stem placeholders parameters session = false)
    (sourced : Sourced own session) (foreign : stem ++ "Body" ∉ own) :
    session.Grows after ∧ session.Yields (bodyNames result) after := by
  cases dialect with
  | openApi3 =>
      obtain ⟨grown, yields, -⟩ := thrifty_openApiBody scope document operation stem h
      exact ⟨grown, yields⟩
  | swagger2 =>
      simp only [body, swaggerBody] at h
      split at h
      · rename_i isForm
        obtain ⟨middle, form, hform, h⟩ := outcome_bind_eq_ok h
        obtain ⟨same, rfl⟩ := Prod.mk.inj h
        obtain rfl := Except.ok.inj same
        refine formBody_yields hform (fun marked marks => ?_) sourced foreign
        have marks : (formGroup placeholders parameters).mapM formParameter = .ok marked := marks
        simpa [formNameTaken, isForm, marks] using free
      · split at h
        · obtain ⟨same, rfl⟩ := Prod.mk.inj h
          obtain rfl := Except.ok.inj same
          exact ⟨.refl session, .refl session _⟩
        · obtain ⟨before, mediaType, shown, h⟩ := outcome_bind_eq_ok h
          obtain ⟨-, rfl⟩ := Prod.mk.inj shown
          obtain ⟨middle, typed, hbody, h⟩ := outcome_bind_eq_ok h
          obtain ⟨same, rfl⟩ := Prod.mk.inj h
          obtain rfl := Except.ok.inj same
          obtain ⟨grown, yields, -⟩ := thrifty_bodyOfSchema scope stem _ _ hbody
          exact ⟨grown, yields⟩

/-! ## Bindings -/

/-- Whether a definition that is met has the name of a group of parameters before the group gets
its record. -/
def definitionTakesGroup (scope : Scope) (dialect : Dialect) (document item operation : Mapping)
    (path method : String) : Bool :=
  match parameters dialect document item operation with
  | .error _ => false
  | .ok parameters =>
    let identifier := (operation.field "operationId").text?
    let name := Name.ofOperation scope.lexicon scope.options identifier method path
    let stem := Name.upperFirst name
    let placeholders := Name.Template.placeholders path
    let first := (outcome (groupPath scope stem placeholders parameters) .empty).2
    let second := (outcome (groupQuery scope stem placeholders parameters) first).2
    groupNameTaken { scope with placement := some .path } (stem ++ "PathVar")
        (pathParameters scope.options placeholders parameters) .empty ||
      groupNameTaken { scope with placement := some .body } (stem ++ "Query")
        (queryParameters placeholders parameters) first ||
      formNameTaken { scope with placement := some .body } dialect stem placeholders parameters
        second

/-- Every name that is mentioned in the end is needed by the names that the parts mention. -/
theorem bindingOf_yields {dialect : Dialect} {document item operation : Mapping}
    {path method : String} {after : Session} {binding : Binding TypeExpr}
    (h : (bindingOf scope dialect document item operation path method).outcome .empty =
      (.ok binding, after))
    (free : definitionTakesGroup scope dialect document item operation path method = false) :
    Session.empty.Yields binding.names after := by
  unfold bindingOf at h
  obtain ⟨start, parameters, hparameters, h⟩ := outcome_bind_eq_ok h
  obtain ⟨first, pathRecord, hpath, h⟩ := outcome_bind_eq_ok h
  obtain ⟨second, queryRecord, hquery, h⟩ := outcome_bind_eq_ok h
  obtain ⟨third, body, hbody, h⟩ := outcome_bind_eq_ok h
  obtain ⟨fourth, response, hresponse, h⟩ := outcome_bind_eq_ok h
  obtain ⟨last, final, hfinal, h⟩ := outcome_bind_eq_ok h
  obtain ⟨found, rfl⟩ := Prod.mk.inj hparameters
  obtain ⟨same, rfl⟩ := Prod.mk.inj hfinal
  obtain rfl := Except.ok.inj same
  obtain ⟨same, rfl⟩ := Prod.mk.inj h
  obtain rfl := Except.ok.inj same
  simp only [definitionTakesGroup, found, hpath, hquery, Bool.or_eq_false_iff] at free
  obtain ⟨⟨freePath, freeQuery⟩, freeForm⟩ := free
  have none : Sourced [] .empty := by simp [Sourced, Session.empty, Catalog.empty, Catalog.names]
  obtain ⟨-, inPath, sourced⟩ := groupRecord_yields hpath freePath none (by simp)
  obtain ⟨grownQuery, inQuery, sourced⟩ := groupRecord_yields hquery freeQuery sourced (by simp)
  obtain ⟨grownBody, inBody⟩ := body_yields hbody freeForm sourced (by simp)
  obtain ⟨grownLast, inResponse, -⟩ := thrifty_responseType _ _ _ _ _ hresponse
  -- Each part keeps what the parts before it need, so all of it is needed in the end.
  let all := pathRecord.toList ++ queryRecord.toList ++ bodyNames body ++ typeNames response
  have throughQuery : Session.empty.Yields all second := by
    refine (inPath.widen ?_).trans (inQuery.widen ?_) grownQuery fun _ member => .start member
    all_goals intro name member; simp [all, member]
  have throughBody : Session.empty.Yields all third := by
    refine throughQuery.trans (inBody.widen ?_) grownBody fun _ member => .start member
    intro name member
    simp [all, member]
  have throughResponse : Session.empty.Yields all fourth := by
    refine throughBody.trans (inResponse.widen ?_) grownLast fun _ member => .start member
    intro name member
    simp [all, member]
  cases body <;> exact throughResponse

end Operation

namespace Binding

/-- The names that a binding needs: those that its parts mention, and those in the fields of the
records that it needs. -/
inductive Needs (binding : Binding TypeExpr) : String → Prop where
  | part {name} : name ∈ binding.names → Needs binding name
  | field {owner field name} : owner ∈ binding.records → Needs binding owner.name →
      field ∈ owner.fields → name ∈ field.type.references → Needs binding name

/-- Whether a definition takes the name of a group of parameters in the run for an operation. -/
def definitionTakesGroup (document : Value) (path method : String) (options : Options)
    (lexicon : Name.Lexicon) : Bool :=
  match document with
  | .object entries =>
    let dialect := Dialect.ofDocument entries
    let method := String.ofList (Text.lower method.toList)
    match Operation.find? entries path method, dialect.definitions entries with
    | some (item, operation), .ok definitions =>
      Operation.definitionTakesGroup ⟨⟨dialect.root, definitions⟩, options, lexicon, none⟩ dialect
        entries item operation path method
    | _, _ => false
  | _ => false

/-- What is needed in a catalog with the records of a binding is needed by the binding. -/
theorem needs_of_catalog {binding : Binding TypeExpr} {catalog : Catalog} (tidy : catalog.Tidy)
    (records : binding.records = catalog.records) {name : String}
    (h : catalog.Needs binding.names name) : binding.Needs name := by
  induction h with
  | start member => exact .part member
  | @field owner record field name _ found member inside ih =>
      have listed : record ∈ binding.records := by
        rw [records]
        exact Catalog.mem_records_of_find? found
      exact .field listed (tidy.owned found ▸ ih) member inside

/-- The records of a binding are exactly those that its parts need, directly or through the fields
of records, unless a definition took the name of a group of parameters. -/
theorem exists_record_iff_needs {document : Value} {path method : String} {options : Options}
    {lexicon : Name.Lexicon} {binding : Binding TypeExpr} {warnings : List Warning}
    (h : ofDocument document path method options lexicon = .ok (some binding, warnings))
    (free : definitionTakesGroup document path method options lexicon = false) (name : String) :
    (∃ record ∈ binding.records, record.name = name) ↔ binding.Needs name := by
  obtain ⟨session, made, -⟩ := ofDocument_eq_ok_iff.mp h
  obtain ⟨entries, item, operation, definitions, rfl, found, defined, run⟩ := made.run
  obtain ⟨settled, records, mentioned⟩ := Operation.bindingOf_settles Session.closed_empty run
  have tidy := settled.closed.catalog
  have closed := closed_of_settles settled records mentioned
  constructor
  · rintro ⟨record, member, rfl⟩
    simp only [definitionTakesGroup, found, defined] at free
    rw [records] at member
    obtain ⟨own, inside⟩ := Catalog.mem_slots_of_mem_records member
    obtain rfl := tidy.owned (Catalog.find?_of_mem_slots tidy.names inside)
    rcases Operation.bindingOf_yields run free _ (List.mem_map_of_mem inside) with known | needed
    · simp [Session.empty, Catalog.empty, Catalog.names] at known
    · exact needs_of_catalog tidy records needed
  · intro needed
    cases needed with
    | part member =>
        rw [records]
        exact tidy.exists_record
          (fun other pending => Catalog.not_pending_empty other (settled.pending pending))
          (mentioned member)
    | field listed _ member inside => exact closed.fields listed _ member _ inside

/-- The owner of a pet is needed through the record of the pet, and so it has a record. -/
theorem exists_record_of_petDocument :
    definitionTakesGroup petDocument "/pets/\x7bid\x7d" "GET" {} .standard = false ∧
    ∃ binding warnings,
      ofDocument petDocument "/pets/\x7bid\x7d" "GET" {} .standard = .ok (some binding, warnings) ∧
      binding.records.map (·.name) = ["GetPetsIdPathVar", "Pet", "Owner"] ∧
      binding.Needs "Owner" ∧ ¬ binding.Needs "Food" := by
  have free : definitionTakesGroup petDocument "/pets/\x7bid\x7d" "GET" {} .standard = false := by
    decide +kernel
  have computed :
      ((ofDocument petDocument "/pets/\x7bid\x7d" "GET" {} .standard).toOption.bind (·.1)).map
        (fun binding => binding.records.map (·.name)) =
      some ["GetPetsIdPathVar", "Pet", "Owner"] := by decide +kernel
  refine ⟨free, ?_⟩
  cases made : ofDocument petDocument "/pets/\x7bid\x7d" "GET" {} .standard with
  | error failure => simp [made, Except.toOption] at computed
  | ok answer =>
      obtain ⟨found, warnings⟩ := answer
      cases found with
      | none => simp [made, Except.toOption] at computed
      | some binding =>
          have records : binding.records.map (·.name) = ["GetPetsIdPathVar", "Pet", "Owner"] := by
            simpa [made, Except.toOption] using computed
          have listed : ∀ name, binding.Needs name ↔
              name ∈ ["GetPetsIdPathVar", "Pet", "Owner"] := by
            intro name
            rw [← exists_record_iff_needs made free name, ← records, List.mem_map]
          exact ⟨binding, warnings, rfl, records, by simp [listed], by simp [listed]⟩

end Binding

end ApiBinding
