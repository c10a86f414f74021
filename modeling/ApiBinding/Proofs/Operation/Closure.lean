import ApiBinding.Operation.Binding
import ApiBinding.Validation.Writer
import ApiBinding.Proofs.Synthesis.Closure
import ApiBinding.Proofs.Synthesis.Depth

/-! The binding of an operation is closed: its records have distinct names, and every name that
its types mention is the name of one of its records. -/

namespace ApiBinding

namespace Synthesis

variable {α β : Type} {known : List String} {scope : Scope}

/-! ## Settling steps -/

/-- From a closed session that mentions the known names, a step that succeeds leaves nothing
pending and mentions the names in its result. -/
def Settling (known : List String) (step : Synthesis α) (names : α → List String) : Prop :=
  ∀ ⦃session value after⦄, session.Closed → known ⊆ session.catalog.names →
    outcome step session = (.ok value, after) →
    session.Settles after ∧ names value ⊆ after.catalog.names

theorem settling_pure {value : α} {names : α → List String} (h : names value ⊆ known) :
    Settling known (pure value) names := by
  intro session found after closed mentioned success
  obtain ⟨same, rfl⟩ := Prod.mk.inj success
  obtain rfl := Except.ok.inj same
  exact ⟨closed.settles, List.Subset.trans h mentioned⟩

/-- A computation apart from the session hands out no names. -/
theorem settling_lift (result : Except Failure α) :
    Settling known (lift result) (fun _ => []) := by
  intro session found after closed _ success
  obtain ⟨_, rfl⟩ := Prod.mk.inj success
  exact ⟨closed.settles, by simp⟩

theorem settling_fail (failure : Failure) (names : α → List String) :
    Settling known (fail failure) names := by
  intro session found after _ _ success
  simp at success

theorem settling_warn (warning : Warning) : Settling known (warn warning) (fun _ => []) := by
  intro session found after closed _ success
  obtain ⟨_, rfl⟩ := Prod.mk.inj success
  exact ⟨closed.warn warning, by simp⟩

/-- What was mentioned stays mentioned, so the names of the first step are known to the next. -/
theorem Settling.bind {step : Synthesis α} {next : α → Synthesis β} {names : α → List String}
    {names' : β → List String} (h : Settling known step names)
    (hnext : ∀ value, Settling (names value ++ known) (next value) names') :
    Settling known (step >>= next) names' := by
  intro session value after closed mentioned success
  obtain ⟨middle, first, hfirst, hsecond⟩ := outcome_bind_eq_ok success
  obtain ⟨settled, inside⟩ := h closed mentioned hfirst
  have mentioned' : names first ++ known ⊆ middle.catalog.names := by
    refine List.append_subset.mpr ⟨inside, ?_⟩
    exact fun name member => settled.grows.catalog.mem_names (mentioned member)
  obtain ⟨settled', inside'⟩ := hnext first settled.closed mentioned' hsecond
  exact ⟨settled.trans settled', inside'⟩

/-! ## Types and records -/

theorem settling_typeOf (scope : Scope) (node : Value) :
    Settling known (typeOf scope node) TypeExpr.references := by
  intro session type after closed _ success
  obtain ⟨_, derivation⟩ := typeOf_derivation scope session node (le_refl _)
  change outcome (typeWithin scope _ node) session = _ at success
  rw [success] at derivation
  exact derivation.settles rfl closed

theorem settling_printedType (scope : Scope) (node : Value) :
    Settling known (printedType scope node) TypeExpr.references := by
  refine (settling_typeOf scope node).bind ?_
  intro type
  split
  · exact settling_pure (List.subset_append_left _ _)
  · exact settling_fail _ _

theorem settling_declareRecord (scope : Scope) (name : String) (schema : Mapping) :
    Settling known (declareRecord scope name schema) TypeExpr.references := by
  intro session type after closed _ success
  obtain ⟨_, derivation⟩ := declareRecord_derivation scope session name schema (le_refl _)
  change outcome (declareWith scope (typeWithin scope _) name schema) session = _ at success
  rw [success] at derivation
  exact derivation.settles (fun _ _ _ _ _ typed => typed.settles rfl) rfl closed.catalog
    fun found => .inl (closed.named found)

/-- A record whose name is free is reserved and stored at once. -/
theorem outcome_keep (record : Record TypeExpr) (session : Session) :
    outcome (do
        if ← reserve record.name then store record
        pure (some record.name) : Synthesis (Option String)) session =
      (.ok (some record.name),
        if session.catalog.mentions record.name then session
        else (session.reserve record.name).store record) := by
  rw [outcome_bind, outcome_reserve, Catalog.reserve_eq]
  by_cases taken : session.catalog.mentions record.name = true
  · simp [taken]
  · simp only [taken, Bool.not_false, if_true, if_false, Bool.false_eq_true, Session.reserve,
      Session.store, Catalog.reserve_eq]
    rfl

theorem settling_keep (record : Record TypeExpr)
    (h : ∀ field ∈ record.fields, field.type.references ⊆ known) :
    Settling known
      (do
        if ← reserve record.name then store record
        pure (some record.name) : Synthesis (Option String))
      Option.toList := by
  intro session value after closed mentioned success
  rw [outcome_keep] at success
  obtain ⟨same, rfl⟩ := Prod.mk.inj success
  obtain rfl := Except.ok.inj same
  split
  · rename_i taken
    exact ⟨closed.settles, by simpa using (Catalog.mentions_iff _ _).mp taken⟩
  · have reserved : (session.reserve record.name).Closed :=
      Session.closed_reserve closed.catalog fun found => .inl (closed.named found)
    have fields : ∀ field ∈ record.fields,
        field.type.references ⊆ (session.reserve record.name).catalog.names := by
      intro field member name inside
      exact (session.grows_reserve _).catalog.mem_names (mentioned (h field member inside))
    refine ⟨Session.settles_store reserved.settles rfl fields, ?_⟩
    have stored := ((session.reserve record.name).grows_store record).catalog.mem_names
      (session.mem_names_reserve record.name)
    simpa using stored

end Synthesis

namespace Operation

open Synthesis

variable {known : List String} {scope : Scope}

/-! ## Records of parameters -/

/-- The names that fields mention. -/
def fieldNames (fields : List (Field TypeExpr)) : List String :=
  fields.flatMap (·.type.references)

theorem settling_parameterField (scope : Scope) (owner : String) (parameter : Parameter) :
    Settling known (parameterField scope owner parameter)
      (fun field => fieldNames field.toList) := by
  have skipped : Settling known
      (do
        Synthesis.warn (.untypedParameter parameter.name owner)
        pure none : Synthesis (Option (Field TypeExpr)))
      (fun field => fieldNames field.toList) :=
    (settling_warn _).bind fun _ => settling_pure (by simp [fieldNames])
  unfold parameterField
  split
  · split
    · refine (settling_printedType scope _).bind ?_
      intro type
      exact settling_pure (by simp [fieldNames])
    · exact skipped
  · exact skipped

theorem settling_parameterFields (scope : Scope) (owner : String) (parameters : List Parameter) :
    Settling known (parameterFields scope owner parameters) fieldNames := by
  induction parameters generalizing known with
  | nil => exact settling_pure (by simp [fieldNames])
  | cons parameter rest ih =>
      refine (settling_parameterField scope owner parameter).bind ?_
      intro field
      refine ih.bind ?_
      intro fields
      refine settling_pure ?_
      simp only [fieldNames, List.flatMap_append]
      intro name inside
      rcases List.mem_append.mp inside with inside | inside <;> simp [inside]

theorem settling_groupRecord (scope : Scope) (name : String) (parameters : List Parameter) :
    Settling known (groupRecord scope name parameters) Option.toList := by
  refine (settling_parameterFields scope name parameters).bind ?_
  intro fields
  split
  · exact settling_pure (by simp)
  · rename_i nonempty
    refine settling_keep ⟨name, none, fields, scope.placement⟩ ?_
    intro field member own inside
    exact List.mem_append_left _ (List.mem_flatMap.mpr ⟨field, member, inside⟩)

/-! ## Bodies and responses -/

/-- The names that an optional type mentions. -/
def typeNames (type : Option TypeExpr) : List String :=
  type.toList.flatMap TypeExpr.references

/-- A body whose type is a record with marked files. -/
theorem settling_recordBody (scope : Scope) (name : String) (entries : Mapping)
    (files : List FileField) (isForm : Bool) :
    Settling known (do
      let marked ← Synthesis.lift (markFiles entries files)
      let type ← declareRecord scope name marked
      pure (Body.mk (some type) isForm files)) (fun body => typeNames body.type) := by
  refine (settling_lift _).bind ?_
  intro marked
  refine (settling_declareRecord scope _ _).bind ?_
  intro type
  exact settling_pure (by simp [typeNames])

/-- A body whose schema is typed as it stands. -/
theorem settling_typedBody (scope : Scope) (schema : Value) (files : List FileField)
    (isForm : Bool) :
    Settling known (do
      let type ← printedType scope schema
      pure (Body.mk (some type) isForm files)) (fun body => typeNames body.type) := by
  refine (settling_printedType scope schema).bind ?_
  intro type
  exact settling_pure (by simp [typeNames])

theorem settling_bodyOfSchema (scope : Scope) (stem mediaType : String) (schema : Value) :
    Settling known (bodyOfSchema scope stem mediaType schema)
      (fun body => typeNames body.type) := by
  unfold bodyOfSchema
  dsimp only
  split
  · refine (settling_lift _).bind ?_
    intro files
    split
    · exact settling_recordBody scope _ _ files _
    · exact settling_typedBody scope schema files _
  · split
    · exact settling_recordBody scope _ _ [] _
    · exact settling_typedBody scope schema [] _

theorem settling_formBody (scope : Scope) (stem : String) (parameters : List Parameter) :
    Settling known (formBody scope stem parameters) (fun body => typeNames body.type) := by
  refine (settling_lift _).bind ?_
  intro marked
  refine (settling_groupRecord scope _ _).bind ?_
  intro name
  refine settling_pure ?_
  cases name <;> simp [typeNames, TypeExpr.references]

/-- The names that an optional body mentions. -/
def bodyNames (body : Option Body) : List String :=
  typeNames (body.bind (·.type))

theorem settling_someBody {step : Synthesis Body}
    (h : Settling known step fun body => typeNames body.type) :
    Settling known (do return some (← step)) bodyNames :=
  h.bind fun _ => settling_pure (by simp [bodyNames])

theorem settling_swaggerBody (scope : Scope) (document operation : Mapping) (stem : String)
    (placeholders : List String) (parameters : List Parameter) :
    Settling known (swaggerBody scope document operation stem placeholders parameters)
      bodyNames := by
  unfold swaggerBody
  dsimp only
  split
  · exact settling_someBody (settling_formBody scope stem _)
  · split
    · exact settling_pure (by simp [bodyNames, typeNames])
    · refine (settling_lift _).bind ?_
      intro mediaType
      exact settling_someBody (settling_bodyOfSchema scope stem mediaType _)

theorem settling_openApiBody (scope : Scope) (document operation : Mapping) (stem : String) :
    Settling known (openApiBody scope document operation stem) bodyNames := by
  refine (settling_lift _).bind ?_
  intro request
  split
  · dsimp only
    refine (settling_bodyOfSchema scope stem _ _).bind ?_
    intro body
    split
    · refine (settling_lift _).bind ?_
      intro files
      split
      all_goals exact settling_pure (by simp [bodyNames])
    · exact settling_pure (by simp [bodyNames])
  · exact settling_fail _ _
  · exact settling_pure (by simp [bodyNames, typeNames])

theorem settling_body (scope : Scope) (dialect : Dialect) (document operation : Mapping)
    (stem : String) (placeholders : List String) (parameters : List Parameter) :
    Settling known (body scope dialect document operation stem placeholders parameters)
      bodyNames := by
  cases dialect with
  | swagger2 => exact settling_swaggerBody scope document operation stem placeholders parameters
  | openApi3 => exact settling_openApiBody scope document operation stem

theorem settling_responseType (scope : Scope) (dialect : Dialect) (document operation : Mapping)
    (stem : String) :
    Settling known (responseType scope dialect document operation stem) typeNames := by
  refine (settling_lift _).bind ?_
  intro selected
  split
  · exact settling_pure (by simp [typeNames])
  · split
    · refine (settling_declareRecord scope _ _).bind ?_
      intro type
      exact settling_pure (by simp [typeNames])
    · refine (settling_printedType scope _).bind ?_
      intro type
      exact settling_pure (by simp [typeNames])

end Operation

/-! ## Bindings -/

namespace Binding

/-- The names that the parts of a binding mention, apart from those in its records. -/
def names (binding : Binding TypeExpr) : List String :=
  binding.pathRecord.toList ++ binding.queryRecord.toList ++ Operation.typeNames binding.body ++
    Operation.typeNames binding.response

/-- A closed binding: its records have distinct names, and every other name is one of theirs. -/
structure Closed (binding : Binding TypeExpr) : Prop where
  distinct : (binding.records.map (·.name)).Nodup
  pathRecord : ∀ {name}, binding.pathRecord = some name → ∃ record ∈ binding.records,
    record.name = name
  queryRecord : ∀ {name}, binding.queryRecord = some name → ∃ record ∈ binding.records,
    record.name = name
  body : ∀ {type}, binding.body = some type → ∀ name ∈ type.references,
    ∃ record ∈ binding.records, record.name = name
  response : ∀ {type}, binding.response = some type → ∀ name ∈ type.references,
    ∃ record ∈ binding.records, record.name = name
  fields : ∀ {owner}, owner ∈ binding.records → ∀ field ∈ owner.fields,
    ∀ name ∈ field.type.references, ∃ record ∈ binding.records, record.name = name

/-- A binding is closed if it has the records of a settled session that mentions its names. -/
theorem closed_of_settles {binding : Binding TypeExpr} {session : Session}
    (settled : Session.empty.Settles session)
    (records : binding.records = session.catalog.records)
    (mentioned : binding.names ⊆ session.catalog.names) : binding.Closed := by
  have settledNames : ∀ name, ¬ session.catalog.Pending name := fun name pending =>
    Catalog.not_pending_empty name (settled.pending pending)
  have found : ∀ {name}, name ∈ session.catalog.names → ∃ record ∈ binding.records,
      record.name = name := by
    intro name inside
    rw [records]
    exact settled.closed.catalog.exists_record settledNames inside
  have known : ∀ {name}, name ∈ binding.names → ∃ record ∈ binding.records,
      record.name = name := fun inside => found (mentioned inside)
  refine ⟨?_, ?_, ?_, ?_, ?_, ?_⟩
  · rw [records]
    exact settled.closed.catalog.nodup_records
  · intro name present
    exact known (by simp [names, present])
  · intro name present
    exact known (by simp [names, present])
  · intro type present name inside
    exact known (by simp [names, Operation.typeNames, present, inside])
  · intro type present name inside
    exact known (by simp [names, Operation.typeNames, present, inside])
  · intro owner member field hfield name inside
    rw [records] at member
    exact found (settled.closed.catalog.references_subset member hfield inside)

end Binding

namespace Operation

open Synthesis

/-- The parts of a binding are settled one after the other, and the records are those of the
session at the end. -/
theorem bindingOf_settles {scope : Scope} {dialect : Dialect} {document item operation : Mapping}
    {path method : String} {session after : Session} {binding : Binding TypeExpr}
    (closed : session.Closed)
    (h : (bindingOf scope dialect document item operation path method).outcome session =
      (.ok binding, after)) :
    session.Settles after ∧ binding.records = after.catalog.records ∧
      binding.names ⊆ after.catalog.names := by
  unfold bindingOf at h
  obtain ⟨start, parameters, hparameters, h⟩ := outcome_bind_eq_ok h
  obtain ⟨first, pathRecord, hpath, h⟩ := outcome_bind_eq_ok h
  obtain ⟨second, queryRecord, hquery, h⟩ := outcome_bind_eq_ok h
  obtain ⟨third, body, hbody, h⟩ := outcome_bind_eq_ok h
  obtain ⟨fourth, response, hresponse, h⟩ := outcome_bind_eq_ok h
  obtain ⟨last, final, hfinal, h⟩ := outcome_bind_eq_ok h
  obtain ⟨hstart, -⟩ := settling_lift _ closed (List.nil_subset _) hparameters
  obtain ⟨hfirst, inPath⟩ :=
    settling_groupRecord _ _ _ hstart.closed (List.nil_subset _) hpath
  obtain ⟨hsecond, inQuery⟩ :=
    settling_groupRecord _ _ _ hfirst.closed (List.nil_subset _) hquery
  obtain ⟨hthird, inBody⟩ :=
    settling_body _ _ _ _ _ _ _ hsecond.closed (List.nil_subset _) hbody
  obtain ⟨hfourth, inResponse⟩ :=
    settling_responseType _ _ _ _ _ hthird.closed (List.nil_subset _) hresponse
  obtain ⟨same, rfl⟩ := Prod.mk.inj hfinal
  obtain rfl := Except.ok.inj same
  obtain ⟨same, rfl⟩ := Prod.mk.inj h
  obtain rfl := Except.ok.inj same
  refine ⟨(((hstart.trans hfirst).trans hsecond).trans hthird).trans hfourth, rfl, ?_⟩
  have later := (hthird.trans hfourth)
  refine List.append_subset.mpr ⟨List.append_subset.mpr ⟨List.append_subset.mpr ⟨?_, ?_⟩, ?_⟩, ?_⟩
  · exact List.Subset.trans inPath (hsecond.trans later).grows.catalog.names.subset
  · exact List.Subset.trans inQuery later.grows.catalog.names.subset
  · exact List.Subset.trans inBody hfourth.grows.catalog.names.subset
  · exact inResponse

end Operation

namespace Binding

/-- A run that made a binding: the operation that was found, the definitions, and the session at
the end. -/
structure Made (document : Value) (path method : String) (options : Options)
    (lexicon : Name.Lexicon) (binding : Binding TypeExpr) (session : Session) : Prop where
  run : ∃ entries item operation definitions,
    document = .object entries ∧
    Operation.find? entries path (String.ofList (Text.lower method.toList)) =
      some (item, operation) ∧
    (Dialect.ofDocument entries).definitions entries = .ok definitions ∧
    (Operation.bindingOf ⟨⟨(Dialect.ofDocument entries).root, definitions⟩, options, lexicon, none⟩
      (Dialect.ofDocument entries) entries item operation path
      (String.ofList (Text.lower method.toList))).outcome .empty = (.ok binding, session)

theorem ofDocument_eq_ok_iff {document : Value} {path method : String} {options : Options}
    {lexicon : Name.Lexicon} {binding : Binding TypeExpr} {warnings : List Warning} :
    ofDocument document path method options lexicon = .ok (some binding, warnings) ↔
      ∃ session, Made document path method options lexicon binding session ∧
        session.warnings = warnings := by
  constructor
  · intro h
    cases document with
    | object entries =>
        simp only [ofDocument, ofOperation] at h
        split at h
        · simp at h
        · rename_i item operation found
          cases defined : (Dialect.ofDocument entries).definitions entries with
          | error failure => simp [defined, bind, Except.bind] at h
          | ok definitions =>
              simp only [defined, bind, Except.bind] at h
              split at h
              · simp at h
              · rename_i own made
                obtain ⟨same, rfl⟩ := Prod.mk.inj (Except.ok.inj h)
                obtain rfl := Option.some.inj same
                exact ⟨_, ⟨entries, item, operation, definitions, rfl, found, defined,
                  Prod.ext made rfl⟩, rfl⟩
    | _ => simp [ofDocument] at h
  · rintro ⟨session, ⟨entries, item, operation, definitions, rfl, found, defined, made⟩, rfl⟩
    simp [ofDocument, ofOperation, found, defined, made, bind, Except.bind]

/-- No dangling names and no duplicate names: of every document, every operation that has a
binding has a closed one, and the run leaves no reserved name without a record. -/
theorem closed_of_ofDocument {document : Value} {path method : String} {options : Options}
    {lexicon : Name.Lexicon} {binding : Binding TypeExpr} {warnings : List Warning}
    (h : ofDocument document path method options lexicon = .ok (some binding, warnings)) :
    binding.Closed ∧ ∃ session, Made document path method options lexicon binding session ∧
      session.warnings = warnings ∧ ∀ slot ∈ session.catalog.slots, slot.2.isSome := by
  obtain ⟨session, made, same⟩ := ofDocument_eq_ok_iff.mp h
  obtain ⟨entries, item, operation, definitions, -, -, -, run⟩ := made.run
  obtain ⟨settled, records, mentioned⟩ := Operation.bindingOf_settles Session.closed_empty run
  refine ⟨closed_of_settles settled records mentioned, session, made, same, ?_⟩
  intro slot member
  exact settled.closed.catalog.isSome_slot
    (fun name pending => Catalog.not_pending_empty name (settled.pending pending)) member

/-- A document with two definitions that refer to each other. -/
def petDocument : Value :=
  .ofFields [
    ("definitions", .ofFields [
      ("Pet", .ofFields [
        ("type", .text "object"),
        ("properties", .ofFields [
          ("owner", .ofFields [("$ref", .text "#/definitions/Owner")])])]),
      ("Owner", .ofFields [
        ("type", .text "object"),
        ("properties", .ofFields [
          ("pets", .ofFields [
            ("type", .text "array"),
            ("items", .ofFields [("$ref", .text "#/definitions/Pet")])])])])]),
    ("paths", .ofFields [
      ("/pets/\x7bid\x7d", .ofFields [
        ("get", .ofFields [
          ("responses", .ofFields [
            ("200", .ofFields [
              ("schema", .ofFields [("$ref", .text "#/definitions/Pet")])])])])])])]

theorem closed_of_petDocument :
    ∃ binding warnings,
      ofDocument petDocument "/pets/\x7bid\x7d" "GET" {} .standard = .ok (some binding, warnings) ∧
      binding.records.map (·.name) = ["GetPetsIdPathVar", "Pet", "Owner"] ∧ binding.Closed := by
  have computed :
      ((ofDocument petDocument "/pets/\x7bid\x7d" "GET" {} .standard).toOption.bind (·.1)).map
        (fun binding => binding.records.map (·.name)) =
      some ["GetPetsIdPathVar", "Pet", "Owner"] := by decide +kernel
  cases made : ofDocument petDocument "/pets/\x7bid\x7d" "GET" {} .standard with
  | error failure => simp [made, Except.toOption] at computed
  | ok answer =>
      obtain ⟨found, warnings⟩ := answer
      cases found with
      | none => simp [made, Except.toOption] at computed
      | some binding =>
          have records : binding.records.map (·.name) = ["GetPetsIdPathVar", "Pet", "Owner"] := by
            simpa [made, Except.toOption] using computed
          exact ⟨binding, warnings, rfl, records, (closed_of_ofDocument made).1⟩

end Binding

end ApiBinding
