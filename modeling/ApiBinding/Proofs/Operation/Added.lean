import ApiBinding.Proofs.Operation.Need
import ApiBinding.Proofs.Operation.Run
import ApiBinding.Proofs.Synthesis.Added

/-! The records that the parts of an operation add: those that typing makes of schemas, and one for
each group of parameters, with a field for each parameter that has a type. -/

namespace ApiBinding

namespace Synthesis

variable {α β : Type} {holds : Record TypeExpr → Prop}

/-! ## Adding steps -/

/-- A step that, where it succeeds, adds only records with a property. -/
def Adding (holds : Record TypeExpr → Prop) (step : Synthesis α) : Prop :=
  ∀ ⦃session value after⦄, outcome step session = (.ok value, after) →
    session.Adds holds after

theorem adding_pure (value : α) : Adding holds (pure value) := by
  intro session found after success
  obtain ⟨-, rfl⟩ := Prod.mk.inj success
  exact session.adds_refl

theorem adding_lift (result : Except Failure α) : Adding holds (lift result) := by
  intro session found after success
  obtain ⟨-, rfl⟩ := Prod.mk.inj success
  exact session.adds_refl

theorem adding_fail (failure : Failure) : Adding holds (fail failure : Synthesis α) :=
  adding_lift _

theorem adding_warn (warning : Warning) : Adding holds (warn warning) := by
  intro session found after success
  obtain ⟨-, rfl⟩ := Prod.mk.inj success
  exact session.adds_refl

theorem Adding.bind {step : Synthesis α} {next : α → Synthesis β} (h : Adding holds step)
    (hnext : ∀ value, Adding holds (next value)) : Adding holds (step >>= next) := by
  intro session value after success
  obtain ⟨middle, first, hfirst, hsecond⟩ := outcome_bind_eq_ok success
  exact (h hfirst).trans (hnext first hsecond)

/-- What follows a computation apart from the session may count on its result. -/
theorem adding_lift_bind {result : Except Failure α} {next : α → Synthesis β}
    (hnext : ∀ value, result = .ok value → Adding holds (next value)) :
    Adding holds (lift result >>= next) := by
  intro session value after success
  obtain ⟨middle, first, hfirst, hsecond⟩ := outcome_bind_eq_ok success
  obtain ⟨found, rfl⟩ := Prod.mk.inj hfirst
  exact hnext first found hsecond

theorem Adding.mono {step : Synthesis α} {holds' : Record TypeExpr → Prop}
    (h : Adding holds step) (weaker : ∀ record, holds record → holds' record) :
    Adding holds' step :=
  fun _ _ _ success => (h success).mono weaker

theorem adding_printedType (scope : Scope) (node : Value) :
    Adding (Generated scope) (printedType scope node) := by
  intro session type after success
  obtain ⟨_, derivation⟩ := printedType_derivation success
  exact derivation.adds

theorem adding_declareRecord (scope : Scope) (name : String) (schema : Mapping) :
    Adding (Generated scope) (declareRecord scope name schema) := by
  intro session type after success
  obtain ⟨_, derivation⟩ := declareRecord_derivation scope session name schema (le_refl _)
  change outcome (declareWith scope (typeWithin scope _) name schema) session = _ at success
  rw [success] at derivation
  exact derivation.adds id fun _ _ _ _ _ typed => typed.adds

end Synthesis

namespace Operation

open Synthesis

variable {scope : Scope} {stem : String} {holds : Record TypeExpr → Prop}

/-- Typing adds only records with a property, as far as the parts of an operation call for it:
the type of a node, and the record of a body or a response that is written in place. -/
structure TypingAdds (scope : Scope) (stem : String) (holds : Record TypeExpr → Prop) : Prop where
  printed : ∀ node, Adding holds (printedType scope node)
  declared : ∀ suffix ∈ ["Body", "Response"], ∀ schema,
    Adding holds (declareRecord scope (stem ++ suffix) schema)

theorem typingAdds_generated (scope : Scope) (stem : String) :
    TypingAdds scope stem (Generated scope) :=
  ⟨adding_printedType scope, fun _ _ schema => adding_declareRecord scope _ schema⟩

/-! ## Groups of parameters -/

/-- Whether a parameter has a schema that has a type. -/
def hasType (parameter : Parameter) : Bool :=
  parameter.schema.any fun schema => Schema.isTyped (.object schema)

/-- The names of the parameters that have a type, in order. -/
def typedNames (parameters : List Parameter) : List String :=
  (parameters.filter hasType).map (·.name)

theorem typedNames_cons (parameter : Parameter) (rest : List Parameter) :
    typedNames (parameter :: rest) = typedNames [parameter] ++ typedNames rest := by
  simp [typedNames, ← List.map_append, ← List.filter_append]

/-- The record of a group: it has a field for each parameter that has a type. -/
structure GroupRecord (scope : Scope) (name : String) (parameters : List Parameter)
    (record : Record TypeExpr) : Prop where
  name : record.name = name
  placement : record.placement = scope.placement
  fields : record.fields.map (·.name) = typedNames parameters

theorem adding_parameterField (typing : TypingAdds scope stem holds) (owner : String)
    (parameter : Parameter) : Adding holds (parameterField scope owner parameter) := by
  have skipped : Adding holds
      (do
        Synthesis.warn (.untypedParameter parameter.name owner)
        pure none : Synthesis (Option (Field TypeExpr))) :=
    (adding_warn _).bind fun _ => adding_pure _
  unfold parameterField
  split
  · split
    · exact (typing.printed _).bind fun _ => adding_pure _
    · exact skipped
  · exact skipped

theorem adding_parameterFields (typing : TypingAdds scope stem holds) (owner : String)
    (parameters : List Parameter) : Adding holds (parameterFields scope owner parameters) := by
  induction parameters with
  | nil => exact adding_pure _
  | cons parameter rest ih =>
      refine (adding_parameterField typing owner parameter).bind ?_
      intro field
      exact ih.bind fun fields => adding_pure _

/-- A parameter becomes a field with its name if it has a type. -/
theorem name_parameterField {owner : String} {parameter : Parameter} {session after : Session}
    {field : Option (Field TypeExpr)}
    (h : outcome (parameterField scope owner parameter) session = (.ok field, after)) :
    field.toList.map (·.name) = typedNames [parameter] := by
  unfold parameterField at h
  cases written : parameter.schema with
  | none =>
      simp only [written] at h
      obtain ⟨same, -⟩ := Prod.mk.inj h
      obtain rfl := Except.ok.inj same
      simp [typedNames, hasType, written]
  | some schema =>
      simp only [written] at h
      by_cases typed : Schema.isTyped (.object schema) = true
      · rw [if_pos typed] at h
        obtain ⟨middle, type, htype, h⟩ := outcome_bind_eq_ok h
        obtain ⟨same, -⟩ := Prod.mk.inj h
        obtain rfl := Except.ok.inj same
        simp [typedNames, hasType, written, typed]
      · rw [if_neg typed] at h
        obtain ⟨same, -⟩ := Prod.mk.inj h
        obtain rfl := Except.ok.inj same
        simp [typedNames, hasType, written, typed]

theorem names_parameterFields {owner : String} {parameters : List Parameter}
    {session after : Session} {fields : List (Field TypeExpr)}
    (h : outcome (parameterFields scope owner parameters) session = (.ok fields, after)) :
    fields.map (·.name) = typedNames parameters := by
  induction parameters generalizing session fields with
  | nil =>
      obtain ⟨same, -⟩ := Prod.mk.inj h
      obtain rfl := Except.ok.inj same
      rfl
  | cons parameter rest ih =>
      obtain ⟨middle, field, hfield, h⟩ := outcome_bind_eq_ok h
      obtain ⟨last, others, hrest, h⟩ := outcome_bind_eq_ok h
      obtain ⟨same, rfl⟩ := Prod.mk.inj h
      obtain rfl := Except.ok.inj same
      rw [List.map_append, name_parameterField hfield, ih hrest, ← typedNames_cons]

/-- What a group adds: its own record, and records that its fields lead to. -/
theorem adding_groupRecord (typing : TypingAdds scope stem holds) (name : String)
    (parameters : List Parameter) :
    Adding (fun record => holds record ∨ GroupRecord scope name parameters record)
      (groupRecord scope name parameters) := by
  intro session result after success
  obtain ⟨middle, fields, hfields, h⟩ := outcome_bind_eq_ok success
  have typed : session.Adds
      (fun record => holds record ∨ GroupRecord scope name parameters record) middle :=
    (adding_parameterFields typing name parameters hfields).mono fun _ => .inl
  cases fields with
  | nil =>
      obtain ⟨-, rfl⟩ := Prod.mk.inj h
      exact typed
  | cons first rest =>
      have kept := outcome_keep ⟨name, none, first :: rest, scope.placement⟩ middle
      obtain ⟨-, rfl⟩ := Prod.mk.inj (kept.symm.trans h)
      refine typed.trans ?_
      split
      · exact middle.adds_refl
      · refine (middle.adds_reserve _).trans (Session.adds_store _ (.inr ?_))
        exact ⟨rfl, rfl, names_parameterFields hfields⟩

/-! ## Bodies and responses -/

theorem adding_recordBody (typing : TypingAdds scope stem holds) (entries : Mapping)
    (files : List FileField) (isForm : Bool) :
    Adding holds (do
      let marked ← Synthesis.lift (markFiles entries files)
      let type ← declareRecord scope (stem ++ "Body") marked
      pure (Body.mk (some type) isForm files)) := by
  refine (adding_lift _).bind ?_
  intro marked
  exact (typing.declared "Body" (by simp) marked).bind fun _ => adding_pure _

theorem adding_typedBody (typing : TypingAdds scope stem holds) (schema : Value)
    (files : List FileField) (isForm : Bool) :
    Adding holds (do
      let type ← printedType scope schema
      pure (Body.mk (some type) isForm files)) :=
  (typing.printed schema).bind fun _ => adding_pure _

theorem adding_bodyOfSchema (typing : TypingAdds scope stem holds) (mediaType : String)
    (schema : Value) : Adding holds (bodyOfSchema scope stem mediaType schema) := by
  unfold bodyOfSchema
  dsimp only
  split
  · refine (adding_lift _).bind ?_
    intro files
    split
    · exact adding_recordBody typing _ files _
    · exact adding_typedBody typing schema files _
  · split
    · exact adding_recordBody typing _ [] _
    · exact adding_typedBody typing schema [] _

/-- A mark leaves a schema with a type. -/
theorem isTyped_mark {schema marked : Mapping} {multiple : Bool}
    (h : FileField.mark schema multiple = .ok marked) :
    Schema.isTyped (.object marked) = true := by
  have typed : ∀ (key : String) (value : Value), key ∈ Schema.typeKeys →
      Schema.isTyped (.object (schema.insert (.text key) value)) = true := by
    intro key value member
    simp only [Schema.isTyped, List.any_eq_true]
    exact ⟨key, member, by simp [Mapping.has]⟩
  unfold FileField.mark at h
  split at h
  · split at h
    · simp at h
    · obtain rfl := Except.ok.inj h
      exact typed "items" _ (by decide)
    · simp at h
  · obtain rfl := Except.ok.inj h
    exact typed "type" _ (by decide)

theorem has_of_field {m : Mapping} {name : String} {value : Value} (found : m.field name = value)
    (present : value ≠ .null) : m.has name = true := by
  simp [Mapping.has, Mapping.find?_of_field found present]

/-- A file has a type before it is marked. -/
theorem isTyped_of_multiplicity? {schema : Mapping} {multiple : Bool}
    (h : FileField.multiplicity? (.object schema) = some multiple) :
    Schema.isTyped (.object schema) = true := by
  have present : ∀ {name value}, name ∈ Schema.typeKeys → schema.field name = value →
      value ≠ .null → Schema.isTyped (.object schema) = true := by
    intro name value member found nonnull
    simp only [Schema.isTyped, List.any_eq_true]
    exact ⟨name, member, has_of_field found nonnull⟩
  simp only [FileField.multiplicity?] at h
  split at h
  · rename_i isFile
    simp only [FileField.isFile, Bool.or_eq_true] at isFile
    rcases isFile with word | format
    · cases found : schema.field "type" with
      | text _ => exact present (by decide) found (by simp)
      | list _ => exact present (by decide) found (by simp)
      | _ => simp [Schema.typeWord?, found] at word
    · cases found : schema.field "format" with
      | text _ => exact present (by decide) found (by simp)
      | _ => simp [Schema.format?, Value.object?, Value.text?, found] at format
  · split at h
    · rename_i items found
      exact present (by decide) found (by simp)
    · simp at h

/-- A form parameter keeps its name, and whether it has a type. -/
theorem typedNames_formParameter {parameter : Parameter} {marked : Parameter × Option FileField}
    (h : formParameter parameter = .ok marked) :
    typedNames [marked.1] = typedNames [parameter] := by
  unfold formParameter at h
  split at h
  · rename_i schema written
    cases found : FileField.ofProperty? (.text parameter.name) (.object schema) with
    | error failure => simp [found, bind, Except.bind] at h
    | ok file =>
        cases file with
        | none =>
            obtain rfl : (parameter, none) = marked := by
              simpa [found, bind, Except.bind] using h
            rfl
        | some file =>
            cases mark : FileField.mark schema file.multiple with
            | error failure => simp [found, mark, bind, Except.bind] at h
            | ok own =>
                obtain rfl : ({ parameter with schema := some own }, some file) = marked := by
                  simpa [found, mark, bind, Except.bind] using h
                have before : Schema.isTyped (.object schema) = true := by
                  cases several : FileField.multiplicity? (.object schema) with
                  | none => simp [FileField.ofProperty?, several] at found
                  | some multiple => exact isTyped_of_multiplicity? several
                simp [typedNames, hasType, written, before, isTyped_mark mark]
  · obtain rfl := Except.ok.inj h
    rfl

theorem typedNames_mapM_formParameter {parameters : List Parameter}
    {marked : List (Parameter × Option FileField)}
    (h : parameters.mapM formParameter = .ok marked) :
    typedNames (marked.map (·.1)) = typedNames parameters := by
  induction parameters generalizing marked with
  | nil =>
      obtain rfl := Except.ok.inj h
      rfl
  | cons parameter rest ih =>
      rw [List.mapM_cons] at h
      cases first : formParameter parameter with
      | error failure => simp [first, bind, Except.bind] at h
      | ok own =>
          cases others : rest.mapM formParameter with
          | error failure => simp [first, others, bind, Except.bind] at h
          | ok later =>
              obtain rfl : own :: later = marked := by
                simpa [first, others, bind, Except.bind, pure, Except.pure] using h
              rw [List.map_cons, typedNames_cons, typedNames_formParameter first, ih others,
                ← typedNames_cons]

theorem adding_formBody (typing : TypingAdds scope stem holds) (parameters : List Parameter) :
    Adding (fun record => holds record ∨ GroupRecord scope (stem ++ "Body") parameters record)
      (formBody scope stem parameters) := by
  refine adding_lift_bind ?_
  intro marked marks
  refine Adding.bind ?_ fun name => adding_pure _
  refine (adding_groupRecord typing (stem ++ "Body") _).mono ?_
  rintro record (typed | group)
  · exact .inl typed
  · exact .inr ⟨group.name, group.placement,
      group.fields.trans (typedNames_mapM_formParameter marks)⟩

/-- Whether form parameters make the body. -/
def hasForm (dialect : Dialect) (parameters : List Parameter) : Bool :=
  dialect == .swagger2 && parameters.any (·.location == .formData)

/-- What the body adds: records that typing adds, and the group of form parameters if there is
one. -/
theorem adding_body (typing : TypingAdds scope stem holds) (dialect : Dialect)
    (document operation : Mapping) (placeholders : List String) (parameters : List Parameter) :
    Adding (fun record => holds record ∨ (hasForm dialect parameters = true ∧
      GroupRecord scope (stem ++ "Body") (formGroup placeholders parameters) record))
      (body scope dialect document operation stem placeholders parameters) := by
  cases dialect with
  | swagger2 =>
      simp only [body, swaggerBody]
      split
      · rename_i isForm
        refine Adding.bind ?_ fun _ => adding_pure _
        refine (adding_formBody typing (formGroup placeholders parameters)).mono ?_
        exact fun record => Or.imp_right fun group => ⟨by simp [hasForm, isForm], group⟩
      · split
        · exact adding_pure _
        · refine (adding_lift _).bind fun _ => Adding.bind ?_ fun _ => adding_pure _
          exact (adding_bodyOfSchema typing _ _).mono fun _ => .inl
  | openApi3 =>
      simp only [body]
      refine Adding.mono ?_ fun _ => .inl
      refine (adding_lift _).bind ?_
      intro request
      split
      · dsimp only
        refine (adding_bodyOfSchema typing _ _).bind ?_
        intro typed
        split
        · refine (adding_lift _).bind ?_
          intro files
          split
          all_goals exact adding_pure _
        · exact adding_pure _
      · exact adding_fail _
      · exact adding_pure _

theorem adding_responseType (typing : TypingAdds scope stem holds) (dialect : Dialect)
    (document operation : Mapping) :
    Adding holds (responseType scope dialect document operation stem) := by
  refine (adding_lift _).bind ?_
  intro selected
  split
  · exact adding_pure _
  · split
    · exact (typing.declared "Response" (by simp) _).bind fun _ => adding_pure _
    · exact (typing.printed _).bind fun _ => adding_pure _

end Operation

/-- What holds of the records that each part adds holds of all records of a binding. -/
theorem Site.Run.forall_records {site : Site} {binding : Binding TypeExpr}
    (run : site.Run binding) {holds : Record TypeExpr → Prop}
    (path : Session.empty.Adds holds run.afterPath)
    (query : run.afterPath.Adds holds run.afterQuery)
    (body : run.afterQuery.Adds holds run.afterBody)
    (response : run.afterBody.Adds holds run.afterResponse) :
    ∀ record ∈ binding.records, holds record := by
  intro record member
  rw [run.records] at member
  obtain ⟨name, inside⟩ := Catalog.mem_slots_of_mem_records member
  have found := Catalog.find?_of_mem_slots run.response_settles.closed.catalog.names inside
  rcases ((path.trans query).trans body).trans response found with old | new
  · simp [Session.empty, Catalog.find?, Catalog.empty] at old
  · exact new

end ApiBinding
