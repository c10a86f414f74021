import ApiBinding.Proofs.Operation.Moved
import ApiBinding.Proofs.Synthesis.Cleared

/-! Parameters, bodies and responses with the parameter lists in them cleared give the same
records and types as before. -/

namespace ApiBinding

open Value

/-! ## File fields -/

namespace FileField

open Schema

theorem isFile_cleared (schema : Mapping) : isFile (clearedEntries schema) = isFile schema := by
  simp [isFile, typeWord?_cleared, format?_cleared]

theorem multiplicity?_clearedUnder (key : Key) (property : Value) :
    multiplicity? (clearedUnder key property) = multiplicity? property := by
  cases property with
  | object schema =>
      simp only [clearedUnder_object, multiplicity?, isFile_cleared, typeWord?_cleared]
      rw [Mapping.field_cleared schema _ (by decide)]
      cases Mapping.field schema "items" with
      | object items => simp only [cleared_object, isFile_cleared]
      | _ => rfl
  | _ => simp [clearedUnder, multiplicity?]

theorem ofProperty?_clearedUnder (name key : Key) (property : Value) :
    ofProperty? name (clearedUnder key property) = ofProperty? name property := by
  unfold ofProperty?
  rw [multiplicity?_clearedUnder]

theorem ofProperty?_cleared (name : Key) (schema : Mapping) :
    ofProperty? name (.object (clearedEntries schema)) = ofProperty? name (.object schema) := by
  rw [← ofProperty?_clearedUnder name .null (.object schema), clearedUnder_object]

theorem withFileType_cleared (schema : Mapping) :
    withFileType (clearedEntries schema) = clearedEntries (withFileType schema) := by
  rw [withFileType, withFileType, Mapping.clearedEntries_insert, clearedUnder]

theorem mark_cleared (schema : Mapping) (multiple : Bool) :
    mark (clearedEntries schema) multiple = (mark schema multiple).map clearedEntries := by
  unfold mark
  rw [withFileType_cleared, Mapping.find?_cleared schema _ (by decide)]
  split
  · cases schema.find? "items" with
    | none => rfl
    | some items =>
        cases items with
        | object entries =>
            simp [withFileType_cleared, Mapping.clearedEntries_insert, clearedUnder_object,
              Except.map]
        | _ => rfl
  · rfl

theorem markAll_cleared (properties : Mapping) (files : List FileField) :
    markAll (clearedEntries properties) files = (markAll properties files).map clearedEntries := by
  unfold markAll
  induction files generalizing properties with
  | nil => rfl
  | cons file rest ih =>
      rw [List.foldlM_cons, List.foldlM_cons, Mapping.find?_clearedEntries]
      cases properties.find? file.name with
      | none => exact ih properties
      | some property =>
          cases property with
          | object entries =>
              simp only [Option.map_some, clearedUnder_object, mark_cleared]
              have inserted : ∀ marked : Mapping,
                  Mapping.insert (clearedEntries properties) (.text file.name)
                    (.object (clearedEntries marked)) =
                  clearedEntries (properties.insert (.text file.name) (.object marked)) := by
                intro marked
                rw [Mapping.clearedEntries_insert, clearedUnder_object]
              cases mark entries file.multiple with
              | error failure => rfl
              | ok marked =>
                  simp only [Except.map, bind, Except.bind, inserted]
                  exact ih _
          | _ =>
              simp only [Option.map_some, clearedUnder]
              exact ih properties

end FileField

namespace Operation

open Schema Synthesis

variable {scope : Scope}

/-! ## Bodies -/

theorem isInlineObject_cleared (entries : Mapping) :
    isInlineObject (clearedEntries entries) = isInlineObject entries := by
  simp only [isInlineObject, Mapping.has_clearedEntries, typeWord?_cleared]
  rw [Mapping.field_cleared entries _ (by decide)]
  cases entries.field "properties" with
  | object properties => cases properties <;> rfl
  | _ => rfl

theorem inlineObject?_cleared (schema : Value) :
    inlineObject? schema.cleared = (inlineObject? schema).map clearedEntries := by
  have eq : ∀ value : Value, inlineObject? value = value.object?.filter isInlineObject :=
    fun _ => rfl
  rw [eq, eq, object?_cleared]
  cases schema.object? with
  | none => rfl
  | some entries =>
      rw [Option.map_some, Option.filter_some, Option.filter_some, isInlineObject_cleared]
      split <;> rfl

/-- The files among properties are found in the same order. -/
theorem mapM_ofProperty?_cleared (properties : Mapping) :
    (clearedEntries properties).mapM (fun entry => FileField.ofProperty? entry.1 entry.2) =
      properties.mapM fun entry => FileField.ofProperty? entry.1 entry.2 := by
  rw [clearedEntries_eq_map, List.mapM_map]
  refine congrArg (List.mapM · properties) (funext fun entry => ?_)
  exact FileField.ofProperty?_clearedUnder entry.1 entry.1 entry.2

theorem scan_cleared (table : Table) (schema : Mapping) :
    (do
      let flat ← flatten table (clearedEntries schema)
      let found ← flat.properties.mapM fun (name, property) => FileField.ofProperty? name property
      .ok (found.filterMap id)) =
    (do
      let flat ← flatten table schema
      let found ← flat.properties.mapM fun (name, property) => FileField.ofProperty? name property
      .ok (found.filterMap id)) := by
  refine bind_of_map (flatten_cleared schema) fun flat flat' alike => ?_
  have properties : clearedEntries flat.properties = clearedEntries flat'.properties :=
    (congrArg Flattened.properties alike :)
  rw [← mapM_ofProperty?_cleared, properties, mapM_ofProperty?_cleared]

theorem fileFields_cleared (table : Table) (schema : Value) :
    fileFields table schema.cleared = fileFields table schema := by
  unfold fileFields
  cases schema with
  | object entries =>
      simp only [cleared_object]
      rw [Mapping.field_cleared entries _ (by decide)]
      cases Mapping.field entries "$ref" with
      | text ref => rfl
      | _ => exact scan_cleared table entries
  | _ => rfl

theorem markFiles_cleared (entries : Mapping) (files : List FileField) :
    markFiles (clearedEntries entries) files =
      (markFiles entries files).map clearedEntries := by
  unfold markFiles
  rw [Mapping.field_cleared entries _ (by decide)]
  cases files with
  | nil => rfl
  | cons file rest =>
      cases Mapping.field entries "properties" with
      | object properties =>
          simp only [cleared_object, FileField.markAll_cleared]
          cases FileField.markAll properties (file :: rest) with
          | error failure => rfl
          | ok marked =>
              simp [Except.map, bind, Except.bind, Mapping.clearedEntries_insert,
                clearedUnder_object]
      | _ => rfl

theorem typedBody_cleared (stem mediaType : String) (schema : Value) (files : List FileField) :
    (do
      let type ←
        match inlineObject? schema.cleared with
        | some entries => do
          let marked ← Synthesis.lift (markFiles entries files)
          Synthesis.declareRecord scope (stem ++ "Body") marked
        | none => Synthesis.printedType scope schema.cleared
      pure (Body.mk (some type) (isForm mediaType || !files.isEmpty) files)) =
    (do
      let type ←
        match inlineObject? schema with
        | some entries => do
          let marked ← Synthesis.lift (markFiles entries files)
          Synthesis.declareRecord scope (stem ++ "Body") marked
        | none => Synthesis.printedType scope schema
      pure (Body.mk (some type) (isForm mediaType || !files.isEmpty) files)) := by
  rw [inlineObject?_cleared, printedType_cleared]
  cases inlineObject? schema with
  | none => rfl
  | some entries =>
      dsimp only [Option.map_some]
      rw [markFiles_cleared]
      cases markFiles entries files with
      | error failure => rfl
      | ok marked =>
          change Synthesis.declareRecord scope (stem ++ "Body") (clearedEntries marked) >>= _ = _
          rw [declareRecord_cleared]
          rfl

theorem bodyOfSchema_cleared (stem mediaType : String) (schema : Value) :
    bodyOfSchema scope stem mediaType schema.cleared =
      bodyOfSchema scope stem mediaType schema := by
  unfold bodyOfSchema
  rw [fileFields_cleared]
  dsimp only
  split
  · refine bind_congr fun files => ?_
    exact typedBody_cleared stem mediaType schema files
  · exact typedBody_cleared stem mediaType schema []

/-! ## Responses -/

theorem responseSchema?_cleared (dialect : Dialect) (response : Mapping) :
    dialect.responseSchema? (clearedEntries response) =
      (dialect.responseSchema? response).map Value.cleared := by
  cases dialect with
  | swagger2 =>
      simp only [Dialect.responseSchema?]
      rw [Mapping.field_cleared response _ (by decide)]
      cases response.field "schema" <;> rfl
  | openApi3 =>
      simp only [Dialect.responseSchema?]
      rw [Mapping.field_cleared response _ (by decide)]
      cases response.field "content" with
      | object content =>
          cases content with
          | nil => rfl
          | cons entry rest =>
              obtain ⟨key, media⟩ := entry
              simp only [cleared_object, clearedEntries, object?_clearedUnder]
              cases media.object? with
              | none => rfl
              | some entries =>
                  simp only [Option.map_some]
                  rw [Mapping.field_cleared entries _ (by decide)]
                  cases Mapping.field entries "schema" <;> rfl
      | _ => rfl

theorem typedResponse_cleared (stem : String) (schema : Value) :
    (match if scope.options.promoteInlineResponse then inlineObject? schema.cleared else none with
      | some entries => do
        let type ← Synthesis.declareRecord scope (stem ++ "Response") entries
        pure (some type)
      | none => do
        let type ← Synthesis.printedType scope schema.cleared
        pure (some type)) =
    (match if scope.options.promoteInlineResponse then inlineObject? schema else none with
      | some entries => do
        let type ← Synthesis.declareRecord scope (stem ++ "Response") entries
        pure (some type)
      | none => do
        let type ← Synthesis.printedType scope schema
        pure (some type)) := by
  rw [inlineObject?_cleared, printedType_cleared]
  cases scope.options.promoteInlineResponse with
  | false => rfl
  | true =>
      cases inlineObject? schema with
      | none => rfl
      | some entries => simp only [if_true, Option.map_some, declareRecord_cleared]

end Operation

/-! ## Parameters -/

namespace Parameter

theorem location?_cleared (raw : Mapping) :
    location? (clearedEntries raw) = location? raw := by
  simp only [location?, Location.ofValue?, Schema.text?_field_cleared raw "in" (by decide)]

theorem labels_cleared (raw : Mapping) : labels (clearedEntries raw) = labels raw := by
  have label : ∀ name : String, name ≠ "parameters" →
      Label.ofValue? ((Mapping.find? (clearedEntries raw) name).getD (.text "")) =
        Label.ofValue? ((raw.find? name).getD (.text "")) := by
    intro name other
    rw [Mapping.find?_cleared raw name other]
    cases raw.find? name with
    | none => rfl
    | some value => cases value <;> rfl
  simp only [labels, label "name" (by decide), label "in" (by decide)]

/-- The parameter with the parameter lists in its schema cleared. -/
def cleared (parameter : Parameter) : Parameter :=
  { parameter with schema := parameter.schema.map clearedEntries }

end Parameter

namespace Dialect

theorem liftedSchema_cleared (raw : Mapping) :
    liftedSchema (clearedEntries raw) = (liftedSchema raw).cleared := by
  have lifted : ∀ keys : List String,
      (keys.filterMap fun key => (Mapping.find? (clearedEntries raw) key).map (Key.text key, ·)) =
        clearedEntries (keys.filterMap fun key => (raw.find? key).map ((Key.text key, ·))) := by
    intro keys
    induction keys with
    | nil => rfl
    | cons key rest ih =>
        rw [List.filterMap_cons, List.filterMap_cons, Mapping.find?_clearedEntries, ih]
        cases raw.find? key <;> rfl
  unfold liftedSchema
  rw [lifted]
  cases inlineKeys.filterMap fun key => (raw.find? key).map ((Key.text key, ·)) <;> rfl

theorem firstSchema_cleared (content : Mapping) :
    firstSchema (clearedEntries content) = (firstSchema content).cleared := by
  induction content with
  | nil => rfl
  | cons entry rest ih =>
      obtain ⟨key, media⟩ := entry
      simp only [firstSchema, clearedEntries, List.findSome?_cons, object?_clearedUnder] at ih ⊢
      cases media.object? with
      | none => exact ih
      | some entries =>
          simp only [Option.map_some]
          rw [Mapping.field_cleared entries _ (by decide)]
          cases Mapping.field entries "schema" with
          | object schema => rfl
          | _ => exact ih

theorem parameterSchema_cleared (dialect : Dialect) (raw : Mapping) (location : Location) :
    dialect.parameterSchema (clearedEntries raw) location =
      (dialect.parameterSchema raw location).cleared := by
  cases dialect with
  | swagger2 =>
      simp only [parameterSchema, liftedSchema_cleared]
      rw [Mapping.field_cleared raw _ (by decide)]
      split <;> rfl
  | openApi3 =>
      simp only [parameterSchema]
      rw [Mapping.field_cleared raw "schema" (by decide),
        Mapping.field_cleared raw "content" (by decide)]
      cases raw.field "schema" with
      | null =>
          cases raw.field "content" with
          | object content => exact firstSchema_cleared content
          | _ => rfl
      | _ => rfl

theorem keyIssues_cleared (schema : Option Mapping) :
    Validated.keyIssues ((schema.map clearedEntries).getD []) =
      Validated.keyIssues (schema.getD []) := by
  cases schema with
  | none => rfl
  | some entries =>
      simp only [Option.map_some, Option.getD_some, Validated.keyIssues,
        Mapping.keys_clearedEntries]

theorem ofRaw_cleared (raw : Mapping) (name : String) (location : Location) (schema : Value) :
    Parameter.ofRaw (clearedEntries raw) name location schema.cleared =
      (Parameter.ofRaw raw name location schema).map Parameter.cleared := by
  simp only [Parameter.ofRaw, object?_cleared, keyIssues_cleared]
  rw [Mapping.field_cleared raw "required" (by decide),
    Schema.text?_field_cleared raw _ (by decide)]
  cases Validated.keyIssues (schema.object?.getD []) with
  | nil => cases raw.field "required" <;> rfl
  | cons issue rest => rfl

theorem normalize_cleared (dialect : Dialect) (raw : Mapping) :
    dialect.normalize (clearedEntries raw) =
      (dialect.normalize raw).map (Option.map Parameter.cleared) := by
  simp only [normalize, Parameter.location?_cleared]
  rw [Mapping.field_cleared raw _ (by decide)]
  cases Parameter.location? raw with
  | none => rfl
  | some location =>
      cases raw.field "name" with
      | text name =>
          simp only [Value.cleared, mapObject]
          rw [parameterSchema_cleared, ofRaw_cleared]
          cases Parameter.ofRaw raw name location (dialect.parameterSchema raw location) <;> rfl
      | _ => rfl

end Dialect

namespace Operation

open Schema Synthesis

variable {scope : Scope}

/-! ## Records of parameters -/

theorem parameterField_cleared (owner : String) (parameter : Parameter) :
    parameterField scope owner parameter.cleared = parameterField scope owner parameter := by
  unfold parameterField Parameter.cleared
  cases parameter.schema with
  | none => rfl
  | some schema =>
      have typed := printedType_cleared scope (.object schema)
      rw [cleared_object] at typed
      simp only [Option.map_some, isTyped_cleared, format?_cleared, typed]

theorem parameterFields_cleared (owner : String) (parameters : List Parameter) :
    parameterFields scope owner (parameters.map Parameter.cleared) =
      parameterFields scope owner parameters := by
  induction parameters with
  | nil => rfl
  | cons parameter rest ih =>
      simp only [List.map_cons, parameterFields, parameterField_cleared, ih]

theorem groupRecord_cleared (name : String) (parameters : List Parameter) :
    groupRecord scope name (parameters.map Parameter.cleared) =
      groupRecord scope name parameters := by
  simp only [groupRecord, parameterFields_cleared]

theorem pathParameters_cleared (options : Options) (placeholders : List String)
    (parameters : List Parameter) :
    pathParameters options placeholders (parameters.map Parameter.cleared) =
      (pathParameters options placeholders parameters).map Parameter.cleared := by
  have declared : ((parameters.map Parameter.cleared).filter (fillsPath placeholders)).map
        (fun parameter => { parameter with required := true }) =
      ((parameters.filter (fillsPath placeholders)).map
        (fun parameter => { parameter with required := true })).map Parameter.cleared := by
    rw [List.filter_map, List.map_map, List.map_map]
    rfl
  simp only [pathParameters, declared, List.map_append, List.map_map]
  rfl

/-! ## Forms -/

theorem formParameter_cleared (parameter : Parameter) :
    formParameter parameter.cleared =
      (formParameter parameter).map fun marked => (marked.1.cleared, marked.2) := by
  unfold formParameter
  rw [Parameter.cleared]
  cases written : parameter.schema with
  | none => simp [Except.map, Parameter.cleared, written]
  | some schema =>
      simp only [Option.map_some, FileField.ofProperty?_cleared]
      cases FileField.ofProperty? (.text parameter.name) (.object schema) with
      | error failure => rfl
      | ok file =>
          cases file with
          | none => simp [Except.map, Parameter.cleared, written, bind, Except.bind]
          | some file =>
              simp only [bind, Except.bind, FileField.mark_cleared]
              cases FileField.mark schema file.multiple <;> rfl

theorem formBody_cleared (stem : String) (parameters : List Parameter) :
    formBody scope stem (parameters.map Parameter.cleared) = formBody scope stem parameters := by
  have marked : (parameters.map Parameter.cleared).mapM formParameter =
      (parameters.mapM formParameter).map
        (List.map fun marked => (marked.1.cleared, marked.2)) := by
    induction parameters with
    | nil => rfl
    | cons parameter rest ih =>
        rw [List.map_cons, List.mapM_cons, List.mapM_cons, ih, formParameter_cleared]
        cases formParameter parameter with
        | error failure => rfl
        | ok first => cases rest.mapM formParameter <;> rfl
  unfold formBody
  rw [marked]
  cases parameters.mapM formParameter with
  | error failure => rfl
  | ok all =>
      have parameters : (all.map fun marked => (marked.1.cleared, marked.2)).map (·.1) =
          (all.map (·.1)).map Parameter.cleared := by simp
      have files : (all.map fun marked => (marked.1.cleared, marked.2)).filterMap (·.2) =
          all.filterMap (·.2) := List.filterMap_map
      change groupRecord scope (stem ++ "Body")
        ((all.map fun marked => (marked.1.cleared, marked.2)).map (·.1)) >>= _ = _
      rw [parameters, groupRecord_cleared]
      refine bind_congr fun name => ?_
      rw [files]

end Operation

end ApiBinding
