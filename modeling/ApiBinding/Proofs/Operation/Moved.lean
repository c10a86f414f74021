import ApiBinding.Operation.Binding
import ApiBinding.Proofs.Synthesis.Moved

/-! Parameters, bodies and responses whose references are moved give the same records and types as
before. -/

namespace ApiBinding

open Value

/-! ## File fields -/

namespace FileField

open Schema

theorem isFile_moved (schema : Mapping) : isFile (movedEntries schema) = isFile schema := by
  have format := format?_moved (.object schema)
  rw [moved_object] at format
  simp [isFile, typeWord?_moved, format]

theorem multiplicity?_movedUnder (key : Key) (property : Value) :
    multiplicity? (movedUnder key property) = multiplicity? property := by
  cases property with
  | object schema =>
      simp only [movedUnder_object, multiplicity?, isFile_moved, typeWord?_moved,
        Mapping.field_movedEntries]
      split
      · rfl
      · cases Mapping.field schema "items" with
        | object items => simp only [movedUnder_object, isFile_moved]
        | _ => simp only [movedUnder]
  | _ => simp [movedUnder, multiplicity?]

theorem ofProperty?_movedUnder (name key : Key) (property : Value) :
    ofProperty? name (movedUnder key property) = ofProperty? name property := by
  unfold ofProperty?
  rw [multiplicity?_movedUnder]

/-- Whether a property is a file does not fail for want of a definition. -/
theorem movedResult_ofProperty? (name : Key) (property : Value) :
    movedResult id (ofProperty? name property) = ofProperty? name property := by
  unfold ofProperty?
  split <;> rfl

theorem withFileType_moved (schema : Mapping) :
    withFileType (movedEntries schema) = movedEntries (withFileType schema) := by
  rw [withFileType, withFileType, Mapping.movedEntries_insert, movedUnder_text (by decide)]

theorem mark_moved (schema : Mapping) (multiple : Bool) :
    mark (movedEntries schema) multiple = movedResult movedEntries (mark schema multiple) := by
  unfold mark
  rw [withFileType_moved, Mapping.find?_movedEntries]
  split
  · cases schema.find? "items" with
    | none => rfl
    | some items =>
        cases items with
        | object entries =>
            simp [withFileType_moved, Mapping.movedEntries_insert]
        | list entries => simp only [Option.map_some, movedUnder]; rfl
        | _ => simp only [Option.map_some, movedUnder]; rfl
  · rfl

theorem markAll_moved (properties : Mapping) (files : List FileField) :
    markAll (movedEntries properties) files =
      movedResult movedEntries (markAll properties files) := by
  unfold markAll
  induction files generalizing properties with
  | nil => rfl
  | cons file rest ih =>
      rw [List.foldlM_cons, List.foldlM_cons, Mapping.find?_movedEntries]
      cases properties.find? file.name with
      | none => exact ih properties
      | some property =>
          cases property with
          | object entries =>
              simp only [Option.map_some, movedUnder_object, mark_moved]
              have inserted : ∀ marked : Mapping,
                  Mapping.insert (movedEntries properties) (.text file.name)
                    (.object (movedEntries marked)) =
                  movedEntries (properties.insert (.text file.name) (.object marked)) := by
                intro marked
                rw [Mapping.movedEntries_insert, movedUnder_object]
              cases mark entries file.multiple with
              | error failure => rfl
              | ok marked =>
                  simp only [movedResult_ok, bind, Except.bind, inserted]
                  exact ih _
          | list items => simp only [Option.map_some, movedUnder]; exact ih properties
          | _ => simp only [Option.map_some, movedUnder]; exact ih properties

end FileField

namespace Operation

open Schema Synthesis

variable {scope : Scope}

/-! ## Bodies -/

/-- Whether a schema is that of an object written in place. -/
def isInlineObject (entries : Mapping) : Bool :=
  !entries.has "$ref" &&
    (match entries.field "properties" with
      | .object properties => !properties.isEmpty
      | _ => false) &&
    (Schema.typeWord? entries).all (· == "object")

theorem isInlineObject_moved (entries : Mapping) :
    isInlineObject (movedEntries entries) = isInlineObject entries := by
  simp only [isInlineObject, Mapping.has_movedEntries, typeWord?_moved, Mapping.field_movedEntries]
  cases entries.field "properties" with
  | object properties => simp only [movedUnder_object, Mapping.isEmpty_movedEntries]
  | _ => simp only [movedUnder]

theorem inlineObject?_moved (schema : Value) :
    inlineObject? schema.moved = (inlineObject? schema).map movedEntries := by
  have eq : ∀ value : Value, inlineObject? value = value.object?.filter isInlineObject :=
    fun _ => rfl
  rw [eq, eq, object?_moved]
  cases schema.object? with
  | none => rfl
  | some entries =>
      rw [Option.map_some, Option.filter_some, Option.filter_some, isInlineObject_moved]
      split <;> rfl

theorem fileFields_moved {table : Table} (rooted : table.root = Dialect.swagger2.root)
    (schema : Value) :
    fileFields table.moved schema.moved = movedResult id (fileFields table schema) := by
  have scanned : ∀ target : Mapping,
      (do
        let flat ← flatten table.moved (movedEntries target)
        let found ← flat.properties.mapM fun entry => FileField.ofProperty? entry.1 entry.2
        .ok (found.filterMap id)) =
      movedResult id (do
        let flat ← flatten table target
        let found ← flat.properties.mapM fun entry => FileField.ofProperty? entry.1 entry.2
        .ok (found.filterMap id)) := by
    intro target
    rw [flatten_moved rooted]
    refine movedResult_bind fun flat => ?_
    rw [Flattened.moved, movedEntries_eq_map]
    rw [@movedResult_mapM _ _ _ _ _ id (fun entry => FileField.ofProperty? entry.1 entry.2)]
    · rw [List.map_id_fun]
      exact movedResult_bind fun found => rfl
    · intro entry
      rw [FileField.ofProperty?_movedUnder, FileField.movedResult_ofProperty?]
  unfold fileFields
  cases schema with
  | object entries =>
      simp only [moved_object, Mapping.field_movedEntries]
      cases Mapping.field entries "$ref" with
      | text ref =>
          simp only [movedUnder, beq_self_eq_true, if_true, resolve_moved rooted]
          exact movedResult_bind scanned
      | _ =>
          simp only [movedUnder]
          exact scanned entries
  | _ => rfl

theorem markFiles_moved (entries : Mapping) (files : List FileField) :
    markFiles (movedEntries entries) files =
      movedResult movedEntries (markFiles entries files) := by
  unfold markFiles
  rw [Mapping.field_movedEntries]
  cases files with
  | nil => rfl
  | cons file rest =>
      cases Mapping.field entries "properties" with
      | object properties =>
          simp only [movedUnder_object, FileField.markAll_moved]
          refine movedResult_bind fun marked => ?_
          simp [Mapping.movedEntries_insert]
      | list items => simp only [movedUnder]; rfl
      | _ => simp only [movedUnder]; rfl

theorem moves_typedBody (rooted : scope.table.root = Dialect.swagger2.root)
    (stem mediaType : String) (schema : Value) (files : List FileField) :
    Moves id
      (do
        let type ←
          match inlineObject? schema with
          | some entries => do
            let marked ← Synthesis.lift (markFiles entries files)
            Synthesis.declareRecord scope (stem ++ "Body") marked
          | none => Synthesis.printedType scope schema
        pure (Body.mk (some type) (isForm mediaType || !files.isEmpty) files))
      (do
        let type ←
          match inlineObject? schema.moved with
          | some entries => do
            let marked ← Synthesis.lift (markFiles entries files)
            Synthesis.declareRecord scope.moved (stem ++ "Body") marked
          | none => Synthesis.printedType scope.moved schema.moved
        pure (Body.mk (some type) (isForm mediaType || !files.isEmpty) files)) := by
  rw [inlineObject?_moved]
  dsimp only
  cases inlineObject? schema with
  | none => exact (moves_printedType rooted schema).bind fun _ => .pure rfl
  | some entries =>
      refine (Moves.lift (markFiles_moved entries files)).bind fun marked => ?_
      exact (moves_declareRecord rooted _ marked).bind fun _ => .pure rfl

theorem moves_bodyOfSchema (rooted : scope.table.root = Dialect.swagger2.root)
    (stem mediaType : String) (schema : Value) :
    Moves id (bodyOfSchema scope stem mediaType schema)
      (bodyOfSchema scope.moved stem mediaType schema.moved) := by
  unfold bodyOfSchema
  dsimp only
  split
  · have scanned : Moves id (Synthesis.lift (fileFields scope.table schema))
        (Synthesis.lift (fileFields scope.moved.table schema.moved)) :=
      .lift (fileFields_moved rooted schema)
    exact scanned.bind (moves_typedBody rooted stem mediaType schema)
  · exact moves_typedBody rooted stem mediaType schema []

/-! ## Responses -/

theorem moves_typedResponse (rooted : scope.table.root = Dialect.swagger2.root) (stem : String)
    (schema : Value) :
    Moves id
      (match if scope.options.promoteInlineResponse then inlineObject? schema else none with
        | some entries => do
          let type ← Synthesis.declareRecord scope (stem ++ "Response") entries
          pure (some type)
        | none => do
          let type ← Synthesis.printedType scope schema
          pure (some type))
      (match if scope.options.promoteInlineResponse then inlineObject? schema.moved else none with
        | some entries => do
          let type ← Synthesis.declareRecord scope.moved (stem ++ "Response") entries
          pure (some type)
        | none => do
          let type ← Synthesis.printedType scope.moved schema.moved
          pure (some type)) := by
  rw [inlineObject?_moved]
  have promoted : (if scope.options.promoteInlineResponse then
        (inlineObject? schema).map movedEntries else none) =
      (if scope.options.promoteInlineResponse then inlineObject? schema else none).map
        movedEntries := by
    split <;> rfl
  rw [promoted]
  cases if scope.options.promoteInlineResponse then inlineObject? schema else none with
  | none => exact (moves_printedType rooted schema).bind fun _ => .pure rfl
  | some entries => exact (moves_declareRecord rooted _ entries).bind fun _ => .pure rfl

end Operation

/-! ## Parameters -/

/-- The parameter with the references in its schema moved. -/
def Parameter.moved (parameter : Parameter) : Parameter :=
  { parameter with schema := parameter.schema.map movedEntries }

namespace Operation

open Schema Synthesis

variable {scope : Scope}

theorem moves_parameterField (rooted : scope.table.root = Dialect.swagger2.root)
    (owner : String) (parameter : Parameter) :
    Moves id (parameterField scope owner parameter)
      (parameterField scope.moved owner parameter.moved) := by
  have skipped : Moves id
      (do
        Synthesis.warn (.untypedParameter parameter.name owner)
        pure none : Synthesis (Option (Field TypeExpr)))
      (do
        Synthesis.warn (.untypedParameter parameter.name owner)
        pure none) :=
    (Moves.warn _).bind fun _ => .pure rfl
  unfold parameterField Parameter.moved
  cases parameter.schema with
  | none => exact skipped
  | some schema =>
      have typed := isTyped_movedUnder (.text "schema") (.object schema)
      have format := format?_moved (.object schema)
      rw [movedUnder_object] at typed
      rw [moved_object] at format
      simp only [Option.map_some, typed, format]
      split
      · exact (moves_printedType rooted (.object schema)).bind fun _ => .pure rfl
      · exact skipped

theorem moves_parameterFields (rooted : scope.table.root = Dialect.swagger2.root)
    (owner : String) (parameters : List Parameter) :
    Moves id (parameterFields scope owner parameters)
      (parameterFields scope.moved owner (parameters.map Parameter.moved)) := by
  induction parameters with
  | nil => exact .pure rfl
  | cons parameter rest ih =>
      refine (moves_parameterField rooted owner parameter).bind fun field => ?_
      exact ih.bind fun fields => .pure rfl

theorem moves_groupRecord (rooted : scope.table.root = Dialect.swagger2.root) (name : String)
    (parameters : List Parameter) :
    Moves id (groupRecord scope name parameters)
      (groupRecord scope.moved name (parameters.map Parameter.moved)) := by
  refine (moves_parameterFields rooted name parameters).bind fun fields => ?_
  cases fields with
  | nil => exact .pure rfl
  | cons first rest =>
      have reserved : Moves id (reserve name) (reserve name) := fun _ => rfl
      refine reserved.bind fun free => ?_
      cases free with
      | false => exact .pure rfl
      | true =>
          have stored : ∀ record, Moves id (store record) (store record) := fun _ _ => rfl
          exact (stored _).bind fun _ => .pure rfl

theorem pathParameters_moved (options : Options) (placeholders : List String)
    (parameters : List Parameter) :
    pathParameters options placeholders (parameters.map Parameter.moved) =
      (pathParameters options placeholders parameters).map Parameter.moved := by
  have declared : ((parameters.map Parameter.moved).filter (fillsPath placeholders)).map
        (fun parameter => { parameter with required := true }) =
      ((parameters.filter (fillsPath placeholders)).map
        (fun parameter => { parameter with required := true })).map Parameter.moved := by
    rw [List.filter_map, List.map_map, List.map_map]
    rfl
  simp only [pathParameters, declared, List.map_append, List.map_map]
  congr 1

theorem queryParameters_moved (placeholders : List String) (parameters : List Parameter) :
    queryParameters placeholders (parameters.map Parameter.moved) =
      (queryParameters placeholders parameters).map Parameter.moved := by
  unfold queryParameters
  rw [List.filter_map]
  rfl

theorem moves_groupPath (rooted : scope.table.root = Dialect.swagger2.root) (stem : String)
    (placeholders : List String) (parameters : List Parameter) :
    Moves id (groupPath scope stem placeholders parameters)
      (groupPath scope.moved stem placeholders (parameters.map Parameter.moved)) := by
  have placed : (Scope.table { scope with placement := some .path }).root =
      Dialect.swagger2.root := rooted
  unfold groupPath
  rw [pathParameters_moved]
  exact moves_groupRecord placed _ _

theorem moves_groupQuery (rooted : scope.table.root = Dialect.swagger2.root) (stem : String)
    (placeholders : List String) (parameters : List Parameter) :
    Moves id (groupQuery scope stem placeholders parameters)
      (groupQuery scope.moved stem placeholders (parameters.map Parameter.moved)) := by
  have placed : (Scope.table { scope with placement := some .body }).root =
      Dialect.swagger2.root := rooted
  unfold groupQuery
  rw [queryParameters_moved]
  exact moves_groupRecord placed _ _

end Operation

end ApiBinding
