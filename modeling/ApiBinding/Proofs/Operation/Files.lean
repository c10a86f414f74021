import ApiBinding.Proofs.Operation.Mark

/-! Files of a multipart body: the list of files and the record of the body come from two walks over
the schema of the body, one over all its properties and one over a copy in which the own file
properties are marked. They agree on every file that the schema declares itself. -/

namespace ApiBinding

/-! ## Fields of files -/

namespace Synthesis

open ApiBinding.Schema

variable {scope : Scope}

/-- A type that a node has in some session. -/
def TypedAs (scope : Scope) (node : Value) (type : TypeExpr) : Prop :=
  ∃ before after, outcome (printedType scope node) before = (.ok type, after)

/-- Each property that has a type has a field. -/
theorem FieldsDerivation.exists_field {owner : String} {requirement : Requirement}
    {session : Session} {properties : Mapping} {fields : List (Field TypeExpr)} {after : Session}
    (derivation : FieldsDerivation scope owner requirement session properties fields after)
    {name : String} {property : Mapping} (member : (.text name, .object property) ∈ properties)
    (typed : isTyped (.object property) = true) :
    ∃ field ∈ fields, field.name = name ∧ TypedAs scope (.object property) field.type := by
  induction derivation with
  | nil session => simp at member
  | untyped noType _ ih =>
      rcases List.mem_cons.mp member with same | inside
      · obtain ⟨-, rfl⟩ := Prod.mk.inj same
        simp [typed] at noType
      · exact ih inside
  | typed hasType outcome _ _ _ ih =>
      rcases List.mem_cons.mp member with same | inside
      · obtain ⟨sameName, sameProperty⟩ := Prod.mk.inj same
        obtain rfl := Key.text.inj sameName
        obtain rfl := Value.object.inj sameProperty
        exact ⟨_, List.mem_cons_self, rfl, _, _, outcome⟩
      · obtain ⟨field, hfield, named⟩ := ih inside
        exact ⟨field, List.mem_cons_of_mem _ hfield, named⟩

end Synthesis

namespace Operation

open Synthesis Schema

variable {scope : Scope}

/-- How the field of a file is typed: a file that the schema declares itself has the type of a
file if it is bare, and an inherited one keeps the type that its property has. -/
inductive FileTyped (scope : Scope) (inherited own : Mapping) (file : FileField)
    (type : TypeExpr) : Prop where
  | own {property} : inherited.find? file.name = none →
      own.find? file.name = some (.object property) →
      (FileField.BareFile property → type = FileField.markedType file.multiple) →
      FileTyped scope inherited own file type
  | inherited {property} : inherited.find? file.name = some property →
      TypedAs scope property type → FileTyped scope inherited own file type

theorem ofProperty?_eq_some {name : Key} {property : Value} {file : FileField}
    (h : FileField.ofProperty? name property = .ok (some file)) :
    ∃ schema, property = .object schema ∧ name = .text file.name ∧
      FileField.multiplicity? (.object schema) = some file.multiple := by
  unfold FileField.ofProperty? at h
  split at h
  · simp at h
  · rename_i multiple several
    obtain rfl := Option.some.inj (Except.ok.inj h)
    cases property with
    | object schema => exact ⟨schema, rfl, rfl, several⟩
    | _ => simp [FileField.multiplicity?] at several
  · simp at h

/-- Each file comes from a property of its own. -/
theorem files_of_mapM {properties : Mapping} {found : List (Option FileField)}
    (h : properties.mapM (fun (name, property) => FileField.ofProperty? name property) =
      .ok found) :
    ((found.filterMap id).map fun file => Key.text file.name).Sublist properties.keys ∧
      ∀ file ∈ found.filterMap id, ∃ schema, (.text file.name, .object schema) ∈ properties ∧
        FileField.multiplicity? (.object schema) = some file.multiple := by
  induction properties generalizing found with
  | nil =>
      obtain rfl := Except.ok.inj h
      exact ⟨.slnil, by simp⟩
  | cons entry rest ih =>
      obtain ⟨name, property⟩ := entry
      rw [List.mapM_cons] at h
      cases first : FileField.ofProperty? name property with
      | error failure => simp [first, bind, Except.bind] at h
      | ok file =>
          simp only [first, bind, Except.bind] at h
          split at h
          · simp at h
          · rename_i others later
            obtain rfl := Except.ok.inj h
            obtain ⟨names, entries⟩ := ih later
            cases file with
            | none =>
                refine ⟨names.cons _, ?_⟩
                intro file member
                obtain ⟨schema, inside, several⟩ := entries file (by simpa using member)
                exact ⟨schema, List.mem_cons_of_mem _ inside, several⟩
            | some file =>
                obtain ⟨schema, rfl, rfl, several⟩ := ofProperty?_eq_some first
                refine ⟨names.cons_cons _, ?_⟩
                intro other member
                have member : other = file ∨ other ∈ others.filterMap id := by
                  simpa using member
                rcases member with rfl | member
                · exact ⟨schema, List.mem_cons_self, several⟩
                · obtain ⟨schema, inside, several⟩ := entries other member
                  exact ⟨schema, List.mem_cons_of_mem _ inside, several⟩

/-- The files of a schema that is no reference have distinct names, and each is one of the
properties of the schema. -/
theorem files_of_fileFields {table : Table} {schema : Mapping} {files : List FileField}
    (inPlace : schema.has "$ref" = false)
    (h : fileFields table (.object schema) = .ok files) :
    ∃ flat, flatten table schema = .ok flat ∧ (files.map (·.name)).Nodup ∧
      ∀ file ∈ files, ∃ property, flat.properties.find? file.name = some (.object property) ∧
        FileField.multiplicity? (.object property) = some file.multiple := by
  simp only [fileFields, Mapping.field_eq_null inPlace] at h
  cases flattened : flatten table schema with
  | error failure => simp [flattened, bind, Except.bind] at h
  | ok flat =>
      simp only [flattened, bind, Except.bind] at h
      split at h
      · simp at h
      · rename_i found scanned
        obtain rfl := Except.ok.inj h
        obtain ⟨names, entries⟩ := files_of_mapM scanned
        have distinct := ((ends_flatten table schema).holds flattened).distinct
        refine ⟨flat, rfl, distinct.nodup_names names, ?_⟩
        intro file member
        obtain ⟨property, inside, several⟩ := entries file member
        exact ⟨property, distinct.find?_iff.mpr inside, several⟩

/-- Files are marked in the properties that a schema declares itself. -/
theorem markAll_of_markFiles {schema own marked : Mapping} {files : List FileField}
    (declared : schema.field "properties" = .object own)
    (h : markFiles schema files = .ok marked) {file : FileField} (member : file ∈ files) :
    ∃ markedOwn, FileField.markAll own files = .ok markedOwn ∧
      marked = schema.insert (.text "properties") (.object markedOwn) := by
  obtain ⟨first, rest, rfl⟩ := List.exists_cons_of_ne_nil (List.ne_nil_of_mem member)
  simp only [markFiles, declared] at h
  cases all : FileField.markAll own (first :: rest) with
  | error failure => simp [all, bind, Except.bind] at h
  | ok markedOwn =>
      simp only [all, bind, Except.bind, Except.ok.injEq] at h
      exact ⟨markedOwn, rfl, h.symm⟩

/-- The fields that are made of a schema with marked files: one for each file, with the type of a
file where the schema declares the file itself. -/
theorem fileTyped_of_fields {schema own marked : Mapping} {files : List FileField}
    (inPlace : schema.has "$ref" = false) (declared : schema.field "properties" = .object own)
    (listed : fileFields scope.table (.object schema) = .ok files)
    (marks : markFiles schema files = .ok marked) {flat : Flattened}
    (flattened : flatten scope.table marked = .ok flat) {owner : String}
    {session after : Session} {fields : List (Field TypeExpr)}
    (derivation : FieldsDerivation scope owner flat.requirement session flat.properties fields
      after) :
    ∃ inherited, inheritedProperties scope.table schema = .ok inherited ∧
      ∀ file ∈ files, ∃ field ∈ fields, field.name = file.name ∧
        FileTyped scope inherited own file field.type := by
  obtain ⟨flatOwn, flattenedOwn, distinct, entries⟩ := files_of_fileFields inPlace listed
  obtain ⟨inherited, gathered, same, others⟩ := flatten_insert_properties declared flattenedOwn
  refine ⟨inherited, gathered, ?_⟩
  intro file member
  obtain ⟨property, found, several⟩ := entries file member
  have distinctFlat := ((ends_flatten _ _).holds flattened).distinct
  obtain ⟨markedOwn, all, rfl⟩ := markAll_of_markFiles declared marks member
  obtain rfl := Except.ok.inj ((others markedOwn).symm.trans flattened)
  rw [same, Mapping.find?_extend] at found
  cases inside : inherited.find? file.name with
  | some old =>
      obtain rfl : old = .object property := by simpa [inside] using found
      have kept : (inherited.extend markedOwn).find? file.name = some (.object property) := by
        rw [Mapping.find?_extend, inside]
        rfl
      obtain ⟨field, hfield, name, typed⟩ := derivation.exists_field
        (distinctFlat.find?_iff.mp kept) (isTyped_of_multiplicity? several)
      exact ⟨field, hfield, name, .inherited inside typed⟩
  | none =>
      have ownFound : own.find? file.name = some (.object property) := by
        simpa [inside] using found
      obtain ⟨copy, hcopy, markedFound⟩ := FileField.find?_markAll distinct all member ownFound
      have kept : (inherited.extend markedOwn).find? file.name = some (.object copy) := by
        rw [Mapping.find?_extend, inside, markedFound]
        rfl
      obtain ⟨field, hfield, name, before, after, typed⟩ := derivation.exists_field
        (distinctFlat.find?_iff.mp kept) (isTyped_mark hcopy)
      refine ⟨field, hfield, name, .own inside ownFound fun bare => ?_⟩
      rw [FileField.printedType_mark (bare.bareAs _) several hcopy] at typed
      exact (Except.ok.inj (Prod.mk.inj typed).1).symm

/-! ## Bodies -/

theorem inlineObject?_eq_some {schema : Mapping}
    (inline : inlineObject? (.object schema) = some schema) :
    schema.has "$ref" = false ∧ ∃ own, schema.field "properties" = .object own := by
  unfold inlineObject? at inline
  obtain ⟨found, test⟩ := Option.filter_eq_some_iff.mp inline
  simp only [Bool.and_eq_true, Bool.not_eq_true'] at test
  obtain ⟨⟨inPlace, properties⟩, -⟩ := test
  refine ⟨inPlace, ?_⟩
  split at properties
  · rename_i own declared
    exact ⟨own, declared⟩
  · simp at properties

/-- The record of a multipart body that is written in place is made of the schema in which the
listed files are marked. -/
theorem outcome_bodyOfSchema_of_inline {stem mediaType : String} {schema : Mapping}
    {session after : Session} {made : Body} (multipart : isMultipart mediaType = true)
    (inline : inlineObject? (.object schema) = some schema)
    (h : outcome (bodyOfSchema scope stem mediaType (.object schema)) session = (.ok made, after)) :
    ∃ marked type, fileFields scope.table (.object schema) = .ok made.files ∧
      markFiles schema made.files = .ok marked ∧
      outcome (declareRecord scope (stem ++ "Body") marked) session = (.ok type, after) := by
  unfold bodyOfSchema at h
  simp only [multipart, if_true, inline] at h
  obtain ⟨start, files, hfiles, hrest⟩ := outcome_bind_eq_ok h
  obtain ⟨middle, marked, hmarked, hrecord⟩ := outcome_bind_eq_ok hrest
  obtain ⟨last, type, declared, hlast⟩ := outcome_bind_eq_ok hrecord
  obtain ⟨listed, rfl⟩ := Prod.mk.inj hfiles
  obtain ⟨marks, rfl⟩ := Prod.mk.inj hmarked
  obtain ⟨same, rfl⟩ := Prod.mk.inj hlast
  obtain rfl := Except.ok.inj same
  exact ⟨marked, type, listed, marks, declared⟩

/-- The schema of a multipart form that stands behind another media type. -/
def laterForm? (mediaType : String) (content : Mapping) : Option Value :=
  match mediaType == multipartForm, content.field multipartForm with
  | false, .object multipart => some (Mapping.field multipart "schema")
  | _, _ => none

/-- The files of a later form, none if there is no such form. -/
def laterFiles (table : Table) : Option Value → Except Failure (List FileField)
  | some schema => fileFields table schema
  | none => .ok []

/-- A body with the files of a later form, if that has any. -/
def Body.withLater (body : Body) (found : List FileField) : Body :=
  if found.isEmpty then body else ⟨body.type, true, found⟩

/-- A run that types the first entry of the content of a request body, and looks for files in a
later form. -/
theorem outcome_openApiBody {document operation request rest : Mapping} {stem mediaType : String}
    {media : Value} {session after : Session} {result : Option Body}
    (followed : Pointer.follow (.object document) (operation.field "requestBody") =
      .ok (.object request))
    (content : request.field "content" = .object ((.text mediaType, media) :: rest))
    (h : outcome (openApiBody scope document operation stem) session = (.ok result, after)) :
    ∃ made found,
      outcome (bodyOfSchema scope stem mediaType (mediaSchema media)) session =
        (.ok made, after) ∧
      laterFiles scope.table (laterForm? mediaType ((.text mediaType, media) :: rest)) =
        .ok found ∧
      result = some (made.withLater found) := by
  unfold openApiBody at h
  obtain ⟨start, own, hrequest, typed⟩ := outcome_bind_eq_ok h
  obtain ⟨reached, rfl⟩ := Prod.mk.inj hrequest
  obtain rfl := Except.ok.inj (followed.symm.trans reached)
  simp only [Value.object?, Option.map_some, content] at typed
  obtain ⟨middle, made, hmade, hform⟩ := outcome_bind_eq_ok typed
  split at hform
  · rename_i multipart other later
    obtain ⟨last, found, hfound, hfiles⟩ := outcome_bind_eq_ok hform
    obtain ⟨listed, rfl⟩ := Prod.mk.inj hfound
    refine ⟨made, found, ?_, ?_, ?_⟩
    · split at hfiles
      all_goals
        obtain ⟨-, rfl⟩ := Prod.mk.inj hfiles
        exact hmade
    · simp only [laterForm?, other, later, laterFiles]
      exact listed
    · split at hfiles
      all_goals
        rename_i empty
        obtain rfl := Except.ok.inj (Prod.mk.inj hfiles).1
        simp [Body.withLater, empty]
  · rename_i none
    obtain ⟨same, rfl⟩ := Prod.mk.inj hform
    obtain rfl := Except.ok.inj same
    refine ⟨made, [], hmade, ?_, rfl⟩
    unfold laterForm?
    split
    · rename_i multipart other later
      exact (none multipart other later).elim
    · rfl

end Operation

open Operation Synthesis Schema

/-- A request body that is no group of form parameters: its media type, its schema, and the schema
of a form behind it. -/
inductive Site.BodySchema (site : Site) (parameters : List Parameter) :
    String → Value → Option Value → Prop where
  | parameter {parameter mediaType} : site.dialect = .swagger2 →
      parameters.any (·.location == .formData) = false →
      parameters.find? (fun p => p.location == .body && !site.placeholders.contains p.name) =
        some parameter →
      (consumedMedia site.document site.operation).shown = .ok mediaType →
      Site.BodySchema site parameters mediaType
        ((parameter.schema.map Value.object).getD .null) none
  | content {request rest : Mapping} {mediaType media} : site.dialect = .openApi3 →
      Pointer.follow (.object site.document) (site.operation.field "requestBody") =
        .ok (.object request) →
      request.field "content" = .object ((.text mediaType, media) :: rest) →
      Site.BodySchema site parameters mediaType (mediaSchema media)
        (laterForm? mediaType ((.text mediaType, media) :: rest))

/-- Such a body is typed by its schema, and may have the files of a later form. -/
theorem Site.Run.body_eq {site : Site} {binding : Binding TypeExpr} (run : site.Run binding)
    {mediaType : String} {schema : Value} {later : Option Value}
    (body : site.BodySchema run.parameters mediaType schema later) :
    ∃ made found, outcome (bodyOfSchema (site.scope (some .body)) site.stem mediaType schema)
        run.afterQuery = (.ok made, run.afterBody) ∧
      laterFiles (site.scope none).table later = .ok found ∧
      run.body = some (made.withLater found) := by
  have typed := run.typedBody
  generalize run.body = result at typed ⊢
  generalize run.afterBody = after at typed ⊢
  unfold Site.bodyStep Operation.body at typed
  cases body with
  | parameter dialect noForm first shown =>
      simp only [dialect, swaggerBody, noForm, Bool.false_eq_true, if_false, first, shown,
        bind_lift_ok] at typed
      obtain ⟨middle, made, hmade, typed⟩ := outcome_bind_eq_ok typed
      obtain ⟨same, rfl⟩ := Prod.mk.inj typed
      obtain rfl := Except.ok.inj same
      exact ⟨made, [], hmade, rfl, rfl⟩
  | content dialect followed content =>
      simp only [dialect] at typed
      exact outcome_openApiBody followed content typed

/-- The files of a binding with such a body are those of the body, or those of a later form if it
has files. -/
theorem Site.Run.body_of_schema {site : Site} {binding : Binding TypeExpr}
    (run : site.Run binding) {mediaType : String} {schema : Value} {later : Option Value}
    (body : site.BodySchema run.parameters mediaType schema later) :
    ∃ made found, outcome (bodyOfSchema (site.scope (some .body)) site.stem mediaType schema)
        run.afterQuery = (.ok made, run.afterBody) ∧
      laterFiles (site.scope none).table later = .ok found ∧
      binding.files = if found.isEmpty then made.files else found := by
  obtain ⟨made, found, hmade, listed, typed⟩ := run.body_eq body
  refine ⟨made, found, hmade, listed, ?_⟩
  rw [run.files, typed, Body.withLater]
  split <;> rfl

/-! ## The record of the body -/

/-- The record of a body that is written in place, with the files of its schema: each file has a
field, and the binding lists these files unless a later form has files of its own. -/
structure Binding.FilesIn (binding : Binding TypeExpr) (site : Site) (schema : Mapping)
    (later : Option Value) (files : List FileField) (record : Record TypeExpr) : Prop where
  listed : fileFields (site.scope none).table (.object schema) = .ok files
  kept : ∃ found, laterFiles (site.scope none).table later = .ok found ∧
    binding.files = if found.isEmpty then files else found
  member : record ∈ binding.records
  name : record.name = site.stem ++ "Body"
  typed : ∃ inherited own,
    inheritedProperties (site.scope none).table schema = .ok inherited ∧
    schema.field "properties" = .object own ∧
    ∀ file ∈ files, ∃ field ∈ record.fields, field.name = file.name ∧
      FileTyped (site.scope (some .body)) inherited own file field.type

/-- Each file of a multipart body that is written in place has a field in the record of the body,
if the name of the record was free. The field has the type of a file where the schema declares the
file itself; a file inherited from a part keeps the type of its property. -/
theorem Binding.files_of_multipart {document : Value} {path method : String} {options : Options}
    {lexicon : Name.Lexicon} {binding : Binding TypeExpr} {warnings : List Warning}
    (h : ofDocument document path method options lexicon = .ok (some binding, warnings)) :
    ∃ site, Site.ofDocument document path method options lexicon = .ok (some site) ∧
      ∃ parameters,
        Operation.parameters site.dialect site.document site.item site.operation =
          .ok parameters ∧
        ∀ mediaType schema later,
          site.BodySchema parameters mediaType (.object schema) later →
          isMultipart mediaType = true → inlineObject? (.object schema) = some schema →
          (site.beforeBody parameters).catalog.mentions (site.stem ++ "Body") = false →
          ∃ files record, binding.FilesIn site schema later files record := by
  obtain ⟨site, located, ⟨run⟩⟩ := exists_run h
  refine ⟨site, located, run.parameters, run.normal, ?_⟩
  intro mediaType schema later body multipart inline free
  rw [← run.afterQuery_eq] at free
  obtain ⟨made, found, hmade, listedLater, files⟩ := run.body_of_schema body
  obtain ⟨inPlace, own, declared⟩ := inlineObject?_eq_some inline
  obtain ⟨marked, type, listed, marks, recorded⟩ :=
    outcome_bodyOfSchema_of_inline multipart inline hmade
  obtain ⟨flat, fields, filled, flattened, derivation, -, ⟨-, -, -, stored⟩, -⟩ :=
    record_of_declareRecord free recorded
  obtain ⟨inherited, gathered, typed⟩ :=
    fileTyped_of_fields inPlace declared listed marks flattened derivation
  have member := Catalog.mem_records_of_find?
    (run.response_settles.grows.catalog.records stored)
  rw [← run.records] at member
  exact ⟨made.files, _, listed, ⟨found, listedLater, files⟩, member, rfl, inherited, own,
    gathered, declared, typed⟩

namespace Binding

def photoSchema : Mapping := [(.text "type", .text "string"), (.text "format", .text "binary")]

/-- A form with a file and a list of files. -/
def uploadSchema : Mapping := [
  (.text "type", .text "object"),
  (.text "properties", .ofFields [
    ("photo", .object photoSchema),
    ("scans", .ofFields [("type", .text "array"), ("items", .object photoSchema)])])]

def uploadOperation (schema : Mapping) : Mapping := [
  (.text "requestBody", .ofFields [
    ("content", .ofFields [
      ("multipart/form-data", .ofFields [("schema", .object schema)])])])]

/-- A document with an operation that takes a multipart form of a schema. -/
def uploadDocument (schema : Mapping) : Value :=
  .ofFields [
    ("openapi", .text "3.0.0"),
    ("paths", .ofFields [
      ("/pets", .ofFields [("post", .object (uploadOperation schema))])])]

/-- The site of that operation. -/
def uploadSite (schema : Mapping) : Site where
  document := [
    (.text "openapi", .text "3.0.0"),
    (.text "paths", .ofFields [
      ("/pets", .ofFields [("post", .object (uploadOperation schema))])])]
  item := [(.text "post", .object (uploadOperation schema))]
  operation := uploadOperation schema
  definitions := []
  path := "/pets"
  method := "post"
  options := {}
  lexicon := .standard

theorem ofDocument_uploadDocument (schema : Mapping) :
    Site.ofDocument (uploadDocument schema) "/pets" "POST" {} .standard =
      .ok (some (uploadSite schema)) :=
  Site.ofDocument_of_found (uploadSite schema)
    (by decide +kernel : String.ofList (Text.lower "POST".toList) = "post") rfl rfl

theorem bodySchema_uploadSite (schema : Mapping) :
    (uploadSite schema).BodySchema [] "multipart/form-data" (.object schema) none :=
  @Site.BodySchema.content (uploadSite schema) [] _ [] "multipart/form-data"
    (.ofFields [("schema", .object schema)]) rfl rfl rfl

theorem files_of_uploadSchema :
    ∃ binding warnings,
      ofDocument (uploadDocument uploadSchema) "/pets" "POST" {} .standard =
        .ok (some binding, warnings) ∧
      binding.records.map (fun record =>
        (record.name, record.fields.map fun field => (field.name, field.type.render))) =
        [("PostPetsBody", [("photo", "File"), ("scans", "File[]")])] ∧
      ∃ files record, binding.FilesIn (uploadSite uploadSchema) uploadSchema none files record := by
  have computed :
      ((ofDocument (uploadDocument uploadSchema) "/pets" "POST" {} .standard).toOption.bind
        (·.1)).map (fun binding => binding.records.map fun record =>
          (record.name, record.fields.map fun field => (field.name, field.type.render))) =
      some [("PostPetsBody", [("photo", "File"), ("scans", "File[]")])] := by decide +kernel
  obtain ⟨binding, warnings, made, listed⟩ := exists_of_computed computed
  obtain ⟨site, located, parameters, normal, files⟩ := files_of_multipart made
  obtain rfl := Option.some.inj
    (Except.ok.inj ((ofDocument_uploadDocument uploadSchema).symm.trans located))
  obtain rfl : [] = parameters := Except.ok.inj normal
  have body := bodySchema_uploadSite uploadSchema
  have free : ((uploadSite uploadSchema).beforeBody []).catalog.mentions
      ((uploadSite uploadSchema).stem ++ "Body") = false := by decide +kernel
  exact ⟨binding, warnings, made, listed, files _ _ _ body (by decide) rfl free⟩

/-- A form that inherits its file from a part. -/
def inheritingSchema : Mapping := [
  (.text "type", .text "object"),
  (.text "properties", .ofFields [("name", .ofFields [("type", .text "string")])]),
  (.text "allOf", .list [.ofFields [
    ("properties", .ofFields [("photo", .object photoSchema)])]])]

theorem bareFile_photoSchema : FileField.BareFile photoSchema := by
  refine ⟨⟨by decide, by decide, by decide, ?_⟩, ?_⟩
  · intro word found
    obtain rfl : "binary" = word := Option.some.inj found
    decide
  · intro items found
    simp [photoSchema, Mapping.field, Mapping.find?_cons] at found

/-- The inherited file is listed, but its field has the type of a text. -/
theorem files_of_inheritingSchema :
    (uploadSite inheritingSchema).BodySchema [] "multipart/form-data" (.object inheritingSchema)
      none ∧
    inlineObject? (.object inheritingSchema) = some inheritingSchema ∧
    ((uploadSite inheritingSchema).beforeBody []).catalog.mentions
      ((uploadSite inheritingSchema).stem ++ "Body") = false ∧
    FileField.BareFile photoSchema ∧
    ∃ binding warnings,
      ofDocument (uploadDocument inheritingSchema) "/pets" "POST" {} .standard =
        .ok (some binding, warnings) ∧
      binding.files = [⟨"photo", false⟩] ∧
      ∀ record ∈ binding.records, ∀ field ∈ record.fields, field.name = "photo" →
        field.type.render = "string" := by
  refine ⟨bodySchema_uploadSite inheritingSchema, rfl, by decide +kernel, bareFile_photoSchema, ?_⟩
  have computed :
      ((ofDocument (uploadDocument inheritingSchema) "/pets" "POST" {} .standard).toOption.bind
        (·.1)).map (fun binding => (binding.files, binding.records.all fun record =>
          record.fields.all fun field =>
            field.name != "photo" || field.type.render == "string")) =
      some ([⟨"photo", false⟩], true) := by decide +kernel
  obtain ⟨binding, warnings, made, found⟩ := exists_of_computed computed
  obtain ⟨files, types⟩ := Prod.mk.inj found
  refine ⟨binding, warnings, made, files, ?_⟩
  intro record member field inside named
  have typed := List.all_eq_true.mp (List.all_eq_true.mp types record member) field inside
  simpa [named] using typed

end Binding

end ApiBinding
