import ApiBinding.Proofs.Operation.Files
import ApiBinding.Proofs.Operation.Grouping
import ApiBinding.Proofs.Operation.Upgrade

/-! The mark of a file changes one type and no more, is found again and is made once; and a file
among the form parameters of the older dialect has a field with the type of a file. -/

namespace ApiBinding

open Schema Synthesis

theorem Mapping.without_insert (m : Mapping) (name : String) (value : Value) :
    Mapping.without (m.insert (.text name) value) [name] = Mapping.without m [name] := by
  induction m with
  | nil => simp [insert, without]
  | cons entry rest ih =>
      obtain ⟨key, old⟩ := entry
      unfold without at ih ⊢
      by_cases same : key.same (.text name) = true <;> simp_all [insert]

namespace FileField

/-! ## Marks -/

theorem typeWord?_withFileType (schema : Mapping) :
    typeWord? (withFileType schema) = some "file" := by
  simp [typeWord?, withFileType, Mapping.field]

theorem isFile_withFileType (schema : Mapping) : isFile (withFileType schema) = true := by
  have file : "file" ∈ fileTypes := by decide
  simp [isFile, typeWord?_withFileType, file]

theorem withFileType_withFileType (schema : Mapping) :
    withFileType (withFileType schema) = withFileType schema :=
  Mapping.insert_insert schema "type" _ _

/-- What is put under another key does not matter to whether a schema is that of a file. -/
theorem isFile_insert (schema : Mapping) {key : String} (value : Value)
    (other : key ∉ ["type", "format"]) :
    isFile (schema.insert (.text key) value) = isFile schema := by
  have same := find?_insert_of_not_mem (m := schema) value other
  simp [isFile, typeWord?, format?, Value.object?, Mapping.field, same]

/-- A mark changes the type of the property, or that of its items, and nothing else. -/
inductive ChangesType : Bool → Mapping → Mapping → Prop where
  | own {property marked : Mapping} : marked.without ["type"] = property.without ["type"] →
      ChangesType false property marked
  | items {property marked items markedItems : Mapping} :
      property.field "items" = .object items → marked.field "items" = .object markedItems →
      marked.without ["items"] = property.without ["items"] →
      markedItems.without ["type"] = items.without ["type"] → ChangesType true property marked

/-- The copy of a property that is marked as a file. -/
structure MarkedAs (name : Key) (property : Mapping) (file : FileField) (marked : Mapping) :
    Prop where
  marks : mark property file.multiple = .ok marked
  changes : ChangesType file.multiple property marked
  found : ofProperty? name (.object marked) = .ok (some file)
  again : mark marked file.multiple = .ok marked
  typed : BareAs file.multiple property → ∀ scope session,
    outcome (printedType scope (.object marked)) session = (.ok (markedType file.multiple), session)

theorem ofProperty?_of_multiplicity? {name : String} {property : Value} {multiple : Bool}
    (several : multiplicity? property = some multiple) :
    ofProperty? (.text name) property = .ok (some ⟨name, multiple⟩) := by
  simp [ofProperty?, several]

theorem markedAs_single {name : String} {property : Mapping}
    (several : multiplicity? (.object property) = some false) :
    MarkedAs (.text name) property ⟨name, false⟩ (withFileType property) where
  marks := rfl
  changes := .own (Mapping.without_insert property "type" _)
  found := by
    apply ofProperty?_of_multiplicity?
    simp [multiplicity?, isFile_withFileType]
  again := congrArg Except.ok (withFileType_withFileType property)
  typed bare _ _ := printedType_mark bare several rfl

theorem markedAs_several {name : String} {property : Mapping}
    (several : multiplicity? (.object property) = some true) :
    ∃ marked, MarkedAs (.text name) property ⟨name, true⟩ marked := by
  obtain ⟨noFile, list, items, declared, -⟩ := multiplicity?_eq_some_true_iff.mp several
  let marked := property.insert (.text "items") (.object (withFileType items))
  have stored : Mapping.find? property "items" = some (.object items) :=
    Mapping.find?_of_field declared (by simp)
  have markedStored : Mapping.find? marked "items" = some (.object (withFileType items)) :=
    Mapping.find?_insert_self _ _ _
  have marks : mark property true = .ok marked := by simp [mark, stored, marked]
  refine ⟨marked, marks, ?_, ?_, ?_, fun bare _ _ => printedType_mark bare several marks⟩
  · have markedDeclared : marked.field "items" = .object (withFileType items) := by
      simp [Mapping.field, markedStored]
    exact .items declared markedDeclared (Mapping.without_insert property "items" _)
      (Mapping.without_insert items "type" _)
  · apply ofProperty?_of_multiplicity?
    refine multiplicity?_eq_some_true_iff.mpr ⟨?_, ?_, withFileType items, ?_, ?_⟩
    · rw [← noFile]
      exact isFile_insert property _ (by decide)
    · rw [← list, typeWord?, typeWord?, Mapping.field, Mapping.field,
        Mapping.find?_insert_of_ne property _ (by decide)]
    · simp [Mapping.field, markedStored]
    · exact isFile_withFileType items
  · have same : Mapping.insert marked (.text "items")
        (.object (withFileType (withFileType items))) = marked := by
      rw [withFileType_withFileType]
      exact Mapping.insert_of_find? markedStored
    simp [mark, markedStored, same]

/-- A property that takes a file can be marked. -/
theorem exists_markedAs {name : Key} {property : Mapping} {file : FileField}
    (h : ofProperty? name (.object property) = .ok (some file)) :
    ∃ marked, MarkedAs name property file marked := by
  obtain ⟨_, same, rfl, several⟩ := Operation.ofProperty?_eq_some h
  obtain rfl := Value.object.inj same
  obtain ⟨name, multiple⟩ := file
  cases multiple with
  | false => exact ⟨_, markedAs_single several⟩
  | true => exact markedAs_several several

end FileField

/-! ## Form parameters -/

namespace Operation

variable {scope : Scope} {parameter : Parameter} {file : FileField}

/-- The file that a form parameter takes. -/
def formFile? (parameter : Parameter) : Option FileField :=
  parameter.schema.bind fun schema =>
    (FileField.multiplicity? (.object schema)).map fun multiple => ⟨parameter.name, multiple⟩

/-- A form parameter with its file marked, if it takes one. -/
def withMark (parameter : Parameter) : Parameter :=
  match parameter.schema, formFile? parameter with
  | some schema, some file =>
    { parameter with schema := (FileField.mark schema file.multiple).toOption }
  | _, _ => parameter

theorem ofProperty?_of_formFile? {schema : Mapping} (written : parameter.schema = some schema)
    (takes : formFile? parameter = some file) :
    FileField.ofProperty? (.text parameter.name) (.object schema) = .ok (some file) := by
  simp only [formFile?, written, Option.bind_some, Option.map_eq_some_iff] at takes
  obtain ⟨multiple, several, rfl⟩ := takes
  exact FileField.ofProperty?_of_multiplicity? several

theorem exists_withMark {schema : Mapping} (written : parameter.schema = some schema)
    (takes : formFile? parameter = some file) :
    ∃ marked, FileField.MarkedAs (.text parameter.name) schema file marked ∧
      withMark parameter = { parameter with schema := some marked } := by
  obtain ⟨marked, copy⟩ := FileField.exists_markedAs (ofProperty?_of_formFile? written takes)
  exact ⟨marked, copy, by simp [withMark, written, takes, copy.marks, Except.toOption]⟩

/-- A form parameter can always be marked. -/
theorem formParameter_eq_ok (parameter : Parameter) :
    formParameter parameter = .ok (withMark parameter, formFile? parameter) := by
  cases written : parameter.schema with
  | none => simp [formParameter, withMark, formFile?, written]
  | some schema =>
      cases takes : formFile? parameter with
      | none =>
          have absent : FileField.multiplicity? (.object schema) = none := by
            simpa [formFile?, written] using takes
          have none : FileField.ofProperty? (.text parameter.name) (.object schema) = .ok none := by
            simp [FileField.ofProperty?, absent]
          simp [formParameter, withMark, written, takes, none, bind, Except.bind]
      | some file =>
          have found := ofProperty?_of_formFile? written takes
          obtain ⟨marked, copy, same⟩ := exists_withMark written takes
          simp [formParameter, written, found, copy.marks, same, bind, Except.bind]

theorem mapM_formParameter (form : List Parameter) :
    form.mapM formParameter =
      .ok (form.map fun parameter => (withMark parameter, formFile? parameter)) :=
  mapM_of_forall fun parameter _ => formParameter_eq_ok parameter

/-- The field of a parameter that takes a file has the type of a file, unless a key of its schema
overrules the mark. -/
theorem FieldOf.of_withMark {field : Field TypeExpr} {schema : Mapping}
    (own : FieldOf scope (withMark parameter) field) (written : parameter.schema = some schema)
    (takes : formFile? parameter = some file) (bare : FileField.BareAs file.multiple schema) :
    field.name = parameter.name ∧ field.type = FileField.markedType file.multiple := by
  obtain ⟨marked, copy, same⟩ := exists_withMark written takes
  rw [same] at own
  refine ⟨own.name, ?_⟩
  obtain ⟨schema', hschema, -, ⟨placement, session, after, -, -, typed⟩, -⟩ := own.typed
  obtain rfl := Option.some.inj hschema
  rw [copy.typed bare] at typed
  exact (Except.ok.inj (Prod.mk.inj typed).1).symm

theorem hasType_withMark (takes : formFile? parameter = some file) :
    hasType (withMark parameter) = true := by
  cases written : parameter.schema with
  | none => simp [formFile?, written] at takes
  | some schema =>
      obtain ⟨marked, copy, same⟩ := exists_withMark written takes
      rw [same]
      exact isTyped_mark copy.marks

theorem exists_of_forall₂ {α β : Type} {r : α → β → Prop} {items : List α} {others : List β}
    (h : List.Forall₂ r items others) {item : α} (member : item ∈ items) :
    ∃ other ∈ others, r item other := by
  induction h with
  | nil => simp at member
  | cons first _ ih =>
      rcases List.mem_cons.mp member with rfl | inside
      · exact ⟨_, List.mem_cons_self, first⟩
      · obtain ⟨other, hother, related⟩ := ih inside
        exact ⟨other, List.mem_cons_of_mem _ hother, related⟩

/-! ## Bodies made of form parameters -/

theorem outcome_formBody {stem : String} {form : List Parameter} {session after : Session}
    {made : Body} (h : outcome (formBody scope stem form) session = (.ok made, after)) :
    ∃ name, outcome (groupRecord scope (stem ++ "Body") (form.map withMark)) session =
        (.ok name, after) ∧
      made = ⟨name.map .reference, true, form.filterMap formFile?⟩ := by
  obtain ⟨start, marked, hmarked, h⟩ := outcome_bind_eq_ok h
  obtain ⟨marks, rfl⟩ := Prod.mk.inj hmarked
  rw [mapM_formParameter] at marks
  obtain rfl := Except.ok.inj marks
  obtain ⟨middle, name, hname, h⟩ := outcome_bind_eq_ok h
  obtain ⟨same, rfl⟩ := Prod.mk.inj h
  obtain rfl := Except.ok.inj same
  simp only [List.map_map, List.filterMap_map] at hname ⊢
  exact ⟨name, hname, rfl⟩

end Operation

open Operation

namespace Site

variable {site : Site} {binding : Binding TypeExpr}

/-- The name of the record of a form is free when the record comes to be stored. -/
def BodyNameFree (site : Site) (forms : List Parameter) : Prop :=
  NameFree (site.scope (some .body)) (site.stem ++ "Body")
    ((formGroup site.placeholders forms).map withMark) (site.beforeBody forms)

/-- A binding lists the files of its form parameters, in order. The record of the form has a field
for each of them, with the type of a file unless a key of the schema overrules the mark. -/
structure FormFiles (site : Site) (forms : List Parameter) (binding : Binding TypeExpr) :
    Prop where
  listed : binding.files = (formGroup site.placeholders forms).filterMap formFile?
  body : binding.files ≠ [] → binding.body = some (.reference (site.stem ++ "Body"))
  record : site.BodyNameFree forms → binding.files ≠ [] →
    ∃ record ∈ binding.records, record.name = site.stem ++ "Body" ∧
      ∀ parameter ∈ formGroup site.placeholders forms, ∀ schema file,
        parameter.schema = some schema → formFile? parameter = some file →
        FileField.BareAs file.multiple schema →
        ∃ field ∈ record.fields, field.name = file.name ∧
          field.type = FileField.markedType file.multiple

/-- The body of a form comes from the group of its marked parameters. -/
theorem Run.outcome_form (run : site.Run binding)
    (isForm : hasForm site.dialect run.parameters = true) :
    ∃ name, outcome (groupRecord (site.scope (some .body)) (site.stem ++ "Body")
        ((formGroup site.placeholders run.parameters).map withMark)) run.afterQuery =
          (.ok name, run.afterBody) ∧
      binding.body = name.map .reference ∧ binding.isFormData = true ∧
      binding.files = (formGroup site.placeholders run.parameters).filterMap formFile? := by
  obtain ⟨dialect, hasForms⟩ := Bool.and_eq_true_iff.mp isForm
  have typed := run.typedBody
  have files := run.files
  have isFormData := run.isFormData
  have bodyType := run.bodyType
  generalize run.body = result at typed files isFormData bodyType
  simp only [Site.bodyStep, Operation.body, beq_iff_eq.mp dialect, swaggerBody, hasForms,
    if_true] at typed
  obtain ⟨middle, made, hmade, typed⟩ := outcome_bind_eq_ok typed
  obtain ⟨same, after⟩ := Prod.mk.inj typed
  obtain rfl := Except.ok.inj same
  obtain ⟨name, grouped, rfl⟩ := outcome_formBody hmade
  rw [after] at grouped
  exact ⟨name, grouped, bodyType, isFormData, files⟩

theorem Run.formFiles (run : site.Run binding)
    (isForm : hasForm site.dialect run.parameters = true) :
    site.FormFiles run.parameters binding := by
  obtain ⟨name, h, body, -, listed⟩ := run.outcome_form isForm
  have ready : Ready (site.scope (some .body)) run.afterQuery := run.query_grouped.ready
  have grouped := grouped_groupRecord ready h
  -- A file has a type, so a form with a file has a record.
  have typed : ∀ parameter ∈ formGroup site.placeholders run.parameters, ∀ file,
      formFile? parameter = some file → withMark parameter ∈
        ((formGroup site.placeholders run.parameters).map withMark).filter hasType :=
    fun parameter member file takes =>
      List.mem_filter.mpr ⟨List.mem_map_of_mem member, hasType_withMark takes⟩
  have some (present : binding.files ≠ []) :
      ((formGroup site.placeholders run.parameters).map withMark).filter hasType ≠ [] := by
    obtain ⟨file, member⟩ := List.exists_mem_of_ne_nil _ present
    rw [listed] at member
    obtain ⟨parameter, inside, takes⟩ := List.mem_filterMap.mp member
    exact List.ne_nil_of_mem (typed parameter inside file takes)
  refine ⟨listed, fun present => ?_, fun free present => ?_⟩
  · rw [body, grouped.result, if_neg (some present)]
    rfl
  · have free' : NameFree (site.scope (Option.some .body)) (site.stem ++ "Body")
        ((formGroup site.placeholders run.parameters).map withMark) run.afterQuery := by
      rw [run.afterQuery_eq]
      exact free
    obtain ⟨record, stored, named, fields⟩ := grouped.record (some present) free'
    have member := Catalog.mem_records_of_find?
      (run.response_settles.grows.catalog.records stored)
    rw [← run.records] at member
    refine ⟨record, member, named, fun parameter inside schema file written takes bare => ?_⟩
    obtain ⟨field, hfield, own⟩ := exists_of_forall₂ fields (typed parameter inside file takes)
    obtain ⟨hname, htype⟩ := own.of_withMark written takes bare
    obtain ⟨-, -, same, -⟩ := ofProperty?_eq_some (ofProperty?_of_formFile? written takes)
    exact ⟨field, hfield, hname.trans (Key.text.inj same), htype⟩

end Site

/-- Marks are stable and effective. A property that takes a file can be marked as one, which
changes nothing but a type and is the same when done again; and each file among the form parameters
of the older dialect is listed and has a field with the type of a file, if the name of the record
was free. -/
theorem fileMarks_effective :
    (∀ (name : Key) (property : Mapping) (file : FileField),
      FileField.ofProperty? name (.object property) = .ok (some file) →
        ∃ marked, FileField.MarkedAs name property file marked) ∧
    ∀ (document : Value) (path method : String) (options : Options) (lexicon : Name.Lexicon)
      (binding : Binding TypeExpr) (warnings : List Warning),
      Binding.ofDocument document path method options lexicon = .ok (some binding, warnings) →
        ∃ site forms, Site.ofDocument document path method options lexicon = .ok (some site) ∧
          Operation.parameters site.dialect site.document site.item site.operation = .ok forms ∧
          (hasForm site.dialect forms = true → site.FormFiles forms binding) := by
  refine ⟨fun _ _ _ => FileField.exists_markedAs, ?_⟩
  intro document path method options lexicon binding warnings h
  obtain ⟨site, located, ⟨run⟩⟩ := Binding.exists_run h
  exact ⟨site, run.parameters, located, run.normal, run.formFiles⟩

namespace Binding

/-! ## Forms in documents -/

/-- A form parameter that is a file, and one that is a list of files. -/
def photoParameter : Mapping := [
  (.text "name", .text "photo"), (.text "in", .text "formData"), (.text "type", .text "file")]

def scanListSchema : Mapping := [
  (.text "type", .text "array"),
  (.text "items", .ofFields [("type", .text "string"), ("format", .text "binary")])]

def scanListParameter : Mapping :=
  [(.text "name", .text "scans"), (.text "in", .text "formData")] ++ scanListSchema

def petsOperation (others : List Value) : Mapping :=
  [(.text "parameters", .list (others ++ [.object photoParameter, .object scanListParameter]))]

/-- The site of an operation with that form and other parameters before it. -/
def petsSite (definitions : Mapping) (others : List Value) : Site where
  document := [
    (.text "swagger", .text "2.0"),
    (.text "definitions", .object definitions),
    (.text "paths", .ofFields [("/pets", .ofFields [("post", .object (petsOperation others))])])]
  item := [(.text "post", .object (petsOperation others))]
  operation := petsOperation others
  definitions := definitions
  path := "/pets"
  method := "post"
  options := {}
  lexicon := .standard

theorem ofDocument_petsSite (definitions : Mapping) (others : List Value) :
    Site.ofDocument (.object (petsSite definitions others).document) "/pets" "POST" {} .standard =
      .ok (some (petsSite definitions others)) :=
  Site.ofDocument_of_found (petsSite definitions others)
    (by decide +kernel : String.ofList (Text.lower "POST".toList) = "post") rfl rfl

/-- The form parameters in normal form. -/
def petsForm : List Parameter := [
  ⟨"photo", .formData, false, none, some [(.text "type", .text "file")]⟩,
  ⟨"scans", .formData, false, none, some scanListSchema⟩]

theorem bareAs_scanListSchema : FileField.BareAs true scanListSchema := by
  refine ⟨by decide, fun _ items declared => ?_⟩
  obtain rfl : [(.text "type", .text "string"), (.text "format", .text "binary")] = items :=
    Value.object.inj declared
  decide

theorem files_of_petsSite :
    ∃ binding warnings,
      ofDocument (.object (petsSite [] []).document) "/pets" "POST" {} .standard =
        .ok (some binding, warnings) ∧
      binding.files = [⟨"photo", false⟩, ⟨"scans", true⟩] ∧
      (∃ marked, FileField.MarkedAs (.text "scans") scanListSchema ⟨"scans", true⟩ marked) ∧
      ∃ record ∈ binding.records, record.name = "PostPetsBody" ∧
        (∃ field ∈ record.fields, field.name = "photo" ∧ field.type = .file) ∧
        ∃ field ∈ record.fields, field.name = "scans" ∧ field.type = .array .file := by
  have computed :
      ((ofDocument (.object (petsSite [] []).document) "/pets" "POST" {}
        .standard).toOption.bind (·.1)).map (fun _ => ()) = some () := by decide +kernel
  obtain ⟨binding, warnings, made, -⟩ := exists_of_computed computed
  obtain ⟨marks, forms⟩ := fileMarks_effective
  obtain ⟨site, parameters, located, normal, effective⟩ := forms _ _ _ _ _ _ _ made
  obtain rfl := Option.some.inj (Except.ok.inj ((ofDocument_petsSite [] []).symm.trans located))
  obtain rfl : petsForm = parameters := Except.ok.inj normal
  have group : formGroup (petsSite [] []).placeholders petsForm = petsForm := rfl
  have effect := effective (by decide +kernel)
  have listed : binding.files = [⟨"photo", false⟩, ⟨"scans", true⟩] := by
    rw [effect.listed, group]
    decide
  have stem : (petsSite [] []).stem ++ "Body" = "PostPetsBody" := by decide +kernel
  have free : (petsSite [] []).BodyNameFree petsForm := by
    unfold Site.BodyNameFree NameFree
    decide +kernel
  obtain ⟨record, member, named, fields⟩ := effect.record free (by simp [listed])
  rw [group, petsForm, List.forall_mem_cons, List.forall_mem_singleton] at fields
  obtain ⟨photo, scans⟩ := fields
  exact ⟨binding, warnings, made, listed, marks _ _ _ rfl, record, member, named.trans stem,
    photo _ _ rfl rfl ⟨by decide, by simp⟩, scans _ _ rfl rfl bareAs_scanListSchema⟩

/-- A query parameter that refers to a definition with the name of the record of the form. -/
def filterParameter : Mapping := [
  (.text "name", .text "filter"), (.text "in", .text "query"), (.text "type", .text "array"),
  (.text "items", .ofFields [("$ref", .text "#/definitions/PostPetsBody")])]

def bodyDefinitions : Mapping := [
  (.text "PostPetsBody", .ofFields [
    ("type", .text "object"),
    ("properties", .ofFields [("id", .ofFields [("type", .text "integer")])])])]

/-- The site of the form behind such a query. -/
def takenSite : Site := petsSite bodyDefinitions [.object filterParameter]

/-- The record of the definition takes the name of the record of the form: the files are listed and
nothing overrules their marks, but they have no fields. -/
theorem files_without_fields_of_takenSite :
    (∃ filter, Operation.parameters takenSite.dialect takenSite.document takenSite.item
      takenSite.operation = .ok (filter :: petsForm) ∧ filter.location = .query) ∧
    (∀ parameter ∈ petsForm, ∃ schema file, parameter.schema = some schema ∧
      formFile? parameter = some file ∧ FileField.BareAs file.multiple schema) ∧
    ∃ binding warnings,
      ofDocument (.object takenSite.document) "/pets" "POST" {} .standard =
        .ok (some binding, warnings) ∧
      binding.files = [⟨"photo", false⟩, ⟨"scans", true⟩] ∧
      binding.body.map (·.render) = some "PostPetsBody" ∧
      ∀ record ∈ binding.records, ∀ field ∈ record.fields,
        field.name ≠ "photo" ∧ field.name ≠ "scans" := by
  have computed :
      ((ofDocument (.object takenSite.document) "/pets" "POST" {} .standard).toOption.bind
        (·.1)).map (fun binding => (binding.files, binding.body.map (·.render),
          binding.records.all fun record => record.fields.all fun field =>
            field.name != "photo" && field.name != "scans")) =
      some ([⟨"photo", false⟩, ⟨"scans", true⟩], some "PostPetsBody", true) := by decide +kernel
  obtain ⟨binding, warnings, made, found⟩ := exists_of_computed computed
  obtain ⟨files, found⟩ := Prod.mk.inj found
  obtain ⟨body, names⟩ := Prod.mk.inj found
  have bare : ∀ parameter ∈ petsForm, ∃ schema file, parameter.schema = some schema ∧
      formFile? parameter = some file ∧ FileField.BareAs file.multiple schema := by
    rw [petsForm, List.forall_mem_cons, List.forall_mem_singleton]
    exact ⟨⟨_, ⟨"photo", false⟩, rfl, rfl, by decide, by simp⟩,
      ⟨_, ⟨"scans", true⟩, rfl, rfl, bareAs_scanListSchema⟩⟩
  refine ⟨⟨_, rfl, rfl⟩, bare, binding, warnings, made, files, body, ?_⟩
  intro record member field inside
  have named := List.all_eq_true.mp (List.all_eq_true.mp names record member) field inside
  simpa using named

end Binding

end ApiBinding
