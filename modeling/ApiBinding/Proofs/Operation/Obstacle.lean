import ApiBinding.Proofs.Operation.Ending

/-! Why a run for an operation can fail with anything but a fault. In a document with texts as keys
it needs an obstacle at the site of the operation: a few values of the wrong kind, in places that
the run reads. -/

namespace ApiBinding

open Operation Synthesis Schema Value

/-! ## Text keys -/

namespace Operation

variable {document item operation : Mapping}

theorem textKeyed_pathParameters {parameters : List Parameter}
    (keyed : ∀ parameter ∈ parameters, parameter.TextKeyed) (options : Options)
    (placeholders : List String) :
    ∀ parameter ∈ pathParameters options placeholders parameters, parameter.TextKeyed := by
  intro parameter member
  rcases List.mem_append.mp member with declared | added
  · obtain ⟨own, inside, rfl⟩ := List.mem_map.mp declared
    exact keyed own (List.mem_of_mem_filter inside)
  · obtain ⟨name, -, rfl⟩ := List.mem_map.mp added
    intro schema written
    obtain rfl := Option.some.inj written
    rfl

theorem isTextKeyed_definitions (texts : (Value.object document).isTextKeyed = true)
    {dialect : Dialect} {definitions : Mapping}
    (h : dialect.definitions document = .ok definitions) :
    (Value.object definitions).isTextKeyed = true := by
  have table {parent entries : Mapping} (hparent : (Value.object parent).isTextKeyed = true)
      {key : String} {name : TableName} (found : Dialect.tableIn parent key name = .ok entries) :
      (Value.object entries).isTextKeyed = true := by
    unfold Dialect.tableIn at found
    split at found
    · rename_i own declared
      obtain rfl := Except.ok.inj found
      exact declared ▸ isTextKeyed_field hparent key
    · split at found
      · simp at found
      · obtain rfl := Except.ok.inj found
        rfl
  cases dialect with
  | swagger2 => exact table texts h
  | openApi3 =>
      simp only [Dialect.definitions] at h
      cases inner : Dialect.tableIn document "components" .components with
      | error failure => simp [inner, bind, Except.bind] at h
      | ok components =>
          rw [inner] at h
          exact table (table texts inner) h

theorem isTextKeyed_of_find? (texts : (Value.object document).isTextKeyed = true)
    {path method : String} (h : Operation.find? document path method = some (item, operation)) :
    (Value.object item).isTextKeyed = true ∧ (Value.object operation).isTextKeyed = true := by
  have inner {value : Value} {entries : Mapping} (hvalue : value.isTextKeyed = true)
      (isObject : value.object? = some entries) : (Value.object entries).isTextKeyed = true :=
    eq_object_of_object? isObject ▸ hvalue
  unfold Operation.find? at h
  obtain ⟨own, located, h⟩ := Option.bind_eq_some_iff.mp h
  obtain ⟨entries, isObject, h⟩ := Option.bind_eq_some_iff.mp h
  obtain ⟨rfl, rfl⟩ := Prod.mk.inj (Option.some.inj h)
  obtain ⟨place, found, isItem⟩ := Option.bind_eq_some_iff.mp located
  obtain ⟨paths, isPaths, rfl⟩ := Option.map_eq_some_iff.mp found
  have hpaths := inner (isTextKeyed_field texts "paths") isPaths
  have hitem := inner (isTextKeyed_field hpaths path) isItem
  exact ⟨hitem, inner (isTextKeyed_field hitem method) isObject⟩

/-- Marking the files of form parameters cannot fail. -/
theorem ends_formParameter {parameter : Parameter} (keyed : parameter.TextKeyed)
    {cause : Defect → Prop} :
    Ends (formParameter parameter) (fun marked => marked.1.TextKeyed) (Stops cause) := by
  unfold formParameter
  split
  · rename_i schema written
    refine (FileField.ends_ofProperty? parameter.name (.object schema)).bind ?_
    intro file found
    cases file with
    | none => exact .ok keyed
    | some file =>
        obtain ⟨_, same, -, several⟩ := ofProperty?_eq_some found
        obtain rfl := Value.object.inj same
        refine ((FileField.ends_mark schema file.multiple).widen ?_).bind ?_
        · rintro defect ⟨multiple, flaw⟩
          rw [multiple] at several
          exact (FileField.not_itemsFlaw_of_multiplicity several flaw).elim
        · intro marked marks
          refine .ok ?_
          intro other same
          obtain rfl := Option.some.inj same
          exact marks.texts (keyed schema written)
  · exact .ok keyed

end Operation

namespace Site

/-- A site of a document with texts as keys. -/
structure TextKeyed (site : Site) : Prop where
  document : (Value.object site.document).isTextKeyed = true
  item : (Value.object site.item).isTextKeyed = true
  operation : (Value.object site.operation).isTextKeyed = true
  definitions : (Value.object site.definitions).isTextKeyed = true

theorem textKeyed_of_ofDocument {document : Value} {path method : String} {options : Options}
    {lexicon : Name.Lexicon} {site : Site} (texts : document.isTextKeyed = true)
    (h : Site.ofDocument document path method options lexicon = .ok (some site)) :
    site.TextKeyed := by
  cases document with
  | object entries =>
      obtain ⟨rfl, found, defined, -⟩ := of_ofDocument h
      obtain ⟨hitem, hoperation⟩ := isTextKeyed_of_find? texts found
      exact ⟨texts, hitem, hoperation, isTextKeyed_definitions texts defined⟩
  | _ => simp [Site.ofDocument] at h

/-! ## Obstacles -/

/-- The lists of parameters that are typed at a site, each with the placement of the records that
are found from it. -/
inductive TypedGroup (site : Site) (parameters : List Parameter) :
    Placement → List Parameter → Prop where
  | path : TypedGroup site parameters .path
      (pathParameters site.options site.placeholders parameters)
  | query : TypedGroup site parameters .body (queryParameters site.placeholders parameters)
  | form {marked} : hasForm site.dialect parameters = true →
      (formGroup site.placeholders parameters).mapM formParameter = .ok marked →
      TypedGroup site parameters .body (marked.map (·.1))

/-- A response that is written in place and becomes a record. -/
def promoted? (site : Site) (schema : Value) : Option Mapping :=
  if site.options.promoteInlineResponse then inlineObject? schema else none

/-- What is asked for the schema of the response. -/
def responseRequest (site : Site) (schema : Value) : Request :=
  match site.promoted? schema with
  | some entries => .declare (site.stem ++ "Response") entries
  | none => .type schema

/-- What stops a run at a site, apart from a reference that leads nowhere. -/
inductive Obstacle (site : Site) : Defect → Prop where
  | parameters {defect} : ParameterFlaw site.document site.item site.operation defect →
      Obstacle site defect
  | group {parameters placement members defect} :
      Operation.parameters site.dialect site.document site.item site.operation =
        .ok parameters →
      site.TypedGroup parameters placement members →
      GroupMeets (site.scope (some placement)) members defect → Obstacle site defect
  | request {defect} : site.dialect = .openApi3 →
      Pointer.Blocked (.object site.document) (site.operation.field "requestBody") defect →
      Obstacle site defect
  | mediaType : site.dialect = .swagger2 →
      (consumedMedia site.document site.operation).HasLongInteger → Obstacle site .integerTooLong
  | body {parameters mediaType schema later defect} :
      Operation.parameters site.dialect site.document site.item site.operation =
        .ok parameters →
      site.BodySchema parameters mediaType schema later →
      BodyFlaw (site.scope (some .body)) site.stem mediaType schema defect →
      Obstacle site defect
  | laterForm {parameters mediaType schema form defect} :
      Operation.parameters site.dialect site.document site.item site.operation =
        .ok parameters →
      site.BodySchema parameters mediaType schema (some form) →
      Untold (site.scope none).table form defect → Obstacle site defect
  | responses {defect} : ResponseFlaw site.options site.document site.operation defect →
      Obstacle site defect
  | response {schema defect} :
      selectedSchema site.dialect site.options site.document site.operation =
        .ok (some schema) →
      (site.responseRequest schema).Meets (site.scope (some .response)) defect →
      Obstacle site defect

/-! ## Parts of a run -/

variable {site : Site} {parameters : List Parameter}

theorem ending_group (texts : site.TextKeyed)
    (normal : Operation.parameters site.dialect site.document site.item site.operation =
      .ok parameters) {placement : Placement} {members : List Parameter}
    (typed : site.TypedGroup parameters placement members)
    (keyed : ∀ parameter ∈ members, parameter.TextKeyed) (name : String) :
    Ending (groupRecord (site.scope (some placement)) name members) (fun _ => True)
      site.Obstacle :=
  (ending_groupRecord texts.definitions name keyed).widen fun _ => .group normal typed

theorem ending_formBody (texts : site.TextKeyed)
    (normal : Operation.parameters site.dialect site.document site.item site.operation =
      .ok parameters)
    (keyed : ∀ parameter ∈ parameters, parameter.TextKeyed)
    (isForm : hasForm site.dialect parameters = true) :
    Ending
      (formBody (site.scope (some .body)) site.stem (formGroup site.placeholders parameters))
      (fun _ => True) site.Obstacle := by
  have markable : ∀ parameter ∈ formGroup site.placeholders parameters,
      Ends (formParameter parameter) (fun marked => marked.1.TextKeyed) (Stops site.Obstacle) :=
    fun parameter member => ends_formParameter (keyed parameter (List.mem_of_mem_filter member))
  refine (ending_lift (Ends.mapM markable).found).bind ?_
  rintro marked ⟨marks, keyed'⟩
  have members : ∀ parameter ∈ marked.map (·.1), parameter.TextKeyed := by
    intro parameter member
    obtain ⟨mark, inside, rfl⟩ := List.mem_map.mp member
    exact keyed' mark inside
  exact (ending_group texts normal (.form isForm marks) members _).bind fun name _ =>
    ending_pure trivial

theorem ending_swaggerBody (texts : site.TextKeyed)
    (normal : Operation.parameters site.dialect site.document site.item site.operation =
      .ok parameters)
    (keyed : ∀ parameter ∈ parameters, parameter.TextKeyed) (dialect : site.dialect = .swagger2) :
    Ending
      (swaggerBody (site.scope (some .body)) site.document site.operation site.stem
        site.placeholders parameters)
      (fun _ => True) site.Obstacle := by
  unfold swaggerBody
  dsimp only
  split
  · rename_i hasForms
    have isForm : hasForm site.dialect parameters = true := by simp [hasForm, dialect, hasForms]
    exact (ending_formBody texts normal keyed isForm).bind fun body _ => ending_pure trivial
  · rename_i noForm
    split
    · exact ending_pure trivial
    · rename_i parameter found
      have hschema : ((parameter.schema.map Value.object).getD .null).isTextKeyed = true := by
        cases written : parameter.schema with
        | none => rfl
        | some schema => exact keyed parameter (List.mem_of_find?_eq_some found) schema written
      refine (ending_lift ((Value.ends_shown _).widen ?_)).bind ?_
      · rintro defect ⟨rfl, long⟩
        exact .mediaType dialect long
      intro mediaType shown
      refine ((ending_bodyOfSchema texts.definitions _ _ hschema).widen ?_).bind fun body _ =>
        ending_pure trivial
      exact fun defect flaw =>
        .body normal (.parameter dialect (by simpa using noForm) found shown) flaw

theorem ending_openApiBody (texts : site.TextKeyed)
    (normal : Operation.parameters site.dialect site.document site.item site.operation =
      .ok parameters) (dialect : site.dialect = .openApi3) :
    Ending (openApiBody (site.scope (some .body)) site.document site.operation site.stem)
      (fun _ => True) site.Obstacle := by
  have hrequest := isTextKeyed_field texts.operation "requestBody"
  have followed : Ends (Pointer.follow (.object site.document) (site.operation.field "requestBody"))
      (fun value => Pointer.follow (.object site.document) (site.operation.field "requestBody") =
        .ok value ∧ value.isTextKeyed = true) (Stops site.Obstacle) := by
    exact (Pointer.ends_follow_of_texts texts.document hrequest).found.widen fun defect blocked =>
      .request dialect blocked
  refine (ending_lift followed).bind ?_
  rintro request ⟨found, keyed⟩
  dsimp only
  split
  · rename_i mediaType media rest declared
    obtain ⟨entries, isObject, content⟩ := Option.map_eq_some_iff.mp declared
    obtain rfl := eq_object_of_object? isObject
    have hcontent : (Value.object ((.text mediaType, media) :: rest)).isTextKeyed = true :=
      content ▸ isTextKeyed_field keyed "content"
    have hmedia : media.isTextKeyed = true :=
      isTextKeyed_of_holds (.entry List.mem_cons_self) hcontent
    have body := @Site.BodySchema.content site parameters _ _ _ _ dialect found content
    have typed := @ending_bodyOfSchema (site.scope (some .body)) texts.definitions site.stem
      mediaType _ (isTextKeyed_mediaSchema hmedia)
    refine (typed.widen fun defect flaw => .body normal body flaw).bind ?_
    intro made _
    split
    · rename_i multipart other later
      have hform := later ▸ isTextKeyed_field hcontent multipartForm
      have told := @ends_fileFields (site.scope none).table texts.definitions _
        (isTextKeyed_field hform "schema")
      refine (ending_lift (told.widen ?_)).bind fun files _ => ?_
      · simp only [laterForm?, other, later] at body
        exact fun defect untold => .laterForm normal body untold
      · split <;> exact ending_pure trivial
    · exact ending_pure trivial
  · rename_i first others noText declared
    obtain ⟨entries, isObject, content⟩ := Option.map_eq_some_iff.mp declared
    obtain rfl := eq_object_of_object? isObject
    have hcontent := content ▸ isTextKeyed_field keyed "content"
    obtain ⟨⟨name, isText⟩, -⟩ := isTextKeyed_object_iff.mp hcontent first List.mem_cons_self
    exact (noText name first.2 (Prod.ext isText rfl)).elim
  · exact ending_pure trivial

theorem ending_responseStep (texts : site.TextKeyed) :
    Ending site.responseStep (fun _ => True) site.Obstacle := by
  have selected := ends_selectedSchema texts.document texts.operation site.dialect site.options
  refine (ending_lift (selected.found.widen fun defect flaw => .responses flaw)).bind ?_
  rintro found ⟨same, keyed⟩
  cases found with
  | none => exact ending_pure trivial
  | some schema =>
      have hschema := keyed schema rfl
      have answered : ∀ defect, (site.responseRequest schema).Meets (site.scope (some .response))
          defect → site.Obstacle defect := fun defect met => .response same met
      unfold responseRequest at answered
      dsimp only
      split
      · rename_i entries promoted
        change site.promoted? schema = _ at promoted
        rw [promoted] at answered
        have inline : inlineObject? schema = some entries := by
          unfold promoted? at promoted
          split at promoted
          · exact promoted
          · simp at promoted
        rw [eq_object_of_inline inline] at hschema
        exact (Ending.widen (ending_declareRecord texts.definitions _ hschema) answered).bind
          fun type _ => ending_pure trivial
      · rename_i plain
        change site.promoted? schema = _ at plain
        rw [plain] at answered
        exact (Ending.widen (ending_printedType texts.definitions hschema) answered).bind
          fun type _ => ending_pure trivial

theorem ending_bodyStep (texts : site.TextKeyed)
    (normal : Operation.parameters site.dialect site.document site.item site.operation =
      .ok parameters)
    (keyed : ∀ parameter ∈ parameters, parameter.TextKeyed) :
    Ending (site.bodyStep parameters) (fun _ => True) site.Obstacle := by
  unfold bodyStep Operation.body
  cases dialect : site.dialect with
  | swagger2 => exact ending_swaggerBody texts normal keyed dialect
  | openApi3 => exact ending_openApiBody texts normal dialect

/-- A run at a site ends with a binding or with a fault, unless there is an obstacle. -/
theorem ending_bindingStep (texts : site.TextKeyed) :
    Ending site.bindingStep (fun _ => True) site.Obstacle := by
  have read := ends_parameters texts.document texts.item texts.operation site.dialect
  refine (ending_lift (read.found.widen fun defect flaw => .parameters flaw)).bind ?_
  rintro parameters ⟨normal, keyed⟩
  have hpath := textKeyed_pathParameters keyed site.options site.placeholders
  have hquery : ∀ parameter ∈ queryParameters site.placeholders parameters,
      parameter.TextKeyed := fun parameter member => keyed parameter (List.mem_of_mem_filter member)
  refine (ending_group texts normal .path hpath _).bind fun pathRecord _ => ?_
  refine (ending_group texts normal .query hquery _).bind fun queryRecord _ => ?_
  refine (ending_bodyStep texts normal keyed).bind fun body _ => ?_
  refine (ending_responseStep texts).bind fun response _ => ?_
  exact fun session => .ok trivial

end Site

end ApiBinding
