import ApiBinding.Proofs.Operation.BodyParameter
import ApiBinding.Proofs.Operation.FileMark

/-! Bodies that are sent as forms. Files make a body a form, so that no file is listed without one.
Form parameters make it a form too, and so does a media type with "form" somewhere in its text,
which also media types that are no forms may have. -/

namespace ApiBinding

/-- A part occurs in a text if the text has it between a start and a rest. -/
theorem Text.occursIn_iff_infix {part text : List Char} :
    Text.occursIn part text = true ↔ part <:+: text := by
  induction text with
  | nil => simp [Text.occursIn]
  | cons c rest ih => simp [Text.occursIn, ih, List.infix_cons_iff]

open Operation Synthesis

namespace Operation

theorem isForm_iff {mediaType : String} :
    isForm mediaType = true ↔ "form".toList <:+: mediaType.toList :=
  Text.occursIn_iff_infix

/-! ## Files of a later form -/

@[simp] theorem Body.type_withLater (body : Body) (found : List FileField) :
    (body.withLater found).type = body.type := by
  unfold withLater
  split <;> rfl

/-- The files of a later form make the body a form. -/
theorem Body.isFormData_withLater {body : Body} {isForm : Bool}
    (h : body.isFormData = (isForm || !body.files.isEmpty)) (found : List FileField) :
    (body.withLater found).isFormData = (isForm || !(body.withLater found).files.isEmpty) := by
  unfold withLater
  split
  · exact h
  · rename_i some
    simp [some]

end Operation

/-! ## Where a body comes from -/

namespace Site.Run

variable {site : Site} {binding : Binding TypeExpr}

/-- A body comes from form parameters or from a schema, unless there is none. -/
theorem body_cases (run : site.Run binding) :
    hasForm site.dialect run.parameters = true ∨
      (∃ mediaType schema later, site.BodySchema run.parameters mediaType schema later) ∨
      run.body = none := by
  have typed := run.typedBody
  generalize run.body = result at typed ⊢
  unfold Site.bodyStep Operation.body at typed
  cases dialect : site.dialect with
  | swagger2 =>
      simp only [dialect, swaggerBody] at typed
      split at typed
      · rename_i forms
        exact .inl (by simp [hasForm, forms])
      · rename_i noForm
        split at typed
        · obtain ⟨same, -⟩ := Prod.mk.inj typed
          exact .inr (.inr (Except.ok.inj same).symm)
        · rename_i parameter first
          have noForm' := Bool.eq_false_iff.mpr noForm
          obtain ⟨start, mediaType, shown, -⟩ := outcome_bind_eq_ok typed
          obtain ⟨shown, -⟩ := Prod.mk.inj shown
          exact .inr (.inl ⟨mediaType, _, _, .parameter dialect noForm' first shown⟩)
  | openApi3 =>
      simp only [dialect, openApiBody] at typed
      obtain ⟨start, request, hrequest, typed⟩ := outcome_bind_eq_ok typed
      obtain ⟨followed, rfl⟩ := Prod.mk.inj hrequest
      split at typed
      · rename_i mediaType media rest content
        obtain ⟨entries, isObject, content'⟩ := Option.map_eq_some_iff.mp content
        obtain rfl := Value.eq_object_of_object? isObject
        exact .inr (.inl ⟨_, _, _, .content dialect followed content'⟩)
      · obtain ⟨failed, -⟩ := Prod.mk.inj typed
        simp at failed
      · obtain ⟨same, -⟩ := Prod.mk.inj typed
        exact .inr (.inr (Except.ok.inj same).symm)

/-- A body of form parameters is a form. -/
theorem isFormData_of_form (run : site.Run binding)
    (isForm : hasForm site.dialect run.parameters = true) : binding.isFormData = true := by
  obtain ⟨name, -, -, isFormData, -⟩ := run.outcome_form isForm
  exact isFormData

/-- A body of a schema has a type, and it is a form by its media type or by its files. -/
theorem form_of_schema (run : site.Run binding) {mediaType : String} {schema : Value}
    {later : Option Value} (body : site.BodySchema run.parameters mediaType schema later) :
    binding.body.isSome = true ∧
      binding.isFormData = (isForm mediaType || !binding.files.isEmpty) := by
  obtain ⟨made, found, hmade, -, same⟩ := run.body_eq body
  have ending := @ending_form_bodyOfSchema (site.scope (some .body)) site.stem mediaType schema
    run.afterQuery
  rw [hmade] at ending
  obtain ⟨typed, isFormData⟩ := ending.holds rfl
  rw [run.bodyType, run.isFormData, run.files, same]
  exact ⟨by simpa using typed, Body.isFormData_withLater isFormData found⟩

/-- Without a body there are no files and no form. -/
theorem plain_of_none (run : site.Run binding) (none : run.body = none) :
    binding.files = [] ∧ binding.isFormData = false := by
  rw [run.files, run.isFormData, none]
  exact ⟨rfl, rfl⟩

end Site.Run

/-! ## Files are announced -/

namespace Binding

/-- Files are announced: a binding with files is sent as a form and has a body. -/
theorem form_of_files {document : Value} {path method : String} {options : Options}
    {lexicon : Name.Lexicon} {binding : Binding TypeExpr} {warnings : List Warning}
    (h : ofDocument document path method options lexicon = .ok (some binding, warnings))
    (files : binding.files ≠ []) :
    binding.isFormData = true ∧ ∃ type, binding.body = some type := by
  obtain ⟨site, -, ⟨run⟩⟩ := exists_run h
  rcases run.body_cases with isForm | ⟨mediaType, schema, later, body⟩ | none
  · exact ⟨run.isFormData_of_form isForm, _, (run.formFiles isForm).body files⟩
  · obtain ⟨typed, isFormData⟩ := run.form_of_schema body
    exact ⟨by simp [isFormData, files], Option.isSome_iff_exists.mp typed⟩
  · exact absurd (run.plain_of_none none).1 files

theorem form_of_files_petsSite :
    ∃ binding warnings,
      ofDocument (.object (petsSite [] []).document) "/pets" "POST" {} .standard =
        .ok (some binding, warnings) ∧
      binding.files ≠ [] ∧ binding.isFormData = true ∧ ∃ type, binding.body = some type := by
  have computed :
      ((ofDocument (.object (petsSite [] []).document) "/pets" "POST" {}
        .standard).toOption.bind (·.1)).map (·.files.isEmpty) = some false := by decide +kernel
  obtain ⟨binding, warnings, made, some⟩ := exists_of_computed computed
  have files : binding.files ≠ [] := by simpa using some
  exact ⟨binding, warnings, made, files, form_of_files made files⟩

end Binding

/-! ## Forms and their media types -/

namespace Operation

/-- A media type without its parameters, in lower case. -/
def mediaName (mediaType : String) : List Char :=
  Text.lower (mediaType.toList.takeWhile (· != ';'))

/-- A media type of forms. -/
def IsFormType (mediaType : String) : Prop :=
  "multipart/".toList <+: mediaName mediaType ∨
    mediaName mediaType = "application/x-www-form-urlencoded".toList

instance (mediaType : String) : Decidable (IsFormType mediaType) :=
  inferInstanceAs (Decidable (_ ∨ _))

end Operation

namespace Site

/-- What makes a binding a form: its files, its form parameters, or a property of the media type
of its body. -/
inductive SentAsForm (site : Site) (forms : List Parameter) (binding : Binding TypeExpr)
    (p : String → Prop) : Prop where
  | files : binding.files ≠ [] → SentAsForm site forms binding p
  | parameters : hasForm site.dialect forms = true → SentAsForm site forms binding p
  | mediaType {mediaType schema later} : site.BodySchema forms mediaType schema later →
      p mediaType → SentAsForm site forms binding p

variable {site : Site} {binding : Binding TypeExpr} {forms : List Parameter}

/-- A body has one media type. -/
theorem BodySchema.unique {mediaType mediaType' : String} {schema schema' : Value}
    {later later' : Option Value} (h : site.BodySchema forms mediaType schema later)
    (h' : site.BodySchema forms mediaType' schema' later') : mediaType = mediaType' := by
  cases h with
  | parameter dialect _ _ shown =>
      cases h' with
      | parameter _ _ _ shown' => exact Except.ok.inj (shown.symm.trans shown')
      | content dialect' _ _ => simp [dialect] at dialect'
  | content dialect followed content =>
      cases h' with
      | parameter dialect' _ _ _ => simp [dialect] at dialect'
      | content _ followed' content' =>
          obtain rfl := Value.object.inj (Except.ok.inj (followed.symm.trans followed'))
          have same := Value.object.inj (content.symm.trans content')
          simp only [List.cons.injEq, Prod.mk.injEq, Key.text.injEq] at same
          exact same.1.1

theorem Run.sentAsForm_iff (run : site.Run binding) :
    binding.isFormData = true ↔
      site.SentAsForm run.parameters binding ("form".toList <:+: ·.toList) := by
  constructor
  · intro isFormData
    rcases run.body_cases with isForm | ⟨mediaType, schema, later, body⟩ | none
    · exact .parameters isForm
    · rw [(run.form_of_schema body).2, Bool.or_eq_true] at isFormData
      rcases isFormData with isForm | some
      · exact .mediaType body (isForm_iff.mp isForm)
      · exact .files (by simpa using some)
    · simp [(run.plain_of_none none).2] at isFormData
  · rintro (files | isForm | ⟨body, within⟩)
    · rcases run.body_cases with isForm | ⟨mediaType, schema, later, body⟩ | none
      · exact run.isFormData_of_form isForm
      · simp [(run.form_of_schema body).2, files]
      · exact absurd (run.plain_of_none none).1 files
    · exact run.isFormData_of_form isForm
    · simp [(run.form_of_schema body).2, isForm_iff.mpr within]

end Site

namespace Binding

/-- A binding is a form by its files, by form parameters, or by a media type with "form" somewhere
in its text. So it has files, form parameters or a media type of forms, unless "form" occurs in a
media type of another kind. -/
theorem isFormData_iff {document : Value} {path method : String} {options : Options}
    {lexicon : Name.Lexicon} {binding : Binding TypeExpr} {warnings : List Warning}
    (h : ofDocument document path method options lexicon = .ok (some binding, warnings)) :
    ∃ site forms, Site.ofDocument document path method options lexicon = .ok (some site) ∧
      Operation.parameters site.dialect site.document site.item site.operation = .ok forms ∧
      (binding.isFormData = true ↔
        site.SentAsForm forms binding ("form".toList <:+: ·.toList)) ∧
      ((binding.isFormData = true → site.SentAsForm forms binding IsFormType) ↔
        (binding.files = [] → ∀ mediaType schema later,
          site.BodySchema forms mediaType schema later → "form".toList <:+: mediaType.toList →
            IsFormType mediaType)) := by
  obtain ⟨site, located, ⟨run⟩⟩ := exists_run h
  refine ⟨site, run.parameters, located, run.normal, run.sentAsForm_iff, ?_, ?_⟩
  · intro only none mediaType schema later body within
    have isFormData := run.sentAsForm_iff.mpr (.mediaType body within)
    rcases only isFormData with files | isForm | ⟨other, formType⟩
    · exact absurd none files
    · cases body with
      | parameter _ noForm _ _ => simp [hasForm, noForm] at isForm
      | content dialect _ _ => simp [hasForm, dialect] at isForm
    · exact other.unique body ▸ formType
  · intro only isFormData
    by_cases none : binding.files = []
    · rcases run.sentAsForm_iff.mp isFormData with files | isForm | ⟨body, within⟩
      · exact absurd none files
      · exact .parameters isForm
      · exact .mediaType body (only none _ _ _ body within)
    · exact .files none

/-- A request body of a text, sent in a media type. -/
def textOperation (mediaType : String) : Mapping := [
  (.text "requestBody", .ofFields [("content", .ofFields [
    (mediaType, .ofFields [("schema", .ofFields [("type", .text "string")])])])])]

/-- The site of the operation with that body. -/
def textSite (mediaType : String) : Site where
  document := [
    (.text "openapi", .text "3.0.0"),
    (.text "paths", .ofFields [
      ("/pets", .ofFields [("post", .object (textOperation mediaType))])])]
  item := [(.text "post", .object (textOperation mediaType))]
  operation := textOperation mediaType
  definitions := []
  path := "/pets"
  method := "post"
  options := {}
  lexicon := .standard

theorem ofDocument_textSite (mediaType : String) :
    Site.ofDocument (.object (textSite mediaType).document) "/pets" "POST" {} .standard =
      .ok (some (textSite mediaType)) :=
  Site.ofDocument_of_found (textSite mediaType)
    (by decide +kernel : String.ofList (Text.lower "POST".toList) = "post") rfl rfl

theorem mediaType_of_bodySchema_textSite {mediaType other : String} {schema : Value}
    {later : Option Value} (body : (textSite mediaType).BodySchema [] other schema later) :
    other = mediaType :=
  body.unique (@Site.BodySchema.content (textSite mediaType) [] _ [] mediaType
    (.ofFields [("schema", .ofFields [("type", .text "string")])]) rfl rfl rfl)

/-- The usual media type of a form is one of forms. -/
theorem isFormData_iff_textSite :
    ∃ binding warnings,
      ofDocument (.object (textSite "multipart/form-data").document) "/pets" "POST" {} .standard =
        .ok (some binding, warnings) ∧
      binding.isFormData = true ∧ binding.files = [] ∧
      (textSite "multipart/form-data").SentAsForm [] binding IsFormType := by
  have computed :
      ((ofDocument (.object (textSite "multipart/form-data").document) "/pets" "POST" {}
        .standard).toOption.bind (·.1)).map (fun binding => (binding.isFormData, binding.files)) =
      some (true, []) := by decide +kernel
  obtain ⟨binding, warnings, made, found⟩ := exists_of_computed computed
  obtain ⟨isFormData, files⟩ := Prod.mk.inj found
  obtain ⟨site, forms, located, normal, -, only⟩ := isFormData_iff made
  obtain rfl := Option.some.inj (Except.ok.inj ((ofDocument_textSite _).symm.trans located))
  obtain rfl : [] = forms := Except.ok.inj normal
  refine ⟨binding, warnings, made, isFormData, files, only.mpr ?_ isFormData⟩
  intro _ mediaType schema later body _
  rw [mediaType_of_bodySchema_textSite body]
  decide +kernel

/-- A body in a media type of a platform is a form, although it has no files, there are no form
parameters and the media type is none of forms: its name has the letters of "form" in it. -/
theorem isFormData_of_platformType :
    ∃ binding warnings,
      ofDocument (.object (textSite "application/vnd.platform+json").document) "/pets" "POST" {}
        .standard = .ok (some binding, warnings) ∧
      binding.isFormData = true ∧
      Operation.parameters .openApi3 (textSite "application/vnd.platform+json").document
        (textSite "application/vnd.platform+json").item
        (textSite "application/vnd.platform+json").operation = .ok [] ∧
      ¬ (textSite "application/vnd.platform+json").SentAsForm [] binding IsFormType := by
  have computed :
      ((ofDocument (.object (textSite "application/vnd.platform+json").document) "/pets" "POST" {}
        .standard).toOption.bind (·.1)).map (fun binding => (binding.isFormData, binding.files)) =
      some (true, []) := by decide +kernel
  obtain ⟨binding, warnings, made, found⟩ := exists_of_computed computed
  obtain ⟨isFormData, none⟩ := Prod.mk.inj found
  refine ⟨binding, warnings, made, isFormData, rfl, ?_⟩
  rintro (files | isForm | ⟨body, formType⟩)
  · exact files none
  · exact absurd isForm (by decide +kernel)
  · rw [mediaType_of_bodySchema_textSite body] at formType
    exact absurd formType (by decide +kernel)

end Binding

end ApiBinding
