import ApiBinding.Proofs.Operation.Ending
import ApiBinding.Proofs.Operation.Thinning

/-! The body of an operation in the older dialect that has no form parameters: it is there if and
only if a body parameter is not named after a template placeholder. -/

namespace ApiBinding

/-! ## Normal forms of raw parameters -/

/-- The normal forms at a location are those of the raw parameters there that have a name. -/
theorem Dialect.exists_form_iff {dialect : Dialect} {location : Location} {raws : List Mapping}
    (p : String → Prop) (normal : ∀ raw ∈ raws, ∃ form, dialect.normalize raw = .ok form) :
    (∃ form ∈ raws.filterMap dialect.normalForm?, form.location = location ∧ p form.name) ↔
      ∃ raw ∈ raws, ∃ name, Parameter.SentAs raw location name ∧ p name := by
  constructor
  · rintro ⟨form, member, rfl, holds⟩
    obtain ⟨raw, inside, made⟩ := List.mem_filterMap.mp member
    have sent := (sentAs_iff (normalForm?_eq_some_iff.mp made)).mpr ⟨form, rfl, rfl, rfl⟩
    exact ⟨raw, inside, form.name, sent, holds⟩
  · rintro ⟨raw, inside, name, sent, holds⟩
    obtain ⟨own, normal⟩ := normal raw inside
    obtain ⟨form, rfl, rfl, rfl⟩ := (sentAs_iff normal).mp sent
    have made := normalForm?_eq_some_iff.mpr normal
    exact ⟨form, List.mem_filterMap.mpr ⟨raw, inside, made⟩, rfl, holds⟩

/-! ## Bodies that have a type -/

namespace Operation

open Synthesis

variable {scope : Scope}

theorem ending_trivial {α : Type} (step : Synthesis α) :
    Ending step (fun _ => True) (fun _ => True) := by
  intro session
  refine ⟨fun _ => trivial, ?_⟩
  rintro (cause | defect) -
  · exact .fault cause
  · exact .defect trivial

/-- A body of one schema has a type, and it is a form by its media type or by its files. -/
theorem ending_form_bodyOfSchema (stem mediaType : String) (schema : Value) :
    Ending (bodyOfSchema scope stem mediaType schema)
      (fun body => body.type.isSome = true ∧
        body.isFormData = (isForm mediaType || !body.files.isEmpty))
      (fun _ => True) := by
  have typed (step : Synthesis TypeExpr) (files : List FileField) :
      Ending (do pure (Body.mk (some (← step)) (isForm mediaType || !files.isEmpty) files))
        (fun body => body.type.isSome = true ∧
          body.isFormData = (isForm mediaType || !body.files.isEmpty)) (fun _ => True) :=
    (ending_trivial step).bind fun _ _ => ending_pure ⟨rfl, rfl⟩
  unfold bodyOfSchema
  dsimp only
  split
  all_goals
    refine (ending_trivial _).bind fun files _ => ?_
    split
    · exact (ending_trivial _).bind fun marked _ => typed _ files
    · exact typed _ files

/-- Without form parameters there is a body if there is a body parameter that no placeholder
names. -/
theorem ending_isSome_swaggerBody (document operation : Mapping) (stem : String)
    (placeholders : List String) {forms : List Parameter}
    (noForm : ¬ ∃ form ∈ forms, form.location = .formData) :
    Ending (swaggerBody scope document operation stem placeholders forms)
      (fun body => (body.bind (·.type)).isSome = true ↔
        ∃ form ∈ forms, form.location = .body ∧ form.name ∉ placeholders) (fun _ => True) := by
  have noForm' : forms.any (·.location == .formData) = false := by simpa using noForm
  unfold swaggerBody
  simp only [noForm', Bool.false_eq_true, if_false]
  split
  · rename_i absent
    refine ending_pure ?_
    have none : ¬ ∃ form ∈ forms, form.location = .body ∧ form.name ∉ placeholders := by
      simpa using absent
    simp [none]
  · rename_i form found
    have some : ∃ form ∈ forms, form.location = .body ∧ form.name ∉ placeholders := by
      refine ⟨form, List.mem_of_find?_eq_some found, ?_⟩
      simpa using List.find?_some found
    refine (ending_trivial _).bind fun mediaType _ => ?_
    refine (ending_form_bodyOfSchema _ _ _).bind fun body typed => ending_pure ?_
    exact iff_of_true typed.1 some

end Operation

namespace Binding

open Operation

/-- A request body of the older dialect is not lost. If the parameters of an operation, those of
its path among them and references followed, have no form parameter, then it has a body if and
only if they have a body parameter whose name is no template placeholder. -/
theorem body_isSome_iff {document : Mapping} {path method : String} {options : Options}
    {lexicon : Name.Lexicon} {binding : Binding TypeExpr} {warnings : List Warning}
    (older : Dialect.ofDocument document = .swagger2)
    (h : ofDocument (.object document) path method options lexicon =
      .ok (some binding, warnings)) :
    ∃ site shared own raws,
      Site.ofDocument (.object document) path method options lexicon = .ok (some site) ∧
      rawParameters document site.item = .ok shared ∧
      rawParameters document site.operation = .ok own ∧
      Parameter.merge shared own = .ok raws ∧
      ((¬ ∃ raw ∈ raws, ∃ name, Parameter.SentAs raw .formData name) →
        (binding.body.isSome = true ↔
          ∃ raw ∈ raws, ∃ name, Parameter.SentAs raw .body name ∧
            name ∉ Name.Template.placeholders path)) := by
  obtain ⟨site, located, ⟨run⟩⟩ := exists_run h
  obtain ⟨rfl, -, -, rfl, -, -⟩ := Site.of_ofDocument located
  obtain ⟨readable, forms⟩ := parameters_eq_ok_iff.mp run.normal
  have merges := Parameter.merge_eq_ok readable.labelledShared readable.labelledOwn
  refine ⟨site, _, _, _, located, rawParameters_eq_ok_iff.mpr ⟨readable.shared, rfl⟩,
    rawParameters_eq_ok_iff.mpr ⟨readable.own, rfl⟩, merges, fun noForm => ?_⟩
  have noForm' : ¬ ∃ form ∈ run.parameters, form.location = .formData := by
    rintro ⟨form, member, located⟩
    rw [forms] at member
    obtain ⟨raw, inside, name, sent, -⟩ :=
      (Dialect.exists_form_iff (fun _ => True) readable.normal).mp ⟨form, member, located, trivial⟩
    exact noForm ⟨raw, inside, name, sent⟩
  have typed := run.typedBody
  simp only [Site.bodyStep, Operation.body, Site.dialect, older] at typed
  have ending := @ending_isSome_swaggerBody (site.scope (some .body)) site.document
    site.operation site.stem site.placeholders _ noForm' run.afterQuery
  rw [typed] at ending
  rw [run.bodyType, ending.holds rfl, forms]
  exact Dialect.exists_form_iff (· ∉ site.placeholders) readable.normal

/-! ## Body parameters in documents -/

/-- A body parameter that holds a text. -/
def noteParameter : Mapping := [
  (.text "name", .text "note"),
  (.text "in", .text "body"),
  (.text "schema", .ofFields [("type", .text "string")])]

theorem sentAs_noteParameter {location : Location} {name : String} :
    Parameter.SentAs noteParameter location name ↔ location = .body ∧ name = "note" := by
  constructor
  · rintro ⟨located, named⟩
    have located' : Parameter.location? noteParameter = some .body := by decide
    exact ⟨Option.some.inj (located.symm.trans located'), (Value.text.inj named).symm⟩
  · rintro ⟨rfl, rfl⟩
    exact ⟨by decide, rfl⟩

/-- The path refers to the body parameter, and the operation declares none. -/
def notesItem : Mapping := [
  (.text "parameters", .list [.ofFields [("$ref", .text "#/parameters/Note")]]),
  (.text "post", .ofFields [("operationId", .text "addNote")])]

def notesDocument : Mapping := [
  (.text "swagger", .text "2.0"),
  (.text "parameters", .ofFields [("Note", .object noteParameter)]),
  (.text "paths", .ofFields [("/notes/\x7bid\x7d", .object notesItem)])]

theorem body_isSome_notesDocument :
    Dialect.ofDocument notesDocument = .swagger2 ∧
      ∃ binding warnings,
        ofDocument (.object notesDocument) "/notes/\x7bid\x7d" "POST" {} .standard =
          .ok (some binding, warnings) ∧ binding.body.isSome = true := by
  have older : Dialect.ofDocument notesDocument = .swagger2 := by decide
  have computed :
      ((ofDocument (.object notesDocument) "/notes/\x7bid\x7d" "POST" {}
        .standard).toOption.bind (·.1)).map (fun _ => ()) = some () := by decide +kernel
  obtain ⟨binding, warnings, made, -⟩ := exists_of_computed computed
  obtain ⟨site, shared, own, raws, located, ofItem, ofOperation, merges, bound⟩ :=
    body_isSome_iff older made
  obtain ⟨-, found, -⟩ := Site.of_ofDocument located
  have method : String.ofList (Text.lower "POST".toList) = "post" := by decide +kernel
  rw [method] at found
  obtain ⟨item, operation⟩ := Prod.mk.inj (Option.some.inj (found : some _ = some _))
  rw [← item] at ofItem
  rw [← operation] at ofOperation
  obtain rfl := Except.ok.inj (ofItem : Except.ok [noteParameter] = _)
  obtain rfl := Except.ok.inj (ofOperation : Except.ok [] = _)
  obtain rfl := Except.ok.inj (merges : Except.ok [noteParameter] = _)
  refine ⟨older, binding, warnings, made, (bound ?_).mpr ?_⟩
  · rintro ⟨raw, member, name, sent⟩
    obtain rfl := List.mem_singleton.mp member
    simp [sentAs_noteParameter] at sent
  · exact ⟨noteParameter, List.mem_singleton.mpr rfl, "note",
      sentAs_noteParameter.mpr ⟨rfl, rfl⟩, by decide +kernel⟩

/-- The one parameter of the operation is a body that has the name of the placeholder. -/
def notePath : String := "/notes/\x7bnote\x7d"

def noteOperation : Mapping := [(.text "parameters", .list [.object noteParameter])]

def noteDocument : Mapping := [
  (.text "swagger", .text "2.0"),
  (.text "paths", .object [(.text notePath, .ofFields [("post", .object noteOperation)])])]

/-- A body parameter that a template placeholder names is no body. -/
theorem body_eq_none_noteDocument :
    Dialect.ofDocument noteDocument = .swagger2 ∧
      Operation.find? noteDocument notePath "post" =
        some ([(.text "post", .object noteOperation)], noteOperation) ∧
      rawParameters noteDocument noteOperation = .ok [noteParameter] ∧
      rawParameters noteDocument [(.text "post", .object noteOperation)] = .ok [] ∧
      Parameter.SentAs noteParameter .body "note" ∧
      ∃ binding warnings,
        ofDocument (.object noteDocument) notePath "POST" {} .standard =
          .ok (some binding, warnings) ∧ binding.body = none := by
  have computed :
      ((ofDocument (.object noteDocument) notePath "POST" {} .standard).toOption.bind
        (·.1)).map (·.body.isNone) = some true := by decide +kernel
  obtain ⟨binding, warnings, made, absent⟩ := exists_of_computed computed
  exact ⟨by decide, rfl, rfl, rfl, sentAs_noteParameter.mpr ⟨rfl, rfl⟩, binding, warnings, made,
    Option.isNone_iff_eq_none.mp absent⟩

end Binding

end ApiBinding
