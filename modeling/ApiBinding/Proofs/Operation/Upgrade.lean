import ApiBinding.Proofs.Operation.Inputs
import ApiBinding.Proofs.Operation.Moved

/-! The two dialects have one contract. A document of the older dialect whose operation is written
in place can be written in the newer one: definitions and references are moved, the type of a
parameter goes under its schema, the body parameter becomes the request body, and the schema of a
response goes under its content. Both documents give the same binding. -/

namespace ApiBinding

open Value

/-! ## Documents of the newer dialect -/

namespace Mapping

/-- The entries apart from those under some names. -/
def without (m : Mapping) (names : List String) : Mapping :=
  m.filter fun entry => !names.any fun name => entry.1.same (.text name)

/-- Applies a function to what stands under a name. -/
def adjust (m : Mapping) (name : String) (f : Value → Value) : Mapping :=
  m.map fun entry => if entry.1.same (.text name) then (entry.1, f entry.2) else entry

theorem find?_without (m : Mapping) (names : List String) (name : String) :
    find? (m.without names) name = if name ∈ names then none else m.find? name := by
  induction m with
  | nil => simp [without]
  | cons entry rest ih =>
      obtain ⟨key, value⟩ := entry
      have step : without ((key, value) :: rest) names =
          if names.any fun name => key.same (.text name) then without rest names
          else (key, value) :: without rest names := by
        cases listed : names.any fun name => key.same (.text name) <;>
          simp only [without, List.filter_cons, listed] <;> rfl
      rw [step]
      by_cases same : key.same (.text name) = true
      · obtain rfl := eq_text_of_same same
        by_cases member : name ∈ names
        · simp [member, ih]
        · simp [member, find?_cons]
      · split <;> simp [find?_cons, same, ih]

theorem find?_adjust_self (m : Mapping) (name : String) (f : Value → Value) :
    find? (m.adjust name f) name = (m.find? name).map f := by
  induction m with
  | nil => rfl
  | cons entry rest ih =>
      obtain ⟨key, value⟩ := entry
      unfold adjust at ih ⊢
      by_cases same : key.same (.text name) = true <;> simp [find?_cons, same, ih]

theorem find?_adjust_of_ne (m : Mapping) {name other : String} (f : Value → Value)
    (h : name ≠ other) : find? (m.adjust name f) other = m.find? other := by
  induction m with
  | nil => rfl
  | cons entry rest ih =>
      obtain ⟨key, value⟩ := entry
      unfold adjust at ih ⊢
      by_cases same : key.same (.text name) = true
      · obtain rfl := eq_text_of_same same
        simp [find?_cons, h, ih]
      · simp [find?_cons, same, ih]

end Mapping

/-- The parameters of an operation, where they are mappings. -/
def Operation.inlineParameters (operation : Mapping) : List Mapping :=
  match operation.field "parameters" with
  | .list items => items.filterMap Value.object?
  | _ => []

/-- Whether a raw parameter is a body. -/
def Parameter.isBody (raw : Mapping) : Bool :=
  location? raw == some .body

namespace Upgrade

/-- A parameter of the newer dialect: its type keys stand under its schema. -/
def parameter (raw : Mapping) : Mapping :=
  raw.without Dialect.inlineKeys ++
    match Dialect.liftedSchema raw with
    | .null => []
    | schema => [(.text "schema", schema.moved)]

/-- The parameters of the newer dialect, among which no body is. -/
def parameters : Value → Value
  | .list raws =>
    .list ((raws.filter fun raw => !raw.object?.any Parameter.isBody).map (mapObject parameter))
  | other => other

/-- The entry of a media type for a mapping that may have a schema. -/
def media (entries : Mapping) : Mapping :=
  match entries.find? "schema" with
  | some schema => [(.text "schema", schema.moved)]
  | none => []

/-- The content of a mapping that may have a schema, for one media type. -/
def content (mediaType : String) (entries : Mapping) : Key × Value :=
  (.text "content", .object [(.text mediaType, .object (media entries))])

/-- A response of the newer dialect: its schema stands under its content. -/
def response (mediaType : String) (entries : Mapping) : Mapping :=
  if entries.has "schema" then entries.without ["schema"] ++ [content mediaType entries]
  else entries

/-- The request body made of the first body parameter. -/
def requestBody (document operation : Mapping) : Mapping :=
  match (Operation.inlineParameters operation).find? Parameter.isBody with
  | some raw =>
    let mediaType := (Operation.consumedMedia document operation).display
    [(.text "requestBody", .object [content mediaType raw])]
  | none => []

/-- An operation of the newer dialect. -/
def operation (document : Mapping) (mediaType : String) (operation : Mapping) : Mapping :=
  ((operation.adjust "parameters" parameters).adjust "responses"
    (mapObject (Mapping.mapValues (mapObject (response mediaType))))) ++
    requestBody document operation

/-- A path of the newer dialect. -/
def item (document : Mapping) (mediaType : String) (item : Mapping) : Mapping :=
  item.mapValues (mapObject (operation document mediaType))

/-- The components that hold the definitions of a document. -/
def components (document : Mapping) : Mapping :=
  [(.text "schemas", mapObject (Mapping.mapValues Value.moved) (document.field "definitions"))]

/-- A document of the newer dialect with the operations of one of the older dialect. Its responses
have content of one media type. -/
def document (mediaType : String) (old : Mapping) : Mapping :=
  ((old.without ["swagger", "definitions", "components"]).adjust "paths"
    (mapObject (Mapping.mapValues (mapObject (item old mediaType))))) ++
    [(.text "components", .object (components old))]

end Upgrade

/-! ## Operations written in place -/

/-- A parameter that is written in place, in one of the four locations that both dialects know,
and has no key that only the newer dialect reads. A body has an object schema, if it has one, and
no name of a template placeholder. -/
structure Parameter.Plain (placeholders : List String) (raw : Mapping) : Prop where
  inline : raw.has "$ref" = false
  name : ∃ name, raw.field "name" = .text name
  location : ∃ location ∈ [Location.path, .query, .header, .body],
    Parameter.location? raw = some location
  content : raw.has "content" = false
  typed : Parameter.location? raw ≠ some .body → raw.has "schema" = false
  body : Parameter.location? raw = some .body →
    (∀ value, raw.find? "schema" = some value → ∃ schema, value = .object schema) ∧
      ∀ name ∈ placeholders, raw.field "name" ≠ .text name

/-- A response that is written in place, whose schema is an object if it has one, and which has no
key that only the newer dialect reads. -/
structure Operation.PlainResponse (entries : Mapping) : Prop where
  inline : entries.has "$ref" = false
  content : entries.has "content" = false
  schema : ∀ value, entries.find? "schema" = some value → ∃ schema, value = .object schema

/-- An operation that is written in place, under a path without parameters of its own. -/
structure Operation.Plain (placeholders : List String) (item operation : Mapping) : Prop where
  shared : item.has "parameters" = false
  parameters : ∀ raws, operation.field "parameters" = .list raws → ∀ raw ∈ raws,
    ∃ entries, raw = .object entries ∧ Parameter.Plain placeholders entries
  responses : ∀ responses, operation.field "responses" = .object responses →
    ∀ entry ∈ responses, ∀ entries, entry.2 = .object entries → PlainResponse entries
  requestBody : operation.has "requestBody" = false

theorem Parameter.plain_body {placeholders : List String} {raw schema : Mapping} {name : String}
    (inline : raw.has "$ref" = false) (content : raw.has "content" = false)
    (located : location? raw = some .body) (named : raw.field "name" = .text name)
    (unbound : name ∉ placeholders) (object : raw.find? "schema" = some (.object schema)) :
    Parameter.Plain placeholders raw where
  inline := inline
  name := ⟨name, named⟩
  location := ⟨.body, by decide, located⟩
  content := content
  typed other := absurd located other
  body _ := by
    refine ⟨fun value found => ⟨schema, Option.some.inj (found.symm.trans object)⟩, ?_⟩
    intro other bound same
    obtain rfl := Value.text.inj (named.symm.trans same)
    exact unbound bound

/-- Whether the keys of the body schema of an operation are texts. -/
def Operation.TextKeys (operation : Mapping) : Prop :=
  ∀ raw ∈ inlineParameters operation, Parameter.location? raw = some .body →
    ∀ schema, raw.field "schema" = .object schema → ∀ entry ∈ schema, ∃ name, entry.1 = .text name

/-! ## Fields of an operation -/

namespace Upgrade

variable {document operation : Mapping}

theorem find?_requestBody {name : String} (other : "requestBody" ≠ name) :
    (requestBody document operation).find? name = none := by
  unfold requestBody
  split <;> simp [Mapping.find?_cons, other]

theorem field_parameters (document operation : Mapping) (mediaType : String) :
    (Upgrade.operation document mediaType operation).field "parameters" =
      parameters (operation.field "parameters") := by
  unfold Upgrade.operation Mapping.field
  rw [Mapping.find?_append, find?_requestBody (by decide), Option.or_none,
    Mapping.find?_adjust_of_ne _ _ (by decide), Mapping.find?_adjust_self]
  cases operation.find? "parameters" <;> rfl

theorem field_responses (document operation : Mapping) (mediaType : String) :
    (Upgrade.operation document mediaType operation).field "responses" =
      mapObject (Mapping.mapValues (mapObject (response mediaType)))
        (operation.field "responses") := by
  unfold Upgrade.operation Mapping.field
  rw [Mapping.find?_append, find?_requestBody (by decide), Option.or_none,
    Mapping.find?_adjust_self, Mapping.find?_adjust_of_ne _ _ (by decide)]
  cases operation.find? "responses" <;> rfl

theorem field_requestBody (absent : operation.has "requestBody" = false) (document : Mapping)
    (mediaType : String) :
    (Upgrade.operation document mediaType operation).field "requestBody" =
      (requestBody document operation).field "requestBody" := by
  unfold Upgrade.operation Mapping.field
  rw [Mapping.find?_append, Mapping.find?_adjust_of_ne _ _ (by decide),
    Mapping.find?_adjust_of_ne _ _ (by decide), Mapping.find?_eq_none absent, Option.none_or]

/-- All other fields stay as they are. -/
theorem field_operation {name : String} (parameters : "parameters" ≠ name)
    (responses : "responses" ≠ name) (request : "requestBody" ≠ name) (document : Mapping)
    (mediaType : String) :
    (Upgrade.operation document mediaType operation).field name = operation.field name := by
  unfold Upgrade.operation Mapping.field
  rw [Mapping.find?_append, find?_requestBody request, Option.or_none,
    Mapping.find?_adjust_of_ne _ _ responses, Mapping.find?_adjust_of_ne _ _ parameters]

end Upgrade

/-! ## Parameters -/

namespace Parameter

open Schema

variable {placeholders : List String} {raw : Mapping}

/-- The normal form of a parameter that is written in place. -/
def normalForm (raw : Mapping) : Parameter :=
  let location := (location? raw).getD .query
  formOf raw ((raw.field "name").text?.getD "") location
    (Dialect.swagger2.parameterSchema raw location).object?

theorem textKeys_moved {m : Mapping} (texts : ∀ entry ∈ m, ∃ name, entry.1 = .text name) :
    ∀ entry ∈ movedEntries m, ∃ name, entry.1 = .text name := by
  rw [movedEntries_eq_map]
  intro entry member
  obtain ⟨own, inside, rfl⟩ := List.mem_map.mp member
  exact texts own inside

/-- A parameter that is no body has a schema made of its type keys, which are texts. -/
theorem textKeys_normalForm (plain : Plain placeholders raw)
    (texts : location? raw = some .body → ∀ schema, raw.field "schema" = .object schema →
      ∀ entry ∈ schema, ∃ name, entry.1 = .text name) {schema : Mapping}
    (h : (normalForm raw).schema = some schema) :
    ∀ entry ∈ schema, ∃ name, entry.1 = .text name := by
  obtain ⟨location, -, located⟩ := plain.location
  simp only [normalForm, formOf, located, Option.getD_some, Dialect.parameterSchema] at h
  split at h
  · rename_i isBody
    exact texts (by simpa [located] using isBody) schema (Value.eq_object_of_object? h)
  · exact textKeys_liftedSchema h

/-- A parameter has its normal form in the older dialect if the keys of its schema are texts. -/
theorem normalize_swagger2 (plain : Plain placeholders raw)
    (texts : location? raw = some .body → ∀ schema, raw.field "schema" = .object schema →
      ∀ entry ∈ schema, ∃ name, entry.1 = .text name) :
    Dialect.swagger2.normalize raw = .ok (some (normalForm raw)) := by
  obtain ⟨name, named⟩ := plain.name
  obtain ⟨location, -, located⟩ := plain.location
  have issues : Validated.keyIssues ((normalForm raw).schema.getD []) = [] := by
    rw [Validated.keyIssues_eq_nil_iff]
    cases found : (normalForm raw).schema with
    | none => simp
    | some schema => exact textKeys_normalForm plain texts found
  simp only [normalForm, formOf, located, Option.getD_some] at issues
  simp only [Dialect.normalize, located, named, ofRaw_of_textKeys issues, bind, Except.bind,
    normalForm, Value.text?, Option.getD_some]

theorem find?_upgrade (raw : Mapping) {name : String} (other : name ∉ Dialect.inlineKeys)
    (apart : "schema" ≠ name) : (Upgrade.parameter raw).find? name = raw.find? name := by
  unfold Upgrade.parameter
  rw [Mapping.find?_append, Mapping.find?_without, if_neg other]
  cases Dialect.liftedSchema raw <;> simp [Mapping.find?_cons, apart]

theorem field_upgrade (raw : Mapping) {name : String} (other : name ∉ Dialect.inlineKeys)
    (apart : "schema" ≠ name) : (Upgrade.parameter raw).field name = raw.field name := by
  rw [Mapping.field, Mapping.field, find?_upgrade raw other apart]

/-- What a parameter of the older dialect lifts out of its type keys stands under its schema. -/
theorem parameterSchema_upgrade (plain : Plain placeholders raw)
    (other : location? raw ≠ some .body) (location : Location) :
    Dialect.openApi3.parameterSchema (Upgrade.parameter raw) location =
      (Dialect.liftedSchema raw).moved := by
  have content : (Upgrade.parameter raw).field "content" = .null := by
    rw [field_upgrade raw (by decide) (by decide), Mapping.field_eq_null plain.content]
  have schema : (Upgrade.parameter raw).field "schema" = (Dialect.liftedSchema raw).moved := by
    unfold Upgrade.parameter Mapping.field
    rw [Mapping.find?_append, Mapping.find?_without, if_neg (by decide),
      Mapping.find?_eq_none (plain.typed other)]
    cases Dialect.liftedSchema raw <;> simp [Mapping.find?_cons, Value.moved]
  simp only [Dialect.parameterSchema, content, schema]
  cases (Dialect.liftedSchema raw).moved <;> rfl

theorem labels_ok {name : String} {location : Location} (named : raw.field "name" = .text name)
    (located : location? raw = some location) : ∃ labels, Parameter.labels raw = .ok labels := by
  obtain ⟨word, isText, -⟩ := Option.bind_eq_some_iff.mp located
  have inside : raw.field "in" = .text word := by
    cases found : raw.field "in" <;> simp_all [Value.text?]
  refine ⟨(.key (.text name), .key (.text word)), ?_⟩
  simp [Parameter.labels, Mapping.find?_of_field named (by simp),
    Mapping.find?_of_field inside (by simp), Label.ofValue?,
    Key.ofValue?]

theorem formOf_upgrade (name : String) (location : Location) (schema : Option Mapping) :
    formOf (Upgrade.parameter raw) name location (schema.map movedEntries) =
      (formOf raw name location schema).moved := by
  have required : (Upgrade.parameter raw).field "required" = raw.field "required" :=
    field_upgrade raw (by decide) (by decide)
  have description : (Upgrade.parameter raw).field "description" = raw.field "description" :=
    field_upgrade raw (by decide) (by decide)
  simp only [formOf, Parameter.moved, required, description]

theorem normalize_upgrade (plain : Plain placeholders raw) (other : location? raw ≠ some .body) :
    Dialect.openApi3.normalize (Upgrade.parameter raw) = .ok (some (normalForm raw).moved) := by
  obtain ⟨name, named⟩ := plain.name
  obtain ⟨location, -, located⟩ := plain.location
  have elsewhere : location ≠ .body := fun same => other (same ▸ located)
  have located' : location? (Upgrade.parameter raw) = some location := by
    rw [location?, field_upgrade raw (by decide) (by decide)]
    exact located
  have named' : (Upgrade.parameter raw).field "name" = .text name := by
    rw [field_upgrade raw (by decide) (by decide), named]
  have issues : Validated.keyIssues ((Dialect.liftedSchema raw).moved.object?.getD []) = [] := by
    rw [Validated.keyIssues_eq_nil_iff]
    rw [object?_moved]
    cases found : (Dialect.liftedSchema raw).object? with
    | none => simp
    | some schema => exact textKeys_moved (textKeys_liftedSchema found)
  have lifted : Dialect.swagger2.parameterSchema raw location = Dialect.liftedSchema raw := by
    simp [Dialect.parameterSchema, elsewhere]
  simp only [Dialect.normalize, located', named', parameterSchema_upgrade plain other,
    ofRaw_of_textKeys issues, bind, Except.bind, formOf_upgrade, normalForm, located, named,
    Value.text?, Option.getD_some, lifted, object?_moved]

end Parameter

namespace Operation

open Schema Synthesis Parameter

variable {placeholders : List String}

/-! ## Lists of parameters -/

theorem mapM_of_forall {α β : Type} {items : List α} {f : α → Except Failure β} {g : α → β}
    (h : ∀ item ∈ items, f item = .ok (g item)) : items.mapM f = .ok (items.map g) := by
  induction items with
  | nil => rfl
  | cons item rest ih =>
      rw [List.mapM_cons, h item List.mem_cons_self,
        ih fun other member => h other (List.mem_cons_of_mem _ member)]
      rfl

theorem follow_inline {document entries : Mapping} (inline : entries.has "$ref" = false) :
    Pointer.follow (.object document) (.object entries) = .ok (.object entries) := by
  simp [Pointer.follow, Pointer.followWithin, Value.object?, Mapping.find?_eq_none inline]

/-- The parameters of an operation, if it lists any, are mappings that are no references. -/
def IsInline (operation : Mapping) : Prop :=
  ∀ raws, operation.field "parameters" = .list raws → ∀ raw ∈ raws,
    ∃ entries : Mapping, raw = .object entries ∧ entries.has "$ref" = false

/-- The parameters of an operation that are written in place are themselves. -/
theorem rawParameters_of_inline {document operation : Mapping}
    (inline : IsInline operation) :
    rawParameters document operation = .ok (inlineParameters operation) := by
  unfold rawParameters inlineParameters
  cases listed : operation.field "parameters" with
  | list raws =>
      have followed : raws.mapM (Pointer.follow (.object document)) = .ok (raws.map id) := by
        refine mapM_of_forall fun raw member => ?_
        obtain ⟨entries, rfl, plain⟩ := inline raws listed raw member
        exact follow_inline plain
      simp [followed, bind, Except.bind]
  | _ => rfl

theorem merge_nil {own : List Mapping}
    (labelled : ∀ raw ∈ own, ∃ labels, Parameter.labels raw = .ok labels) :
    Parameter.merge [] own = .ok own := by
  have taken : ∃ labels, own.mapM Parameter.labels = .ok labels := by
    induction own with
    | nil => exact ⟨[], rfl⟩
    | cons raw rest ih =>
        obtain ⟨first, hfirst⟩ := labelled raw List.mem_cons_self
        obtain ⟨others, hothers⟩ := ih fun other member =>
          labelled other (List.mem_cons_of_mem _ member)
        exact ⟨first :: others, by simp [hfirst, hothers, bind, Except.bind, pure, Except.pure]⟩
  obtain ⟨labels, taken⟩ := taken
  simp [Parameter.merge, taken, bind, Except.bind, List.filterM, List.filterAuxM, pure,
    Except.pure]

/-- The parameters of an operation whose path has none, when each of them has a normal form. -/
theorem parameters_eq {dialect : Dialect} {document item operation : Mapping}
    {forms : List Parameter} (shared : item.has "parameters" = false)
    (inline : IsInline operation)
    (labelled : ∀ raw ∈ inlineParameters operation, ∃ labels, Parameter.labels raw = .ok labels)
    (normal : (inlineParameters operation).mapM dialect.normalize = .ok (forms.map some)) :
    parameters dialect document item operation = .ok forms := by
  have none : rawParameters document item = .ok [] := by
    simp [rawParameters, Mapping.field_eq_null shared]
  simp [parameters, none, rawParameters_of_inline inline, merge_nil labelled, normal, bind,
    Except.bind]

/-! ## Parameters of both documents -/

theorem mem_inlineParameters (plain : Plain placeholders item operation) {raw : Mapping}
    (member : raw ∈ inlineParameters operation) : Parameter.Plain placeholders raw := by
  unfold inlineParameters at member
  cases listed : operation.field "parameters" with
  | list raws =>
      simp only [listed, List.mem_filterMap] at member
      obtain ⟨value, inside, isObject⟩ := member
      obtain ⟨entries, rfl, isPlain⟩ := plain.parameters raws listed value inside
      obtain rfl := Option.some.inj isObject
      exact isPlain
  | _ => simp [listed] at member

theorem Plain.isInline (plain : Plain placeholders item operation) : IsInline operation := by
  intro raws listed raw member
  obtain ⟨entries, rfl, isPlain⟩ := plain.parameters raws listed raw member
  exact ⟨entries, rfl, isPlain.inline⟩

theorem filterMap_object?_mapObject (f : Mapping → Mapping) (raws : List Value) :
    (raws.map (mapObject f)).filterMap Value.object? = (raws.filterMap Value.object?).map f := by
  have same : Value.object? ∘ mapObject f = fun raw => raw.object?.map f :=
    funext (object?_mapObject f)
  rw [List.filterMap_map, List.map_filterMap, same]

theorem filterMap_object?_filter (other : Mapping → Bool) (raws : List Value) :
    (raws.filter fun raw => !raw.object?.any other).filterMap Value.object? =
      (raws.filterMap Value.object?).filter (!other ·) := by
  rw [List.filterMap_filter, List.filter_filterMap]
  refine congrArg (List.filterMap · raws) (funext fun raw => ?_)
  cases raw.object? with
  | none => rfl
  | some entries => cases holds : other entries <;> simp [Option.filter_some, holds]

theorem inlineParameters_upgrade (document operation : Mapping) (mediaType : String) :
    inlineParameters (Upgrade.operation document mediaType operation) =
      ((inlineParameters operation).filter (!isBody ·)).map Upgrade.parameter := by
  unfold inlineParameters
  rw [Upgrade.field_parameters]
  cases operation.field "parameters" with
  | list raws =>
      simp only [Upgrade.parameters, filterMap_object?_mapObject, filterMap_object?_filter]
  | _ => rfl

theorem isInline_upgrade (plain : Plain placeholders item operation) (document : Mapping)
    (mediaType : String) : IsInline (Upgrade.operation document mediaType operation) := by
  intro upgraded listed raw member
  rw [Upgrade.field_parameters] at listed
  cases own : operation.field "parameters" with
  | list raws =>
      rw [own] at listed
      obtain rfl := Value.list.inj listed
      obtain ⟨old, kept, rfl⟩ := List.mem_map.mp member
      obtain ⟨entries, rfl, isPlain⟩ :=
        plain.parameters raws own old (List.mem_filter.mp kept).1
      refine ⟨Upgrade.parameter entries, rfl, ?_⟩
      rw [Mapping.has, find?_upgrade entries (by decide) (by decide)]
      exact isPlain.inline
  | _ => simp [own, Upgrade.parameters] at listed

theorem isBody_iff {raw : Mapping} : isBody raw = true ↔ location? raw = some .body := by
  simp [isBody]

/-- In the older dialect the parameters are the normal forms of those that the operation lists. -/
theorem parameters_swagger2 (plain : Plain placeholders item operation)
    (texts : TextKeys operation) (document : Mapping) :
    parameters .swagger2 document item operation =
      .ok ((inlineParameters operation).map normalForm) := by
  refine parameters_eq plain.shared plain.isInline (fun raw member => ?_) ?_
  · have isPlain := mem_inlineParameters plain member
    obtain ⟨name, named⟩ := isPlain.name
    obtain ⟨location, -, located⟩ := isPlain.location
    exact labels_ok named located
  · rw [List.map_map]
    refine mapM_of_forall fun raw member => ?_
    exact normalize_swagger2 (mem_inlineParameters plain member) (texts raw member)

/-- In the newer dialect they are the normal forms of those that are no body. -/
theorem parameters_openApi3 (plain : Plain placeholders item operation)
    {item' : Mapping} (shared : item'.has "parameters" = false) (document document' : Mapping)
    (mediaType : String) :
    parameters .openApi3 document' item' (Upgrade.operation document mediaType operation) =
      .ok ((((inlineParameters operation).filter (!isBody ·)).map normalForm).map
        Parameter.moved) := by
  have isPlain : ∀ raw ∈ (inlineParameters operation).filter (!isBody ·),
      Parameter.Plain placeholders raw ∧ location? raw ≠ some .body := by
    intro raw member
    obtain ⟨listed, other⟩ := List.mem_filter.mp member
    exact ⟨mem_inlineParameters plain listed, by simpa [isBody] using other⟩
  refine parameters_eq shared (isInline_upgrade plain document mediaType) ?_ ?_
  · rw [inlineParameters_upgrade]
    intro upgraded member
    obtain ⟨raw, kept, rfl⟩ := List.mem_map.mp member
    obtain ⟨name, named⟩ := (isPlain raw kept).1.name
    obtain ⟨location, -, located⟩ := (isPlain raw kept).1.location
    refine @labels_ok (Upgrade.parameter raw) name location ?_ ?_
    · rw [field_upgrade raw (by decide) (by decide), named]
    · rw [location?, field_upgrade raw (by decide) (by decide)]
      exact located
  · rw [inlineParameters_upgrade, List.mapM_map, List.map_map, List.map_map]
    exact mapM_of_forall fun raw kept => normalize_upgrade (isPlain raw kept).1 (isPlain raw kept).2

end Operation

end ApiBinding
