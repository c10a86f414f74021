import ApiBinding.Proofs.Operation.Extension
import ApiBinding.Proofs.Operation.Upgrade
import Mathlib.Data.List.Find

/-! A document of the older dialect and the one of the newer dialect that says the same have one
contract: each part of an operation is read from both documents in the same way, so that both give
one binding. -/

namespace ApiBinding

open Value

namespace Operation

open Schema Synthesis Parameter

variable {scope : Scope} {placeholders : List String} {item operation : Mapping}

/-! ## Path and query -/

theorem normalForm_location {raw : Mapping} (plain : Parameter.Plain placeholders raw) :
    location? raw = some (normalForm raw).location := by
  obtain ⟨location, -, located⟩ := plain.location
  simp [normalForm, formOf, located]

theorem normalForm_name {raw : Mapping} {name : String} (named : raw.field "name" = .text name) :
    (normalForm raw).name = name := by
  simp [normalForm, formOf, named, Value.text?]

/-- The parameters that are no body have the normal forms that are no body. -/
theorem filter_isBody (plain : Plain placeholders item operation) :
    ((inlineParameters operation).filter (!isBody ·)).map normalForm =
      ((inlineParameters operation).map normalForm).filter (·.location != .body) := by
  rw [List.filter_map]
  refine congrArg (List.map normalForm) (List.filter_congr fun raw member => ?_)
  simp [isBody, normalForm_location (mem_inlineParameters plain member), bne]

theorem pathParameters_filter (options : Options) (placeholders : List String)
    (parameters : List Parameter) :
    pathParameters options placeholders (parameters.filter (·.location != .body)) =
      pathParameters options placeholders parameters := by
  have same : (parameters.filter (·.location != .body)).filter (fillsPath placeholders) =
      parameters.filter (fillsPath placeholders) := by
    rw [List.filter_filter]
    refine List.filter_congr fun parameter _ => ?_
    cases located : parameter.location <;> simp [fillsPath, located]
  simp only [pathParameters, same]

theorem queryParameters_filter (placeholders : List String) (parameters : List Parameter) :
    queryParameters placeholders (parameters.filter (·.location != .body)) =
      queryParameters placeholders parameters := by
  unfold queryParameters
  rw [List.filter_filter]
  refine List.filter_congr fun parameter _ => ?_
  cases parameter.location <;> simp

theorem moves_groupPath_filter (rooted : scope.table.root = Dialect.swagger2.root) (stem : String)
    (placeholders : List String) (parameters : List Parameter) :
    Moves id (groupPath scope stem placeholders parameters)
      (groupPath scope.moved stem placeholders
        ((parameters.filter (·.location != .body)).map Parameter.moved)) := by
  have moves := moves_groupPath rooted stem placeholders (parameters.filter (·.location != .body))
  rwa [groupPath, pathParameters_filter] at moves

theorem moves_groupQuery_filter (rooted : scope.table.root = Dialect.swagger2.root)
    (stem : String) (placeholders : List String) (parameters : List Parameter) :
    Moves id (groupQuery scope stem placeholders parameters)
      (groupQuery scope.moved stem placeholders
        ((parameters.filter (·.location != .body)).map Parameter.moved)) := by
  have moves := moves_groupQuery rooted stem placeholders (parameters.filter (·.location != .body))
  rwa [groupQuery, queryParameters_filter] at moves

/-! ## Bodies -/

/-- A request without content is no body. -/
theorem openApiBody_of_null (document : Mapping) (stem : String)
    (absent : operation.field "requestBody" = .null) :
    openApiBody scope document operation stem = pure none := by
  unfold openApiBody
  rw [absent]
  rfl

/-- The content of one media type is typed by its schema: it has no other form behind it. -/
theorem openApiBody_of_content (document : Mapping) (stem : String) {mediaType : String}
    {raw : Mapping}
    (present : operation.field "requestBody" = .object [Upgrade.content mediaType raw]) :
    openApiBody scope document operation stem = (do
      let body ← bodyOfSchema scope stem mediaType (mediaSchema (.object (Upgrade.media raw)))
      pure (some body)) := by
  have followed : Pointer.follow (.object document) (.object [Upgrade.content mediaType raw]) =
      .ok (.object [Upgrade.content mediaType raw]) := follow_inline rfl
  unfold openApiBody
  rw [present, followed, bind_lift_ok]
  refine congrArg (bodyOfSchema scope stem mediaType _ >>= ·) (funext fun body => ?_)
  -- A multipart form could only be found under the one media type itself.
  cases form : mediaType == multipartForm with
  | true => rfl
  | false => simp [Mapping.field, Mapping.find?_cons, form]

/-- A body is typed by the schema of its media type. -/
theorem mediaSchema_upgrade {raw : Mapping} (plain : Parameter.Plain placeholders raw)
    (body : location? raw = some .body) :
    mediaSchema (.object (Upgrade.media raw)) =
      (((normalForm raw).schema.map Value.object).getD .null).moved := by
  have schemas := (plain.body body).1
  simp only [normalForm, formOf, body, Option.getD_some, Dialect.parameterSchema, mediaSchema,
    Upgrade.media, Mapping.field, Value.object?, Option.map_some]
  cases found : raw.find? "schema" with
  | none => rfl
  | some value =>
      obtain ⟨schema, rfl⟩ := schemas value found
      rfl

/-- In the older dialect the first body parameter is the body. -/
theorem swaggerBody_eq (plain : Plain placeholders item operation) (document : Mapping)
    (stem : String) :
    swaggerBody scope document operation stem placeholders
        ((inlineParameters operation).map normalForm) =
      ((inlineParameters operation).find? isBody).elim (pure none) (fun raw => do
        let mediaType ← Synthesis.lift (consumedMedia document operation).shown
        let body ← bodyOfSchema scope stem mediaType
          (((normalForm raw).schema.map Value.object).getD .null)
        pure (some body)) := by
  have noForm : ((inlineParameters operation).map normalForm).any (·.location == .formData) =
      false := by
    simp only [List.any_eq_false, List.mem_map]
    rintro parameter ⟨raw, member, rfl⟩
    obtain ⟨location, allowed, located⟩ := (mem_inlineParameters plain member).location
    simp only [normalForm, formOf, located, Option.getD_some]
    revert allowed
    cases location <;> simp
  have bodies : ((inlineParameters operation).map normalForm).find?
        (fun p => p.location == .body && !placeholders.contains p.name) =
      ((inlineParameters operation).find? isBody).map normalForm := by
    rw [List.find?_map]
    refine congrArg (Option.map normalForm) (List.find?_congr fun raw member => ?_)
    have isPlain := mem_inlineParameters plain member
    have located := normalForm_location isPlain
    obtain ⟨name, named⟩ := isPlain.name
    by_cases here : (normalForm raw).location = .body
    · have unbound : name ∉ placeholders := fun bound =>
        (isPlain.body (located.trans (congrArg some here))).2 name bound named
      simp [isBody, located, here, normalForm_name named, unbound]
    · simp [isBody, located, here]
  unfold swaggerBody
  simp only [noForm, bodies]
  cases (inlineParameters operation).find? isBody <;> rfl

theorem moves_body (rooted : scope.table.root = Dialect.swagger2.root)
    (plain : Plain placeholders item operation) {document : Mapping}
    (short : (consumedMedia document operation).isWritable = true) (document' : Mapping)
    (mediaType stem : String) :
    Moves id
      (swaggerBody scope document operation stem placeholders
        ((inlineParameters operation).map normalForm))
      (openApiBody scope.moved document' (Upgrade.operation document mediaType operation)
        stem) := by
  have request := Upgrade.field_requestBody plain.requestBody document mediaType
  rw [swaggerBody_eq plain]
  unfold Upgrade.requestBody at request
  cases found : (inlineParameters operation).find? isBody with
  | none =>
      rw [found] at request
      rw [openApiBody_of_null document' stem request]
      exact .pure rfl
  | some raw =>
      rw [found] at request
      have isPlain := mem_inlineParameters plain (List.mem_of_find?_eq_some found)
      have isBody := isBody_iff.mp (List.find?_some found)
      rw [openApiBody_of_content document' stem request, mediaSchema_upgrade isPlain isBody]
      simp only [Option.elim_some, Value.shown_eq_ok short, bind_lift_ok]
      exact (moves_bodyOfSchema rooted stem _ _).bind fun _ => .pure rfl

/-! ## Responses -/

theorem isEmpty_response (mediaType : String) (entries : Mapping) :
    (Upgrade.response mediaType entries).isEmpty = entries.isEmpty := by
  unfold Upgrade.response
  split
  · cases entries with
    | nil => contradiction
    | cons entry rest => simp
  · rfl

/-- A change of mappings keeps apart what is present and what is not, unless it empties one. -/
theorem isTruthy_mapObject {f : Mapping → Mapping}
    (kept : ∀ entries, (f entries).isEmpty = entries.isEmpty) (value : Value) :
    (mapObject f value).isTruthy = value.isTruthy := by
  cases value with
  | object entries => simp [isTruthy, kept]
  | _ => rfl

theorem responseEntry_mapValues (f : Mapping → Mapping) (responses : Mapping) (code : String) :
    responseEntry (responses.mapValues (mapObject f)) code =
      movedResult (mapObject f) (responseEntry responses code) := by
  unfold responseEntry
  rw [Mapping.field_mapValues rfl]
  cases responses.field code with
  | null =>
      dsimp only [mapObject]
      split
      · cases Integer.read? code.toList with
        | none => rfl
        | some status =>
            dsimp only
            rw [Mapping.get?_mapValues]
            cases responses.get? (.int status) <;> rfl
      · rfl
  | _ => rfl

theorem selectResponse_mapValues {f : Mapping → Mapping}
    (kept : ∀ entries, (f entries).isEmpty = entries.isEmpty) (responses : Mapping)
    (codes : List String) :
    selectResponse (responses.mapValues (mapObject f)) codes =
      movedResult (Option.map (mapObject f)) (selectResponse responses codes) := by
  induction codes with
  | nil => rfl
  | cons code rest ih =>
      simp only [selectResponse, responseEntry_mapValues]
      refine movedResult_bind fun entry => ?_
      rw [isTruthy_mapObject kept]
      split
      · rfl
      · exact ih

/-- The schema of a response that is written in place. -/
theorem responseSchema?_upgrade {entries : Mapping} (plain : PlainResponse entries)
    (mediaType : String) :
    Dialect.openApi3.responseSchema? (Upgrade.response mediaType entries) =
      (Dialect.swagger2.responseSchema? entries).map Value.moved := by
  unfold Upgrade.response
  cases found : entries.find? "schema" with
  | none =>
      simp [Dialect.responseSchema?, Mapping.has, found, Mapping.field,
        Mapping.find?_eq_none plain.content]
  | some value =>
      obtain ⟨schema, rfl⟩ := plain.schema value found
      simp [Dialect.responseSchema?, Mapping.has, found, Mapping.field, Mapping.find?_append,
        Mapping.find?_without, Mapping.find?_eq_none plain.content, Upgrade.content, Upgrade.media,
        Mapping.find?_cons, Value.object?]

theorem follow_response (document : Mapping) {entries : Mapping} (plain : PlainResponse entries)
    (mediaType : String) :
    Pointer.follow (.object document) (.object (Upgrade.response mediaType entries)) =
      .ok (.object (Upgrade.response mediaType entries)) := by
  refine follow_inline ?_
  unfold Upgrade.response
  split
  · simp [Mapping.has, Mapping.find?_append, Mapping.find?_without,
      Mapping.find?_eq_none plain.inline, Upgrade.content, Mapping.find?_cons]
  · exact plain.inline

theorem selectedSchema_upgrade (plain : Plain placeholders item operation) (options : Options)
    (document document' : Mapping) (mediaType : String) :
    selectedSchema .openApi3 options document' (Upgrade.operation document mediaType operation) =
      movedResult (Option.map Value.moved)
        (selectedSchema .swagger2 options document operation) := by
  unfold selectedSchema
  rw [Upgrade.field_responses]
  cases listed : operation.field "responses" with
  | object responses =>
      simp only [mapObject, selectResponse_mapValues (isEmpty_response mediaType)]
      cases selected : selectResponse responses options.responseCodes with
      | error failure => rfl
      | ok chosen =>
          cases chosen with
          | none => rfl
          | some entry =>
              obtain ⟨own, member, rfl⟩ := List.mem_map.mp (mem_of_selectResponse selected)
              cases isObject : own.2 with
              | object entries =>
                  have isPlain := plain.responses responses listed own member entries isObject
                  have followed := follow_response document' isPlain mediaType
                  simp only [movedResult_ok, Option.map_some, mapObject, bind, Except.bind,
                    followed, follow_inline isPlain.inline, responseSchema?_upgrade isPlain]
              | _ => rfl
  | _ => rfl

theorem moves_responseType (rooted : scope.table.root = Dialect.swagger2.root)
    (plain : Plain placeholders item operation) (document document' : Mapping)
    (mediaType stem : String) :
    Moves id (responseType scope .swagger2 document operation stem)
      (responseType scope.moved .openApi3 document'
        (Upgrade.operation document mediaType operation) stem) := by
  refine (Moves.lift (selectedSchema_upgrade plain scope.options document document'
    mediaType)).bind fun schema => ?_
  cases schema with
  | none => exact .pure rfl
  | some schema => exact moves_typedResponse rooted stem schema

/-! ## Operations -/

theorem comment_upgrade (document : Mapping) (mediaType : String) :
    comment (Upgrade.operation document mediaType operation) = comment operation := by
  have summary : (Upgrade.operation document mediaType operation).field "summary" =
      operation.field "summary" :=
    Upgrade.field_operation (by decide) (by decide) (by decide) document mediaType
  have description : (Upgrade.operation document mediaType operation).field "description" =
      operation.field "description" :=
    Upgrade.field_operation (by decide) (by decide) (by decide) document mediaType
  simp only [comment, List.filterMap_cons, List.filterMap_nil, summary, description]

theorem has_mapValues (f : Value → Value) (m : Mapping) (name : String) :
    (m.mapValues f).has name = m.has name := by
  simp [Mapping.has, Mapping.find?_mapValues]

/-- An operation has the same binding in both documents. -/
theorem moves_bindingOf (rooted : scope.table.root = Dialect.swagger2.root) {path : String}
    (plain : Plain (Name.Template.placeholders path) item operation) (texts : TextKeys operation)
    {document : Mapping} (short : (consumedMedia document operation).isWritable = true)
    (document' : Mapping) (mediaType method : String) :
    Moves id (bindingOf scope .swagger2 document item operation path method)
      (bindingOf scope.moved .openApi3 document' (Upgrade.item document mediaType item)
        (Upgrade.operation document mediaType operation) path method) := by
  have shared : (Upgrade.item document mediaType item).has "parameters" = false := by
    rw [Upgrade.item, has_mapValues, plain.shared]
  have identifier : (Upgrade.operation document mediaType operation).field "operationId" =
      operation.field "operationId" :=
    Upgrade.field_operation (by decide) (by decide) (by decide) document mediaType
  unfold bindingOf
  rw [parameters_swagger2 plain texts, parameters_openApi3 plain shared document, identifier,
    comment_upgrade, filter_isBody plain, bind_lift_ok, bind_lift_ok]
  refine (moves_groupPath_filter rooted _ _ _).bind fun pathRecord => ?_
  refine (moves_groupQuery_filter rooted _ _ _).bind fun queryRecord => ?_
  have forBody : (Scope.table { scope with placement := some .body }).root =
      Dialect.swagger2.root := rooted
  refine (moves_body forBody plain short document' mediaType _).bind fun body => ?_
  have forResponse : (Scope.table { scope with placement := some .response }).root =
      Dialect.swagger2.root := rooted
  refine (moves_responseType forResponse plain document document' mediaType _).bind fun type => ?_
  have got : Moves Session.moved (get : Synthesis Session) get := fun _ => rfl
  exact got.bind fun _ => .pure rfl

end Operation

/-! ## Documents -/

namespace Upgrade

theorem field_paths (mediaType : String) (old : Mapping) :
    (document mediaType old).field "paths" =
      mapObject (Mapping.mapValues (mapObject (item old mediaType))) (old.field "paths") := by
  unfold document Mapping.field
  rw [Mapping.find?_append, Mapping.find?_adjust_self, Mapping.find?_without,
    if_neg (by decide)]
  cases old.find? "paths" <;> rfl

theorem find?_dropped {name : String} (dropped : name ∈ ["swagger", "definitions"])
    (mediaType : String) (old : Mapping) : (document mediaType old).find? name = none := by
  have apart : "paths" ≠ name ∧ "components" ≠ name := by
    constructor <;> rintro rfl <;> simp at dropped
  have removed : name ∈ ["swagger", "definitions", "components"] :=
    List.mem_append_left ["components"] dropped
  unfold document
  rw [Mapping.find?_append, Mapping.find?_adjust_of_ne _ _ apart.1, Mapping.find?_without,
    if_pos removed]
  simp [Mapping.find?_cons, apart.2]

theorem field_components (mediaType : String) (old : Mapping) :
    (document mediaType old).field "components" = .object (components old) := by
  unfold document Mapping.field
  rw [Mapping.find?_append, Mapping.find?_adjust_of_ne _ _ (by decide), Mapping.find?_without,
    if_pos (by decide)]
  rfl

/-- The document is one of the newer dialect. -/
theorem ofDocument_document (mediaType : String) (old : Mapping) :
    Dialect.ofDocument (document mediaType old) = .openApi3 := by
  have definitions : (document mediaType old).find? "definitions" = none :=
    find?_dropped (by decide) mediaType old
  have version : (document mediaType old).find? "swagger" = none :=
    find?_dropped (by decide) mediaType old
  simp [Dialect.ofDocument, Mapping.field, Mapping.has, definitions, version]

/-- Its definitions are those of the older one, moved. -/
theorem definitions_document (mediaType : String) (old : Mapping) :
    Dialect.openApi3.definitions (document mediaType old) =
      movedResult (Mapping.mapValues Value.moved) (Dialect.swagger2.definitions old) := by
  have inside : (components old).field "schemas" =
      mapObject (Mapping.mapValues Value.moved) (old.field "definitions") := rfl
  simp only [Dialect.definitions, Dialect.tableIn, field_components, bind, Except.bind, inside]
  cases old.field "definitions" with
  | object definitions => rfl
  | _ =>
      dsimp only [mapObject]
      split <;> rfl

theorem find?_operation (mediaType : String) (old : Mapping) (path method : String) :
    Operation.find? (document mediaType old) path method =
      (Operation.find? old path method).map fun found =>
        (item old mediaType found.1, operation old mediaType found.2) := by
  have located : Operation.pathItem? (document mediaType old) path =
      (Operation.pathItem? old path).map (item old mediaType) := by
    unfold Operation.pathItem?
    rw [field_paths]
    cases old.field "paths" with
    | object paths =>
        refine Eq.trans ?_ (object?_mapObject (item old mediaType) (Mapping.field paths path))
        exact congrArg Value.object? (Mapping.field_mapValues rfl paths path)
    | _ => rfl
  unfold Operation.find?
  rw [located]
  cases Operation.pathItem? old path with
  | none => rfl
  | some entries =>
      simp only [Option.map_some, bind, Option.bind_some, item]
      rw [Mapping.field_mapValues rfl, object?_mapObject]
      cases (entries.field method).object? <;> rfl

end Upgrade

namespace Binding

open Operation

/-- A document of the older dialect whose operation is written in place has the contract of the
document of the newer dialect that it can be rewritten to: the same binding and warnings, or the
same failure up to the place of the definitions. The media type that it consumes has a form in
which it can be written, as every text has. -/
theorem ofDocument_upgrade {document : Mapping} {path method : String} (mediaType : String)
    (options : Options) (lexicon : Name.Lexicon) (old : Dialect.ofDocument document = .swagger2)
    (plain : ∀ item operation,
      Operation.find? document path (String.ofList (Text.lower method.toList)) =
        some (item, operation) →
      Plain (Name.Template.placeholders path) item operation ∧ TextKeys operation ∧
        (consumedMedia document operation).isWritable = true) :
    ofDocument (.object (Upgrade.document mediaType document)) path method options lexicon =
      movedResult id (ofDocument (.object document) path method options lexicon) := by
  simp only [ofDocument, Upgrade.ofDocument_document, old, ofOperation, Upgrade.find?_operation]
  cases found : Operation.find? document path (String.ofList (Text.lower method.toList)) with
  | none => rfl
  | some located =>
      obtain ⟨item, operation⟩ := located
      obtain ⟨isPlain, texts, short⟩ := plain item operation found
      simp only [Option.map_some, Upgrade.definitions_document]
      refine movedResult_bind fun definitions => ?_
      let scope : Scope := ⟨⟨Dialect.swagger2.root, definitions⟩, options, lexicon, none⟩
      have moves := @moves_bindingOf scope item operation rfl path isPlain texts document short
        (Upgrade.document mediaType document) mediaType
        (String.ofList (Text.lower method.toList)) .empty
      have rooted : scope.moved =
          ⟨⟨Dialect.openApi3.root, definitions.mapValues Value.moved⟩, options, lexicon, none⟩ := by
        simp [scope, Scope.moved, Table.moved, Pointer.moveRef_root]
      rw [Session.moved_empty, rooted] at moves
      simp only [moves]
      exact movedResult_bind fun binding => rfl

/-- An operation with parameters in the path, the query and the body. -/
def orderOperation : Mapping := [
  (.text "operationId", .text "placeOrder"),
  (.text "parameters", .list [
    .ofFields [("name", .text "shop"), ("in", .text "path"), ("type", .text "string")],
    .ofFields [("name", .text "urgent"), ("in", .text "query"), ("type", .text "boolean")],
    .ofFields [
      ("name", .text "order"),
      ("in", .text "body"),
      ("schema", .ofFields [("$ref", .text "#/definitions/Order")])]]),
  (.text "responses", .ofFields [
    ("200", .ofFields [
      ("schema", .ofFields [
        ("type", .text "array"),
        ("items", .ofFields [("$ref", .text "#/definitions/Order")])])])])]

def orderDocument : Mapping := [
  (.text "swagger", .text "2.0"),
  (.text "definitions", .ofFields [
    ("Order", .ofFields [
      ("properties", .ofFields [("item", .ofFields [("$ref", .text "#/definitions/Item")])])]),
    ("Item", .ofFields [
      ("properties", .ofFields [("label", .ofFields [("type", .text "string")])])])]),
  (.text "paths", .ofFields [
    ("/shops/\x7bshop\x7d/orders", .ofFields [("post", .object orderOperation)])])]

theorem plain_orderOperation :
    Plain ["shop"] [(.text "post", .object orderOperation)] orderOperation where
  shared := rfl
  requestBody := rfl
  parameters := by
    intro raws listed raw member
    obtain rfl := Value.list.inj listed
    simp only [List.mem_cons, List.not_mem_nil, or_false] at member
    rcases member with rfl | rfl | rfl
    · exact ⟨_, rfl, rfl, ⟨_, rfl⟩, ⟨.path, by decide, rfl⟩, rfl, fun _ => rfl,
        fun body => absurd body (by decide)⟩
    · exact ⟨_, rfl, rfl, ⟨_, rfl⟩, ⟨.query, by decide, rfl⟩, rfl, fun _ => rfl,
        fun body => absurd body (by decide)⟩
    · exact ⟨_, rfl, Parameter.plain_body rfl rfl rfl rfl (by decide) rfl⟩
  responses := by
    intro responses listed entry member entries isObject
    obtain rfl := Value.object.inj listed
    obtain rfl := List.mem_singleton.mp member
    obtain rfl := Value.object.inj isObject
    exact ⟨rfl, rfl, fun value found => ⟨_, (Option.some.inj found).symm⟩⟩

theorem textKeys_orderOperation : TextKeys orderOperation := by
  intro raw member body schema found entry inside
  rcases List.mem_cons.mp member with rfl | member
  · exact absurd body (by decide)
  rcases List.mem_cons.mp member with rfl | member
  · exact absurd body (by decide)
  obtain rfl := List.mem_singleton.mp member
  obtain rfl := Value.object.inj found
  obtain rfl := List.mem_singleton.mp inside
  exact ⟨_, rfl⟩

theorem ofDocument_upgrade_orderDocument :
    ∃ answer,
      ofDocument (.object orderDocument) "/shops/\x7bshop\x7d/orders" "POST" {} .standard =
        .ok answer ∧
      (answer.1.map fun binding => binding.records.map (·.name)) =
        some ["PlaceOrderPathVar", "PlaceOrderQuery", "Order", "Item"] ∧
      ofDocument (.object (Upgrade.document "application/json" orderDocument))
        "/shops/\x7bshop\x7d/orders" "POST" {} .standard = .ok answer := by
  have computed :
      (ofDocument (.object orderDocument) "/shops/\x7bshop\x7d/orders" "POST" {}
        .standard).toOption.map (fun answer => answer.1.map fun binding =>
          binding.records.map (·.name)) =
      some (some ["PlaceOrderPathVar", "PlaceOrderQuery", "Order", "Item"]) := by
    decide +kernel
  have upgraded := @ofDocument_upgrade orderDocument "/shops/\x7bshop\x7d/orders" "POST"
    "application/json" {} .standard (by decide) <| by
      intro item operation found
      have reached : Operation.find? orderDocument "/shops/\x7bshop\x7d/orders" "post" =
          some ([(.text "post", .object orderOperation)], orderOperation) := rfl
      have method : String.ofList (Text.lower "POST".toList) = "post" := by decide +kernel
      rw [method, reached] at found
      obtain ⟨rfl, rfl⟩ := Prod.mk.inj (Option.some.inj found)
      have bound : Name.Template.placeholders "/shops/\x7bshop\x7d/orders" = ["shop"] := by decide
      rw [bound]
      exact ⟨plain_orderOperation, textKeys_orderOperation, rfl⟩
  cases made : ofDocument (.object orderDocument) "/shops/\x7bshop\x7d/orders" "POST" {}
      .standard with
  | error failure => simp [made, Except.toOption] at computed
  | ok answer =>
      rw [made] at upgraded
      exact ⟨answer, rfl, by simpa [made, Except.toOption] using computed, upgraded⟩

/-- An operation whose body schema has a key that is no text. -/
def numberedOperation : Mapping := [
  (.text "parameters", .list [
    .ofFields [
      ("name", .text "order"),
      ("in", .text "body"),
      ("schema", .object [(.text "type", .text "object"), (.int 1, .text "first")])]])]

def numberedDocument : Mapping := [
  (.text "swagger", .text "2.0"),
  (.text "paths", .ofFields [("/orders", .ofFields [("post", .object numberedOperation)])])]

/-- The older dialect checks the keys of a body schema, which it reads as a parameter; the newer
one does not. -/
theorem ofDocument_upgrade_numberedDocument :
    Dialect.ofDocument numberedDocument = .swagger2 ∧
      Operation.find? numberedDocument "/orders" "post" =
        some ([(.text "post", .object numberedOperation)], numberedOperation) ∧
      Plain (Name.Template.placeholders "/orders") [(.text "post", .object numberedOperation)]
        numberedOperation ∧
      (consumedMedia numberedDocument numberedOperation).isWritable = true ∧
      (∃ issues, ofDocument (.object numberedDocument) "/orders" "POST" {} .standard =
        .error (.defect (.invalid issues))) ∧
      ((ofDocument (.object (Upgrade.document "application/json" numberedDocument)) "/orders"
        "POST" {} .standard).toOption.map fun answer =>
          answer.1.map fun binding => (binding.name, binding.body.map TypeExpr.render)) =
        some (some ("postOrders", some "object")) := by
  refine ⟨by decide, rfl, ⟨rfl, ?_, ?_, rfl⟩, rfl, ⟨_, rfl⟩, by decide +kernel⟩
  · intro raws listed raw member
    obtain rfl := Value.list.inj listed
    obtain rfl := List.mem_singleton.mp member
    have unbound : "order" ∉ Name.Template.placeholders "/orders" := by decide
    exact ⟨_, rfl, Parameter.plain_body rfl rfl rfl rfl unbound rfl⟩
  · intro responses listed
    cases (listed : Value.null = .object responses)

end Binding

end ApiBinding
