import ApiBinding.Proofs.Operation.Extension
import ApiBinding.Proofs.Operation.Thinning

/-! A binding is made again, with the same warnings, in a document that keeps only some of the
parameters: all but some that are sent in headers or that are overridden. -/

namespace ApiBinding

open Value

theorem Value.eq_list_of_list? {value : Value} {items : List Value} (h : value.list? = some items) :
    value = .list items := by
  cases value <;> simp_all [Value.list?]

namespace Mapping

theorem insert_of_find? {m : Mapping} {name : String} {value : Value}
    (found : m.find? name = some value) : m.insert (.text name) value = m := by
  induction m with
  | nil => simp at found
  | cons entry rest ih =>
      obtain ⟨key, stored⟩ := entry
      rw [find?_cons] at found
      by_cases own : key.same (.text name) = true <;> simp_all [insert]

theorem insert_insert (m : Mapping) (name : String) (value other : Value) :
    (m.insert (.text name) value).insert (.text name) other = m.insert (.text name) other := by
  induction m with
  | nil => simp [insert]
  | cons entry rest ih =>
      by_cases own : entry.1.same (.text name) = true <;> simp [insert, own, ih]

end Mapping

namespace Operation

open Schema Synthesis Parameter

variable {scope : Scope} {document document' item item' operation operation' : Mapping}

/-! ## Parameters that count -/

theorem filter_counted {p : Parameter → Bool} (forms : List Parameter)
    (cleared : ∀ form, p (Parameter.cleared form) = p form)
    (needed : ∀ form, p form = true → counts form = true) :
    (counted forms).filter p = (forms.filter p).map Parameter.cleared := by
  rw [counted, List.filter_map, List.filter_filter]
  refine congrArg (List.map _) (List.filter_congr fun form _ => ?_)
  cases holds : p form <;> simp [cleared, holds, needed]

theorem counts_of_fillsPath {placeholders : List String} {form : Parameter}
    (h : fillsPath placeholders form = true) : counts form = true := by
  cases located : form.location <;> simp_all [fillsPath, counts, Location.inHeaders]

theorem groupPath_counted (stem : String) (placeholders : List String) (forms : List Parameter) :
    groupPath scope stem placeholders (counted forms) =
      groupPath scope stem placeholders forms := by
  have same : pathParameters scope.options placeholders (counted forms) =
      (pathParameters scope.options placeholders forms).map Parameter.cleared := by
    rw [← pathParameters_cleared]
    have fills := fun forms : List Parameter =>
      @filter_counted (fillsPath placeholders) forms (fun _ => rfl) fun _ => counts_of_fillsPath
    have again : (forms.map Parameter.cleared).filter (fillsPath placeholders) =
        (forms.filter (fillsPath placeholders)).map Parameter.cleared := by
      rw [List.filter_map]
      rfl
    simp only [pathParameters, fills, again]
  unfold groupPath
  rw [same, groupRecord_cleared]

theorem groupQuery_counted (stem : String) (placeholders : List String) (forms : List Parameter) :
    groupQuery scope stem placeholders (counted forms) =
      groupQuery scope stem placeholders forms := by
  unfold groupQuery queryParameters
  rw [filter_counted forms (fun _ => rfl), groupRecord_cleared]
  intro form holds
  cases located : form.location <;> simp_all [counts, Location.inHeaders]

theorem any_counted {p : Parameter → Bool} (forms : List Parameter)
    (cleared : ∀ form, p (Parameter.cleared form) = p form)
    (needed : ∀ form, p form = true → counts form = true) :
    (counted forms).any p = forms.any p := by
  rw [counted, List.any_map, List.any_filter]
  refine congrArg (List.any forms) (funext fun form => ?_)
  cases holds : p form <;> simp [cleared, holds, needed]

theorem find?_counted {p : Parameter → Bool} (forms : List Parameter)
    (cleared : ∀ form, p (Parameter.cleared form) = p form)
    (needed : ∀ form, p form = true → counts form = true) :
    (counted forms).find? p = (forms.find? p).map Parameter.cleared := by
  rw [counted, List.find?_map, List.find?_filter]
  refine congrArg (Option.map _) (congrArg (List.find? · forms) (funext fun form => ?_))
  cases holds : p form <;> simp [cleared, holds, needed]

/-- A body of the older dialect is made of parameters that count. -/
theorem swaggerBody_counted (document operation : Mapping) (stem : String)
    (placeholders : List String) (forms : List Parameter) :
    swaggerBody scope document operation stem placeholders (counted forms) =
      swaggerBody scope document operation stem placeholders forms := by
  have ofForm : ∀ form : Parameter, (form.location == .formData) = true → counts form = true := by
    intro form holds
    cases located : form.location <;> simp_all [counts, Location.inHeaders]
  have ofBody : ∀ form : Parameter,
      (form.location == .body && !placeholders.contains form.name) = true →
        counts form = true := by
    intro form holds
    cases located : form.location <;> simp_all [counts, Location.inHeaders]
  have ofEither : ∀ form : Parameter, (form.location == .formData ||
      form.location == .body && !placeholders.contains form.name) = true →
        counts form = true := by
    intro form holds
    cases located : form.location <;> simp_all [counts, Location.inHeaders]
  unfold swaggerBody
  dsimp only
  rw [any_counted forms (fun _ => rfl) ofForm, filter_counted forms (fun _ => rfl) ofEither,
    find?_counted forms (fun _ => rfl) ofBody]
  split
  · rw [formBody_cleared]
  · cases forms.find? fun form => form.location == .body && !placeholders.contains form.name with
    | none => rfl
    | some form =>
        have schema : ((Parameter.cleared form).schema.map Value.object).getD .null =
            ((form.schema.map Value.object).getD .null).cleared := by
          cases written : form.schema <;>
            simp [Parameter.cleared, written, Value.cleared, mapObject]
        simp only [Option.map_some, schema, bodyOfSchema_cleared]

/-! ## Bodies of the newer dialect -/

/-- The body that is made of the content of a request. -/
def contentBody (scope : Scope) (stem : String) (content : Option Value) :
    Synthesis (Option Body) :=
  match content with
  | some (.object ((.text mediaType, media) :: rest)) => do
    let content : Mapping := (.text mediaType, media) :: rest
    let body ← bodyOfSchema scope stem mediaType (mediaSchema media)
    match mediaType == multipartForm, content.field multipartForm with
    | false, .object multipart => do
      let files ←
        Synthesis.lift (fileFields scope.table (Mapping.field multipart "schema"))
      if files.isEmpty then return some body else return some ⟨body.type, true, files⟩
    | _, _ => return some body
  | some (.object (_ :: _)) => Synthesis.fail (.defect .mediaTypeNotText)
  | _ => return none

theorem openApiBody_eq (document operation : Mapping) (stem : String) :
    openApiBody scope document operation stem = (do
      let request ←
        Synthesis.lift (Pointer.follow (.object document) (operation.field "requestBody"))
      contentBody scope stem (request.object?.map (Mapping.field · "content"))) := by
  rfl

theorem mediaSchema_clearedUnder (key : Key) (media : Value) :
    mediaSchema (clearedUnder key media) = (mediaSchema media).cleared := by
  unfold mediaSchema
  rw [object?_clearedUnder]
  cases media.object? with
  | none => rfl
  | some entries => exact Mapping.field_cleared entries _ (by decide)

theorem contentBody_cleared (stem : String) (content : Option Value) :
    contentBody scope stem (content.map Value.cleared) = contentBody scope stem content := by
  rcases content with _ | content
  · rfl
  · cases content with
    | object entries =>
        rcases entries with _ | ⟨⟨key, media⟩, rest⟩
        · rfl
        · cases key with
          | text mediaType =>
              have multipart : Mapping.field ((.text mediaType,
                  clearedUnder (.text mediaType) media) :: clearedEntries rest) multipartForm =
                  (Mapping.field ((.text mediaType, media) :: rest) multipartForm).cleared :=
                Mapping.field_cleared ((.text mediaType, media) :: rest) _ (by decide)
              simp only [Option.map_some, cleared_object, clearedEntries, contentBody,
                mediaSchema_clearedUnder, bodyOfSchema_cleared, multipart]
              refine bind_congr fun body => ?_
              cases mediaType == multipartForm with
              | true => rfl
              | false =>
                  cases Mapping.field ((.text mediaType, media) :: rest) multipartForm with
                  | object form =>
                      have schema := Mapping.field_cleared form "schema" (by decide)
                      simp only [cleared_object, schema, fileFields_cleared]
                  | _ => rfl
          | _ => rfl
    | _ => rfl

/-- What a request leads to in the other document has the same content up to parameter lists. -/
theorem contentBody_alike {request request' : Value} (alike : Alike request request')
    (stem : String) :
    contentBody scope stem (request'.object?.map (Mapping.field · "content")) =
      contentBody scope stem (request.object?.map (Mapping.field · "content")) := by
  have content : ∀ value : Value,
      (value.object?.map (Mapping.field · "content")).map Value.cleared =
        (value.object?.map clearedEntries).map (Mapping.field · "content") := by
    intro value
    cases value.object? with
    | none => rfl
    | some entries => exact congrArg some (Mapping.field_cleared entries _ (by decide)).symm
  rw [← contentBody_cleared, content, alike.object?, ← content, contentBody_cleared]

/-! ## Responses -/

/-- The response that is made of a schema. -/
def typedResponse (scope : Scope) (stem : String) (schema : Option Value) :
    Synthesis (Option TypeExpr) :=
  match schema with
  | none => pure none
  | some schema =>
    match if scope.options.promoteInlineResponse then inlineObject? schema else none with
    | some entries => return some (← Synthesis.declareRecord scope (stem ++ "Response") entries)
    | none => return some (← Synthesis.printedType scope schema)

theorem responseType_eq (dialect : Dialect) (document operation : Mapping) (stem : String) :
    responseType scope dialect document operation stem = (do
      let schema ← Synthesis.lift (selectedSchema dialect scope.options document operation)
      typedResponse scope stem schema) := by
  rfl

theorem typedResponse_option_cleared (stem : String) (schema : Option Value) :
    typedResponse scope stem (schema.map Value.cleared) = typedResponse scope stem schema := by
  cases schema with
  | none => rfl
  | some schema => exact typedResponse_cleared stem schema

/-- The selected response has the same schema up to parameter lists. -/
theorem selectedSchema_follows {dialect : Dialect} {options : Options} {schema : Option Value}
    (responses : operation'.field "responses" = operation.field "responses")
    (follows : Follows document document'
      (((operation.field "responses").object?.getD []).map (·.2)))
    (success : selectedSchema dialect options document operation = .ok schema) :
    ∃ schema', selectedSchema dialect options document' operation' = .ok schema' ∧
      schema'.map Value.cleared = schema.map Value.cleared := by
  unfold selectedSchema at success ⊢
  rw [responses]
  split at success
  · rename_i entries isObject
    cases selected : selectResponse entries options.responseCodes with
    | error failure => simp [selected, bind, Except.bind] at success
    | ok chosen =>
        cases chosen with
        | none =>
            obtain rfl : none = schema := by simpa [selected, bind, Except.bind] using success
            exact ⟨none, rfl, rfl⟩
        | some entry =>
            cases followed : Pointer.follow (.object document) entry with
            | error failure => simp [selected, followed, bind, Except.bind] at success
            | ok target =>
                have member :
                    entry ∈ ((operation.field "responses").object?.getD []).map (·.2) := by
                  simpa [isObject, Value.object?] using mem_of_selectResponse selected
                obtain ⟨target', followed', alike⟩ := follows entry member target followed
                simp only [selected, followed, followed', bind, Except.bind] at success ⊢
                rcases alike.object_or_none with ⟨response, response', rfl, rfl, same⟩ | ⟨no, no'⟩
                · obtain rfl := Except.ok.inj success
                  refine ⟨_, rfl, ?_⟩
                  rw [← responseSchema?_cleared, same, responseSchema?_cleared]
                · obtain rfl : none = schema := by cases target <;> simp_all [Value.object?]
                  exact ⟨none, by cases target' <;> simp_all [Value.object?], rfl⟩
  · obtain rfl := Except.ok.inj success
    exact ⟨none, rfl, rfl⟩

/-! ## Bindings -/

/-- A second document, whose path and operation keep only some of their parameters. -/
structure Thinned (document document' item item' operation operation' : Mapping)
    (keepShared keepOwn : Value → Bool) : Prop where
  shared : listed item' = (listed item).filter keepShared
  own : listed operation' = (listed operation).filter keepOwn
  others : ∀ key, key ≠ "parameters" → operation'.field key = operation.field key
  consumes : document'.field "consumes" = document.field "consumes"
  follows : Follows document document' (anchors item operation)

namespace Thinned

variable {keepShared keepOwn : Value → Bool} {dialect : Dialect}

theorem comment_eq (thinned : Thinned document document' item item' operation operation'
    keepShared keepOwn) : comment operation' = comment operation := by
  simp only [comment, List.filterMap_cons, List.filterMap_nil,
    thinned.others "summary" (by decide), thinned.others "description" (by decide)]

theorem consumedMedia_eq (thinned : Thinned document document' item item' operation operation'
    keepShared keepOwn) :
    consumedMedia document' operation' = consumedMedia document operation := by
  simp only [consumedMedia, thinned.others "consumes" (by decide), thinned.consumes]

theorem carries_body (thinned : Thinned document document' item item' operation operation'
      keepShared keepOwn) (stem : String) (placeholders : List String)
    {forms forms' : List Parameter} (same : counted forms' = counted forms) :
    Carries (body scope dialect document operation stem placeholders forms)
      (body scope dialect document' operation' stem placeholders forms') := by
  cases dialect with
  | swagger2 =>
      have same' : swaggerBody scope document' operation' stem placeholders forms' =
          swaggerBody scope document operation stem placeholders forms := by
        rw [← swaggerBody_counted, same, swaggerBody_counted]
        simp only [swaggerBody, thinned.consumedMedia_eq]
      simp only [Operation.body, same']
      exact .refl _
  | openApi3 =>
      intro session value after success
      simp only [body, openApiBody_eq] at success ⊢
      obtain ⟨middle, request, hrequest, hrest⟩ := outcome_bind_eq_ok success
      obtain ⟨followed, rfl⟩ := Prod.mk.inj hrequest
      obtain ⟨request', followed', alike⟩ :=
        thinned.follows _ (by simp [anchors]) request followed
      rw [thinned.others "requestBody" (by decide), followed']
      change outcome (contentBody scope stem _) session = _
      rw [contentBody_alike alike]
      exact hrest

theorem carries_responseType (thinned : Thinned document document' item item' operation operation'
      keepShared keepOwn) (stem : String) :
    Carries (responseType scope dialect document operation stem)
      (responseType scope dialect document' operation' stem) := by
  intro session value after success
  simp only [responseType_eq] at success ⊢
  obtain ⟨middle, schema, hschema, hrest⟩ := outcome_bind_eq_ok success
  obtain ⟨selected, rfl⟩ := Prod.mk.inj hschema
  have follows : Follows document document'
      (((operation.field "responses").object?.getD []).map (·.2)) := fun entry member =>
    thinned.follows entry (List.mem_append_right _ (List.mem_cons_of_mem _ member))
  obtain ⟨schema', selected', same⟩ :=
    selectedSchema_follows (thinned.others "responses" (by decide)) follows selected
  rw [selected']
  change outcome (typedResponse scope stem schema') session = _
  rw [← typedResponse_option_cleared, same, typedResponse_option_cleared]
  exact hrest

/-- The binding of an operation is made again, with the same session. -/
theorem carries_bindingOf (thinned : Thinned document document' item item' operation operation'
      keepShared keepOwn)
    (thinning : Thinning dialect document item operation keepShared keepOwn)
    (path method : String) :
    Carries (bindingOf scope dialect document item operation path method)
      (bindingOf scope dialect document' item' operation' path method) := by
  intro session binding after success
  unfold bindingOf at success ⊢
  dsimp only at success ⊢
  obtain ⟨_, forms, hnormal, h⟩ := outcome_bind_eq_ok success
  obtain ⟨normal, rfl⟩ := Prod.mk.inj hnormal
  have ofItem : Follows document document' (listed item) := fun entry member =>
    thinned.follows entry (List.mem_append_left _ (List.mem_append_left _ member))
  have ofOperation : Follows document document' (listed operation) := fun entry member =>
    thinned.follows entry (List.mem_append_left _ (List.mem_append_right _ member))
  obtain ⟨forms', normal', same⟩ :=
    parameters_thinned thinning ofItem ofOperation thinned.shared thinned.own normal
  have path' : ∀ stem placeholders, groupPath scope stem placeholders forms' =
      groupPath scope stem placeholders forms := by
    intro stem placeholders
    rw [← groupPath_counted, same, groupPath_counted]
  have query' : ∀ stem placeholders, groupQuery scope stem placeholders forms' =
      groupQuery scope stem placeholders forms := by
    intro stem placeholders
    rw [← groupQuery_counted, same, groupQuery_counted]
  have read : outcome (Synthesis.lift (parameters dialect document' item' operation')) session =
      (.ok forms', session) := by simp [normal']
  rw [outcome_bind_of_ok _ read, thinned.others "operationId" (by decide), thinned.comment_eq,
    path', query']
  refine (?_ : Carries _ _) h
  refine (Carries.refl _).bind fun pathRecord => (Carries.refl _).bind fun queryRecord => ?_
  refine (thinned.carries_body _ _ same).bind fun body => ?_
  exact (thinned.carries_responseType _).bind fun _ => .refl _

end Thinned

/-! ## Documents -/

/-- A path or an operation that keeps only some of its parameters. -/
def keepListed (keep : Value → Bool) (parent : Mapping) : Mapping :=
  match parent.field "parameters" with
  | .list items => parent.insert (.text "parameters") (.list (items.filter keep))
  | _ => parent

/-- The document in which a path and one of its operations keep only some of their parameters. -/
def keepParameters (document : Mapping) (path method : String) (keepShared keepOwn : Value → Bool) :
    Mapping :=
  match find? document path method with
  | none => document
  | some (item, operation) =>
    let paths := (document.field "paths").object?.getD []
    let item := item.insert (.text method) (.object (keepListed keepOwn operation))
    document.insert (.text "paths")
      (.object (paths.insert (.text path) (.object (keepListed keepShared item))))

variable {keep : Value → Bool} {parent : Mapping}

theorem field_keepListed {key : String} (other : key ≠ "parameters") :
    (keepListed keep parent).field key = parent.field key := by
  unfold keepListed
  split
  · exact Mapping.field_insert_of_ne _ _ (Ne.symm other)
  · rfl

theorem list?_keepListed :
    ((keepListed keep parent).field "parameters").list? =
      (parent.field "parameters").list?.map (List.filter keep) := by
  unfold keepListed
  cases own : parent.field "parameters" with
  | list items => simp [Mapping.field_insert_self, Value.list?]
  | _ => simp [own, Value.list?]

theorem listed_keepListed : listed (keepListed keep parent) = (listed parent).filter keep := by
  unfold listed
  rw [list?_keepListed]
  cases (parent.field "parameters").list? <;> rfl

/-- A list of parameters is replaced by what is kept of it. -/
theorem replaced_keepListed {items : List Value} (own : parent.field "parameters" = .list items) :
    Value.Replaced (.list items) (.list (items.filter keep)) ["parameters"] (.object parent)
      (.object (keepListed keep parent)) := by
  unfold keepListed
  rw [own]
  exact .under (Mapping.find?_of_field own (by simp)) .here

theorem keepListed_eq_self (own : (parent.field "parameters").list? = none) :
    keepListed keep parent = parent := by
  unfold keepListed
  cases other : parent.field "parameters" with
  | list items => simp [other, Value.list?] at own
  | _ => rfl

/-- Where an operation stands in its document. -/
theorem place_of_find? {path method : String}
    (found : find? document path method = some (item, operation)) :
    ∃ paths : Mapping, document.find? "paths" = some (.object paths) ∧
      paths.find? path = some (.object item) ∧ item.find? method = some (.object operation) := by
  obtain ⟨own, ofPath, h⟩ := Option.bind_eq_some_iff.mp found
  obtain ⟨target, isObject, h⟩ := Option.bind_eq_some_iff.mp h
  obtain ⟨rfl, rfl⟩ := Prod.mk.inj (Option.some.inj h)
  obtain ⟨value, inPaths, isItem⟩ := Option.bind_eq_some_iff.mp ofPath
  obtain ⟨paths, arePaths, rfl⟩ := Option.map_eq_some_iff.mp inPaths
  exact ⟨paths, Mapping.find?_of_field (Value.eq_object_of_object? arePaths) (by simp),
    Mapping.find?_of_field (Value.eq_object_of_object? isItem) (by simp),
    Mapping.find?_of_field (Value.eq_object_of_object? isObject) (by simp)⟩

/-- A document with another path item under a path. -/
theorem find?_withItem (document paths item : Mapping) (path method : String) :
    find? (document.insert (.text "paths") (.object (paths.insert (.text path) (.object item))))
      path method = (item.field method).object?.map ((item, ·)) := by
  simp only [find?, pathItem?, Mapping.field_insert_self, Value.object?, Option.map_some,
    Option.bind_eq_bind, Option.bind_some]
  cases item.field method <;> rfl

/-- References that point at none of the parameters of a path and of one of its operations. -/
def AvoidsParameters (item operation : Mapping) (path method : String) (ref : String) : Prop :=
  ((item.field "parameters").list?.isSome = true →
    ¬ Pointer.PointsInto ["paths", path, "parameters"] ref) ∧
  ((operation.field "parameters").list?.isSome = true →
    ¬ Pointer.PointsInto ["paths", path, method, "parameters"] ref)

/-- The operations of a document say nothing about its dialect. -/
theorem ofDocument_insert_paths (document : Mapping) (value : Value) :
    Dialect.ofDocument (document.insert (.text "paths") value) = Dialect.ofDocument document := by
  have other : "paths" ≠ "definitions" := by decide
  have apart : "paths" ≠ "swagger" := by decide
  simp only [Dialect.ofDocument, Mapping.has, Mapping.field_insert_of_ne _ _ other,
    Mapping.find?_insert_of_ne _ _ apart]
  rfl

theorem definitions_insert_paths (dialect : Dialect) (document : Mapping) (value : Value) :
    dialect.definitions (document.insert (.text "paths") value) =
      dialect.definitions document := by
  have other : "paths" ≠ "definitions" := by decide
  have apart : "paths" ≠ "components" := by decide
  cases dialect <;>
    simp only [Dialect.definitions, Dialect.tableIn, Mapping.field_insert_of_ne _ _ other,
      Mapping.field_insert_of_ne _ _ apart]

section

variable {path method : String} {keepShared keepOwn : Value → Bool}
  (found : find? document path method = some (item, operation))
include found

/-- The path with its operation changed lists the same parameters. -/
theorem list?_insert_operation (other : Mapping) :
    ((item.insert (.text method) (.object other)).field "parameters").list? =
      (item.field "parameters").list? := by
  obtain ⟨paths, -, -, own⟩ := place_of_find? found
  by_cases same : method = "parameters"
  · subst same
    simp [Mapping.field, own, Value.list?]
  · rw [Mapping.field_insert_of_ne _ _ same]

theorem keepParameters_eq {paths : Mapping}
    (inDocument : document.find? "paths" = some (.object paths)) :
    keepParameters document path method keepShared keepOwn =
      document.insert (.text "paths") (.object (paths.insert (.text path)
        (.object (keepListed keepShared
          (item.insert (.text method) (.object (keepListed keepOwn operation))))))) := by
  simp only [keepParameters, found, Mapping.field, inDocument, Option.getD_some, Value.object?]

theorem find?_keepParameters :
    find? (keepParameters document path method keepShared keepOwn) path method =
      some (keepListed keepShared
        (item.insert (.text method) (.object (keepListed keepOwn operation))),
        keepListed keepOwn operation) := by
  obtain ⟨paths, inDocument, -, -⟩ := place_of_find? found
  have ofMethod : (keepListed keepShared (item.insert (.text method)
      (.object (keepListed keepOwn operation)))).field method =
        .object (keepListed keepOwn operation) := by
    by_cases same : method = "parameters"
    · subst same
      rw [keepListed_eq_self (by simp [Mapping.field_insert_self, Value.list?]),
        Mapping.field_insert_self]
    · rw [field_keepListed same, Mapping.field_insert_self]
  rw [keepParameters_eq found inDocument, find?_withItem, ofMethod]
  rfl

theorem field_keepParameters {key : String} (other : key ≠ "paths") :
    (keepParameters document path method keepShared keepOwn).field key = document.field key := by
  obtain ⟨paths, inDocument, -, -⟩ := place_of_find? found
  rw [keepParameters_eq found inDocument, Mapping.field_insert_of_ne _ _ (Ne.symm other)]

theorem ofDocument_keepParameters :
    Dialect.ofDocument (keepParameters document path method keepShared keepOwn) =
      Dialect.ofDocument document := by
  obtain ⟨paths, inDocument, -, -⟩ := place_of_find? found
  rw [keepParameters_eq found inDocument, ofDocument_insert_paths]

theorem definitions_keepParameters (dialect : Dialect) :
    dialect.definitions (keepParameters document path method keepShared keepOwn) =
      dialect.definitions document := by
  obtain ⟨paths, inDocument, -, -⟩ := place_of_find? found
  rw [keepParameters_eq found inDocument, definitions_insert_paths]

/-- The lists are replaced one after the other, that of the operation first. -/
theorem agree_keepParameters :
    Pointer.Agree (AvoidsParameters item operation path method) (.object document)
      (.object (keepParameters document path method keepShared keepOwn)) := by
  obtain ⟨paths, inDocument, inPaths, own⟩ := place_of_find? found
  let changed := item.insert (.text method) (.object (keepListed keepOwn operation))
  let middle :=
    document.insert (.text "paths") (.object (paths.insert (.text path) (.object changed)))
  have first : Pointer.Agree (AvoidsParameters item operation path method) (.object document)
      (.object middle) := by
    cases ofOperation : (operation.field "parameters").list? with
    | none =>
        have same : middle = document := by
          simp only [middle, changed, keepListed_eq_self ofOperation, Mapping.insert_of_find? own,
            Mapping.insert_of_find? inPaths, Mapping.insert_of_find? inDocument]
        rw [same]
        exact .refl _ _
    | some items =>
        have isList := Value.eq_list_of_list? ofOperation
        refine (Pointer.agree_replaced (.under inDocument (.under inPaths (.under own
          (replaced_keepListed isList)))) (by simp)).mono fun ref avoids => avoids.2 ?_
        simp [ofOperation]
  have second : Pointer.Agree (AvoidsParameters item operation path method) (.object middle)
      (.object (keepParameters document path method keepShared keepOwn)) := by
    rw [keepParameters_eq found inDocument]
    have listed := list?_insert_operation found (keepListed keepOwn operation)
    cases ofItem : (changed.field "parameters").list? with
    | none =>
        rw [keepListed_eq_self ofItem]
        exact .refl _ _
    | some items =>
        have inMiddle : middle.find? "paths" = some (.object (paths.insert (.text path)
            (.object changed))) := Mapping.find?_insert_self _ _ _
        have replaced := Value.Replaced.under inMiddle (.under (Mapping.find?_insert_self _ _ _)
          (@replaced_keepListed keepShared _ _ (Value.eq_list_of_list? ofItem)))
        rw [Mapping.insert_insert, Mapping.insert_insert] at replaced
        refine (Pointer.agree_replaced replaced (by simp)).mono fun ref avoids => avoids.1 ?_
        rw [← listed, ofItem]
        rfl
  exact first.trans second

theorem thinned_keepParameters
    (avoids : ∀ node ∈ anchors item operation, ∀ ref, Pointer.Meets (.object document) node ref →
      AvoidsParameters item operation path method ref) :
    Thinned document (keepParameters document path method keepShared keepOwn) item
      (keepListed keepShared (item.insert (.text method) (.object (keepListed keepOwn operation))))
      operation (keepListed keepOwn operation) keepShared keepOwn where
  shared := by
    rw [listed_keepListed, listed, list?_insert_operation found]
    rfl
  own := listed_keepListed
  others _ other := field_keepListed other
  consumes := field_keepParameters found (by decide)
  follows entry member _ followed :=
    Pointer.follow_agree (agree_keepParameters found) (avoids entry member) followed

end

end Operation

/-- A binding that was made is made again, with the same warnings, without parameters that are
sent in headers or that are overridden. -/
theorem Binding.ofOperation_keepParameters {dialect : Dialect} {document item operation : Mapping}
    {path method : String} {options : Options} {lexicon : Name.Lexicon}
    {keepShared keepOwn : Value → Bool} {answer : Option (Binding TypeExpr) × List Warning}
    (found : Operation.find? document path method = some (item, operation))
    (thinning : Operation.Thinning dialect document item operation keepShared keepOwn)
    (avoids : ∀ node ∈ Operation.anchors item operation, ∀ ref,
      Pointer.Meets (.object document) node ref →
        Operation.AvoidsParameters item operation path method ref)
    (h : ofOperation dialect document path method options lexicon = .ok answer) :
    ofOperation dialect (Operation.keepParameters document path method keepShared keepOwn) path
      method options lexicon = .ok answer := by
  have thinned := @Operation.thinned_keepParameters _ _ _ _ _ keepShared keepOwn found avoids
  unfold ofOperation at h ⊢
  rw [Operation.find?_keepParameters found]
  simp only [found, Operation.definitions_keepParameters found] at h ⊢
  cases defined : dialect.definitions document with
  | error failure => simp [defined, bind, Except.bind] at h
  | ok definitions =>
      simp only [defined, bind, Except.bind] at h ⊢
      cases made : (Operation.bindingOf ⟨⟨dialect.root, definitions⟩, options, lexicon, none⟩
          dialect document item operation path method).outcome .empty with
      | mk result session =>
          cases result with
          | error failure => simp [made] at h
          | ok binding =>
              have made' := thinned.carries_bindingOf thinning path method made
              simpa only [made, made'] using h

end ApiBinding
