import ApiBinding.Operation.Binding
import ApiBinding.Proofs.Outcome
import ApiBinding.Proofs.Reference.Extension
import ApiBinding.Proofs.Synthesis.Extension
import ApiBinding.Validation.Writer

/-! A binding depends only on the definitions that it resolves: the definition table of the
document may get more definitions, and its definitions another order, and the binding and the
warnings stay as they are. -/

namespace ApiBinding

/-! ## Documents -/

namespace Dialect

/-- The keys that lead to the definition table of a document. -/
def tablePath : Dialect → List String
  | .swagger2 => ["definitions"]
  | .openApi3 => ["components", "schemas"]

/-- The definition table of a document that has one. -/
def table? (dialect : Dialect) (document : Mapping) : Option Mapping :=
  match dialect with
  | .swagger2 => (document.field "definitions").object?
  | .openApi3 =>
    (document.field "components").object?.bind fun components =>
      (components.field "schemas").object?

/-- A document with another definition table. -/
def withTable (dialect : Dialect) (document table : Mapping) : Mapping :=
  match dialect with
  | .swagger2 => document.insert (.text "definitions") (.object table)
  | .openApi3 =>
    let components := (document.field "components").object?.getD []
    document.insert (.text "components")
      (.object (components.insert (.text "schemas") (.object table)))

end Dialect

theorem Mapping.field_insert_self (m : Mapping) (name : String) (value : Value) :
    (m.insert (.text name) value).field name = value := by
  simp [Mapping.field]

theorem Mapping.field_insert_of_ne (m : Mapping) {name other : String} (value : Value)
    (h : name ≠ other) : (m.insert (.text name) value).field other = m.field other := by
  rw [Mapping.field, Mapping.field, Mapping.find?_insert_of_ne m value h]

namespace Dialect

variable {dialect : Dialect} {document table wide : Mapping}

/-- Where the table of a document stands. -/
theorem table?_openApi3 (h : table? .openApi3 document = some table) :
    ∃ components : Mapping, document.field "components" = .object components ∧
      components.field "schemas" = .object table := by
  obtain ⟨components, isObject, isTable⟩ := Option.bind_eq_some_iff.mp h
  exact ⟨components, Value.eq_object_of_object? isObject, Value.eq_object_of_object? isTable⟩

theorem replaced_withTable (has : dialect.table? document = some table) (wide : Mapping) :
    Value.Replaced (.object table) (.object wide) dialect.tablePath (.object document)
      (.object (dialect.withTable document wide)) := by
  cases dialect with
  | swagger2 =>
      have found := Mapping.find?_of_field (Value.eq_object_of_object? has) (by simp)
      exact .under found .here
  | openApi3 =>
      obtain ⟨components, inDocument, inComponents⟩ := table?_openApi3 has
      have inner := Mapping.find?_of_field inComponents (by simp)
      simp only [withTable, inDocument, Value.object?, Option.getD_some]
      exact .under (Mapping.find?_of_field inDocument (by simp)) (.under inner .here)

theorem definitions_eq (has : dialect.table? document = some table) :
    dialect.definitions document = .ok table := by
  cases dialect with
  | swagger2 => simp [definitions, tableIn, Value.eq_object_of_object? has]
  | openApi3 =>
      obtain ⟨components, inDocument, inComponents⟩ := table?_openApi3 has
      simp [definitions, tableIn, inDocument, inComponents, bind, Except.bind]

theorem definitions_withTable (dialect : Dialect) (document wide : Mapping) :
    dialect.definitions (dialect.withTable document wide) = .ok wide := by
  cases dialect <;>
    simp [definitions, withTable, tableIn, Mapping.field_insert_self, bind, Except.bind]

/-- The table stands under one of two keys of the document; all other keys stay as they are. -/
theorem field_withTable {key : String} (definitions : "definitions" ≠ key)
    (components : "components" ≠ key) :
    (dialect.withTable document wide).field key = document.field key := by
  cases dialect with
  | swagger2 => exact Mapping.field_insert_of_ne _ _ definitions
  | openApi3 => exact Mapping.field_insert_of_ne _ _ components

theorem find?_withTable (path method : String) :
    Operation.find? (dialect.withTable document wide) path method =
      Operation.find? document path method := by
  have paths : (dialect.withTable document wide).field "paths" = document.field "paths" :=
    field_withTable (by decide) (by decide)
  simp only [Operation.find?, Operation.pathItem?, paths]

theorem ofDocument_withTable (document wide : Mapping) :
    ofDocument ((ofDocument document).withTable document wide) = ofDocument document := by
  cases found : ofDocument document with
  | swagger2 => simp [ofDocument, withTable, Mapping.field_insert_self]
  | openApi3 =>
      have other : "components" ≠ "definitions" := by decide
      have apart : "components" ≠ "swagger" := by decide
      refine Eq.trans ?_ found
      simp only [ofDocument, withTable, Mapping.field_insert_of_ne _ _ other, Mapping.has,
        Mapping.find?_insert_of_ne _ _ apart]
      rfl

end Dialect

namespace Operation

open Synthesis Schema

/-- The nodes of an operation and its path that may refer to any place in the document. -/
def anchors (item operation : Mapping) : List Value :=
  (item.field "parameters").list?.getD [] ++ (operation.field "parameters").list?.getD [] ++
    operation.field "requestBody" :: ((operation.field "responses").object?.getD []).map (·.2)

/-- No reference that is followed from a parameter, the request body or a response points at the
definition table itself. -/
def AvoidsTable (dialect : Dialect) (document item operation : Mapping) : Prop :=
  ∀ node ∈ anchors item operation, ∀ ref, Pointer.Meets (.object document) node ref →
    Pointer.pathOf? ref ≠ some dialect.tablePath

section Extension

variable {scope : Scope} {wide : Table}

/-! ## Records of parameters -/

theorem carries_parameterField (extension : scope.table.Extends wide) (owner : String)
    (parameter : Parameter) :
    Carries (parameterField scope owner parameter)
      (parameterField (scope.withTable wide) owner parameter) := by
  unfold parameterField
  split
  · split
    · exact (carries_printedType extension _).bind fun _ => .refl _
    · exact .refl _
  · exact .refl _

theorem carries_parameterFields (extension : scope.table.Extends wide) (owner : String)
    (parameters : List Parameter) :
    Carries (parameterFields scope owner parameters)
      (parameterFields (scope.withTable wide) owner parameters) := by
  induction parameters with
  | nil => exact .refl _
  | cons parameter rest ih =>
      exact (carries_parameterField extension owner parameter).bind fun _ =>
        ih.bind fun _ => .refl _

theorem carries_groupRecord (extension : scope.table.Extends wide) (name : String)
    (parameters : List Parameter) :
    Carries (groupRecord scope name parameters)
      (groupRecord (scope.withTable wide) name parameters) :=
  (carries_parameterFields extension name parameters).bind fun _ => .refl _

theorem carries_groupPath (extension : scope.table.Extends wide) (stem : String)
    (placeholders : List String) (parameters : List Parameter) :
    Carries (groupPath scope stem placeholders parameters)
      (groupPath (scope.withTable wide) stem placeholders parameters) := by
  have placed : Scope.table { scope with placement := some .path } |>.Extends wide := extension
  exact carries_groupRecord placed _ _

theorem carries_groupQuery (extension : scope.table.Extends wide) (stem : String)
    (placeholders : List String) (parameters : List Parameter) :
    Carries (groupQuery scope stem placeholders parameters)
      (groupQuery (scope.withTable wide) stem placeholders parameters) := by
  have placed : Scope.table { scope with placement := some .body } |>.Extends wide := extension
  exact carries_groupRecord placed _ _

/-! ## Bodies and responses -/

theorem kept_fileFields {table : Table} (extension : table.Extends wide) (schema : Value) :
    Kept (fileFields table schema) (fileFields wide schema) := by
  unfold fileFields
  split
  · dsimp only
    split
    · refine (kept_resolve extension _).bind fun target => ?_
      exact (kept_flatten extension target).bind fun _ => .refl _
    · refine (Kept.refl _).bind fun target => ?_
      exact (kept_flatten extension target).bind fun _ => .refl _
  · exact .refl _

theorem carries_typedBody (extension : scope.table.Extends wide) (stem mediaType : String)
    (schema : Value) (files : List FileField) :
    Carries
      (do
        let type ←
          match inlineObject? schema with
          | some entries => do
            let marked ← Synthesis.lift (markFiles entries files)
            Synthesis.declareRecord scope (stem ++ "Body") marked
          | none => Synthesis.printedType scope schema
        pure (Body.mk (some type) (isForm mediaType || !files.isEmpty) files))
      (do
        let type ←
          match inlineObject? schema with
          | some entries => do
            let marked ← Synthesis.lift (markFiles entries files)
            Synthesis.declareRecord (scope.withTable wide) (stem ++ "Body") marked
          | none => Synthesis.printedType (scope.withTable wide) schema
        pure (Body.mk (some type) (isForm mediaType || !files.isEmpty) files)) := by
  dsimp only
  split
  · refine (Carries.refl _).bind fun marked => ?_
    exact (carries_declareRecord extension _ marked).bind fun _ => .refl _
  · exact (carries_printedType extension schema).bind fun _ => .refl _

theorem carries_bodyOfSchema (extension : scope.table.Extends wide) (stem mediaType : String)
    (schema : Value) :
    Carries (bodyOfSchema scope stem mediaType schema)
      (bodyOfSchema (scope.withTable wide) stem mediaType schema) := by
  unfold bodyOfSchema
  dsimp only
  split
  · have scanned : Carries _ _ := .lift (kept_fileFields extension schema)
    exact scanned.bind (carries_typedBody extension stem mediaType schema)
  · exact carries_typedBody extension stem mediaType schema []

theorem carries_formBody (extension : scope.table.Extends wide) (stem : String)
    (parameters : List Parameter) :
    Carries (formBody scope stem parameters) (formBody (scope.withTable wide) stem parameters) :=
  (Carries.refl _).bind fun _ => (carries_groupRecord extension _ _).bind fun _ => .refl _

/-- What is followed from a node in one document is followed in the other, up to a table. -/
def FollowedIn (document other : Mapping) (node : Value) : Prop :=
  ∀ ⦃value⦄, Pointer.follow (.object document) node = .ok value →
    ∃ value', Pointer.follow (.object other) node = .ok value' ∧
      Value.DifferAt "schemas" value value'

/-- The keys that are read of a parameter, a request body or a response. -/
def readKeys : List String :=
  ["$ref", "name", "in", "required", "description", "schema", "content"] ++ Dialect.inlineKeys

theorem field_differ {value value' : Value} (h : Value.DifferOutside readKeys value value')
    {key : String} (read : key ∈ readKeys) :
    value'.object?.map (Mapping.field · key) = value.object?.map (Mapping.field · key) := by
  cases h with
  | same _ => rfl
  | entry entries inner unread =>
      have other := (ne_of_mem_of_not_mem read unread).symm
      simp [Value.object?, Mapping.field_insert_of_ne entries inner other]

theorem carries_swaggerBody (extension : scope.table.Extends wide) {document other : Mapping}
    (consumes : other.field "consumes" = document.field "consumes") (operation : Mapping)
    (stem : String) (placeholders : List String) (parameters : List Parameter) :
    Carries (swaggerBody scope document operation stem placeholders parameters)
      (swaggerBody (scope.withTable wide) other operation stem placeholders parameters) := by
  unfold swaggerBody
  dsimp only
  split
  · exact (carries_formBody extension _ _).bind fun _ => .refl _
  · split
    · exact .refl _
    · rw [consumedMedia, consumedMedia, consumes]
      exact (Carries.refl _).bind fun _ =>
        (carries_bodyOfSchema extension _ _ _).bind fun _ => .refl _

theorem carries_openApiBody (extension : scope.table.Extends wide) {document other : Mapping}
    (operation : Mapping) (alike : FollowedIn document other (operation.field "requestBody"))
    (stem : String) :
    Carries (openApiBody scope document operation stem)
      (openApiBody (scope.withTable wide) other operation stem) := by
  intro session value after success
  obtain ⟨middle, request, hrequest, hrest⟩ := outcome_bind_eq_ok success
  obtain ⟨followed, rfl⟩ := Prod.mk.inj hrequest
  obtain ⟨request', followed', differ⟩ := alike followed
  have first : outcome (Synthesis.lift
      (Pointer.follow (.object other) (operation.field "requestBody"))) session =
      (.ok request', session) := by simp [followed']
  rw [openApiBody, outcome_bind_of_ok _ first,
    field_differ (differ.outside (by decide)) (by decide)]
  refine (?_ : Carries _ _) hrest
  split
  · dsimp only
    refine (carries_bodyOfSchema extension _ _ _).bind ?_
    intro body
    split
    · exact (Carries.lift (kept_fileFields extension _)).bind fun _ => .refl _
    · exact .refl _
  · exact .refl _
  · exact .refl _

theorem mem_of_get? {responses : Mapping} {key : Key} {entry : Value}
    (h : (responses.get? key).getD .null = entry) (present : entry.isTruthy = true) :
    entry ∈ responses.map (·.2) := by
  cases found : responses.get? key with
  | none =>
      obtain rfl : Value.null = entry := by simpa [found] using h
      simp [Value.isTruthy] at present
  | some value =>
      obtain rfl : value = entry := by simpa [found] using h
      obtain ⟨own, member⟩ := Mapping.mem_of_get? found
      exact List.mem_map_of_mem member

theorem mem_of_responseEntry {responses : Mapping} {code : String} {entry : Value}
    (h : responseEntry responses code = .ok entry) (present : entry.isTruthy = true) :
    entry ∈ responses.map (·.2) := by
  unfold responseEntry at h
  split at h
  · split at h
    · split at h
      · exact mem_of_get? (Except.ok.inj h) present
      · simp at h
    · obtain rfl := Except.ok.inj h
      simp [Value.isTruthy] at present
  · exact mem_of_get? (Except.ok.inj h) present

/-- The selected response is one of the responses. -/
theorem mem_of_selectResponse {responses : Mapping} {codes : List String} {entry : Value}
    (h : selectResponse responses codes = .ok (some entry)) : entry ∈ responses.map (·.2) := by
  induction codes with
  | nil => simp [selectResponse] at h
  | cons code rest ih =>
      cases found : responseEntry responses code with
      | error failure => simp [selectResponse, found, bind, Except.bind] at h
      | ok first =>
          by_cases present : first.isTruthy = true
          · obtain rfl : first = entry := by
              simpa [selectResponse, found, present, bind, Except.bind] using h
            exact mem_of_responseEntry found present
          · exact ih (by simpa [selectResponse, found, present, bind, Except.bind] using h)

theorem responseSchema?_insert (dialect : Dialect) (response : Mapping) {name : String}
    (unread : name ∉ readKeys) (value : Value) :
    dialect.responseSchema? (response.insert (.text name) value) =
      dialect.responseSchema? response := by
  have apart : ∀ {key : String}, key ∈ readKeys →
      Mapping.field (response.insert (.text name) value) key = response.field key :=
    fun read => Mapping.field_insert_of_ne _ _ (ne_of_mem_of_not_mem read unread).symm
  have schema := @apart "schema" (by decide)
  have content := @apart "content" (by decide)
  cases dialect <;> simp only [Dialect.responseSchema?, schema, content]

theorem kept_selectedSchema {document other : Mapping} (dialect : Dialect) (options : Options)
    (operation : Mapping)
    (alike : ∀ node ∈ ((operation.field "responses").object?.getD []).map (·.2),
      FollowedIn document other node) :
    Kept (selectedSchema dialect options document operation)
      (selectedSchema dialect options other operation) := by
  intro found success
  unfold selectedSchema at success ⊢
  split at success
  · rename_i responses isObject
    cases selected : selectResponse responses options.responseCodes with
    | error failure => simp [selected, bind, Except.bind] at success
    | ok chosen =>
        cases chosen with
        | none => simpa [selected, bind, Except.bind] using success
        | some entry =>
            cases followed : Pointer.follow (.object document) entry with
            | error failure => simp [selected, followed, bind, Except.bind] at success
            | ok target =>
                have member :
                    entry ∈ ((operation.field "responses").object?.getD []).map (·.2) := by
                  simpa [isObject, Value.object?] using mem_of_selectResponse selected
                obtain ⟨target', followed', differ⟩ := alike entry member followed
                simp only [selected, followed, followed', bind, Except.bind] at success ⊢
                cases differ with
                | same _ => exact success
                | entry entries inner =>
                    have unread : "schemas" ∉ readKeys := by decide
                    have same := responseSchema?_insert dialect entries unread inner
                    exact (congrArg Except.ok same).trans success
  · exact success

theorem carries_typedResponse (extension : scope.table.Extends wide) (stem : String)
    (inline : Option Mapping) (schema : Value) :
    Carries
      (match inline with
        | some entries =>
          return some (← Synthesis.declareRecord scope (stem ++ "Response") entries)
        | none => return some (← Synthesis.printedType scope schema))
      (match inline with
        | some entries =>
          return some
            (← Synthesis.declareRecord (scope.withTable wide) (stem ++ "Response") entries)
        | none => return some (← Synthesis.printedType (scope.withTable wide) schema)) := by
  split
  · exact (carries_declareRecord extension _ _).bind fun _ => .refl _
  · exact (carries_printedType extension _).bind fun _ => .refl _

theorem carries_responseType (extension : scope.table.Extends wide) {document other : Mapping}
    (dialect : Dialect) (operation : Mapping)
    (alike : ∀ node ∈ ((operation.field "responses").object?.getD []).map (·.2),
      FollowedIn document other node) (stem : String) :
    Carries (responseType scope dialect document operation stem)
      (responseType (scope.withTable wide) dialect other operation stem) := by
  refine (Carries.lift (kept_selectedSchema dialect scope.options operation alike)).bind ?_
  intro schema
  split
  · exact .refl _
  · exact carries_typedResponse extension stem _ _

/-! ## Parameters -/

/-- Two raw parameters that are told apart and brought into normal form in one way. -/
structure SameReading (raw other : Mapping) : Prop where
  labels : Parameter.labels other = Parameter.labels raw
  normal : ∀ dialect : Dialect, dialect.normalize other = dialect.normalize raw

theorem sameReading_insert (raw : Mapping) {name : String} (unread : name ∉ readKeys)
    (value : Value) : SameReading raw (raw.insert (.text name) value) := by
  have apart : ∀ {key : String}, key ∈ readKeys →
      Mapping.find? (raw.insert (.text name) value) key = raw.find? key :=
    fun read => Mapping.find?_insert_of_ne raw value (ne_of_mem_of_not_mem read unread).symm
  have inField : ∀ {key : String}, key ∈ readKeys →
      Mapping.field (raw.insert (.text name) value) key = raw.field key :=
    fun read => congrArg (Option.getD · Value.null) (apart read)
  have named := @apart "name" (by decide)
  have sent := @apart "in" (by decide)
  constructor
  · simp [Parameter.labels, named, sent]
  · intro dialect
    have lifted : Dialect.liftedSchema (raw.insert (.text name) value) =
        Dialect.liftedSchema raw := by
      have same : ∀ key ∈ Dialect.inlineKeys,
          Mapping.find? (raw.insert (.text name) value) key = raw.find? key :=
        fun key own => apart (List.mem_append_right _ own)
      unfold Dialect.liftedSchema
      rw [List.filterMap_congr fun key own => by rw [same key own]]
    have schema : ∀ location, dialect.parameterSchema (raw.insert (.text name) value)
        location = dialect.parameterSchema raw location := by
      intro location
      have own := @inField "schema" (by decide)
      have content := @inField "content" (by decide)
      cases dialect <;> simp [Dialect.parameterSchema, lifted, own, content]
    have ownName := @inField "name" (by decide)
    have location := @inField "in" (by decide)
    have required := @inField "required" (by decide)
    have description := @inField "description" (by decide)
    simp [Dialect.normalize, schema, Parameter.location?, Parameter.ofRaw, ownName, location,
      required, description]

theorem forall₂_sameReading {targets targets' : List Value}
    (h : List.Forall₂ (Value.DifferOutside readKeys) targets targets') :
    List.Forall₂ SameReading (targets.filterMap Value.object?)
      (targets'.filterMap Value.object?) := by
  induction h with
  | nil => exact .nil
  | @cons target _ _ _ differ _ ih =>
      cases differ with
      | same =>
          cases target with
          | object entries => exact .cons ⟨rfl, fun _ => rfl⟩ ih
          | _ => exact ih
      | entry entries value unread => exact .cons (sameReading_insert entries unread value) ih

theorem mapM_followedIn {document other : Mapping} {items targets : List Value}
    (alike : ∀ node ∈ items, FollowedIn document other node)
    (h : items.mapM (Pointer.follow (.object document)) = .ok targets) :
    ∃ targets', items.mapM (Pointer.follow (.object other)) = .ok targets' ∧
      List.Forall₂ (Value.DifferAt "schemas") targets targets' := by
  induction items generalizing targets with
  | nil =>
      obtain rfl := Except.ok.inj h
      exact ⟨[], rfl, .nil⟩
  | cons item rest ih =>
      rw [List.mapM_cons] at h ⊢
      cases first : Pointer.follow (.object document) item with
      | error failure => simp [first, bind, Except.bind] at h
      | ok target =>
          cases later : rest.mapM (Pointer.follow (.object document)) with
          | error failure => simp [first, later, bind, Except.bind] at h
          | ok others =>
              obtain rfl : target :: others = targets := by
                simpa [first, later, bind, Except.bind, pure, Except.pure] using h
              obtain ⟨target', first', differ⟩ := alike item List.mem_cons_self first
              obtain ⟨others', later', differs⟩ :=
                ih (fun node member => alike node (List.mem_cons_of_mem _ member)) later
              exact ⟨target' :: others', by simp [first', later', bind, Except.bind, pure,
                Except.pure], .cons differ differs⟩

theorem rawParameters_followedIn {document other parent : Mapping} {raws : List Mapping}
    (alike : ∀ node ∈ (parent.field "parameters").list?.getD [], FollowedIn document other node)
    (h : rawParameters document parent = .ok raws) :
    ∃ raws', rawParameters other parent = .ok raws' ∧ List.Forall₂ SameReading raws raws' := by
  unfold rawParameters at h ⊢
  split at h
  · rename_i items isList
    cases followed : items.mapM (Pointer.follow (.object document)) with
    | error failure => simp [followed, bind, Except.bind] at h
    | ok targets =>
        obtain rfl : targets.filterMap Value.object? = raws := by
          simpa [followed, bind, Except.bind] using h
        obtain ⟨targets', followed', differs⟩ :=
          mapM_followedIn (by simpa [isList, Value.list?] using alike) followed
        exact ⟨targets'.filterMap Value.object?, by simp [followed', bind, Except.bind],
          forall₂_sameReading (differs.imp fun _ _ differ => differ.outside (by decide))⟩
  · obtain rfl := Except.ok.inj h
    exact ⟨[], rfl, .nil⟩

theorem mapM_labels_eq {raws raws' : List Mapping} (h : List.Forall₂ SameReading raws raws') :
    raws'.mapM Parameter.labels = raws.mapM Parameter.labels := by
  induction h with
  | nil => rfl
  | cons same _ ih => simp only [List.mapM_cons, same.labels, ih]

theorem mapM_normalize_eq (dialect : Dialect) {raws raws' : List Mapping}
    (h : List.Forall₂ SameReading raws raws') :
    raws'.mapM dialect.normalize = raws.mapM dialect.normalize := by
  induction h with
  | nil => rfl
  | cons same _ ih => simp only [List.mapM_cons, same.normal, ih]

theorem merge_sameReading {shared shared' own own' : List Mapping}
    (hshared : List.Forall₂ SameReading shared shared')
    (hown : List.Forall₂ SameReading own own') :
    SameEnd (List.Forall₂ SameReading) (Parameter.merge shared own)
      (Parameter.merge shared' own') := by
  unfold Parameter.merge
  rw [mapM_labels_eq hown]
  refine (SameEnd.refl _).bind ?_
  rintro taken _ rfl
  refine (SameEnd.filterM (fun raw other same => ?_) hshared).bind fun kept kept' same => ?_
  · rw [same.labels]
  · exact .done (List.rel_append same hown)

theorem kept_parameters {document other item operation : Mapping} (dialect : Dialect)
    (shared : ∀ node ∈ (item.field "parameters").list?.getD [], FollowedIn document other node)
    (own : ∀ node ∈ (operation.field "parameters").list?.getD [],
      FollowedIn document other node) :
    Kept (parameters dialect document item operation)
      (parameters dialect other item operation) := by
  intro normal success
  unfold parameters at success ⊢
  cases ofItem : rawParameters document item with
  | error failure => simp [ofItem, bind, Except.bind] at success
  | ok raws =>
      cases ofOperation : rawParameters document operation with
      | error failure => simp [ofItem, ofOperation, bind, Except.bind] at success
      | ok owns =>
          obtain ⟨raws', ofItem', same⟩ := rawParameters_followedIn shared ofItem
          obtain ⟨owns', ofOperation', sameOwn⟩ := rawParameters_followedIn own ofOperation
          simp only [ofItem, ofOperation, ofItem', ofOperation', bind, Except.bind] at success ⊢
          cases merged : Parameter.merge raws owns with
          | error failure => simp [merged] at success
          | ok all =>
              obtain ⟨all', merged', sameAll⟩ :=
                (merged ▸ merge_sameReading same sameOwn).exists_of_ok
              simp only [merged, merged', mapM_normalize_eq dialect sameAll] at success ⊢
              exact success

/-! ## Bindings -/

theorem carries_body (extension : scope.table.Extends wide) {document other : Mapping}
    (dialect : Dialect) (operation : Mapping)
    (consumes : other.field "consumes" = document.field "consumes")
    (alike : FollowedIn document other (operation.field "requestBody")) (stem : String)
    (placeholders : List String) (parameters : List Parameter) :
    Carries (body scope dialect document operation stem placeholders parameters)
      (body (scope.withTable wide) dialect other operation stem placeholders parameters) := by
  cases dialect with
  | swagger2 => exact carries_swaggerBody extension consumes operation stem placeholders parameters
  | openApi3 => exact carries_openApiBody extension operation alike stem

theorem carries_bindingOf (extension : scope.table.Extends wide) {document other : Mapping}
    (dialect : Dialect) {item operation : Mapping}
    (consumes : other.field "consumes" = document.field "consumes")
    (alike : ∀ node ∈ anchors item operation, FollowedIn document other node)
    (path method : String) :
    Carries (bindingOf scope dialect document item operation path method)
      (bindingOf (scope.withTable wide) dialect other item operation path method) := by
  have shared : ∀ node ∈ (item.field "parameters").list?.getD [],
      FollowedIn document other node :=
    fun node member => alike node (by simp [anchors, member])
  have own : ∀ node ∈ (operation.field "parameters").list?.getD [],
      FollowedIn document other node :=
    fun node member => alike node (by simp [anchors, member])
  have responses : ∀ node ∈ ((operation.field "responses").object?.getD []).map (·.2),
      FollowedIn document other node :=
    fun node member => alike node (by
      refine List.mem_append_right _ (List.mem_cons_of_mem _ member))
  have request := alike (operation.field "requestBody") (by simp [anchors])
  have inBody : Scope.table { scope with placement := some .body } |>.Extends wide := extension
  have inResponse : Scope.table { scope with placement := some .response } |>.Extends wide :=
    extension
  unfold bindingOf
  refine (Carries.lift (kept_parameters dialect shared own)).bind fun parameters => ?_
  refine (carries_groupPath extension _ _ _).bind fun pathRecord => ?_
  refine (carries_groupQuery extension _ _ _).bind fun queryRecord => ?_
  refine (carries_body inBody dialect operation consumes request _ _ _).bind fun body => ?_
  exact (carries_responseType inResponse dialect operation responses _).bind fun _ => .refl _

end Extension

end Operation

namespace Binding

theorem ofOperation_withTable {dialect : Dialect} {document table wide : Mapping}
    {path method : String} {options : Options} {lexicon : Name.Lexicon}
    {answer : Option (Binding TypeExpr) × List Warning}
    (has : dialect.table? document = some table)
    (extension : Table.Extends ⟨dialect.root, table⟩ ⟨dialect.root, wide⟩)
    (apart : ∀ item operation, Operation.find? document path method = some (item, operation) →
      Operation.AvoidsTable dialect document item operation)
    (h : ofOperation dialect document path method options lexicon = .ok answer) :
    ofOperation dialect (dialect.withTable document wide) path method options lexicon =
      .ok answer := by
  have size : (Value.object table).size ≤ (Value.object wide).size := by
    have : Value.mappingSize table ≤ Value.mappingSize wide := extension.size
    simp only [Value.size]
    omega
  unfold ofOperation at h ⊢
  rw [Dialect.find?_withTable]
  cases found : Operation.find? document path method with
  | none => simpa [found] using h
  | some both =>
      obtain ⟨item, operation⟩ := both
      have consumes : (dialect.withTable document wide).field "consumes" =
          document.field "consumes" := Dialect.field_withTable (by decide) (by decide)
      have alike : ∀ node ∈ Operation.anchors item operation,
          Operation.FollowedIn document (dialect.withTable document wide) node := by
        intro node member value followed
        refine Pointer.follow_replaced extension.keeps size (dialect.replaced_withTable has wide) ?_
          (by decide) (apart item operation found node member) followed
        cases dialect <;> simp [Dialect.tablePath]
      let scope : Scope := ⟨⟨dialect.root, table⟩, options, lexicon, none⟩
      have inScope : scope.table.Extends ⟨dialect.root, wide⟩ := extension
      have carried := Operation.carries_bindingOf inScope dialect consumes alike path method
      simp only [found, Dialect.definitions_eq has, Dialect.definitions_withTable, bind,
        Except.bind] at h ⊢
      cases made : (Operation.bindingOf scope dialect document item operation path method).outcome
          .empty with
      | mk result session =>
          cases result with
          | error failure => simp [scope, made] at h
          | ok binding =>
              have made' := carried made
              simp only [scope, Scope.withTable] at made made'
              simpa only [made, made'] using h

/-- A binding that was made is made again, with the same records in the same order and the same
warnings, when definitions are added to the table under new keys and the table is permuted. -/
theorem ofDocument_of_extended_table {document table added wide : Mapping} {path method : String}
    {options : Options} {lexicon : Name.Lexicon}
    {answer : Option (Binding TypeExpr) × List Warning}
    (has : (Dialect.ofDocument document).table? document = some table)
    (permuted : wide.Perm (table ++ added)) (distinct : wide.Distinct)
    (apart : ∀ item operation,
      Operation.find? document path (String.ofList (Text.lower method.toList)) =
        some (item, operation) →
      Operation.AvoidsTable (Dialect.ofDocument document) document item operation)
    (h : ofDocument (.object document) path method options lexicon = .ok answer) :
    ofDocument (.object ((Dialect.ofDocument document).withTable document wide)) path method
      options lexicon = .ok answer := by
  simp only [ofDocument, Dialect.ofDocument_withTable] at h ⊢
  exact ofOperation_withTable has (Table.extends_of_perm permuted distinct) apart h

/-- The definitions of a document whose parameter is a reference to another place. -/
def pageTable : Mapping := [
  (.text "Page", .ofFields [
    ("properties", .ofFields [
      ("next", .ofFields [("$ref", .text "#/components/schemas/Page")]),
      ("mark", .ofFields [("$ref", .text "#/components/schemas/Mark")])])]),
  (.text "Mark", .ofFields [("type", .text "string")])]

def pageOperation : Mapping := [
  (.text "parameters", .list [.ofFields [("$ref", .text "#/components/parameters/Limit")]]),
  (.text "responses", .ofFields [
    ("200", .ofFields [
      ("content", .ofFields [
        ("application/json", .ofFields [
          ("schema", .ofFields [("$ref", .text "#/components/schemas/Page")])])])])])]

def pageDocument : Mapping := [
  (.text "components", .ofFields [
    ("schemas", .object pageTable),
    ("parameters", .ofFields [
      ("Limit", .ofFields [
        ("name", .text "limit"),
        ("in", .text "query"),
        ("schema", .ofFields [("$ref", .text "#/components/schemas/Mark")])])])]),
  (.text "paths", .ofFields [("/pages", .ofFields [("get", .object pageOperation)])])]

/-- The same definitions the other way round, after one that is no schema. -/
def widePageTable : Mapping :=
  (.text "Extra", .null) :: pageTable.reverse

/-- The only reference that is followed is the one to the parameter. -/
theorem avoidsTable_pageDocument :
    Operation.AvoidsTable .openApi3 pageDocument [(.text "get", .object pageOperation)]
      pageOperation := by
  have none_of_plain : ∀ {entries : Mapping} {ref}, entries.find? "$ref" = none →
      ¬ Pointer.Meets (.object pageDocument) (.object entries) ref := by
    intro entries ref plain met
    cases met <;> simp_all
  intro node member ref met
  have anchors : Operation.anchors [(.text "get", .object pageOperation)] pageOperation =
      [.ofFields [("$ref", .text "#/components/parameters/Limit")], .null,
        .ofFields [("content", .ofFields [("application/json", .ofFields [
          ("schema", .ofFields [("$ref", .text "#/components/schemas/Page")])])])]] := rfl
  rw [anchors] at member
  simp only [List.mem_cons, List.not_mem_nil, or_false] at member
  rcases member with rfl | rfl | rfl
  · cases met with
    | own found =>
        obtain rfl := Value.text.inj (Option.some.inj (found : some _ = some _))
        decide
    | next found reached later =>
        obtain rfl := Value.text.inj (Option.some.inj (found : some _ = some _))
        obtain rfl := Except.ok.inj (reached : Except.ok _ = Except.ok _)
        exact (none_of_plain rfl later).elim
  · cases met
  · exact (none_of_plain rfl met).elim

theorem ofDocument_of_extended_pageTable :
    ∃ answer, ofDocument (.object pageDocument) "/pages" "GET" {} .standard = .ok answer ∧
      (answer.1.map fun binding => binding.records.map (·.name)) = some ["GetPagesQuery", "Page"] ∧
      ofDocument (.object (Dialect.openApi3.withTable pageDocument widePageTable)) "/pages" "GET"
        {} .standard = .ok answer := by
  have computed :
      (ofDocument (.object pageDocument) "/pages" "GET" {} .standard).toOption.map
        (fun answer => answer.1.map fun binding => binding.records.map (·.name)) =
      some (some ["GetPagesQuery", "Page"]) := by decide +kernel
  have dialect : Dialect.ofDocument pageDocument = .openApi3 := by decide +kernel
  have permuted : widePageTable.Perm (pageTable ++ [(.text "Extra", .null)]) := by
    exact ((List.reverse_perm pageTable).cons _).trans (List.perm_append_singleton _ _).symm
  have distinct : widePageTable.Distinct := by
    unfold Mapping.Distinct
    decide
  cases made : ofDocument (.object pageDocument) "/pages" "GET" {} .standard with
  | error failure => simp [made, Except.toOption] at computed
  | ok answer =>
      refine ⟨answer, rfl, by simpa [made, Except.toOption] using computed, ?_⟩
      rw [← dialect]
      refine ofDocument_of_extended_table ?_ permuted distinct ?_ made
      · rw [dialect]
        rfl
      · rw [dialect]
        intro item operation found
        have reached : Operation.find? pageDocument "/pages" "get" =
            some ([(.text "get", .object pageOperation)], pageOperation) := rfl
        have method : String.ofList (Text.lower "GET".toList) = "get" := by decide +kernel
        rw [method, reached] at found
        obtain ⟨rfl, rfl⟩ := Prod.mk.inj (Option.some.inj found)
        exact avoidsTable_pageDocument

end Binding

end ApiBinding
