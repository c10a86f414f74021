import ApiBinding.Proofs.Operation.Added
import ApiBinding.Proofs.Operation.Thinned
import ApiBinding.Proofs.Synthesis.Rendering

/-! No parameter is lost or made twice on its way into the records of the path and the query: the
fields of these are, in order, those of the parameters that the operation and its path declare. -/

namespace ApiBinding

namespace Synthesis

variable {scope : Scope}

/-- The type that a schema has when no reference is being written in place. -/
def HasType (scope : Scope) (schema : Mapping) (type : TypeExpr) : Prop :=
  ∃ placement session after, Canonical scope session ∧ session.inlining = [] ∧
    outcome (printedType { scope with placement := placement } (.object schema)) session =
      (.ok type, after)

/-- A schema has one type, whatever was typed before. -/
theorem HasType.unique {schema : Mapping} {type type' : TypeExpr} (h : HasType scope schema type)
    (h' : HasType scope schema type') : type = type' := by
  obtain ⟨_, session, _, canonical, idle, printed⟩ := h
  obtain ⟨_, session', _, canonical', idle', printed'⟩ := h'
  obtain ⟨_, derivation⟩ := printedType_derivation printed
  obtain ⟨_, derivation'⟩ := printedType_derivation printed'
  refine derivation.congr rfl derivation' canonical canonical' ?_
  intro ref schema _
  rw [idle, idle']

end Synthesis

namespace Operation

open Synthesis

variable {scope : Scope}

/-! ## Fields of parameters -/

/-- The field that a parameter with a type becomes. -/
structure FieldOf (scope : Scope) (parameter : Parameter) (field : Field TypeExpr) : Prop where
  name : field.name = parameter.name
  required : field.required = parameter.required
  description : field.description = parameter.description
  typed : ∃ schema, parameter.schema = some schema ∧ Schema.isTyped (.object schema) = true ∧
    HasType scope schema field.type ∧ HasFormat schema field.format

theorem names_of_forall₂ {parameters : List Parameter} {fields : List (Field TypeExpr)}
    (h : List.Forall₂ (FieldOf scope) parameters fields) :
    fields.map (·.name) = parameters.map (·.name) := by
  induction h with
  | nil => rfl
  | cons own _ ih => rw [List.map_cons, List.map_cons, own.name, ih]

theorem exists_append_of_forall₂ {α β : Type} {r : α → β → Prop} {first last : List α}
    {all : List β} (h : List.Forall₂ r (first ++ last) all) :
    ∃ front back, all = front ++ back ∧ List.Forall₂ r first front ∧ List.Forall₂ r last back :=
  ⟨all.take first.length, all.drop first.length, (List.take_append_drop _ _).symm,
    (List.forall₂_take_append _ _ _ h.flip).flip, (List.forall₂_drop_append _ _ _ h.flip).flip⟩

/-- A session in which the next part of an operation can start. -/
structure Ready (scope : Scope) (session : Session) : Prop where
  canonical : Canonical scope session
  idle : session.inlining = []

theorem ready_empty (scope : Scope) : Ready scope .empty :=
  ⟨canonical_empty scope, rfl⟩

theorem Ready.printedType {session after : Session} {node : Value} {type : TypeExpr}
    (ready : Ready scope session)
    (printed : outcome (printedType scope node) session = (.ok type, after)) :
    Ready scope after := by
  obtain ⟨_, derivation⟩ := printedType_derivation printed
  exact ⟨derivation.canonical ready.canonical, derivation.grows.inlining.trans ready.idle⟩

theorem fieldOf_parameterField {owner : String} {parameter : Parameter} {session after : Session}
    {field : Option (Field TypeExpr)} (ready : Ready scope session)
    (h : outcome (parameterField scope owner parameter) session = (.ok field, after)) :
    List.Forall₂ (FieldOf scope) ([parameter].filter hasType) field.toList ∧
      Ready scope after := by
  unfold parameterField at h
  cases written : parameter.schema with
  | none =>
      simp only [written] at h
      obtain ⟨same, rfl⟩ := Prod.mk.inj h
      obtain rfl := Except.ok.inj same
      have untyped : hasType parameter = false := by simp [hasType, written]
      simp only [List.filter_cons, untyped]
      exact ⟨.nil, ready.canonical, ready.idle⟩
  | some schema =>
      simp only [written] at h
      by_cases typed : Schema.isTyped (.object schema) = true
      · rw [if_pos typed] at h
        obtain ⟨middle, type, htype, h⟩ := outcome_bind_eq_ok h
        obtain ⟨same, rfl⟩ := Prod.mk.inj h
        obtain rfl := Except.ok.inj same
        have isTyped : hasType parameter = true := by simp [hasType, written, typed]
        simp only [List.filter_cons, isTyped, if_true, List.filter_nil, Option.toList_some]
        have own : HasType scope schema type :=
          ⟨scope.placement, session, middle, ready.canonical, ready.idle, htype⟩
        exact ⟨.cons ⟨rfl, rfl, rfl, schema, written, typed, own, hasFormat_format? schema⟩ .nil,
          ready.printedType htype⟩
      · rw [if_neg typed] at h
        obtain ⟨same, rfl⟩ := Prod.mk.inj h
        obtain rfl := Except.ok.inj same
        have untyped : hasType parameter = false := by simp [hasType, written, typed]
        simp only [List.filter_cons, untyped]
        exact ⟨.nil, ready.canonical, ready.idle⟩

/-- One field for each parameter that has a type, in order. -/
theorem fieldsOf_parameterFields {owner : String} {parameters : List Parameter}
    {session after : Session} {fields : List (Field TypeExpr)} (ready : Ready scope session)
    (h : outcome (parameterFields scope owner parameters) session = (.ok fields, after)) :
    List.Forall₂ (FieldOf scope) (parameters.filter hasType) fields ∧ Ready scope after := by
  induction parameters generalizing session fields with
  | nil =>
      obtain ⟨same, rfl⟩ := Prod.mk.inj h
      obtain rfl := Except.ok.inj same
      exact ⟨.nil, ready⟩
  | cons parameter rest ih =>
      obtain ⟨middle, field, hfield, h⟩ := outcome_bind_eq_ok h
      obtain ⟨last, others, hrest, h⟩ := outcome_bind_eq_ok h
      obtain ⟨same, rfl⟩ := Prod.mk.inj h
      obtain rfl := Except.ok.inj same
      obtain ⟨first, ready'⟩ := fieldOf_parameterField ready hfield
      obtain ⟨later, ready''⟩ := ih ready' hrest
      rw [← List.singleton_append, List.filter_append]
      exact ⟨List.rel_append first later, ready''⟩

/-! ## Groups -/

/-- The name of a group is free when its record comes to be stored, which is after its fields have
been typed. -/
def NameFree (scope : Scope) (name : String) (parameters : List Parameter) (session : Session) :
    Prop :=
  (outcome (parameterFields scope name parameters) session).2.catalog.mentions name = false

/-- What becomes of a group: nothing if none of its parameters has a type, and else the record of
its name, with a field for each parameter that has a type if the name was free. -/
structure Grouped (scope : Scope) (name : String) (parameters : List Parameter)
    (session : Session) (result : Option String) (after : Session) : Prop where
  result : result = if parameters.filter hasType = [] then none else some name
  record : parameters.filter hasType ≠ [] → NameFree scope name parameters session →
    ∃ record, after.catalog.find? name = some record ∧ record.name = name ∧
      List.Forall₂ (FieldOf scope) (parameters.filter hasType) record.fields
  ready : Ready scope after

theorem grouped_groupRecord {name : String} {parameters : List Parameter}
    {session after : Session} {result : Option String} (ready : Ready scope session)
    (h : outcome (groupRecord scope name parameters) session = (.ok result, after)) :
    Grouped scope name parameters session result after := by
  obtain ⟨middle, fields, hfields, h⟩ := outcome_bind_eq_ok h
  obtain ⟨each, ready'⟩ := fieldsOf_parameterFields ready hfields
  cases fields with
  | nil =>
      obtain ⟨same, rfl⟩ := Prod.mk.inj h
      obtain rfl := Except.ok.inj same
      have none := List.forall₂_nil_right_iff.mp each
      exact ⟨by rw [if_pos none], fun some => absurd none some, ready'⟩
  | cons first rest =>
      have some : parameters.filter hasType ≠ [] := by
        intro none
        rw [none] at each
        cases each
      have kept := outcome_keep ⟨name, none, first :: rest, scope.placement⟩ middle
      obtain ⟨same, rfl⟩ := Prod.mk.inj (kept.symm.trans h)
      obtain rfl := Except.ok.inj same
      refine ⟨by rw [if_neg some], fun _ free => ?_, ?_⟩
      · have free' : middle.catalog.mentions name = false := by
          rw [NameFree, hfields] at free
          exact free
        have absent : name ∉ middle.catalog.names := by
          rw [← Catalog.mentions_iff, free']
          simp
        refine ⟨⟨name, none, first :: rest, scope.placement⟩, ?_, rfl, each⟩
        rw [if_neg (by simp [free'])]
        refine Catalog.find?_add_self _ ?_
        simpa [Session.reserve] using Catalog.find?_eq_none_of_not_mem absent
      · split
        · exact ready'
        · exact ⟨ready'.canonical, ready'.idle⟩

end Operation

/-! ## The records of the path and the query -/

namespace Site

open Operation Synthesis

variable {site : Site} {binding : Binding TypeExpr}

/-- The parameters that fill segments of the path, with a type or without: those of the path, and
those of the query that a template placeholder names. -/
def pathForms (site : Site) (forms : List Parameter) : List Parameter :=
  forms.filter fun parameter => parameter.location = .path ∨
    (parameter.location = .query ∧ parameter.name ∈ site.placeholders)

/-- The template placeholders, each of them once, that no such parameter is named after. -/
def undeclaredNames (site : Site) (forms : List Parameter) : List String :=
  site.placeholders.eraseDups.filter fun name =>
    !((site.pathForms forms).map (·.name)).contains name

/-- The query parameters that no template placeholder binds to the path. -/
def queryForms (site : Site) (forms : List Parameter) : List Parameter :=
  forms.filter fun parameter =>
    parameter.location = .query ∧ parameter.name ∉ site.placeholders

/-- The field of a template placeholder that nothing declares: it is required, says nothing of
itself and has the schema type that the options give to such placeholders. -/
structure AddedField (site : Site) (name : String) (field : Field TypeExpr) : Prop where
  name : field.name = name
  required : field.required = true
  description : field.description = none
  typed : HasType (site.scope none) [(.text "type", .text site.options.defaultPathType)] field.type
  format : field.format = none

def PathNameFree (site : Site) (forms : List Parameter) : Prop :=
  NameFree (site.scope (some .path)) (site.stem ++ "PathVar")
    (pathParameters site.options site.placeholders forms) .empty

def QueryNameFree (site : Site) (forms : List Parameter) : Prop :=
  NameFree (site.scope (some .body)) (site.stem ++ "Query") (site.queryForms forms)
    (outcome (groupPath (site.scope none) site.stem site.placeholders forms) .empty).2

theorem names_of_addedFields {names : List String} {fields : List (Field TypeExpr)}
    (h : List.Forall₂ site.AddedField names fields) : fields.map (·.name) = names := by
  induction h with
  | nil => rfl
  | cons own _ ih => rw [List.map_cons, own.name, ih]

/-- The record of the path has a required field for each parameter with a type that fills a
segment, and then one for each placeholder that nothing declares. -/
structure PathGroup (site : Site) (forms : List Parameter) (binding : Binding TypeExpr) : Prop where
  result : binding.pathRecord =
    if (site.pathForms forms).filter hasType = [] ∧ site.undeclaredNames forms = [] then none
    else some (site.stem ++ "PathVar")
  record : site.PathNameFree forms → binding.pathRecord ≠ none →
    ∃ record ∈ binding.records, record.name = site.stem ++ "PathVar" ∧
      ∃ declared added, record.fields = declared ++ added ∧
        List.Forall₂ (FieldOf (site.scope none))
          (((site.pathForms forms).filter hasType).map ({ · with required := true })) declared ∧
        List.Forall₂ site.AddedField (site.undeclaredNames forms) added

/-- The record of the query has a field for each parameter with a type that is left. -/
structure QueryGroup (site : Site) (forms : List Parameter) (binding : Binding TypeExpr) :
    Prop where
  result : binding.queryRecord =
    if (site.queryForms forms).filter hasType = [] then none else some (site.stem ++ "Query")
  record : site.QueryNameFree forms → binding.queryRecord ≠ none →
    ∃ record ∈ binding.records, record.name = site.stem ++ "Query" ∧
      List.Forall₂ (FieldOf (site.scope none)) ((site.queryForms forms).filter hasType)
        record.fields

theorem pathForms_eq (site : Site) (forms : List Parameter) :
    site.pathForms forms = forms.filter (fillsPath site.placeholders) := by
  refine List.filter_congr fun parameter _ => ?_
  simp [fillsPath, Bool.decide_or, Bool.decide_and, beq_eq_decide]

theorem queryForms_eq (site : Site) (forms : List Parameter) :
    site.queryForms forms = queryParameters site.placeholders forms := by
  refine List.filter_congr fun parameter _ => ?_
  simp [Bool.decide_and, beq_eq_decide]

theorem pathParameters_eq (site : Site) (forms : List Parameter) :
    pathParameters site.options site.placeholders forms =
      (site.pathForms forms).map ({ · with required := true }) ++
        (site.undeclaredNames forms).map (undeclared site.options) := by
  simp only [pathParameters, undeclaredNames, pathForms_eq, List.map_map]
  rfl

/-- The field of the parameter that stands for a placeholder. -/
theorem addedField_of_undeclared {name : String} {field : Field TypeExpr}
    (h : FieldOf (site.scope none) (undeclared site.options name) field) :
    site.AddedField name field := by
  obtain ⟨schema, written, -, typed, format⟩ := h.typed
  obtain rfl := Option.some.inj written
  refine ⟨h.name, h.required, h.description, typed, ?_⟩
  rw [Option.eq_none_iff_forall_ne_some]
  intro word same
  have given := (format word).mp same
  simp [Mapping.find?, Mapping.get?, Key.same, Key.canonical] at given

theorem filter_hasType_pathParameters (site : Site) (forms : List Parameter) :
    (pathParameters site.options site.placeholders forms).filter hasType =
      ((site.pathForms forms).filter hasType).map ({ · with required := true }) ++
        (site.undeclaredNames forms).map (undeclared site.options) := by
  have added : ((site.undeclaredNames forms).map (undeclared site.options)).filter hasType =
      (site.undeclaredNames forms).map (undeclared site.options) := by
    refine List.filter_eq_self.mpr fun parameter member => ?_
    obtain ⟨name, -, rfl⟩ := List.mem_map.mp member
    rfl
  rw [pathParameters_eq, List.filter_append, added, List.filter_map]
  rfl

namespace Run

/-- A record that the path or the query stored is one of the binding. -/
theorem mem_records (run : site.Run binding) {name : String} {record : Record TypeExpr}
    (found : run.afterQuery.catalog.find? name = some record) : record ∈ binding.records := by
  rw [run.records]
  exact Catalog.mem_records_of_find? (run.response_settles.grows.catalog.records
    (run.body_settles.grows.catalog.records found))

theorem path_grouped (run : site.Run binding) :
    Grouped (site.scope (some .path)) (site.stem ++ "PathVar")
      (pathParameters site.options site.placeholders run.parameters) .empty binding.pathRecord
      run.afterPath :=
  grouped_groupRecord (ready_empty _) run.path

theorem query_grouped (run : site.Run binding) :
    Grouped (site.scope (some .body)) (site.stem ++ "Query") (site.queryForms run.parameters)
      run.afterPath binding.queryRecord run.afterQuery :=
  have ready : Ready (site.scope (some .body)) run.afterPath :=
    ⟨run.path_grouped.ready.canonical, run.path_grouped.ready.idle⟩
  queryForms_eq site run.parameters ▸ grouped_groupRecord ready run.query

/-- The placement of a record does not matter to its fields. -/
theorem forall₂_scope {placement : Option Placement} {parameters : List Parameter}
    {fields : List (Field TypeExpr)}
    (h : List.Forall₂ (FieldOf (site.scope placement)) parameters fields) :
    List.Forall₂ (FieldOf (site.scope none)) parameters fields :=
  h.imp fun _ _ own => ⟨own.name, own.required, own.description, own.typed⟩

theorem pathGroup (run : site.Run binding) : site.PathGroup run.parameters binding := by
  have grouped := run.path_grouped
  have typed := filter_hasType_pathParameters site run.parameters
  have result := grouped.result
  rw [typed] at result
  refine ⟨by simpa using result, fun free present => ?_⟩
  have some :
      (pathParameters site.options site.placeholders run.parameters).filter hasType ≠ [] := by
    intro none
    exact present (by rw [grouped.result, if_pos none])
  obtain ⟨record, found, named, fields⟩ := grouped.record some free
  have found' := run.query_settles.1.grows.catalog.records found
  refine ⟨record, run.mem_records found', named, ?_⟩
  rw [typed] at fields
  obtain ⟨declared, added, split, first, last⟩ := exists_append_of_forall₂ fields
  refine ⟨declared, added, split, forall₂_scope first, ?_⟩
  exact (List.forall₂_map_left_iff.mp (forall₂_scope last)).imp
    fun _ _ => addedField_of_undeclared

theorem queryGroup (run : site.Run binding) : site.QueryGroup run.parameters binding := by
  have grouped := run.query_grouped
  refine ⟨grouped.result, fun free present => ?_⟩
  have some : (site.queryForms run.parameters).filter hasType ≠ [] := by
    intro none
    exact present (by rw [grouped.result, if_pos none])
  have free' : NameFree (site.scope (.some .body)) (site.stem ++ "Query")
      (site.queryForms run.parameters) run.afterPath := by
    have same := free
    rwa [QueryNameFree, run.path] at same
  obtain ⟨record, found, named, fields⟩ := grouped.record some free'
  exact ⟨record, run.mem_records found, named, forall₂_scope fields⟩

end Run

end Site

namespace Binding

open Operation

/-- No parameter is lost or made twice. The parameters of the path that the operation does not
declare anew, and then its own, are brought into normal form; the records of the path and the
query have a field for each of those with a type that belongs there, in order, and that of the
path one more for each placeholder that nothing declares. Parameters that are sent in headers or
that are overridden may be left out of a document, unless references point into the lists they
are in, and neither the binding nor the warnings change. -/
theorem parameters_grouped {document : Mapping} {path method : String} {options : Options}
    {lexicon : Name.Lexicon} {binding : Binding TypeExpr} {warnings : List Warning}
    (h : ofDocument (.object document) path method options lexicon =
      .ok (some binding, warnings)) :
    ∃ (site : Site) (shared own : List Mapping) (normal : List (Option Parameter)),
      Site.ofDocument (.object document) path method options lexicon = .ok (some site) ∧
      rawParameters document site.item = .ok shared ∧
      rawParameters document site.operation = .ok own ∧
      (Parameter.merged shared own).mapM site.dialect.normalize = .ok normal ∧
      site.PathGroup (normal.filterMap id) binding ∧
      site.QueryGroup (normal.filterMap id) binding ∧
      Thinning site.dialect document site.item site.operation
        (keepsShared document site.operation) (keepsOwn document) ∧
      ∀ keepShared keepOwn,
        Thinning site.dialect document site.item site.operation keepShared keepOwn →
        (∀ node ∈ anchors site.item site.operation, ∀ ref,
          Pointer.Meets (.object document) node ref →
            AvoidsParameters site.item site.operation path site.method ref) →
        ofDocument (.object (keepParameters document path site.method keepShared keepOwn)) path
          method options lexicon = .ok (some binding, warnings) := by
  obtain ⟨site, located, ⟨run⟩⟩ := exists_run h
  obtain ⟨rfl, found, -, rfl, -, -⟩ := Site.of_ofDocument located
  obtain ⟨lower, -, -⟩ := Site.given_of_ofDocument located
  obtain ⟨readable, forms⟩ := parameters_eq_ok_iff.mp run.normal
  have normal := mapM_eq_ok readable.normal
  have parameters : run.parameters = ((Parameter.merged
      ((listed site.item).filterMap (raw? site.document))
      ((listed site.operation).filterMap (raw? site.document))).filterMap fun raw =>
        (site.dialect.normalize raw).toOption).filterMap id := by
    rw [forms, List.filterMap_filterMap]
    rfl
  refine ⟨site, _, _, _, located, rawParameters_eq_ok_iff.mpr ⟨readable.shared, rfl⟩,
    rawParameters_eq_ok_iff.mpr ⟨readable.own, rfl⟩, normal, ?_, ?_,
    thinning_all _ _ _ _, ?_⟩
  · exact parameters ▸ run.pathGroup
  · exact parameters ▸ run.queryGroup
  · intro keepShared keepOwn thinning avoids
    rw [lower] at avoids ⊢
    simp only [ofDocument, ofDocument_keepParameters found] at h ⊢
    exact ofOperation_keepParameters found thinning avoids h

/-- Two of the parameters of the path are sent in a header or declared anew, one query parameter
has the name of a placeholder, one has no type, and one placeholder is declared nowhere. -/
def linesOperation : Mapping := [
  (.text "operationId", .text "listLines"),
  (.text "parameters", .list [
    .ofFields [("$ref", .text "#/components/parameters/Page")],
    .ofFields [("name", .text "order"), ("in", .text "query"),
      ("schema", .ofFields [("type", .text "integer")])],
    .ofFields [("name", .text "session"), ("in", .text "cookie")],
    .ofFields [("name", .text "note"), ("in", .text "query")]])]

def linesItem : Mapping := [
  (.text "parameters", .list [
    .ofFields [("name", .text "shop"), ("in", .text "path"),
      ("schema", .ofFields [("type", .text "string")])],
    .ofFields [("name", .text "page"), ("in", .text "query"),
      ("schema", .ofFields [("type", .text "string")])],
    .ofFields [("name", .text "trace"), ("in", .text "header")]]),
  (.text "get", .object linesOperation)]

def linesPath : String := "/shops/\x7bshop\x7d/orders/\x7border\x7d/\x7bline\x7d"

def linesDocument : Mapping := [
  (.text "components", .ofFields [
    ("parameters", .ofFields [
      ("Page", .ofFields [("name", .text "page"), ("in", .text "query"),
        ("schema", .ofFields [("type", .text "integer")])])])]),
  (.text "paths", .object [(.text linesPath, .object linesItem)])]

/-- The parameters of the operation in normal form. -/
def linesForms : List Parameter := [
  ⟨"shop", .path, true, none, some [(.text "type", .text "string")]⟩,
  ⟨"trace", .header, false, none, none⟩,
  ⟨"page", .query, false, none, some [(.text "type", .text "integer")]⟩,
  ⟨"order", .query, false, none, some [(.text "type", .text "integer")]⟩,
  ⟨"session", .cookie, false, none, none⟩,
  ⟨"note", .query, false, none, none⟩]

def linesSite : Site :=
  ⟨linesDocument, linesItem, linesOperation, [], linesPath, "get", {}, .standard⟩

theorem site_linesDocument :
    Site.ofDocument (.object linesDocument) linesPath "GET" {} .standard =
      .ok (some linesSite) :=
  Site.ofDocument_of_found linesSite
    (by decide +kernel : String.ofList (Text.lower "GET".toList) = "get") rfl rfl

theorem merged_linesDocument {shared own : List Mapping} {normal : List (Option Parameter)}
    (ofItem : rawParameters linesDocument linesItem = .ok shared)
    (ofOperation : rawParameters linesDocument linesOperation = .ok own)
    (forms : (Parameter.merged shared own).mapM Dialect.openApi3.normalize = .ok normal) :
    normal.filterMap id = linesForms := by
  have computed : (do
      let shared ← rawParameters linesDocument linesItem
      let own ← rawParameters linesDocument linesOperation
      (Parameter.merged shared own).mapM Dialect.openApi3.normalize) =
        .ok (linesForms.map some) := rfl
  simp only [ofItem, ofOperation, forms, bind, Except.bind, Except.ok.injEq] at computed
  simp [computed, List.filterMap_map]

/-- The only reference that is followed is the one to the page. -/
theorem avoidsParameters_linesDocument :
    ∀ node ∈ anchors linesItem linesOperation, ∀ ref,
      Pointer.Meets (.object linesDocument) node ref →
        AvoidsParameters linesItem linesOperation linesPath "get" ref := by
  have refers : ∀ {node ref}, Pointer.Meets (.object linesDocument) node ref →
      (node.object?.getD []).has "$ref" = true := by
    intro node ref met
    cases met <;> simp_all [Value.object?, Mapping.has]
  have only : ((anchors linesItem linesOperation).filter fun node =>
      (node.object?.getD []).has "$ref") =
        [.ofFields [("$ref", .text "#/components/parameters/Page")]] := rfl
  intro node member ref met
  have referring : node ∈ (anchors linesItem linesOperation).filter fun node =>
      (node.object?.getD []).has "$ref" := List.mem_filter.mpr ⟨member, refers met⟩
  rw [only, List.mem_singleton] at referring
  subst referring
  cases met with
  | own found =>
      obtain rfl := Value.text.inj (Option.some.inj (found : some _ = some _))
      have pointed : Pointer.pathOf? "#/components/parameters/Page" =
          some ["components", "parameters", "Page"] := by decide +kernel
      have apart : ∀ rest, ¬ Pointer.PointsInto ("paths" :: rest)
          "#/components/parameters/Page" := by
        rintro rest ⟨step, last, same⟩
        simp [pointed] at same
      exact ⟨fun _ => apart _, fun _ => apart _⟩
  | next found reached later =>
      obtain rfl := Value.text.inj (Option.some.inj (found : some _ = some _))
      obtain rfl := Except.ok.inj (reached : Except.ok _ = Except.ok _)
      exact absurd (refers later) (by decide)

theorem parameters_grouped_linesDocument :
    ∃ binding warnings,
      ofDocument (.object linesDocument) linesPath "GET" {} .standard =
        .ok (some binding, warnings) ∧
      (∃ record ∈ binding.records, record.name = "ListLinesPathVar" ∧
        record.fields.map (fun field => (field.name, field.required, field.type.render)) =
          [("shop", true, "string"), ("order", true, "number"), ("line", true, "string")] ∧
        ∃ field ∈ record.fields, linesSite.AddedField "line" field) ∧
      (∃ record ∈ binding.records, record.name = "ListLinesQuery" ∧
        record.fields.map (fun field => (field.name, field.required, field.type.render)) =
          [("page", false, "number")]) ∧
      ((listed linesItem).filter (keepsShared linesDocument linesOperation)).length = 1 ∧
      ((listed linesOperation).filter (keepsOwn linesDocument)).length = 3 ∧
      ofDocument (.object (keepParameters linesDocument linesPath "get"
        (keepsShared linesDocument linesOperation) (keepsOwn linesDocument))) linesPath "GET" {}
          .standard = .ok (some binding, warnings) := by
  have computed :
      ((ofDocument (.object linesDocument) linesPath "GET" {} .standard).toOption.bind
        (·.1)).map (fun binding => binding.records.map fun record =>
          (record.name,
            record.fields.map fun field => (field.name, field.required, field.type.render))) =
      some [
        ("ListLinesPathVar",
          [("shop", true, "string"), ("order", true, "number"), ("line", true, "string")]),
        ("ListLinesQuery", [("page", false, "number")])] := by decide +kernel
  obtain ⟨binding, warnings, made, records⟩ := exists_of_computed computed
  obtain ⟨site, shared, own, normal, located, ofItem, ofOperation, forms, path, query, thinning,
    same⟩ := parameters_grouped made
  obtain rfl : linesSite = site := by
    simpa using site_linesDocument.symm.trans located
  rw [merged_linesDocument ofItem ofOperation forms] at path query
  have stem : linesSite.stem = "ListLines" := by decide +kernel
  have added : linesSite.undeclaredNames linesForms = ["line"] := by decide +kernel
  have fields {record : Record TypeExpr} (member : record ∈ binding.records) :
      (record.name,
        record.fields.map fun field => (field.name, field.required, field.type.render)) ∈ _ :=
    records ▸ List.mem_map_of_mem member
  refine ⟨binding, warnings, made, ?_, ?_, rfl, rfl,
    same _ _ thinning avoidsParameters_linesDocument⟩
  · have free : linesSite.PathNameFree linesForms := by
      unfold Site.PathNameFree NameFree
      decide +kernel
    have present : binding.pathRecord ≠ none := by simp [path.result, added]
    obtain ⟨record, member, named, declared, others, split, -, last⟩ := path.record free present
    have name : record.name = "ListLinesPathVar" := by
      rw [named, stem]
      decide
    refine ⟨record, member, name, by simpa [name] using fields member, ?_⟩
    rw [added] at last
    cases last with
    | cons line _ => exact ⟨_, by simp [split], line⟩
  · have free : linesSite.QueryNameFree linesForms := by
      unfold Site.QueryNameFree NameFree
      decide +kernel
    have typed : (linesSite.queryForms linesForms).filter hasType ≠ [] := by decide +kernel
    have present : binding.queryRecord ≠ none := by simp [query.result, typed]
    obtain ⟨record, member, named, -⟩ := query.record free present
    have name : record.name = "ListLinesQuery" := by
      rw [named, stem]
      decide
    exact ⟨record, member, name, by simpa [name] using fields member⟩

end Binding

end ApiBinding
