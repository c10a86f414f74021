import ApiBinding.Proofs.Operation.Closure

/-! A run for an operation, part by part: what it reads off the document first, and then what the
path, the query, the body and the response return, each with the session that it leaves. -/

namespace ApiBinding

/-! ## Sites -/

/-- An operation in its document, with all that a run for it reads. -/
structure Site where
  document : Mapping
  item : Mapping
  operation : Mapping
  definitions : Mapping
  path : String
  /-- The method in lower case. -/
  method : String
  options : Options
  lexicon : Name.Lexicon

namespace Site

def dialect (site : Site) : Dialect :=
  .ofDocument site.document

def scope (site : Site) (placement : Option Placement) : Scope :=
  ⟨⟨site.dialect.root, site.definitions⟩, site.options, site.lexicon, placement⟩

/-- The text with which the names of the operation's own records start. -/
def stem (site : Site) : String :=
  Name.upperFirst (Name.ofOperation site.lexicon site.options
    (site.operation.field "operationId").text? site.method site.path)

def placeholders (site : Site) : List String :=
  Name.Template.placeholders site.path

def bodyStep (site : Site) (parameters : List Parameter) : Synthesis (Option Operation.Body) :=
  Operation.body (site.scope (some .body)) site.dialect site.document site.operation site.stem
    site.placeholders parameters

def responseStep (site : Site) : Synthesis (Option TypeExpr) :=
  Operation.responseType (site.scope (some .response)) site.dialect site.document site.operation
    site.stem

def bindingStep (site : Site) : Synthesis (Binding TypeExpr) :=
  Operation.bindingOf (site.scope none) site.dialect site.document site.item site.operation
    site.path site.method

/-- The site of an operation; nothing if the document has no such operation. -/
def ofDocument (document : Value) (path method : String) (options : Options)
    (lexicon : Name.Lexicon) : Except Failure (Option Site) :=
  match document with
  | .object entries =>
    let method := String.ofList (Text.lower method.toList)
    match Operation.find? entries path method with
    | none => .ok none
    | some (item, operation) =>
      ((Dialect.ofDocument entries).definitions entries).map fun definitions =>
        some ⟨entries, item, operation, definitions, path, method, options, lexicon⟩
  | other => .error (.fault (.documentNotMapping other.kindName))

/-- A site is that of the operation which the document has under its path and method. -/
theorem of_ofDocument {entries : Mapping} {path method : String} {options : Options}
    {lexicon : Name.Lexicon} {site : Site}
    (h : ofDocument (.object entries) path method options lexicon = .ok (some site)) :
    site.document = entries ∧
      Operation.find? entries path (String.ofList (Text.lower method.toList)) =
        some (site.item, site.operation) ∧
      site.dialect.definitions entries = .ok site.definitions ∧ site.path = path ∧
      site.options = options ∧ site.lexicon = lexicon := by
  simp only [ofDocument] at h
  split at h
  · simp at h
  · rename_i item operation found
    cases defined : (Dialect.ofDocument entries).definitions entries with
    | error failure => simp [defined, Except.map] at h
    | ok definitions =>
        simp only [defined, Except.map, Except.ok.injEq, Option.some.injEq] at h
        subst h
        exact ⟨rfl, found, defined, rfl, rfl, rfl⟩

/-- A site keeps what it was looked up with. -/
theorem given_of_ofDocument {document : Value} {path method : String} {options : Options}
    {lexicon : Name.Lexicon} {site : Site}
    (h : ofDocument document path method options lexicon = .ok (some site)) :
    site.method = String.ofList (Text.lower method.toList) ∧ site.options = options ∧
      site.lexicon = lexicon := by
  cases document with
  | object entries =>
      simp only [ofDocument] at h
      split at h
      · simp at h
      · cases defined : (Dialect.ofDocument entries).definitions entries with
        | error failure => simp [defined, Except.map] at h
        | ok definitions =>
            simp only [defined, Except.map, Except.ok.injEq, Option.some.injEq] at h
            subst h
            exact ⟨rfl, rfl, rfl⟩
  | _ => simp [ofDocument] at h

/-- A site is found under its path and its method, in any case of the letters. -/
theorem ofDocument_of_found (site : Site) {method : String}
    (lowered : String.ofList (Text.lower method.toList) = site.method)
    (found : Operation.find? site.document site.path site.method =
      some (site.item, site.operation))
    (defined : site.dialect.definitions site.document = .ok site.definitions) :
    ofDocument (.object site.document) site.path method site.options site.lexicon =
      .ok (some site) := by
  have defined : (Dialect.ofDocument site.document).definitions site.document =
    .ok site.definitions := defined
  simp only [ofDocument, lowered, found, defined]
  rfl

/-- What becomes of an operation at a site. -/
def answer (site : Site) : Except Failure (Option (Binding TypeExpr) × List Warning) :=
  let made := site.bindingStep.outcome .empty
  made.1.map fun binding => (some binding, made.2.warnings)

end Site

/-- A binding is made at the site of its operation. -/
theorem Binding.ofDocument_eq_site (document : Value) (path method : String) (options : Options)
    (lexicon : Name.Lexicon) :
    ofDocument document path method options lexicon =
      (Site.ofDocument document path method options lexicon).bind fun found =>
        match found with
        | none => .ok (none, [])
        | some site => site.answer := by
  cases document with
  | object entries =>
      simp only [ofDocument, ofOperation, Site.ofDocument]
      cases Operation.find? entries path (String.ofList (Text.lower method.toList)) with
      | none => rfl
      | some place =>
          obtain ⟨item, operation⟩ := place
          dsimp only
          cases (Dialect.ofDocument entries).definitions entries with
          | error failure => rfl
          | ok definitions => rfl
  | _ => rfl

/-! ## Runs -/

open Synthesis Operation

/-- A run at a site that made a binding: the parameters in normal form, the body, and the session
that each part left. -/
structure Site.Run (site : Site) (binding : Binding TypeExpr) where
  parameters : List Parameter
  body : Option Operation.Body
  afterPath : Session
  afterQuery : Session
  afterBody : Session
  afterResponse : Session
  name : binding.name = Name.ofOperation site.lexicon site.options
    (site.operation.field "operationId").text? site.method site.path
  normal : Operation.parameters site.dialect site.document site.item site.operation =
    .ok parameters
  path : outcome (groupPath (site.scope none) site.stem site.placeholders parameters) .empty =
    (.ok binding.pathRecord, afterPath)
  query : outcome (groupQuery (site.scope none) site.stem site.placeholders parameters)
    afterPath = (.ok binding.queryRecord, afterQuery)
  typedBody : outcome (site.bodyStep parameters) afterQuery = (.ok body, afterBody)
  response : outcome site.responseStep afterBody = (.ok binding.response, afterResponse)
  records : binding.records = afterResponse.catalog.records
  bodyType : binding.body = body.bind (·.type)
  isFormData : binding.isFormData = body.any (·.isFormData)
  files : binding.files = (body.map (·.files)).getD []

/-- The session from which the body is typed. -/
def Site.beforeBody (site : Site) (parameters : List Parameter) : Session :=
  let afterPath :=
    (outcome (groupPath (site.scope none) site.stem site.placeholders parameters) .empty).2
  (outcome (groupQuery (site.scope none) site.stem site.placeholders parameters) afterPath).2

theorem Site.Run.afterQuery_eq {site : Site} {binding : Binding TypeExpr}
    (run : site.Run binding) : run.afterQuery = site.beforeBody run.parameters := by
  simp only [beforeBody, run.path, run.query]

theorem Site.run_of_outcome {site : Site} {binding : Binding TypeExpr} {session : Session}
    (h : outcome site.bindingStep .empty = (.ok binding, session)) :
    Nonempty (site.Run binding) := by
  unfold bindingStep bindingOf at h
  obtain ⟨start, parameters, hnormal, h⟩ := outcome_bind_eq_ok h
  obtain ⟨afterPath, pathRecord, path, h⟩ := outcome_bind_eq_ok h
  obtain ⟨afterQuery, queryRecord, query, h⟩ := outcome_bind_eq_ok h
  obtain ⟨afterBody, body, typedBody, h⟩ := outcome_bind_eq_ok h
  obtain ⟨afterResponse, response, typed, h⟩ := outcome_bind_eq_ok h
  obtain ⟨last, final, hfinal, h⟩ := outcome_bind_eq_ok h
  obtain ⟨normal, rfl⟩ := Prod.mk.inj hnormal
  obtain ⟨same, rfl⟩ := Prod.mk.inj hfinal
  obtain rfl := Except.ok.inj same
  obtain ⟨same, rfl⟩ := Prod.mk.inj h
  obtain rfl := Except.ok.inj same
  exact ⟨⟨parameters, body, afterPath, afterQuery, afterBody, afterResponse, rfl, normal, path,
    query, typedBody, typed, rfl, rfl, rfl, rfl⟩⟩

/-- Every binding comes from a run at the site of its operation. -/
theorem Binding.exists_run {document : Value} {path method : String} {options : Options}
    {lexicon : Name.Lexicon} {binding : Binding TypeExpr} {warnings : List Warning}
    (h : ofDocument document path method options lexicon = .ok (some binding, warnings)) :
    ∃ site, Site.ofDocument document path method options lexicon = .ok (some site) ∧
      Nonempty (site.Run binding) := by
  rw [ofDocument_eq_site] at h
  cases located : Site.ofDocument document path method options lexicon with
  | error failure => simp [located, Except.bind] at h
  | ok found =>
      cases found with
      | none => simp [located, Except.bind] at h
      | some site =>
          simp only [located, Except.bind, Site.answer] at h
          cases made : outcome site.bindingStep .empty with
          | mk result session =>
              cases result with
              | error failure => simp [made, Except.map] at h
              | ok own =>
                  simp only [made, Except.map, Except.ok.injEq, Prod.mk.injEq,
                    Option.some.injEq] at h
                  obtain ⟨rfl, -⟩ := h
                  exact ⟨site, rfl, Site.run_of_outcome made⟩

/-- What was computed of the binding in an answer is so for a binding. -/
theorem Binding.exists_of_computed {α : Type} {document : Value} {path method : String}
    {options : Options} {lexicon : Name.Lexicon} {f : Binding TypeExpr → α} {value : α}
    (computed : ((ofDocument document path method options lexicon).toOption.bind (·.1)).map f =
      some value) :
    ∃ binding warnings,
      ofDocument document path method options lexicon = .ok (some binding, warnings) ∧
      f binding = value := by
  cases made : ofDocument document path method options lexicon with
  | error failure => simp [made, Except.toOption] at computed
  | ok answer =>
      obtain ⟨found, warnings⟩ := answer
      cases found with
      | none => simp [made, Except.toOption] at computed
      | some binding =>
          exact ⟨binding, warnings, rfl, by simpa [made, Except.toOption] using computed⟩

namespace Site.Run

variable {site : Site} {binding : Binding TypeExpr}

/-! ## The parts are settled in turn -/

theorem path_settles (run : site.Run binding) :
    Session.empty.Settles run.afterPath ∧
      binding.pathRecord.toList ⊆ run.afterPath.catalog.names :=
  settling_groupRecord _ _ _ Session.closed_empty (List.nil_subset _) run.path

theorem query_settles (run : site.Run binding) :
    run.afterPath.Settles run.afterQuery ∧
      binding.queryRecord.toList ⊆ run.afterQuery.catalog.names :=
  settling_groupRecord _ _ _ run.path_settles.1.closed (List.nil_subset _) run.query

theorem body_settles (run : site.Run binding) : run.afterQuery.Settles run.afterBody :=
  (settling_body _ _ _ _ _ _ _ run.query_settles.1.closed (List.nil_subset _) run.typedBody).1

theorem response_settles (run : site.Run binding) : run.afterBody.Settles run.afterResponse :=
  (settling_responseType _ _ _ _ _ run.body_settles.closed (List.nil_subset _) run.response).1

end Site.Run

end ApiBinding
