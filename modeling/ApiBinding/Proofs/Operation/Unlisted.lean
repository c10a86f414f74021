import ApiBinding.Proofs.Operation.Selection
import ApiBinding.Proofs.Reference.Around

/-! Responses that no listed status code reaches do not matter. In a document with other responses
under the same reached keys an operation has the same answer, unless a reference that is followed
leads to the responses or to a place around them where the way to them is read. -/

namespace ApiBinding

open Value

namespace Operation

open Synthesis Schema

/-- Steps that go on alike from alike ends are the same. -/
theorem lift_bind_congr {α β γ : Type} {related : α → β → Prop} {result : Except Failure α}
    {other : Except Failure β} (ends : SameEnd related result other) {next : α → Synthesis γ}
    {next' : β → Synthesis γ} (alike : ∀ a b, related a b → next a = next' b) :
    (Synthesis.lift result >>= next) = (Synthesis.lift other >>= next') := by
  cases ends with
  | failed failure => rfl
  | done both => exact alike _ _ both

/-! ## Other responses -/

/-- A document in which an operation has other responses. -/
def withResponses (document : Mapping) (path method : String) (responses : Mapping) : Mapping :=
  match find? document path method with
  | none => document
  | some (item, operation) =>
    let paths := (document.field "paths").object?.getD []
    let operation := operation.insert (.text "responses") (.object responses)
    document.insert (.text "paths") (.object (paths.insert (.text path)
      (.object (item.insert (.text method) (.object operation)))))

/-- The keys that lead to the responses of an operation. -/
def responsesPath (path method : String) : List String :=
  ["paths", path, method, "responses"]

/-- The nodes from which references are followed: the parameters, the request body and the entries
of the listed status codes. -/
def consulted (item operation responses : Mapping) (codes : List String) : List Value :=
  listed item ++ listed operation ++
    operation.field "requestBody" :: codes.map (statusEntry responses)

variable {scope : Scope} {document document' item item' operation operation' responses : Mapping}
  {path method : String}

/-- The ends of the references in a node are the same in both documents, for whoever reads only the
keys of parameters, request bodies and responses. -/
def ReadAlike (document document' : Mapping) (node : Value) : Prop :=
  SameEnd (DifferOutside readKeys) (Pointer.follow (.object document) node)
    (Pointer.follow (.object document') node)

/-! ## Parameters -/

theorem rawParameters_eq (document parent : Mapping) :
    rawParameters document parent = (do
      let targets ← (listed parent).mapM (Pointer.follow (.object document))
      .ok (targets.filterMap Value.object?)) := by
  unfold rawParameters listed
  cases parent.field "parameters" <;> rfl

theorem rawParameters_alike {parent parent' : Mapping} (same : listed parent' = listed parent)
    (alike : ∀ node ∈ listed parent, ReadAlike document document' node) :
    SameEnd (List.Forall₂ SameReading) (rawParameters document parent)
      (rawParameters document' parent') := by
  rw [rawParameters_eq, rawParameters_eq, same]
  exact (SameEnd.mapM alike).bind fun targets targets' all => .done (forall₂_sameReading all)

theorem parameters_alike (dialect : Dialect) (shared : listed item' = listed item)
    (own : listed operation' = listed operation)
    (alike : ∀ node ∈ listed item ++ listed operation, ReadAlike document document' node) :
    parameters dialect document' item' operation' = parameters dialect document item operation := by
  obtain ⟨ofItem, ofOperation⟩ := List.forall_mem_append.mp alike
  refine (SameEnd.eq ?_).symm
  unfold parameters
  refine (rawParameters_alike shared ofItem).bind fun raws raws' same => ?_
  refine (rawParameters_alike own ofOperation).bind fun owns owns' sameOwn => ?_
  refine (merge_sameReading same sameOwn).bind fun merged merged' sameAll => ?_
  rw [mapM_normalize_eq dialect sameAll]
  exact .refl _

/-! ## Bodies and responses -/

/-- A second document, in which the operation has other responses, but the same under all keys that
the listed status codes have. -/
structure Unlisted (document document' item item' operation operation' responses : Mapping)
    (codes : List String) : Prop where
  ascii : ∀ code ∈ codes, IsAscii code
  shared : listed item' = listed item
  others : ∀ key, key ≠ "responses" → operation'.field key = operation.field key
  consumes : document'.field "consumes" = document.field "consumes"
  declared : operation.field "responses" = .object responses
  declared' : ∃ responses' : Mapping, operation'.field "responses" = .object responses' ∧
    ∀ code ∈ codes, ∀ key ∈ statusKeys code, responses'.get? key = responses.get? key
  alike : ∀ node ∈ consulted item operation responses codes, ReadAlike document document' node

namespace Unlisted

variable {options : Options} {dialect : Dialect}

theorem comment_eq (h : Unlisted document document' item item' operation operation' responses
    options.responseCodes) : comment operation' = comment operation := by
  simp only [comment, List.filterMap_cons, List.filterMap_nil, h.others "summary" (by decide),
    h.others "description" (by decide)]

theorem parameters_eq (h : Unlisted document document' item item' operation operation' responses
    options.responseCodes) :
    parameters dialect document' item' operation' = parameters dialect document item operation := by
  have own : listed operation' = listed operation := by
    simp only [listed, h.others "parameters" (by decide)]
  exact parameters_alike dialect h.shared own fun node member =>
    h.alike node (List.mem_append_left _ member)

theorem body_eq (h : Unlisted document document' item item' operation operation' responses
    options.responseCodes) (stem : String) (placeholders : List String) (forms : List Parameter) :
    body scope dialect document' operation' stem placeholders forms =
      body scope dialect document operation stem placeholders forms := by
  cases dialect with
  | swagger2 =>
      have consumed : consumedMedia document' operation' =
          consumedMedia document operation := by
        simp only [consumedMedia, h.others "consumes" (by decide), h.consumes]
      simp only [body, swaggerBody, consumed]
  | openApi3 =>
      have request := h.alike (operation.field "requestBody") (by simp [consulted])
      simp only [body, openApiBody_eq, h.others "requestBody" (by decide)]
      refine (lift_bind_congr request fun target target' differ => ?_).symm
      rw [field_differ differ (by decide)]

theorem selectedSchema_eq (h : Unlisted document document' item item' operation operation'
    responses options.responseCodes) :
    selectedSchema dialect options document' operation' =
      selectedSchema dialect options document operation := by
  obtain ⟨responses', declared', agree⟩ := h.declared'
  unfold selectedSchema
  rw [h.declared, declared']
  dsimp only
  rw [selectResponse_congr h.ascii agree]
  cases selected : selectResponse responses options.responseCodes with
  | error failure => rfl
  | ok chosen =>
      cases chosen with
      | none => rfl
      | some entry =>
          have member := List.mem_cons_of_mem (operation.field "requestBody")
            (mem_of_selectResponse_ascii h.ascii selected)
          refine (SameEnd.eq ((h.alike entry (List.mem_append_right _ member)).bind ?_)).symm
          intro target target' differ
          cases differ with
          | same _ => exact .refl _
          | entry entries value unread =>
              simp only [responseSchema?_insert dialect entries unread]
              exact .refl _

theorem bindingOf_eq (scope : Scope) (dialect : Dialect) (h : Unlisted document document' item item'
    operation operation' responses scope.options.responseCodes) (path method : String) :
    bindingOf scope dialect document' item' operation' path method =
      bindingOf scope dialect document item operation path method := by
  unfold bindingOf
  simp only [h.others "operationId" (by decide), h.comment_eq, h.parameters_eq, h.body_eq,
    responseType_eq, h.selectedSchema_eq]

end Unlisted

/-! ## Documents with other responses -/

section

variable (found : find? document path method = some (item, operation))
include found

theorem withResponses_eq {paths : Mapping}
    (inDocument : document.find? "paths" = some (.object paths)) (others : Mapping) :
    withResponses document path method others =
      document.insert (.text "paths") (.object (paths.insert (.text path)
        (.object (item.insert (.text method)
          (.object (operation.insert (.text "responses") (.object others))))))) := by
  simp only [withResponses, found, Mapping.field, inDocument, Option.getD_some, Value.object?]

theorem find?_withResponses (others : Mapping) :
    find? (withResponses document path method others) path method =
      some (item.insert (.text method)
        (.object (operation.insert (.text "responses") (.object others))),
        operation.insert (.text "responses") (.object others)) := by
  obtain ⟨paths, inDocument, -, -⟩ := place_of_find? found
  rw [withResponses_eq found inDocument, find?_withItem, Mapping.field_insert_self]
  rfl

theorem replaced_withResponses (declared : operation.field "responses" = .object responses)
    (others : Mapping) :
    Replaced (.object responses) (.object others) (responsesPath path method) (.object document)
      (.object (withResponses document path method others)) := by
  obtain ⟨paths, inDocument, inPaths, own⟩ := place_of_find? found
  rw [withResponses_eq found inDocument]
  exact .under inDocument (.under inPaths (.under own
    (.under (Mapping.find?_of_field declared (by simp)) .here)))

theorem unlisted_withResponses (declared : operation.field "responses" = .object responses)
    {others : Mapping} {codes : List String} (ascii : ∀ code ∈ codes, IsAscii code)
    (agree : ∀ code ∈ codes, ∀ key ∈ statusKeys code, others.get? key = responses.get? key)
    (spares : ∀ node ∈ consulted item operation responses codes, ∀ ref,
      Pointer.Meets (.object document) node ref →
        Pointer.Spares readKeys (responsesPath path method) ref) :
    Unlisted document (withResponses document path method others) item
      (item.insert (.text method) (.object (operation.insert (.text "responses") (.object others))))
      operation (operation.insert (.text "responses") (.object others)) responses codes where
  ascii := ascii
  shared := by
    unfold listed
    rw [list?_insert_operation found]
  others key other := Mapping.field_insert_of_ne _ _ (Ne.symm other)
  consumes := by
    obtain ⟨paths, inDocument, -, -⟩ := place_of_find? found
    rw [withResponses_eq found inDocument, Mapping.field_insert_of_ne _ _ (by decide)]
  declared := declared
  declared' := ⟨others, Mapping.field_insert_self _ _ _, agree⟩
  alike node member := Pointer.follow_spared (replaced_withResponses found declared others)
    (by decide) (spares node member)

end

end Operation

open Operation

namespace Binding

/-- The answer does not depend on responses that no listed status code reaches. -/
theorem ofOperation_withResponses {dialect : Dialect}
    {document item operation responses others : Mapping} {path method : String}
    {options : Options} {lexicon : Name.Lexicon}
    (found : find? document path method = some (item, operation))
    (declared : operation.field "responses" = .object responses)
    (ascii : ∀ code ∈ options.responseCodes, IsAscii code)
    (agree : ∀ code ∈ options.responseCodes, ∀ key ∈ statusKeys code,
      others.get? key = responses.get? key)
    (spares : ∀ node ∈ consulted item operation responses options.responseCodes, ∀ ref,
      Pointer.Meets (.object document) node ref →
        Pointer.Spares readKeys (responsesPath path method) ref) :
    ofOperation dialect (withResponses document path method others) path method options lexicon =
      ofOperation dialect document path method options lexicon := by
  have unlisted := unlisted_withResponses found declared ascii agree spares
  obtain ⟨paths, inDocument, -, -⟩ := place_of_find? found
  have definitions : dialect.definitions (withResponses document path method others) =
      dialect.definitions document := by
    rw [withResponses_eq found inDocument, definitions_insert_paths]
  unfold ofOperation
  rw [find?_withResponses found]
  simp only [found, definitions]
  refine SameEnd.eq ((SameEnd.refl _).bind ?_)
  rintro table _ rfl
  rw [Operation.Unlisted.bindingOf_eq ⟨⟨dialect.root, table⟩, options, lexicon, none⟩ dialect
    unlisted]
  exact .refl _

end Binding

/-- The response of a binding is that of an entry; without an entry there is none. -/
structure Site.RespondsWith (site : Site) (binding : Binding TypeExpr) (entry : Option Value) :
    Prop where
  typed : ∃ run : site.Run binding, Synthesis.outcome (site.typedEntry entry) run.afterBody =
    (.ok binding.response, run.afterResponse)
  absent : entry = none → binding.response = none

theorem Site.Run.respondsWith {site : Site} {binding : Binding TypeExpr} (run : site.Run binding)
    {entry : Option Value} (same : site.responseStep = site.typedEntry entry) :
    site.RespondsWith binding entry := by
  have typed := run.response
  rw [same] at typed
  refine ⟨⟨run, typed⟩, ?_⟩
  rintro rfl
  exact (Except.ok.inj (Prod.mk.inj typed).1).symm

namespace Binding

/-- Among the status codes, the first one with a usable entry has its response typed, and there is
no response without one, as long as no code with too many digits is looked up. Responses under keys
that no status code has are of no influence on the answer, be it a binding or a failure, if the
references that are followed spare the responses. -/
theorem response_of_first_usable {document responses : Mapping} {path method : String}
    {options : Options} {lexicon : Name.Lexicon} {site : Site}
    (located : Site.ofDocument (.object document) path method options lexicon = .ok (some site))
    (declared : site.operation.field "responses" = .object responses)
    (ascii : ∀ code ∈ options.responseCodes, IsAscii code) :
    ((∀ code, LookedUp responses options.responseCodes code → ReadableCode responses code) →
      site.responseStep = site.typedEntry (firstUsable responses options.responseCodes) ∧
      ∀ binding warnings,
        ofDocument (.object document) path method options lexicon = .ok (some binding, warnings) →
        site.RespondsWith binding (firstUsable responses options.responseCodes)) ∧
    ∀ others : Mapping,
      (∀ code ∈ options.responseCodes, ∀ key ∈ statusKeys code,
        others.get? key = responses.get? key) →
      (∀ node ∈ consulted site.item site.operation responses options.responseCodes, ∀ ref,
        Pointer.Meets (.object document) node ref →
          Pointer.Spares readKeys (responsesPath path site.method) ref) →
      ofDocument (.object (withResponses document path site.method others)) path method options
        lexicon = ofDocument (.object document) path method options lexicon := by
  obtain ⟨rfl, found, -, rfl, rfl, -⟩ := Site.of_ofDocument located
  obtain ⟨lowered, -, -⟩ := Site.given_of_ofDocument located
  rw [← lowered] at found
  constructor
  · intro readable
    have same := Site.responseStep_eq declared ascii readable
    refine ⟨same, fun binding warnings made => ?_⟩
    obtain ⟨other, located', ⟨run⟩⟩ := exists_run made
    obtain rfl := Option.some.inj (Except.ok.inj (located.symm.trans located'))
    exact run.respondsWith same
  · intro others agree spares
    obtain ⟨paths, inDocument, -, -⟩ := place_of_find? found
    have dialect : Dialect.ofDocument (withResponses site.document site.path site.method others) =
        Dialect.ofDocument site.document := by
      rw [withResponses_eq found inDocument, ofDocument_insert_paths]
    simp only [ofDocument, ← lowered, dialect]
    exact ofOperation_withResponses found declared ascii agree spares

/-- The site of an operation with given responses, one of which may be referred to. -/
def statusSite (responses : Mapping) : Site where
  document := [
    (.text "swagger", .text "2.0"),
    (.text "responses", .ofFields [
      ("Name", .ofFields [("schema", .ofFields [("type", .text "string")])])]),
    (.text "paths", .ofFields [
      ("/pets", .ofFields [("get", .ofFields [("responses", .object responses)])])])]
  item := [(.text "get", .ofFields [("responses", .object responses)])]
  operation := [(.text "responses", .object responses)]
  definitions := []
  path := "/pets"
  method := "get"
  options := {}
  lexicon := .standard

theorem ofDocument_statusSite (responses : Mapping) :
    Site.ofDocument (.object (statusSite responses).document) "/pets" "GET" {} .standard =
      .ok (some (statusSite responses)) :=
  Site.ofDocument_of_found (statusSite responses)
    (by decide +kernel : String.ofList (Text.lower "GET".toList) = "get") rfl rfl

/-- An empty response, one under a number, and a broken one that no usual status code reaches. -/
def statusResponses : Mapping := [
  (.text "default", .object []),
  (.int 200, .ofFields [("$ref", .text "#/responses/Name")]),
  (.text "500", .ofFields [("schema", .ofFields [("$ref", .text "#/definitions/Missing")])])]

/-- What holds of these five keys holds of all keys of the usual status codes. -/
theorem forall_usual_keys {p : Key → Prop}
    (h : ∀ key ∈ [.text "default", .text "200", .int 200, .text "201", .int 201], p key) :
    ∀ code ∈ ({} : Options).responseCodes, ∀ key ∈ statusKeys code, p key := by
  have keys : ({} : Options).responseCodes.flatMap statusKeys =
      [.text "default", .text "200", .int 200, .text "201", .int 201] := by decide +kernel
  intro code listed key own
  exact h key (keys ▸ List.mem_flatMap.mpr ⟨code, listed, own⟩)

theorem firstUsable_statusResponses :
    firstUsable statusResponses ({} : Options).responseCodes =
      some (.ofFields [("$ref", .text "#/responses/Name")]) := by
  rfl

/-- The one reference that is followed does not lead to the responses of the operation. -/
theorem spares_statusSite :
    ∀ node ∈ consulted (statusSite statusResponses).item (statusSite statusResponses).operation
      statusResponses ({} : Options).responseCodes, ∀ ref,
      Pointer.Meets (.object (statusSite statusResponses).document) node ref →
        Pointer.Spares readKeys (responsesPath "/pets" "get") ref := by
  have nodes : consulted (statusSite statusResponses).item (statusSite statusResponses).operation
      statusResponses ({} : Options).responseCodes =
      [.null, .object [], .ofFields [("$ref", .text "#/responses/Name")], .null] := rfl
  intro node member ref met
  rw [nodes] at member
  simp only [List.mem_cons, List.not_mem_nil, or_false] at member
  rcases member with rfl | rfl | rfl | rfl
  · exact (Pointer.not_meets rfl ref met).elim
  · exact (Pointer.not_meets rfl ref met).elim
  · cases met with
    | own found =>
        obtain rfl := Value.text.inj (Option.some.inj (found : some _ = some _))
        have pointed : Pointer.pathOf? "#/responses/Name" = some ["responses", "Name"] := by
          decide
        refine ⟨fun rest => ?_, fun steps name rest own onPath => ?_⟩
        · rw [pointed]
          simp [responsesPath]
        · rw [pointed] at own
          obtain rfl := Option.some.inj own
          simp [responsesPath] at onPath
    | next found reached later =>
        obtain rfl := Value.text.inj (Option.some.inj (found : some _ = some _))
        obtain rfl := Except.ok.inj (reached : Except.ok _ = Except.ok _)
        exact (Pointer.not_meets rfl ref later).elim
  · exact (Pointer.not_meets rfl ref met).elim

theorem response_of_first_usable_statusResponses :
    ∃ binding warnings,
      ofDocument (.object (statusSite statusResponses).document) "/pets" "GET" {} .standard =
        .ok (some binding, warnings) ∧
      binding.response.map (·.render) = some "string" ∧
      (statusSite statusResponses).RespondsWith binding
        (some (.ofFields [("$ref", .text "#/responses/Name")])) ∧
      ofDocument (.object (withResponses (statusSite statusResponses).document "/pets" "get"
        (statusResponses.take 2))) "/pets" "GET" {} .standard = .ok (some binding, warnings) := by
  have computed :
      ((ofDocument (.object (statusSite statusResponses).document) "/pets" "GET" {}
        .standard).toOption.bind (·.1)).map (fun binding => binding.response.map (·.render)) =
      some (some "string") := by decide +kernel
  obtain ⟨binding, warnings, made, response⟩ := exists_of_computed computed
  have ascii : ∀ code ∈ ({} : Options).responseCodes, IsAscii code := by decide
  have short : ∀ code ∈ ({} : Options).responseCodes, code.length ≤ Integer.digitLimit := by
    decide
  obtain ⟨selected, unlisted⟩ :=
    response_of_first_usable (ofDocument_statusSite statusResponses) rfl ascii
  obtain ⟨-, typed⟩ := selected fun code lookedUp _ _ => by
    obtain ⟨before, after, listed, -⟩ := lookedUp
    exact short code (listed ▸ List.mem_append_right _ List.mem_cons_self)
  refine ⟨binding, warnings, made, response, firstUsable_statusResponses ▸ typed _ _ made, ?_⟩
  rw [← made]
  refine unlisted _ (forall_usual_keys fun key member => ?_) spares_statusSite
  simp only [List.mem_cons, List.not_mem_nil, or_false] at member
  rcases member with rfl | rfl | rfl | rfl | rfl <;> rfl

/-- The request body of the operation refers to the path of the operation, where the method has the
name of the key under which a body has its content. -/
def aroundDocument (responses : Mapping) : Mapping := [
  (.text "openapi", .text "3.0.0"),
  (.text "paths", .ofFields [("/pets", .ofFields [("content", .ofFields [
    ("responses", .object responses),
    ("requestBody", .ofFields [("$ref", .text "#/paths/~1pets")])])])])]

def petResponses : Mapping := [
  (.text "schema", .ofFields [
    ("properties", .ofFields [("id", .ofFields [("type", .text "integer")])])])]

/-- A code of digits, one more than are read. -/
def longCode : String :=
  String.ofList (List.replicate (Integer.digitLimit + 1) '2')

theorem digits_longCode : ∀ c ∈ longCode.toList, c = '2' := by
  simp [longCode]

theorem ascii_longCode : IsAscii longCode := by
  intro c member
  rw [digits_longCode c member]
  decide

theorem unreadable_longCode : ¬ ReadableCode [] longCode := by
  intro readable
  have length : longCode.length = Integer.digitLimit + 1 := by simp [longCode]
  have nonempty : longCode ≠ "" := by
    rintro same
    simp [same] at length
  have digits : longCode.toList.all Char.isDigit = true := by
    refine List.all_eq_true.mpr fun c member => ?_
    rw [digits_longCode c member]
    decide
  have number : (statusNumber? longCode).isSome = true := by
    rw [statusNumber?, if_pos ⟨nonempty, digits⟩]
    rfl
  have := readable rfl number
  omega

/-- A response that no status code reaches makes a record, although no text of the document is a
reference to the responses or into them; and a code with too many digits ends in a failure, although
no code has a usable entry. -/
theorem record_of_unlisted_response :
    (∀ code ∈ ({} : Options).responseCodes, ∀ key ∈ statusKeys code,
      Mapping.get? [] key = petResponses.get? key) ∧
    (∀ text ∈ (Value.object (aroundDocument petResponses)).texts, ∀ rest,
      Pointer.pathOf? text ≠ some (responsesPath "/pets" "content" ++ rest)) ∧
    (∃ binding warnings,
      ofDocument (.object (aroundDocument petResponses)) "/pets" "CONTENT" {} .standard =
        .ok (some binding, warnings) ∧ binding.records.map (·.name) = ["ContentPetsBody"]) ∧
    (∃ binding warnings,
      ofDocument (.object (aroundDocument [])) "/pets" "CONTENT" {} .standard =
        .ok (some binding, warnings) ∧ binding.records.map (·.name) = []) ∧
    IsAscii longCode ∧ firstUsable [] [longCode] = none ∧
    selectResponse [] [longCode] = .error (.defect .statusNotDecimal) := by
  have withRecord :
      ((ofDocument (.object (aroundDocument petResponses)) "/pets" "CONTENT" {}
        .standard).toOption.bind (·.1)).map (fun binding => binding.records.map (·.name)) =
      some ["ContentPetsBody"] := by decide +kernel
  have without :
      ((ofDocument (.object (aroundDocument [])) "/pets" "CONTENT" {} .standard).toOption.bind
        (·.1)).map (fun binding => binding.records.map (·.name)) = some [] := by decide +kernel
  have places : ∀ text ∈ (Value.object (aroundDocument petResponses)).texts,
      Pointer.pathOf? text = none ∨ Pointer.pathOf? text = some ["paths", "/pets"] := by
    decide +kernel
  refine ⟨forall_usual_keys fun key member => ?_, ?_, exists_of_computed withRecord,
    exists_of_computed without, ascii_longCode, ?_, ?_⟩
  · simp only [List.mem_cons, List.not_mem_nil, or_false] at member
    rcases member with rfl | rfl | rfl | rfl | rfl <;> rfl
  · intro text member rest same
    rcases places text member with none | place
    · simp [none] at same
    · simp [place, responsesPath] at same
  · have absent : Mapping.field [] longCode = .null := rfl
    simp [firstUsable, statusEntry_of_null absent, Mapping.get?, Value.isTruthy]
  · rw [selectResponse, responseEntry_of_unreadable ascii_longCode unreadable_longCode]
    rfl

end Binding

end ApiBinding
