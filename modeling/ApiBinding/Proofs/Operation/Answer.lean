import ApiBinding.Proofs.Operation.Obstacle

/-! What comes of a request for the binding of an operation: an answer, a fault with a message, or a
defect. In a document with texts as keys a defect is one of a few kinds and has an obstacle at the
site of the operation. -/

namespace ApiBinding

open Operation Synthesis Schema

/-! ## Kinds of defects -/

/-- The defects for which there can be an obstacle. -/
def obstacleKinds : List Defect := [
  .collectionReference, .collectionParameterKey, .membersNotIterable, .enumWithoutValues,
  .itemsMissing, .itemsNotMapping, .statusNotDecimal, .integerTooLong]

theorem kind_of_blocked {document node : Value} {defect : Defect}
    (h : Pointer.Blocked document node defect) : defect ∈ obstacleKinds := by
  obtain ⟨entries, -, stopper⟩ := h
  generalize entries.field "$ref" = target at stopper
  cases stopper <;> decide

theorem kind_of_unreadable {table : Table} {schema : Mapping} {defect : Defect}
    (h : Unreadable table schema defect) : defect ∈ obstacleKinds := by
  cases h
  decide

theorem kind_of_meets {scope : Scope} {request : Request} {defect : Defect}
    (h : request.Meets scope defect) : defect ∈ obstacleKinds := by
  obtain ⟨last, -, flaw⟩ := h
  cases flaw with
  | shapeless rule => cases rule <;> decide
  | unshown _ _ => decide
  | properties unreadable => exact kind_of_unreadable unreadable

theorem kind_of_untold {table : Table} {schema : Value} {defect : Defect}
    (h : Untold table schema defect) : defect ∈ obstacleKinds := by
  cases h with
  | properties _ unreadable => exact kind_of_unreadable unreadable

namespace Site

theorem Obstacle.kind {site : Site} {defect : Defect} (h : site.Obstacle defect) :
    defect ∈ obstacleKinds := by
  cases h with
  | parameters flaw =>
      cases flaw with
      | reference _ _ blocked => exact kind_of_blocked blocked
      | label _ _ _ _ => decide
  | group _ _ meets =>
      obtain ⟨_, _, _, _, met⟩ := meets
      exact kind_of_meets met
  | request _ blocked => exact kind_of_blocked blocked
  | mediaType _ _ => decide
  | body _ _ flaw =>
      cases flaw with
      | files _ untold => exact kind_of_untold untold
      | marks _ _ _ unmarkable =>
          obtain ⟨_, _, _, _, _, flaw⟩ := unmarkable
          cases flaw <;> decide
      | record _ _ _ met => exact kind_of_meets met
      | type _ met => exact kind_of_meets met
  | laterForm _ _ untold => exact kind_of_untold untold
  | responses flaw =>
      cases flaw with
      | status _ _ => decide
      | reference _ blocked => exact kind_of_blocked blocked
  | response _ met => exact kind_of_meets met

/-! ## Answers -/

/-- A document without the operation's site has a fault, or no such operation. -/
theorem ends_ofDocument (document : Value) (path method : String) (options : Options)
    (lexicon : Name.Lexicon) {cause : Defect → Prop} :
    Ends (Site.ofDocument document path method options lexicon) (fun _ => True) (Stops cause) := by
  have table (parent : Mapping) (key : String) (name : TableName) :
      Ends (Dialect.tableIn parent key name) (fun _ => True) (Stops cause) := by
    unfold Dialect.tableIn
    split
    · exact .ok trivial
    · split
      · exact .error (.fault _)
      · exact .ok trivial
  cases document with
  | object entries =>
      simp only [Site.ofDocument]
      split
      · exact .ok trivial
      · apply Ends.map
        cases Dialect.ofDocument entries with
        | swagger2 => exact table _ _ _
        | openApi3 => exact (table _ _ _).bind fun components _ => table components _ _
  | _ => exact .error (.fault _)

end Site

namespace Binding

/-- In a document with texts as keys an operation has an answer or a fault, unless its site has an
obstacle. -/
theorem ends_ofDocument {document : Value} (texts : document.isTextKeyed = true)
    (path method : String) (options : Options) (lexicon : Name.Lexicon) :
    Ends (ofDocument document path method options lexicon) (fun _ => True)
      (Stops fun defect =>
        ∃ site, Site.ofDocument document path method options lexicon = .ok (some site) ∧
          site.Obstacle defect) := by
  rw [ofDocument_eq_site]
  refine (Site.ends_ofDocument document path method options lexicon).found.bind ?_
  rintro found ⟨located, -⟩
  cases found with
  | none => exact .ok trivial
  | some site =>
      have keyed := Site.textKeyed_of_ofDocument texts located
      have run := Site.ending_bindingStep keyed .empty
      refine Ends.map ((run.widen ?_).mono (fun _ _ => trivial) fun _ => id)
      exact fun defect obstacle => ⟨site, located, obstacle⟩

/-- An operation of a document with texts as keys has an answer or a fault with a message. Anything
else is one of eight defects, and has its obstacle at the site of the operation: a collection as a
reference or as the name or location of a parameter, composition members that are no list, the type
of an enumeration without values, a file list that its own property does not describe, a status code
that is no number, or an integer that is too long in a value that is written. -/
theorem answer_or_fault_or_obstacle {document : Value} (texts : document.isTextKeyed = true)
    (path method : String) (options : Options) (lexicon : Name.Lexicon) :
    (∃ answer, ofDocument document path method options lexicon = .ok answer) ∨
    (∃ cause, ofDocument document path method options lexicon = .error (.fault cause)) ∨
    ∃ defect ∈ obstacleKinds,
      ofDocument document path method options lexicon = .error (.defect defect) ∧
      ∃ site, Site.ofDocument document path method options lexicon = .ok (some site) ∧
        site.Obstacle defect := by
  have ends := ends_ofDocument texts path method options lexicon
  cases made : ofDocument document path method options lexicon with
  | ok answer => exact .inl ⟨answer, rfl⟩
  | error failure =>
      refine .inr ?_
      cases ends.stops made with
      | fault cause => exact .inl ⟨cause, rfl⟩
      | defect blocked =>
          obtain ⟨site, located, obstacle⟩ := blocked
          exact .inr ⟨_, obstacle.kind, rfl, site, located, obstacle⟩

/-! ## Requests that stop -/

/-- The failure of a computation that has one. -/
def failure? {α : Type} : Except Failure α → Option Failure
  | .ok _ => none
  | .error failure => some failure

theorem eq_error_of_failure? {α : Type} {result : Except Failure α} {failure : Failure}
    (h : failure? result = some failure) : result = .error failure := by
  cases result with
  | ok value => simp [failure?] at h
  | error own => rw [Option.some.inj h]

/-- A document with one operation. -/
def documentOf (operation : List (String × Value)) : Value :=
  .ofFields [
    ("openapi", .text "3.0.0"),
    ("paths", .ofFields [("/pets", .ofFields [("post", .ofFields operation)])])]

/-- A document with one operation, whose response has a schema. -/
def respondingWith (schema : List (String × Value)) : Value :=
  documentOf [("responses", .ofFields [("200", .ofFields [
    ("content", .ofFields [("application/json", .ofFields [("schema", .ofFields schema)])])])])]

/-- A response with the type of an enumeration, without values. -/
def enumerationDocument : Value :=
  respondingWith [("type", .text "enum")]

/-- A form that has a file list from a part of it, and a property of its own in its place. -/
def scansSchema (own : List (String × Value)) : Mapping := [
  (.text "properties", .ofFields [("scans", .ofFields own)]),
  (.text "allOf", .list [.ofFields [("properties", .ofFields [("scans", .ofFields [
    ("type", .text "array"), ("items", .ofFields [("format", .text "binary")])])])]])]

/-- Documents with a defect, which is found with the usual options. -/
def stoppedDocuments : List (Value × Defect) := [
  (documentOf [("parameters", .list [.ofFields [("$ref", .list [.text "#/pages"])]])],
    .collectionReference),
  (documentOf [("parameters", .list [.ofFields [("name", .list []), ("in", .text "query")]])],
    .collectionParameterKey),
  (respondingWith [("properties", .ofFields [("name", .ofFields [])]), ("allOf", .bool true)],
    .membersNotIterable),
  (enumerationDocument, .enumWithoutValues),
  (uploadDocument (scansSchema []), .itemsMissing),
  (uploadDocument (scansSchema [("items", .null)]), .itemsNotMapping),
  (respondingWith [("enum", .list [.int (10 ^ Integer.digitLimit)])], .integerTooLong)]

/-- Text keys and status codes of the first 128 characters do not keep a run from ending with a
defect. -/
theorem defect_of_stoppedDocuments :
    (∀ code ∈ ({} : Options).responseCodes, ∀ c ∈ code.toList, c.toNat < 128) ∧
    ∀ entry ∈ stoppedDocuments, entry.1.isTextKeyed = true ∧
      ofDocument entry.1 "/pets" "POST" {} .standard = .error (.defect entry.2) := by
  refine ⟨by simp, ?_⟩
  have computed : stoppedDocuments.all (fun entry => entry.1.isTextKeyed &&
      failure? (ofDocument entry.1 "/pets" "POST" {} .standard) == some (.defect entry.2)) =
      true := by
    decide +kernel
  intro entry member
  obtain ⟨texts, stopped⟩ := Bool.and_eq_true_iff.mp (List.all_eq_true.mp computed entry member)
  exact ⟨texts, eq_error_of_failure? (eq_of_beq stopped)⟩

theorem obstacle_of_enumerationDocument :
    enumerationDocument.isTextKeyed = true ∧
      ofDocument enumerationDocument "/pets" "POST" {} .standard =
        .error (.defect .enumWithoutValues) ∧
      ∃ site,
        Site.ofDocument enumerationDocument "/pets" "POST" {} .standard = .ok (some site) ∧
        site.Obstacle .enumWithoutValues := by
  have texts : enumerationDocument.isTextKeyed = true := by decide +kernel
  have computed : failure? (ofDocument enumerationDocument "/pets" "POST" {} .standard) =
      some (.defect .enumWithoutValues) := by decide +kernel
  have stopped := eq_error_of_failure? computed
  refine ⟨texts, stopped, ?_⟩
  rcases answer_or_fault_or_obstacle texts "/pets" "POST" {} .standard with
    ⟨answer, made⟩ | ⟨cause, made⟩ | ⟨defect, -, made, obstacle⟩
  · rw [stopped] at made
    simp at made
  · rw [stopped] at made
    simp at made
  · rw [stopped] at made
    obtain rfl := Failure.defect.inj (Except.error.inj made)
    exact obstacle

end Binding

end ApiBinding
