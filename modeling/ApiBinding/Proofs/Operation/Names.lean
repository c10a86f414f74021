import ApiBinding.Proofs.Name.Identifier
import ApiBinding.Proofs.Operation.Added

/-! The names in a binding are identifiers: that of the operation, those of the definitions that
become records, and those of the operation's own records, which begin with the name of the
operation. -/

namespace ApiBinding

namespace Synthesis

open ApiBinding.Schema

variable {scope : Scope} {own : String → Prop}

/-! ## Records of definitions -/

/-- The names of definitions have a property. -/
def NamesDefinitions (scope : Scope) (own : String → Prop) : Prop :=
  ∀ key, own (Name.ofDefinition scope.lexicon scope.options key)

theorem RecordDerivation.adds_named {typed : Judgement}
    (adding : typed.Adding fun record => own record.name) {result : Except Failure TypeExpr}
    {session : Session} {name : String} {schema : Mapping} {after : Session} {events : List Event}
    (derivation : RecordDerivation scope typed result session name schema after events)
    (named : own name) : session.Adds (fun record => own record.name) after := by
  cases derivation with
  | taken _ => exact session.adds_refl
  | unreadable _ _ => exact session.adds_reserve name
  | broken _ _ steps => exact (session.adds_reserve name).trans (steps.adds adding)
  | stored _ _ steps =>
      refine ((session.adds_reserve name).trans (steps.adds adding)).trans ?_
      exact Session.adds_store _ named

/-- The records that typing adds are named after definitions. -/
theorem TypeDerivation.adds_named (names : NamesDefinitions scope own) {session : Session}
    {node : Value} {result : Except Failure TypeExpr} {after : Session} {events : List Event}
    (derivation : TypeDerivation scope session node result after events) :
    session.Adds (fun record => own record.name) after := by
  induction derivation using TypeDerivation.induct with
  | done _ => exact Session.adds_refl _
  | compose _ steps => exact steps.adds fun _ _ _ _ _ both => both.choose_spec
  | declare work record =>
      obtain ⟨_, _, defined⟩ := workOf_eq_declare work
      refine record.adds_named (fun _ _ _ _ _ both => both.choose_spec) ?_
      cases definitionOf_eq_ok defined with
      | record _ _ _ => exact names _
  | expand _ _ ih => exact ih

theorem adding_declareRecord_named (names : NamesDefinitions scope own) {name : String}
    (named : own name) (schema : Mapping) :
    Adding (fun record => own record.name) (declareRecord scope name schema) := by
  intro session type after success
  obtain ⟨_, derivation⟩ := declareRecord_derivation scope session name schema (le_refl _)
  change outcome (declareWith scope (typeWithin scope _) name schema) session = _ at success
  rw [success] at derivation
  exact derivation.adds_named (fun _ _ _ _ _ typed => typed.adds_named names) named

end Synthesis

open Synthesis Operation

/-! ## Records of an operation -/

theorem Operation.typingAdds_named {scope : Scope} {stem : String} {own : String → Prop}
    (names : NamesDefinitions scope own) (body : own (stem ++ "Body"))
    (response : own (stem ++ "Response")) :
    TypingAdds scope stem fun record => own record.name where
  printed node := by
    intro session type after success
    obtain ⟨_, derivation⟩ := printedType_derivation success
    exact derivation.adds_named names
  declared suffix member schema := by
    have named : own (stem ++ suffix) := by
      rcases List.mem_cons.mp member with rfl | member
      · exact body
      · obtain rfl := List.mem_singleton.mp member
        exact response
    exact adding_declareRecord_named names named schema

namespace Site.Run

variable {site : Site} {binding : Binding TypeExpr}

/-- A property that the names of definitions and of the operation's own records have is one of
all record names. -/
theorem forall_record_name (run : site.Run binding) (own : String → Prop)
    (names : ∀ key, own (Name.ofDefinition site.lexicon site.options key))
    (parts : ∀ suffix ∈ ["PathVar", "Query", "Body", "Response"], own (site.stem ++ suffix)) :
    ∀ record ∈ binding.records, own record.name := by
  have typing : ∀ placement,
      TypingAdds (site.scope placement) site.stem fun record => own record.name :=
    fun placement => typingAdds_named names (parts _ (by simp)) (parts _ (by simp))
  have path : Session.empty.Adds (fun record => own record.name) run.afterPath := by
    refine (adding_groupRecord (typing _) _ _ run.path).mono ?_
    rintro record (typed | group)
    · exact typed
    · rw [group.name]
      exact parts _ (by simp)
  have query : run.afterPath.Adds (fun record => own record.name) run.afterQuery := by
    refine (adding_groupRecord (typing _) _ _ run.query).mono ?_
    rintro record (typed | group)
    · exact typed
    · rw [group.name]
      exact parts _ (by simp)
  have body : run.afterQuery.Adds (fun record => own record.name) run.afterBody := by
    refine (adding_body (typing _) _ _ _ _ _ run.typedBody).mono ?_
    rintro record (typed | ⟨-, group⟩)
    · exact typed
    · rw [group.name]
      exact parts _ (by simp)
  have response : run.afterBody.Adds (fun record => own record.name) run.afterResponse :=
    adding_responseType (typing _) _ _ _ run.response
  exact run.forall_records path query body response

end Site.Run

namespace Binding

open Name

/-- Every name is an identifier if the lexicon spells ideographs in plain letters: the record
name of any definition, the name of any operation, and with them the name of a binding and of
each of its records, whatever the document, the path and the identifier of the operation. The
name of an operation is no reserved word. -/
theorem names_are_identifiers {lexicon : Lexicon} (spells : lexicon.SpellsPlainly) :
    (∀ raw, isIdentifier (ofDefinition lexicon {} raw) = true) ∧
    (∀ identifier method path, method.toList.all isPlain = true →
      isIdentifier (Name.ofOperation lexicon {} identifier method path) = true ∧
      isReserved (Name.ofOperation lexicon {} identifier method path) = false) ∧
    ∀ document path method binding warnings, method.toList.all isPlain = true →
      ofDocument document path method {} lexicon = .ok (some binding, warnings) →
      isIdentifier binding.name = true ∧ isReserved binding.name = false ∧
      ∀ record ∈ binding.records, isIdentifier record.name = true := by
  have definitions := isIdentifier_ofDefinition spells guardsNames_default
  refine ⟨definitions, fun identifier method path plain =>
    isIdentifier_ofOperation spells guardsNames_default identifier plain path, ?_⟩
  intro document path method binding warnings plain h
  obtain ⟨site, located, ⟨run⟩⟩ := exists_run h
  obtain ⟨lowered, options, given⟩ := Site.given_of_ofDocument located
  have plain' : site.method.toList.all isPlain = true := by
    rw [lowered, String.toList_ofList]
    exact lowerAfter_plain plain []
  rw [← given] at spells definitions
  have operation := isIdentifier_ofOperation spells (options ▸ guardsNames_default)
    (site.operation.field "operationId").text? plain' site.path
  rw [run.name]
  refine ⟨operation.1, operation.2, run.forall_record_name (isIdentifier · = true) ?_ ?_⟩
  · rw [options]
    exact definitions
  · intro suffix member
    have marked : ∀ suffix ∈ ["PathVar", "Query", "Body", "Response"],
        suffix.toList.all isPlain = true := by
      decide
    exact isIdentifier_append (isIdentifier_upperFirst operation.1) (marked suffix member)

/-- The standard readings, and one reading for every other ideograph. -/
def fullLexicon : Lexicon where
  reading? c :=
    if isIdeograph c then some ((Lexicon.readings.lookup c).getD "zi") else none
  phrases := Lexicon.standard.phrases

theorem spellsPlainly_fullLexicon : fullLexicon.SpellsPlainly where
  complete c ideograph := by simp [fullLexicon, ideograph]
  readings c letters known := by
    have plain : ∀ entry ∈ Lexicon.readings, entry.2.toList.all isPlain = true := by
      decide +kernel
    simp only [fullLexicon] at known
    split at known
    · obtain rfl := Option.some.inj known
      cases listed : Lexicon.readings.lookup c with
      | none => decide
      | some letters =>
          obtain ⟨before, after, split, _⟩ := List.lookup_eq_some_iff.mp listed
          exact plain (c, letters) (by simp [split])
    · simp at known
  phrases phrase letters member := by
    have plain : ∀ entry ∈ fullLexicon.phrases, entry.2.toList.all isPlain = true := by
      decide +kernel
    exact plain (phrase, letters) member

/-- An operation whose identifier is a reserved word, with definitions named by a reserved word,
by ideographs and by a number. -/
def orderFormDocument : Value :=
  .ofFields [
    ("swagger", .text "2.0"),
    ("definitions", .ofFields [
      ("class", .ofFields [("properties", .ofFields [
        ("next", .ofFields [("$ref", .text "#/definitions/shop.订单")])])]),
      ("shop.订单", .ofFields [("properties", .ofFields [
        ("code", .ofFields [("$ref", .text "#/definitions/2fa«A»")])])]),
      ("2fa«A»", .ofFields [("properties", .ofFields [
        ("digits", .ofFields [("type", .text "string")])])])]),
    ("paths", .ofFields [
      ("/订单/\x7bid\x7d", .ofFields [
        ("delete", .ofFields [
          ("operationId", .text "delete"),
          ("responses", .ofFields [
            ("200", .ofFields [
              ("schema", .ofFields [("$ref", .text "#/definitions/class")])])])])])])]

theorem names_of_orderFormDocument :
    ∃ binding warnings,
      ofDocument orderFormDocument "/订单/\x7bid\x7d" "DELETE" {} fullLexicon =
        .ok (some binding, warnings) ∧
      (binding.name, binding.records.map (·.name)) = ("deleteUsingDELETE",
        ["DeleteUsingDELETEPathVar", "__openAPI__class", "dingdan", "Pinyin_2faA"]) ∧
      isIdentifier binding.name = true ∧ isReserved binding.name = false ∧
      ∀ record ∈ binding.records, isIdentifier record.name = true := by
  have computed :
      ((ofDocument orderFormDocument "/订单/\x7bid\x7d" "DELETE" {} fullLexicon).toOption.bind
        (·.1)).map (fun binding => (binding.name, binding.records.map (·.name))) =
      some ("deleteUsingDELETE",
        ["DeleteUsingDELETEPathVar", "__openAPI__class", "dingdan", "Pinyin_2faA"]) := by
    decide +kernel
  obtain ⟨binding, warnings, made, names⟩ := exists_of_computed computed
  have plain : "DELETE".toList.all isPlain = true := by decide
  have identifiers := (names_are_identifiers spellsPlainly_fullLexicon).2.2
  exact ⟨binding, warnings, made, names, identifiers _ _ _ _ _ plain made⟩

end Binding

end ApiBinding
