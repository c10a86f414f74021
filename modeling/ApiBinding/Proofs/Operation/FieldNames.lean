import ApiBinding.Proofs.Operation.Added
import ApiBinding.Proofs.Text.Repeats

/-! The field names of a record: those of a record made of a schema are distinct, and those of a
group of parameters are repeated exactly where typed parameters of the group share a name. -/

namespace ApiBinding

namespace Operation

/-! ## The path group -/

theorem typedNames_append (parameters added : List Parameter) :
    typedNames (parameters ++ added) = typedNames parameters ++ typedNames added := by
  simp [typedNames]

theorem typedNames_required (parameters : List Parameter) :
    typedNames (parameters.map ({ · with required := true })) = typedNames parameters := by
  rw [typedNames, List.filter_map, List.map_map]
  rfl

/-- The parameter of an undeclared placeholder has a type. -/
theorem typedNames_undeclared (options : Options) (names : List String) :
    typedNames (names.map (undeclared options)) = names := by
  induction names with
  | nil => rfl
  | cons name rest ih =>
      rw [List.map_cons, typedNames_cons, ih]
      rfl

theorem typedNames_subset (parameters : List Parameter) :
    typedNames parameters ⊆ parameters.map (·.name) := by
  intro name member
  obtain ⟨parameter, inside, rfl⟩ := List.mem_map.mp member
  exact List.mem_map_of_mem (List.mem_of_mem_filter inside)

/-- What stands for undeclared placeholders comes behind the declared parameters, and repeats
neither them nor itself. -/
theorem nodup_typedNames_pathParameters (options : Options) (placeholders : List String)
    (parameters : List Parameter) :
    (typedNames (pathParameters options placeholders parameters)).Nodup ↔
      (typedNames (parameters.filter (fillsPath placeholders))).Nodup := by
  unfold pathParameters
  dsimp only
  rw [typedNames_append, typedNames_required, typedNames_undeclared]
  generalize parameters.filter (fillsPath placeholders) = declared
  refine ⟨fun distinct => distinct.of_append_left, fun distinct => ?_⟩
  refine List.nodup_append.mpr ⟨distinct, (nodup_eraseDups placeholders).filter _, ?_⟩
  rintro name typed other added rfl
  have known : name ∈ declared.map (·.name) := typedNames_subset declared typed
  have unknown := (List.mem_filter.mp added).2
  simp [Function.comp_def] at known unknown
  obtain ⟨parameter, member, own⟩ := known
  exact unknown parameter member own

/-! ## Groups -/

/-- A group of parameters: the end of the name of its record, the parameters that have a field in
it, and those of them that the document declares. -/
structure ParameterGroup where
  suffix : String
  members : List Parameter
  declared : List Parameter

end Operation

open Operation

/-- The groups of parameters at a site. -/
def Site.groups (site : Site) (parameters : List Parameter) : List ParameterGroup :=
  let query := queryParameters site.placeholders parameters
  let form := formGroup site.placeholders parameters
  ⟨"PathVar", pathParameters site.options site.placeholders parameters,
      parameters.filter (fillsPath site.placeholders)⟩ ::
    ⟨"Query", query, query⟩ ::
    if hasForm site.dialect parameters then [⟨"Body", form, form⟩] else []

/-- A group has the field names of its record twice only where they were declared twice. -/
theorem Site.nodup_group {site : Site} {parameters : List Parameter} {group : ParameterGroup}
    (member : group ∈ site.groups parameters) :
    (typedNames group.members).Nodup ↔ (typedNames group.declared).Nodup := by
  simp only [groups, List.mem_cons] at member
  rcases member with rfl | rfl | member
  · exact nodup_typedNames_pathParameters _ _ _
  · exact Iff.rfl
  · split at member
    · obtain rfl := List.mem_singleton.mp member
      exact Iff.rfl
    · simp at member

/-! ## Records of a binding -/

namespace Site

variable {site : Site} {binding : Binding TypeExpr}

/-- A record made of a schema, with distinct field names, or the record of a group. -/
def Accounted (site : Site) (parameters : List Parameter) (record : Record TypeExpr) : Prop :=
  (record.fields.map (·.name)).Nodup ∨
    ∃ group ∈ site.groups parameters, record.name = site.stem ++ group.suffix ∧
      record.fields.map (·.name) = typedNames group.members

theorem Run.accounted (run : site.Run binding) {record : Record TypeExpr}
    (member : record ∈ binding.records) : site.Accounted run.parameters record := by
  have generated : ∀ {scope record}, Synthesis.Generated scope record →
      site.Accounted run.parameters record := fun generated => .inl generated.distinct
  have path : Session.empty.Adds (site.Accounted run.parameters) run.afterPath := by
    refine (adding_groupRecord (typingAdds_generated _ site.stem) _ _ run.path).mono ?_
    rintro record (made | group)
    · exact generated made
    · exact .inr ⟨_, List.mem_cons_self, group.name, group.fields⟩
  have query : run.afterPath.Adds (site.Accounted run.parameters) run.afterQuery := by
    refine (adding_groupRecord (typingAdds_generated _ site.stem) _ _ run.query).mono ?_
    rintro record (made | group)
    · exact generated made
    · exact .inr ⟨_, List.mem_cons_of_mem _ List.mem_cons_self, group.name, group.fields⟩
  have body : run.afterQuery.Adds (site.Accounted run.parameters) run.afterBody := by
    refine (adding_body (typingAdds_generated _ _) _ _ _ _ _ run.typedBody).mono ?_
    rintro record (made | ⟨isForm, group⟩)
    · exact generated made
    · let form := formGroup site.placeholders run.parameters
      have listed : ⟨"Body", form, form⟩ ∈ site.groups run.parameters := by
        simp [groups, isForm, form]
      exact .inr ⟨_, listed, group.name, group.fields⟩
  have response : run.afterBody.Adds (site.Accounted run.parameters) run.afterResponse :=
    (adding_responseType (typingAdds_generated _ _) _ _ _ run.response).mono fun _ => generated
  exact run.forall_records path query body response record member

end Site

namespace Binding

/-- A record has two fields of one name exactly if it is the record of a group of parameters in
which two typed parameters that the document declares have one name. -/
def RepeatsAsDeclared (binding : Binding TypeExpr) (site : Site) (parameters : List Parameter) :
    Prop :=
  ∀ record ∈ binding.records, ¬ (record.fields.map (·.name)).Nodup ↔
    ∃ group ∈ site.groups parameters, record.name = site.stem ++ group.suffix ∧
      record.fields.map (·.name) = typedNames group.members ∧
      ¬ (typedNames group.declared).Nodup

/-- Field names are distinct in a record unless the parameters of its group share a name: no
definition, no body or response made of a schema, and no undeclared placeholder repeats one. -/
theorem repeatsAsDeclared {document : Value} {path method : String} {options : Options}
    {lexicon : Name.Lexicon} {binding : Binding TypeExpr} {warnings : List Warning}
    (h : ofDocument document path method options lexicon = .ok (some binding, warnings)) :
    ∃ site, Site.ofDocument document path method options lexicon = .ok (some site) ∧
      ∃ parameters,
        Operation.parameters site.dialect site.document site.item site.operation =
          .ok parameters ∧
        binding.RepeatsAsDeclared site parameters := by
  obtain ⟨site, located, ⟨run⟩⟩ := exists_run h
  refine ⟨site, located, run.parameters, run.normal, ?_⟩
  intro record member
  constructor
  · intro repeated
    rcases run.accounted member with distinct | ⟨group, listed, name, fields⟩
    · exact (repeated distinct).elim
    · refine ⟨group, listed, name, fields, ?_⟩
      rwa [← Site.nodup_group listed, ← fields]
  · rintro ⟨group, listed, -, fields, repeated⟩
    rwa [fields, Site.nodup_group listed]

/-- A document with a path parameter and a query parameter of one name. -/
def itemDocument : Value :=
  .ofFields [
    ("swagger", .text "2.0"),
    ("paths", .ofFields [
      ("/items/\x7bid\x7d", .ofFields [
        ("get", .ofFields [
          ("parameters", .list [
            .ofFields [("name", .text "id"), ("in", .text "path"), ("type", .text "integer")],
            .ofFields [("name", .text "id"), ("in", .text "query"), ("type", .text "integer")]
          ])])])])]

/-- Both parameters fill the same placeholder, and each has its field. -/
theorem repeated_field_of_itemDocument :
    ∃ binding warnings,
      ofDocument itemDocument "/items/\x7bid\x7d" "GET" {} .standard =
        .ok (some binding, warnings) ∧
      ¬ ∀ record ∈ binding.records, (record.fields.map (·.name)).Nodup := by
  have computed :
      ((ofDocument itemDocument "/items/\x7bid\x7d" "GET" {} .standard).toOption.bind
        (·.1)).map (fun binding =>
          binding.records.all fun record => decide (record.fields.map (·.name)).Nodup) =
      some false := by decide +kernel
  obtain ⟨binding, warnings, made, repeated⟩ := exists_of_computed computed
  refine ⟨binding, warnings, made, ?_⟩
  intro distinct
  simp only [List.all_eq_false, decide_eq_true_eq] at repeated
  obtain ⟨record, member, twice⟩ := repeated
  exact twice (distinct record member)

/-- A form with a field and a body parameter of one name. -/
def formDocument : Value :=
  .ofFields [
    ("swagger", .text "2.0"),
    ("paths", .ofFields [
      ("/notes/\x7bday\x7d", .ofFields [
        ("post", .ofFields [
          ("parameters", .list [
            .ofFields [("name", .text "note"), ("in", .text "formData"), ("type", .text "string")],
            .ofFields [
              ("name", .text "note"), ("in", .text "body"),
              ("schema", .ofFields [("type", .text "integer")])]])])])])]

theorem repeatsAsDeclared_of_formDocument :
    ∃ binding warnings,
      ofDocument formDocument "/notes/\x7bday\x7d" "POST" {} .standard =
        .ok (some binding, warnings) ∧
      binding.records.map (fun record => (record.name, record.fields.map (·.name))) =
        [("PostNotesDayPathVar", ["day"]), ("PostNotesDayBody", ["note", "note"])] ∧
      ∃ site, Site.ofDocument formDocument "/notes/\x7bday\x7d" "POST" {} .standard =
          .ok (some site) ∧
        ∃ parameters,
          Operation.parameters site.dialect site.document site.item site.operation =
            .ok parameters ∧
          binding.RepeatsAsDeclared site parameters := by
  have computed :
      ((ofDocument formDocument "/notes/\x7bday\x7d" "POST" {} .standard).toOption.bind
        (·.1)).map (fun binding =>
          binding.records.map fun record => (record.name, record.fields.map (·.name))) =
      some [("PostNotesDayPathVar", ["day"]), ("PostNotesDayBody", ["note", "note"])] := by
    decide +kernel
  obtain ⟨binding, warnings, made, listed⟩ := exists_of_computed computed
  exact ⟨binding, warnings, made, listed, repeatsAsDeclared made⟩

end Binding

end ApiBinding
