import ApiBinding.Proofs.Operation.Added

/-! Marked file properties: each file of a list is marked once, and a marked property has the type
of a file unless something other than its type word decides its shape. -/

namespace ApiBinding

namespace FileField

open ApiBinding.Schema

/-! ## Marks -/

theorem markAll_cons {properties marked : Mapping} {file : FileField} {rest : List FileField}
    (h : markAll properties (file :: rest) = .ok marked) :
    ∃ middle : Mapping, markAll middle rest = .ok marked ∧
      (∀ name ≠ file.name, middle.find? name = properties.find? name) ∧
      ∀ property, properties.find? file.name = some (.object property) →
        ∃ own, mark property file.multiple = .ok own ∧
          middle.find? file.name = some (.object own) := by
  rw [markAll, List.foldlM_cons] at h
  split at h
  · rename_i property found
    cases marks : mark property file.multiple with
    | error failure => simp [marks, bind, Except.bind] at h
    | ok own =>
        simp only [marks, bind, Except.bind] at h
        refine ⟨_, h, ?_, ?_⟩
        · exact fun name other => Mapping.find?_insert_of_ne _ _ (Ne.symm other)
        · intro other same
          obtain rfl := Value.object.inj (Option.some.inj (found.symm.trans same))
          exact ⟨own, marks, Mapping.find?_insert_self _ _ _⟩
  · rename_i absent
    exact ⟨properties, h, fun _ _ => rfl, fun property found => (absent property found).elim⟩

theorem find?_markAll_of_ne {properties marked : Mapping} {files : List FileField} {name : String}
    (h : markAll properties files = .ok marked) (other : ∀ file ∈ files, name ≠ file.name) :
    marked.find? name = properties.find? name := by
  induction files generalizing properties with
  | nil =>
      obtain rfl := Except.ok.inj h
      rfl
  | cons file rest ih =>
      obtain ⟨middle, later, kept, -⟩ := markAll_cons h
      rw [ih later fun file member => other file (List.mem_cons_of_mem _ member),
        kept name (other file List.mem_cons_self)]

/-- Of files with distinct names each own property gets its mark once. -/
theorem find?_markAll {properties marked : Mapping} {files : List FileField}
    (distinct : (files.map (·.name)).Nodup) (h : markAll properties files = .ok marked)
    {file : FileField} (member : file ∈ files) {property : Mapping}
    (found : properties.find? file.name = some (.object property)) :
    ∃ own, mark property file.multiple = .ok own ∧
      marked.find? file.name = some (.object own) := by
  induction files generalizing properties with
  | nil => simp at member
  | cons first rest ih =>
      obtain ⟨middle, later, kept, marks⟩ := markAll_cons h
      obtain ⟨new, distinct⟩ := List.nodup_cons.mp distinct
      rcases List.mem_cons.mp member with rfl | inside
      · obtain ⟨own, hown, here⟩ := marks property found
        refine ⟨own, hown, ?_⟩
        rw [find?_markAll_of_ne later, here]
        intro other hother same
        exact new (List.mem_map.mpr ⟨other, hother, same.symm⟩)
      · apply ih distinct later inside
        rw [kept file.name, found]
        rintro same
        exact new (List.mem_map.mpr ⟨file, inside, same⟩)

/-! ## Types of marked properties -/

/-- A schema whose type word alone decides its shape. -/
structure Bare (schema : Mapping) : Prop where
  reference : schema.has "$ref" = false
  values : schema.has "enum" = false
  positions : schema.has "prefixItems" = false
  format : ∀ word, format? (.object schema) = some word → numberTypes.contains word = false

instance (schema : Mapping) : Decidable (Bare schema) :=
  decidable_of_iff (schema.has "$ref" = false ∧ schema.has "enum" = false ∧
      schema.has "prefixItems" = false ∧
      ∀ word ∈ format? (.object schema), numberTypes.contains word = false)
    ⟨fun ⟨reference, values, positions, format⟩ => ⟨reference, values, positions, format⟩,
      fun bare => ⟨bare.reference, bare.values, bare.positions, bare.format⟩⟩

/-- A file property that is bare, with bare items if it has items. -/
def BareFile (property : Mapping) : Prop :=
  Bare property ∧ ∀ items, property.field "items" = .object items → Bare items

/-- A file property without a key that overrules its mark: it is bare, and so are its items if it
takes several files. -/
def BareAs (multiple : Bool) (property : Mapping) : Prop :=
  Bare property ∧
    (multiple = true → ∀ items, property.field "items" = .object items → Bare items)

theorem BareFile.bareAs {property : Mapping} (bare : BareFile property) (multiple : Bool) :
    BareAs multiple property :=
  ⟨bare.1, fun _ => bare.2⟩

/-- The type that a marked file has. -/
def markedType (multiple : Bool) : TypeExpr :=
  if multiple then .array .file else .file

theorem find?_insert_of_not_mem {m : Mapping} {key : String} {names : List String} (value : Value)
    (other : key ∉ names) :
    ∀ name ∈ names, Mapping.find? (m.insert (.text key) value) name = m.find? name := by
  intro name member
  apply Mapping.find?_insert_of_ne
  rintro rfl
  exact other member

theorem Bare.insert {schema : Mapping} (bare : Bare schema) {key : String} (value : Value)
    (other : key ∉ ["$ref", "enum", "prefixItems", "format"]) :
    Bare (schema.insert (.text key) value) := by
  have same := find?_insert_of_not_mem (m := schema) value other
  refine ⟨?_, ?_, ?_, ?_⟩
  · rw [Mapping.has, same _ (by decide)]
    exact bare.reference
  · rw [Mapping.has, same _ (by decide)]
    exact bare.values
  · rw [Mapping.has, same _ (by decide)]
    exact bare.positions
  · intro word found
    apply bare.format word
    simpa [format?, Value.object?, Mapping.field, same] using found

theorem Bare.decisiveWord? {schema : Mapping} (bare : Bare schema) :
    decisiveWord? schema = typeWord? schema := by
  unfold Schema.decisiveWord?
  rw [if_neg (by simp [bare.values])]
  cases found : format? (.object schema) with
  | none => rfl
  | some word =>
      dsimp only
      rw [if_neg (by simpa using bare.format word found)]

theorem Bare.shape_withFileType {schema : Mapping} (bare : Bare schema) :
    shape (withFileType schema) = .ok (.leaf .file) := by
  have bare' : Bare (withFileType schema) := bare.insert _ (by decide)
  have word : typeWord? (withFileType schema) = some "file" := by
    simp [typeWord?, withFileType, Mapping.field]
  have built : builtin? "file" = some .file := rfl
  unfold shape
  rw [Mapping.find?_eq_none bare'.reference]
  simp only [bare'.decisiveWord?, word, Option.bind_some, built]

/-- The list of marked items is the shape of a property with several files. -/
theorem Bare.shape_insert_items {property items : Mapping} (bare : Bare property)
    (several : typeWord? property = some "array") :
    shape (property.insert (.text "items") (.object items)) = .ok (.array (.object items)) := by
  have bare' : Bare (property.insert (.text "items") (.object items)) :=
    bare.insert _ (by decide)
  have word : typeWord? (property.insert (.text "items") (.object items)) = some "array" := by
    rw [← several, typeWord?, typeWord?, Mapping.field, Mapping.field,
      Mapping.find?_insert_of_ne property _ (by decide)]
  have unbuilt : builtin? "array" = none := rfl
  unfold shape
  rw [Mapping.find?_eq_none bare'.reference]
  simp only [bare'.decisiveWord?, word, Option.bind_some, unbuilt, beq_self_eq_true,
    Bool.true_or, if_true, arrayShape, Mapping.field_eq_null bare'.positions]
  simp [Mapping.field]

/-- A schema that takes several files is a list of files and no file itself. -/
theorem multiplicity?_eq_some_true_iff {property : Mapping} :
    multiplicity? (.object property) = some true ↔
      isFile property = false ∧ typeWord? property = some "array" ∧
        ∃ items, property.field "items" = .object items ∧ isFile items = true := by
  simp only [multiplicity?]
  cases own : isFile property with
  | true => simp
  | false =>
      cases declared : property.field "items" with
      | object items => simp
      | _ => simp

/-- A schema that takes several files is a list, with a mapping of its items. -/
theorem list_of_multiplicity? {property : Mapping}
    (several : multiplicity? (.object property) = some true) :
    typeWord? property = some "array" ∧ ∃ items, property.field "items" = .object items := by
  obtain ⟨-, list, items, declared, -⟩ := multiplicity?_eq_some_true_iff.mp several
  exact ⟨list, items, declared⟩

open Synthesis

variable {scope : Scope} {session : Session}

theorem derivation_withFileType {schema : Mapping} (bare : Bare schema) :
    TypeDerivation scope session (.object (withFileType schema)) (.ok .file) session [] := by
  apply TypeDerivation.done
  simp only [workOf, bare.shape_withFileType, shapeWork]

/-- A marked bare file has the type of a file, or of a list of files, in every session. -/
theorem printedType_mark {property own : Mapping} {multiple : Bool}
    (bare : BareAs multiple property) (several : multiplicity? (.object property) = some multiple)
    (marks : mark property multiple = .ok own) :
    outcome (printedType scope (.object own)) session = (.ok (markedType multiple), session) := by
  cases multiple with
  | false =>
      obtain rfl : withFileType property = own := Except.ok.inj marks
      exact (derivation_withFileType bare.1).printedType rfl
  | true =>
      simp only [mark, if_true] at marks
      split at marks
      · simp at marks
      · rename_i items found
        obtain rfl := Except.ok.inj marks
        have bareItems : Bare items := bare.2 rfl items (by simp [Mapping.field, found])
        have work : workOf scope session
            (.object (property.insert (.text "items") (.object (withFileType items)))) =
            .compose ⟨plainSteps [.object (withFileType items)],
              fun types => .array (types.headD .object)⟩ := by
          simp only [workOf, bare.1.shape_insert_items (list_of_multiplicity? several).1, shapeWork]
        have steps : StepsDerivation (TypeDerivation scope) session
            (plainSteps [.object (withFileType items)]) (.ok [.file]) session [] :=
          .next (derivation_withFileType bareItems) rfl (.nil session)
        have typed : TypeDerivation scope session _ (.ok (.array .file)) session [] :=
          .compose work steps
        exact typed.printedType rfl
      · simp at marks

end FileField

end ApiBinding
