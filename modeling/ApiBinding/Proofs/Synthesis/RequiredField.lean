import ApiBinding.Proofs.Schema.Obligation
import ApiBinding.Proofs.Schema.Unguarded
import ApiBinding.Proofs.Synthesis.Content

/-! The required fields of a composed record. A field that a part of a composition is the first
to declare, and requires by itself, is required in the record of the whole. -/

namespace ApiBinding

namespace Schema

variable {table : Table} {schema part : Mapping} {members : List Mapping} {name : String}

/-! ## Required properties -/

/-- Whether the property of a name becomes a required field: it has a type, and its own word or
that of the object requires it. -/
def Flattened.requires (flat : Flattened) (name : String) : Bool :=
  match flat.properties.find? name with
  | some (.object property) =>
    isTyped (.object property) && isRequired (.text name) property flat.requirement
  | _ => false

theorem isRequired_of_not_isFlagged {key : Key} {property : Mapping} {requirement : Requirement}
    (h : ¬ IsFlagged property) :
    isRequired key property requirement = requirement.requires key := by
  unfold isRequired
  split
  · rename_i required own
    exact (h ⟨required, own⟩).elim
  · rfl

/-- A part, with the schema that it stands for, is the first of a composition to declare a
property. The property is not flagged, and the schema requires it by itself. -/
structure FirstRequires (table : Table) (schema : Mapping) (front : List Mapping)
    (part base : Mapping) (name : String) : Prop where
  composed : ∃ back, parts schema = .ok (front ++ part :: back)
  stands : StandsFor table part base
  undeclared : ∀ earlier ∈ front, ∀ inner flat, StandsFor table earlier inner →
    flatten table inner = .ok flat → flat.properties.find? name = none
  requires : ∃ alone, flatten table base = .ok alone ∧ alone.requires name = true ∧
    ∀ property, alone.properties.find? name = some (.object property) → ¬ IsFlagged property

/-! ## The first declaration -/

/-- What is found under a name does not change with parts that add nothing to it. -/
theorem find?_foldlM_unguardedPart {walk : Mapping → Except Failure Mapping}
    {start last : Mapping}
    (idle : ∀ part ∈ members, ∀ inner full, StandsFor table part inner →
      walk inner = .ok full → (start.find? name).or (full.find? name) = start.find? name)
    (h : members.foldlM (unguardedPart table walk) start = .ok last) :
    last.find? name = start.find? name := by
  let unchanged (properties : Mapping) : Prop := properties.find? name = start.find? name
  have kept : Ends (members.foldlM (unguardedPart table walk) start) unchanged
      (fun _ => True) := by
    refine Ends.foldlM ?_ rfl
    intro properties same part member
    refine ⟨?_, fun _ => trivial⟩
    intro after added
    obtain ⟨inner, full, stands, walked, rfl⟩ := unguardedPart_eq_ok_iff.mp added
    simp only [unchanged, Mapping.find?_extend] at same ⊢
    rw [same, idle part member inner full stands walked]
  exact kept.holds h

/-- The first part that declares a name decides on the property. -/
theorem FirstRequires.find?_eq {front : List Mapping} {base : Mapping} {flat alone : Flattened}
    {value : Value} (first : FirstRequires table schema front part base name)
    (acyclic : Acyclic table schema) (hflat : flatten table schema = .ok flat)
    (halone : flatten table base = .ok alone)
    (declared : alone.properties.find? name = some value) :
    flat.properties.find? name = some value := by
  obtain ⟨back, composed⟩ := first.composed
  have step : HasPart table schema base := .intro composed (by simp) first.stands
  have computed := unguardedProperties_of_flatten acyclic hflat
  have computedBase := unguardedProperties_of_flatten (acyclic.part step) halone
  rw [acyclic.unguardedProperties_eq, unguardedStep, composed] at computed
  obtain ⟨inherited, folded, same⟩ :=
    bind_eq_ok_iff.mp (show List.foldlM _ [] (front ++ part :: back) >>= _ = _ from computed)
  rw [List.foldlM_append] at folded
  obtain ⟨before, foldedFront, folded⟩ := bind_eq_ok_iff.mp folded
  rw [List.foldlM_cons] at folded
  obtain ⟨middle, added, foldedBack⟩ := bind_eq_ok_iff.mp folded
  obtain ⟨inner, full, stands, walked, rfl⟩ := unguardedPart_eq_ok_iff.mp added
  obtain rfl := first.stands.unique stands
  obtain rfl := Except.ok.inj (computedBase.symm.trans walked)
  have absent : Mapping.find? before name = none := by
    refine find?_foldlM_unguardedPart ?_ foldedFront
    intro earlier member inner full stands walked
    have step : HasPart table schema inner :=
      .intro composed (List.mem_append_left _ member) stands
    obtain ⟨own, gathered, rfl⟩ := flatten_of_unguardedProperties (acyclic.part step) walked
    exact first.undeclared earlier member inner own stands gathered
  have placed : (Mapping.extend before alone.properties).find? name = some value := by
    rw [Mapping.find?_extend, absent, Option.none_or, declared]
  have kept : Mapping.find? inherited name = _ :=
    find?_foldlM_unguardedPart (by simp only [placed, Option.some_or, implies_true]) foldedBack
  rw [← Except.ok.inj same, Mapping.find?_extend, kept, placed, Option.some_or]

/-- What a part requires by itself is required in the whole, as far as no flagged schema stands in
between: neither the composition nor the part is one, and none among the parts in front refers to
a definition that conveys the name to the part. -/
theorem FirstRequires.requires_whole {front : List Mapping} {base : Mapping} {flat : Flattened}
    (first : FirstRequires table schema front part base name) (acyclic : Acyclic table schema)
    (listing : ¬ IsFlagged schema) (listingBase : ¬ IsFlagged base)
    (unhidden : Unhidden table (.text name) part front) (hflat : flatten table schema = .ok flat) :
    flat.requires name = true := by
  obtain ⟨back, composed⟩ := first.composed
  obtain ⟨alone, halone, required, plain⟩ := first.requires
  unfold Flattened.requires at required
  split at required
  · rename_i property declared
    obtain ⟨typed, required⟩ := Bool.and_eq_true_iff.mp required
    have declaredWhole := first.find?_eq acyclic hflat halone declared
    have unflagged := plain property declared
    obtain ⟨inside, own, found, gathers, rfl⟩ := gathers_of_flatten halone
    obtain ⟨members, whole, composed', gathersWhole, rfl⟩ := gathers_of_flatten hflat
    obtain rfl := Except.ok.inj (composed.symm.trans composed')
    rw [isRequired_of_not_isFlagged unflagged, requirement_finish own listingBase] at required
    have named := gathersWhole.names_of_part (acyclic.parts composed) first.stands unhidden found
      gathers listingBase (names_append.mp required)
    simp only [Flattened.requires, declaredWhole, typed, Bool.true_and,
      isRequired_of_not_isFlagged unflagged, requirement_finish whole listing]
    exact names_append.mpr (.inl named)
  · simp at required

end Schema

namespace Synthesis

open Schema

variable {scope : Scope} {schema part : Mapping} {name owner : String}

/-! ## Fields of a record -/

theorem requires_cons_of_ne {key : Key} {value : Value} {rest : Mapping}
    {requirement : Requirement} (other : key.same (.text name) = false) :
    Flattened.requires ⟨(key, value) :: rest, requirement⟩ name =
      Flattened.requires ⟨rest, requirement⟩ name := by
  simp [Flattened.requires, Mapping.find?, Mapping.get?, other]

theorem not_requires_of_absent {rest : Mapping} {requirement : Requirement}
    (absent : ∀ entry ∈ rest, entry.1.same (.text name) = false) :
    Flattened.requires ⟨rest, requirement⟩ name = false := by
  have none : Mapping.get? rest (.text name) = none := Mapping.get?_eq_none_iff.mpr absent
  simp [Flattened.requires, Mapping.find?, none]

/-- The required fields of a record are those of the properties that are required. -/
theorem FieldsDerivation.exists_required_iff {requirement : Requirement} {session after : Session}
    {properties : Mapping} {fields : List (Field TypeExpr)}
    (derivation : FieldsDerivation scope owner requirement session properties fields after)
    (distinct : properties.Distinct) :
    (∃ field ∈ fields, field.name = name ∧ field.required = true) ↔
      Flattened.requires ⟨properties, requirement⟩ name = true := by
  induction derivation with
  | nil session => simp [Flattened.requires, Mapping.find?, Mapping.get?]
  | @untyped session key property rest fields after noType _ ih =>
      obtain ⟨apart, distinct⟩ := List.pairwise_cons.mp distinct
      rw [ih distinct]
      by_cases same : key.same (.text name) = true
      · have absent : ∀ entry ∈ rest, entry.1.same (.text name) = false := by
          intro entry member
          rw [Key.same_comm, ← Key.same_congr same]
          exact apart entry member
        rw [not_requires_of_absent absent]
        have here : Mapping.find? ((key, property) :: rest) name = some property := by
          simp [Mapping.find?, Mapping.get?, same]
        cases property <;> simp_all [Flattened.requires]
      · rw [requires_cons_of_ne (by simpa using same)]
  | @typed session own property rest type middle _ _ fields after hasType _ _ _ _ ih =>
      obtain ⟨apart, distinct⟩ := List.pairwise_cons.mp distinct
      simp only [List.mem_cons, exists_eq_or_imp, ih distinct]
      by_cases same : own = name
      · subst same
        have absent : ∀ entry ∈ rest, entry.1.same (.text own) = false := by
          intro entry member
          rw [Key.same_comm]
          exact apart entry member
        rw [not_requires_of_absent absent]
        simp [Flattened.requires, Mapping.find?, Mapping.get?, hasType]
      · have other : (Key.text own).same (.text name) = false := by
          simpa [Key.same, Key.canonical] using same
        rw [requires_cons_of_ne other]
        simp [same]

/-- A composition without circles keeps the required fields of its parts: a required field of the
record of a part, by the first declaration of its name, is a required field of every record of the
whole. The declaration, the part and the composition may not be flagged, and no flagged schema in
front of the part may refer to a definition that conveys the name to it. -/
theorem required_field_of_part {front : List Mapping} {base : Mapping} {flat : Flattened}
    (first : FirstRequires scope.table schema front part base name)
    (acyclic : Acyclic scope.table schema) (listing : ¬ IsFlagged schema)
    (listingBase : ¬ IsFlagged base) (unhidden : Unhidden scope.table (.text name) part front)
    (hflat : flatten scope.table schema = .ok flat) :
    flat.requires name = true ∧ ∀ {owner session fields after},
      FieldsDerivation scope owner flat.requirement session flat.properties fields after →
        ∃ field ∈ fields, field.name = name ∧ field.required = true := by
  have required := first.requires_whole acyclic listing listingBase unhidden hflat
  refine ⟨required, ?_⟩
  intro owner session fields after derivation
  have distinct := ((ends_flatten scope.table schema).holds hflat).distinct
  exact (derivation.exists_required_iff distinct).mpr required

/-- A definition whose base is listed before a flagged schema, which hides the list of another
definition. -/
def leftSchema : Mapping := [
  (.text "allOf", .list [
    refTo "Base",
    .ofFields [("allOf", .list [refTo "Size"]), ("required", .bool false)]])]

/-- A definition that requires its property by the list of the same base. -/
def rightSchema : Mapping := [
  (.text "allOf", .list [refTo "Base"]),
  (.text "properties", .ofFields [("id", .ofFields [("type", .text "integer")])])]

def sharedScope : Scope where
  table := ⟨"#/definitions/", [
    (.text "Base", .ofFields [("required", .list [.text "id"])]),
    (.text "Size", .ofFields [
      ("properties", .ofFields [("size", .ofFields [("type", .text "integer")])]),
      ("required", .list [.text "size"])]),
    (.text "Left", .object leftSchema),
    (.text "Right", .object rightSchema)]⟩
  options := {}
  lexicon := .standard
  placement := none

def leftPart : Mapping := [(.text "$ref", .text "#/definitions/Left")]

def rightPart : Mapping := [(.text "$ref", .text "#/definitions/Right")]

def sharedSchema : Mapping := [(.text "allOf", .list [.object leftPart, .object rightPart])]

/-- By itself the right part requires its property. -/
theorem requires_rightSchema :
    ∃ alone, flatten sharedScope.table rightSchema = .ok alone ∧ alone.requires "id" = true ∧
      ∀ property, alone.properties.find? "id" = some (.object property) → ¬ IsFlagged property := by
  refine ⟨⟨[(.text "id", .ofFields [("type", .text "integer")])], .listed [.text "id"]⟩, rfl,
    rfl, ?_⟩
  intro property declared
  obtain rfl := Value.object.inj (Option.some.inj declared)
  decide

theorem firstRequires_sharedSchema :
    FirstRequires sharedScope.table sharedSchema [leftPart] rightPart rightSchema "id" := by
  refine ⟨⟨[], rfl⟩, .target rfl rfl, ?_, requires_rightSchema⟩
  intro earlier member inner flat stands flattened
  obtain rfl := List.mem_singleton.mp member
  obtain rfl : inner = leftSchema := stands.unique (.target rfl rfl)
  have absent : ((flatten sharedScope.table leftSchema).toOption.bind
      (·.properties.find? "id")).isNone = true := by
    decide +kernel
  simpa [flattened, Except.toOption] using absent

/-- The flagged schema on the left refers to nothing that the right part refers to. -/
theorem unhidden_sharedSchema :
    Unhidden sharedScope.table (.text "id") rightPart [leftPart] := by
  intro earlier member inner owner stands composes flagged ref refers conveys
  obtain rfl := List.mem_singleton.mp member
  obtain rfl : inner = leftSchema := stands.unique (.target rfl rfl)
  have left : Shallow sharedScope.table 3 leftSchema := isShallow_iff.mp (by decide +kernel)
  have right : Shallow sharedScope.table 3 rightSchema := isShallow_iff.mp (by decide +kernel)
  have apart : ∀ owner ∈ components sharedScope.table 3 leftSchema, IsFlagged owner →
      isShallow sharedScope.table 3 owner = true ∧
        ∀ ref ∈ references sharedScope.table 3 owner, ref ≠ "#/definitions/Right" ∧
          ref ∉ references sharedScope.table 3 rightSchema := by
    decide +kernel
  obtain ⟨shallow, apart⟩ := apart owner (left.mem_components_iff.mpr composes) flagged
  obtain ⟨other, absent⟩ := apart ref ((isShallow_iff.mp shallow).mem_references refers)
  rcases refersAmong_cons conveys.refers with href | ⟨inner, stands, refers⟩ | ⟨⟨⟩, _⟩ | ⟨⟨⟩, _, _⟩
  · exact other (Value.text.inj href).symm
  · obtain rfl : inner = rightSchema := stands.unique (.target rfl rfl)
    exact absent (right.mem_references refers)

/-- The base is passed over on the right, but its list was gathered on the left. -/
theorem required_field_of_sharedSchema :
    FirstRequires sharedScope.table sharedSchema [leftPart] rightPart rightSchema "id" ∧
      ∃ flat, flatten sharedScope.table sharedSchema = .ok flat ∧
        flat.requires "size" = false ∧ flat.requires "id" = true := by
  have acyclic : Acyclic sharedScope.table sharedSchema := by decide +kernel
  refine ⟨firstRequires_sharedSchema, _, rfl, rfl, ?_⟩
  exact (required_field_of_part firstRequires_sharedSchema acyclic (by decide) (by decide)
    unhidden_sharedSchema rfl).1

/-- A part that requires all of its properties. -/
def flaggedPart : Mapping := [
  (.text "properties", .ofFields [("id", .ofFields [("type", .text "integer")])]),
  (.text "required", .bool true)]

def flaggedSchema : Mapping := [(.text "allOf", .list [.object flaggedPart])]

/-- A flagged part in front of another one with the same base. -/
def hidingPart : Mapping := [
  (.text "allOf", .list [refTo "Base"]),
  (.text "required", .bool false)]

def hidingSchema : Mapping := [(.text "allOf", .list [.object hidingPart, .object rightPart])]

/-- Without the conditions on flagged schemas a required field is lost: the word of a part is not
passed on to the whole, and the list of a base is lost with the first part that leads to it. -/
theorem required_field_lost :
    (FirstRequires sharedScope.table flaggedSchema [] flaggedPart flaggedPart "id" ∧
      Acyclic sharedScope.table flaggedSchema ∧ ¬ IsFlagged flaggedSchema ∧
      ∃ flat, flatten sharedScope.table flaggedSchema = .ok flat ∧ flat.requires "id" = false) ∧
    FirstRequires sharedScope.table hidingSchema [hidingPart] rightPart rightSchema "id" ∧
      Acyclic sharedScope.table hidingSchema ∧ ¬ IsFlagged hidingSchema ∧ ¬ IsFlagged rightSchema ∧
      ∃ flat, flatten sharedScope.table hidingSchema = .ok flat ∧ flat.requires "id" = false := by
  have inline {part : Mapping} (own : (part.field "$ref").text? = none) :
      StandsFor sharedScope.table part part := by
    refine .inline fun ref href => ?_
    simp [href, Value.text?] at own
  refine ⟨⟨⟨⟨[], rfl⟩, inline rfl, by simp, ?_⟩, by decide +kernel, by decide, _, rfl, rfl⟩, ?_⟩
  · refine ⟨⟨[(.text "id", .ofFields [("type", .text "integer")])], .all true⟩, rfl, rfl, ?_⟩
    intro property declared
    obtain rfl := Value.object.inj (Option.some.inj declared)
    decide
  · refine ⟨⟨⟨[], rfl⟩, .target rfl rfl, ?_, requires_rightSchema⟩, by decide +kernel, by decide,
      by decide, _, rfl, rfl⟩
    intro earlier member inner flat stands flattened
    obtain rfl := List.mem_singleton.mp member
    obtain rfl : inner = hidingPart := stands.unique (inline rfl)
    have nothing : flatten sharedScope.table hidingPart = .ok ⟨[], .all false⟩ := rfl
    obtain rfl := Except.ok.inj (flattened.symm.trans nothing)
    rfl

end Synthesis

end ApiBinding
