import ApiBinding.Proofs.Outcome
import ApiBinding.Proofs.Value.Extend

/-! Where the properties of a composed schema come from: from the schema itself and from the
schemas that it is composed of, each name once. -/

namespace ApiBinding

/-- A value that can be gone through item by item. -/
def Value.isIterable : Value → Bool
  | .text _ => true
  | .list _ => true
  | .object _ => true
  | _ => false

namespace Schema

variable {table : Table} {root : Mapping}

/-! ## Composition -/

/-- The schemas that a schema is composed of: itself and the parts of each of them, where a part
that refers to a definition stands for the definition. -/
inductive Composes (table : Table) (root : Mapping) : Mapping → Prop where
  | self : Composes table root root
  | part {owner members part} : Composes table root owner → parts owner = .ok members →
      part ∈ members → (∀ ref, part.field "$ref" ≠ .text ref) → Composes table root part
  | target {owner members part ref target} : Composes table root owner →
      parts owner = .ok members → part ∈ members → part.field "$ref" = .text ref →
      table.resolve ref = .ok target → Composes table root target

/-- Properties with distinct keys, each of them an own one of a schema that the root is composed
of. -/
structure Inherits (table : Table) (root : Mapping) (properties : Mapping) : Prop where
  distinct : properties.Distinct
  owned : ∀ entry ∈ properties, ∃ owner own, Composes table root owner ∧
    owner.field "properties" = .object own ∧ entry ∈ own

/-- A composition whose parts are a number, a truth value or a date. -/
structure MalformedParts (schema : Mapping) : Prop where
  present : (schema.field "allOf").isTruthy = true
  scalar : (schema.field "allOf").isIterable = false

/-- Why the properties of a schema cannot be gathered, if all its references lead somewhere: one of
the schemas that it is composed of has malformed parts. -/
inductive Unreadable (table : Table) (root : Mapping) : Defect → Prop where
  | parts {owner} : Composes table root owner → MalformedParts owner →
      Unreadable table root .membersNotIterable

/-- Why a walk that is bounded in depth does not gather them. -/
def Unwalked (table : Table) (root : Mapping) (defect : Defect) : Prop :=
  defect = .depthExhausted ∨ Unreadable table root defect

theorem inherits_nil : Inherits table root [] :=
  ⟨Mapping.distinct_nil, by simp⟩

theorem Inherits.extend {m added : Mapping} (h : Inherits table root m)
    (h' : ∀ entry ∈ added, ∃ owner own, Composes table root owner ∧
      owner.field "properties" = .object own ∧ entry ∈ own) :
    Inherits table root (m.extend added) := by
  refine ⟨h.distinct.extend added, ?_⟩
  intro entry member
  rcases Mapping.mem_of_mem_extend member with old | new
  · exact h.owned entry old
  · exact h' entry new

/-- The parts of a schema cannot be read only where they are malformed. -/
theorem ends_parts (schema : Mapping) :
    Ends (parts schema) (fun members => parts schema = .ok members) (Stops fun defect =>
      defect = .membersNotIterable ∧ MalformedParts schema) := by
  refine ⟨id, ?_⟩
  intro failure failed
  unfold parts at failed
  split at failed
  · simp at failed
  · simp at failed
  · simp at failed
  · rename_i other noList noText noObject
    split at failed
    · rename_i present
      obtain rfl := Except.error.inj failed
      refine .defect ⟨rfl, present, ?_⟩
      cases kind : schema.field "allOf" <;> simp_all [Value.isIterable]
    · simp at failed

theorem ends_keyOf (table : Table) (ref : String) {cause : Defect → Prop} :
    Ends (table.keyOf ref) (fun key => table.keyOf ref = .ok key) (Stops cause) := by
  refine ⟨id, ?_⟩
  intro failure failed
  unfold Table.keyOf at failed
  split at failed
  · simp at failed
  · obtain rfl := Except.error.inj failed
    exact .fault _

/-- A reference that leads nowhere is a fault. -/
theorem ends_resolve (table : Table) (ref : String) {cause : Defect → Prop} :
    Ends (table.resolve ref) (fun schema => table.resolve ref = .ok schema) (Stops cause) := by
  refine ⟨id, ?_⟩
  intro failure failed
  unfold Table.resolve at failed
  cases keyed : table.keyOf ref with
  | error cause =>
      obtain rfl : cause = failure := by simpa [keyed, bind, Except.bind] using failed
      exact (ends_keyOf table ref).stops keyed
  | ok key =>
      simp only [keyed, bind, Except.bind] at failed
      split at failed
      · simp at failed
      · obtain rfl := Except.error.inj failed
        exact .fault _

/-! ## Gathering -/

theorem ends_gatherPart
    {walk : List String → Mapping → Except Failure (Flattened × List String)}
    (hwalk : ∀ seen {schema}, Composes table root schema →
      Ends (walk seen schema) (fun answer => Inherits table root answer.1.properties)
        (Stops (Unwalked table root)))
    {owner : Mapping} (composes : Composes table root owner) {members : List Mapping}
    (found : parts owner = .ok members) {gathered : Gathering}
    (inherits : Inherits table root gathered.properties) {part : Mapping}
    (member : part ∈ members) :
    Ends (gatherPart table walk gathered part)
      (fun after => Inherits table root after.properties) (Stops (Unwalked table root)) := by
  simp only [gatherPart]
  split
  · rename_i ref href
    split
    · exact .ok inherits
    · refine (ends_resolve table ref).bind ?_
      intro target resolved
      refine (hwalk _ (.target composes found member href resolved)).bind ?_
      rintro ⟨flat, later⟩ walked
      exact .ok (inherits.extend walked.owned)
  · rename_i other
    refine (hwalk _ (.part composes found member other)).bind ?_
    rintro ⟨flat, later⟩ walked
    exact .ok (inherits.extend walked.owned)

/-- The induction is on the depth: a walk gathers from the schemas that its start is composed
of, and these are among those of the root. -/
theorem ends_flattenWithin (depth : Nat) (seen : List String) {schema : Mapping}
    (composes : Composes table root schema) :
    Ends (flattenWithin table depth seen schema)
      (fun answer => Inherits table root answer.1.properties) (Stops (Unwalked table root)) := by
  induction depth generalizing seen schema with
  | zero => exact .error (.defect (.inl rfl))
  | succ depth ih =>
      simp only [flattenWithin, flattenStep]
      have reading : Ends (parts schema) (fun members => parts schema = .ok members)
          (Stops (Unwalked table root)) := by
        refine (ends_parts schema).widen ?_
        rintro defect ⟨rfl, malformed⟩
        exact .inr (.parts composes malformed)
      refine reading.bind ?_
      intro members found
      let kept (gathered : Gathering) : Prop := Inherits table root gathered.properties
      refine Ends.bind (@Ends.foldlM _ _ kept _ _ _ ?_ _ inherits_nil) ?_
      · intro gathered inherits part member
        exact ends_gatherPart (fun seen _ inner => ih seen inner) composes found inherits member
      · intro gathered inherits
        refine .ok ?_
        dsimp only
        split
        · rename_i own declared
          exact inherits.extend fun entry member => ⟨schema, own, composes, declared, member⟩
        · exact inherits

/-- Flattening gives distinct properties, each an own one of a schema that the flattened one is
composed of. -/
theorem ends_flatten (table : Table) (schema : Mapping) :
    Ends (flatten table schema) (fun flat => Inherits table schema flat.properties)
      (Stops (Unreadable table schema)) := by
  have walked : Ends (flatten table schema) (fun flat => Inherits table schema flat.properties)
      (Stops (Unwalked table schema)) := by
    apply Ends.map
    exact ends_flattenWithin _ [] .self
  refine ⟨walked.holds, ?_⟩
  intro failure failed
  cases walked.stops failed with
  | fault cause => exact .fault cause
  | defect unwalked =>
      rcases unwalked with rfl | unreadable
      · exact ((flatten_settled table schema (le_refl _)).reached failed).elim
      · exact .defect unreadable

/-! ## Own properties -/

/-- The properties that a schema has from its parts alone. -/
def inheritedProperties (table : Table) (schema : Mapping) : Except Failure Mapping :=
  (flatten table (schema.insert (.text "properties") (.object []))).map (·.properties)

theorem parts_insert_properties (schema : Mapping) (value : Value) :
    parts (schema.insert (.text "properties") value) = parts schema := by
  unfold parts Mapping.field
  rw [Mapping.find?_insert_of_ne schema value (by decide)]

/-- One step of the walk reads the own properties only at its end. -/
theorem flattenStep_insert_properties
    {walk : List String → Mapping → Except Failure (Flattened × List String)}
    {seen : List String} {schema own : Mapping} {answer : Flattened × List String}
    (declared : schema.field "properties" = .object own)
    (h : flattenStep table walk seen schema = .ok answer) :
    ∃ inherited : Mapping, answer.1.properties = inherited.extend own ∧ ∀ other,
      flattenStep table walk seen (schema.insert (.text "properties") (.object other)) =
        .ok (⟨inherited.extend other, answer.1.requirement⟩, answer.2) := by
  have required : ∀ other : Mapping,
      Mapping.field (schema.insert (.text "properties") (.object other)) "required" =
        schema.field "required" := by
    intro other
    rw [Mapping.field, Mapping.find?_insert_of_ne schema _ (by decide), Mapping.field]
  have replaced : ∀ other : Mapping,
      Mapping.field (schema.insert (.text "properties") (.object other)) "properties" =
        .object other := by
    intro other
    rw [Mapping.field, Mapping.find?_insert_self]
    rfl
  unfold flattenStep at h
  cases found : parts schema with
  | error failure => simp [found, bind, Except.bind] at h
  | ok members =>
      cases folded : members.foldlM (gatherPart table walk) ⟨[], [], seen⟩ with
      | error failure => simp [found, folded, bind, Except.bind] at h
      | ok gathered =>
          simp only [found, folded, declared, bind, Except.bind, Except.ok.injEq] at h
          subst h
          refine ⟨gathered.properties, rfl, ?_⟩
          intro other
          simp only [flattenStep, parts_insert_properties, found, folded, replaced, required, bind,
            Except.bind]

/-- With enough depth a walk from a schema is its flattening. -/
theorem flatten_eq_ok {schema : Mapping} {flat : Flattened} {depth : Nat}
    (enough : depthBound table (.object schema) ≤ depth) :
    flatten table schema = .ok flat ↔
      ∃ seen, flattenWithin table depth [] schema = .ok (flat, seen) := by
  rw [(flatten_settled table schema enough).same]
  cases flattenWithin table depth [] schema with
  | error failure => simp [Except.map]
  | ok answer =>
      obtain ⟨found, seen⟩ := answer
      simp [Except.map]

/-- The properties of a schema are the inherited ones and then its own; with other own properties
the inherited ones stay as they are. -/
theorem flatten_insert_properties {schema own : Mapping} {flat : Flattened}
    (declared : schema.field "properties" = .object own)
    (h : flatten table schema = .ok flat) :
    ∃ inherited, inheritedProperties table schema = .ok inherited ∧
      flat.properties = inherited.extend own ∧ ∀ other,
        flatten table (schema.insert (.text "properties") (.object other)) =
          .ok ⟨inherited.extend other, flat.requirement⟩ := by
  let withOwn (other : Mapping) : Mapping := schema.insert (.text "properties") (.object other)
  have each : ∀ other, ∃ inherited, inheritedProperties table schema = .ok inherited ∧
      flat.properties = inherited.extend own ∧
      flatten table (withOwn other) = .ok ⟨inherited.extend other, flat.requirement⟩ := by
    intro other
    -- One depth is enough for the schema and for both of its variants.
    let depth := depthBound table (.object schema) + depthBound table (.object (withOwn [])) +
      depthBound table (.object (withOwn other)) + 1
    obtain ⟨seen, walked⟩ := (flatten_eq_ok (by omega : _ ≤ depth)).mp h
    obtain ⟨inherited, same, others⟩ := flattenStep_insert_properties declared walked
    have walkedOwn : ∀ own', depthBound table (.object (withOwn own')) ≤ depth →
        flatten table (withOwn own') = .ok ⟨inherited.extend own', flat.requirement⟩ :=
      fun own' enough => (flatten_eq_ok enough).mpr ⟨seen, others own'⟩
    refine ⟨inherited, ?_, same, walkedOwn other (by omega)⟩
    have empty := walkedOwn [] (by omega)
    simp only [withOwn] at empty
    rw [inheritedProperties, empty]
    rfl
  obtain ⟨inherited, found, same, -⟩ := each []
  refine ⟨inherited, found, same, ?_⟩
  intro other
  obtain ⟨inherited', found', -, flattened⟩ := each other
  obtain rfl := Except.ok.inj (found.symm.trans found')
  exact flattened

end Schema

end ApiBinding
