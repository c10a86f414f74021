import ApiBinding.Proofs.Schema.Inheritance
import ApiBinding.Validation.Writer

/-! Compositions without circles. A schema leads to its parts, and to the target of a part that is
a reference. Where no schema leads back to itself, each chain of parts ends within the bound on
the depth of a walk. -/

namespace ApiBinding.Schema

open Relation

variable {table : Table} {schema : Mapping}

/-! ## Parts -/

/-- The schema that a part of a composition stands for. -/
inductive StandsFor (table : Table) (part : Mapping) : Mapping → Prop where
  | inline : (∀ ref, part.field "$ref" ≠ .text ref) → StandsFor table part part
  | target {ref target} : part.field "$ref" = .text ref → table.resolve ref = .ok target →
      StandsFor table part target

theorem StandsFor.unique {part inner inner' : Mapping} (h : StandsFor table part inner)
    (h' : StandsFor table part inner') : inner = inner' := by
  cases h with
  | inline own =>
      cases h' with
      | inline _ => rfl
      | target href _ => exact (own _ href).elim
  | target href resolved =>
      cases h' with
      | inline own => exact (own _ href).elim
      | target href' resolved' =>
          obtain rfl := Value.text.inj (href.symm.trans href')
          exact Except.ok.inj (resolved.symm.trans resolved')

theorem StandsFor.resolve {part inner : Mapping} {ref : String}
    (h : StandsFor table part inner)
    (href : part.field "$ref" = .text ref) : table.resolve ref = .ok inner := by
  cases h with
  | inline own => exact (own ref href).elim
  | target href' resolved =>
      obtain rfl := Value.text.inj (href.symm.trans href')
      exact resolved

/-- A part of the first schema stands for the second one. -/
inductive HasPart (table : Table) (schema inner : Mapping) : Prop where
  | intro {members part} : parts schema = .ok members → part ∈ members →
      StandsFor table part inner → HasPart table schema inner

theorem composes_iff {owner : Mapping} :
    Composes table schema owner ↔ ReflTransGen (HasPart table) schema owner := by
  constructor
  · intro h
    induction h with
    | self => exact .refl
    | part _ found member own ih => exact ih.tail (.intro found member (.inline own))
    | target _ found member href resolved ih =>
        exact ih.tail (.intro found member (.target href resolved))
  · intro h
    induction h with
    | refl => exact .self
    | tail _ step ih =>
        obtain ⟨found, member, own | ⟨href, resolved⟩⟩ := step
        · exact .part ih found member own
        · exact .target ih found member href resolved

theorem Composes.head {inner owner : Mapping} (step : HasPart table schema inner)
    (h : Composes table inner owner) : Composes table schema owner :=
  composes_iff.mpr (.head step (composes_iff.mp h))

theorem Composes.tail {owner inner : Mapping} (h : Composes table schema owner)
    (step : HasPart table owner inner) : Composes table schema inner :=
  composes_iff.mpr ((composes_iff.mp h).tail step)

/-- What a schema is composed of are itself and what its parts are composed of. -/
theorem composes_cases {owner : Mapping} (h : Composes table schema owner) :
    owner = schema ∨ ∃ inner, HasPart table schema inner ∧ Composes table inner owner := by
  rcases ReflTransGen.cases_head (composes_iff.mp h) with rfl | ⟨inner, step, rest⟩
  · exact .inl rfl
  · exact .inr ⟨inner, step, composes_iff.mpr rest⟩

/-! ## One step of a walk -/

/-- The properties that a schema declares by itself. -/
def ownProperties (schema : Mapping) : Mapping :=
  match schema.field "properties" with
  | .object own => own
  | _ => []

/-- What a schema makes of what was gathered from its parts. -/
def Gathering.finish (gathered : Gathering) (schema : Mapping) : Flattened where
  properties := gathered.properties.extend (ownProperties schema)
  requirement :=
    match schema.field "required" with
    | .bool required => .all required
    | .list names => .listed (gathered.required ++ names)
    | _ => .listed gathered.required

theorem flattenStep_eq (table : Table)
    (walk : List String → Mapping → Except Failure (Flattened × List String))
    (seen : List String) (schema : Mapping) :
    flattenStep table walk seen schema =
      parts schema >>= fun members =>
        members.foldlM (gatherPart table walk) ⟨[], [], seen⟩ >>= fun gathered =>
          .ok (gathered.finish schema, gathered.seen) := by
  unfold flattenStep Gathering.finish ownProperties
  cases schema.field "properties" <;> rfl

theorem gatherPart_of_ref
    {walk : List String → Mapping → Except Failure (Flattened × List String)}
    {gathered : Gathering} {part : Mapping} {ref : String} (href : part.field "$ref" = .text ref) :
    gatherPart table walk gathered part =
      if gathered.seen.contains ref then .ok gathered
      else
        table.resolve ref >>= fun target => walk (ref :: gathered.seen) target >>= fun answer =>
          .ok (gathered.absorb answer.1 answer.2) := by
  simp only [gatherPart, href]

theorem gatherPart_of_own
    {walk : List String → Mapping → Except Failure (Flattened × List String)}
    {gathered : Gathering} {part : Mapping} (own : ∀ ref, part.field "$ref" ≠ .text ref) :
    gatherPart table walk gathered part =
      walk gathered.seen part >>= fun answer => .ok (gathered.absorb answer.1 answer.2) := by
  unfold gatherPart
  split
  · rename_i ref href
    exact (own ref href).elim
  · rfl

/-! ## References among the parts -/

/-- A reference is among the parts of a schema, or of one that it is composed of. -/
inductive RefersDown (table : Table) (schema : Mapping) (ref : String) : Prop where
  | intro {owner members part} : Composes table schema owner → parts owner = .ok members →
      part ∈ members → part.field "$ref" = .text ref → RefersDown table schema ref

theorem RefersDown.head {inner : Mapping} {ref : String} (step : HasPart table schema inner)
    (h : RefersDown table inner ref) : RefersDown table schema ref := by
  obtain ⟨composes, found, member, href⟩ := h
  exact .intro (composes.head step) found member href

theorem refersDown_cases {ref : String} (h : RefersDown table schema ref) :
    (∃ members part, parts schema = .ok members ∧ part ∈ members ∧
        part.field "$ref" = .text ref) ∨
      ∃ inner, HasPart table schema inner ∧ RefersDown table inner ref := by
  obtain ⟨composes, found, member, href⟩ := h
  rcases composes_cases composes with rfl | ⟨inner, step, composes⟩
  · exact .inl ⟨_, _, found, member, href⟩
  · exact .inr ⟨inner, step, .intro composes found member href⟩

/-- A schema refers to what the target of its references refers to. -/
theorem RefersDown.follow {ref other : String} {target : Mapping}
    (h : RefersDown table schema ref)
    (resolved : table.resolve ref = .ok target) (refers : RefersDown table target other) :
    RefersDown table schema other := by
  obtain ⟨composes, found, member, href⟩ := h
  have chain := composes.tail (.intro found member (.target href resolved))
  obtain ⟨composes', found', member', href'⟩ := refers
  exact .intro (composes_iff.mpr ((composes_iff.mp chain).trans (composes_iff.mp composes')))
    found' member' href'

/-! ## Circles -/

/-- No schema that the given one is composed of leads back to itself. -/
def Acyclic (table : Table) (schema : Mapping) : Prop :=
  ∀ owner, Composes table schema owner → ¬ TransGen (HasPart table) owner owner

theorem Acyclic.part (h : Acyclic table schema) {inner : Mapping}
    (step : HasPart table schema inner) : Acyclic table inner :=
  fun owner composes => h owner (composes.head step)

/-- A target does not refer to itself. -/
theorem Acyclic.not_refersDown {ref : String} {target : Mapping} (h : Acyclic table target)
    (resolved : table.resolve ref = .ok target) : ¬ RefersDown table target ref := by
  rintro ⟨composes, found, member, href⟩
  have step : HasPart table _ target := .intro found member (.target href resolved)
  exact h target .self (TransGen.tail' (composes_iff.mp composes) step)

/-! ## Depth -/

/-- Every chain of parts from a schema ends in fewer steps. -/
inductive Shallow (table : Table) : Nat → Mapping → Prop where
  | intro {depth schema} : (∀ inner, HasPart table schema inner → Shallow table depth inner) →
      Shallow table (depth + 1) schema

variable {pool : List String} {limit : Nat}

/-- The references on the way to a schema lead to it, so that without circles it does not refer to
them again; each chain uses up the references and, between them, the nodes. -/
theorem shallow_of_path (bounded : Bounded pool limit table) {depth : Nat} {path : List String}
    (acyclic : Acyclic table schema) (within : (Value.object schema).Within pool limit)
    (leads : ∀ ref ∈ path, ∃ target, table.resolve ref = .ok target ∧
      ReflTransGen (HasPart table) target schema)
    (enough : reach limit (unseen pool path) (.object schema) ≤ depth) :
    Shallow table depth schema := by
  have positive := reach_pos limit (unseen pool path) (.object schema)
  induction depth generalizing path schema with
  | zero => omega
  | succ depth ih =>
      refine .intro ?_
      intro inner step
      have leads' : ∀ ref ∈ path, ∃ target, table.resolve ref = .ok target ∧
          ReflTransGen (HasPart table) target inner := by
        intro ref member
        obtain ⟨target, resolved, chain⟩ := leads ref member
        exact ⟨target, resolved, chain.tail step⟩
      obtain @⟨members, part, found, member, stands⟩ := step
      obtain ⟨inside, smaller⟩ := (settled_parts within).holds found part member
      cases stands with
      | inline own =>
          have less := reach_part limit (Nat.le_refl (unseen pool path)) smaller
          exact ih (acyclic.part (.intro found member (.inline own))) inside leads' (by omega)
            (reach_pos ..)
      | @target ref inner href resolved =>
          have step : HasPart table schema inner := .intro found member (.target href resolved)
          have new : ref ∉ path := by
            intro old
            obtain ⟨target, resolved', chain⟩ := leads ref old
            obtain rfl := Except.ok.inj (resolved.symm.trans resolved')
            exact acyclic schema .self (TransGen.head' step chain)
          have inside' := (bounded.settled_resolve ref).holds resolved
          have fewer := unseen_cons_lt (List.Subset.refl path) (mem_pool_of_ref inside href) new
          have less := reach_target (.object schema) fewer inside'.size
          have onward : ∀ other ∈ ref :: path, ∃ target, table.resolve other = .ok target ∧
              ReflTransGen (HasPart table) target inner :=
            List.forall_mem_cons.mpr ⟨⟨inner, resolved, .refl⟩, leads'⟩
          exact ih (acyclic.part step) inside' onward (by omega) (reach_pos ..)

/-- Without circles the bound on the depth of a walk is enough for every chain of parts. -/
theorem Acyclic.shallow (h : Acyclic table schema) :
    Shallow table (depthBound table (.object schema)) schema := by
  have room := reach_le_depthBound table (.object schema) (unseen_le _ [])
  refine shallow_of_path (bounded_poolOf table _) h (within_poolOf table _) ?_ room
  simp

/-- A schema with short chains only has no circles. -/
theorem Shallow.acyclic {depth : Nat} (h : Shallow table depth schema) :
    Acyclic table schema := by
  have below {owner : Mapping} (chain : ReflTransGen (HasPart table) schema owner) :
      ∃ depth, Shallow table depth owner := by
    induction chain with
    | refl => exact ⟨depth, h⟩
    | tail _ step ih =>
        obtain ⟨_, ⟨inner⟩⟩ := ih
        exact ⟨_, inner _ step⟩
  intro owner composes circle
  obtain ⟨depth, shallow⟩ := below (composes_iff.mp composes)
  induction shallow with
  | intro inner ih =>
      obtain ⟨next, step, rest⟩ := TransGen.head'_iff.mp circle
      exact ih next step (composes.tail step) (TransGen.tail' rest step)

/-- The schema that a part stands for, unless it is a reference that leads nowhere. -/
def standIn? (table : Table) (part : Mapping) : Option Mapping :=
  match part.field "$ref" with
  | .text ref => (table.resolve ref).toOption
  | _ => some part

theorem standIn?_eq_some_iff {part inner : Mapping} :
    standIn? table part = some inner ↔ StandsFor table part inner := by
  unfold standIn?
  constructor
  · intro h
    split at h
    · rename_i ref href
      cases resolved : table.resolve ref with
      | error failure => simp [resolved, Except.toOption] at h
      | ok target =>
          obtain rfl : target = inner := by simpa [resolved, Except.toOption] using h
          exact .target href resolved
    · rename_i own
      obtain rfl := Option.some.inj h
      exact .inline own
  · rintro (own | ⟨href, resolved⟩)
    · split
      · rename_i ref href
        exact (own ref href).elim
      · rfl
    · simp [href, resolved, Except.toOption]

/-- What the parts of a schema stand for, without the references that lead nowhere. -/
def partSchemas (table : Table) (schema : Mapping) : List Mapping :=
  match parts schema with
  | .ok members => members.filterMap (standIn? table)
  | .error _ => []

theorem mem_partSchemas_iff {inner : Mapping} :
    inner ∈ partSchemas table schema ↔ HasPart table schema inner := by
  unfold partSchemas
  constructor
  · intro member
    split at member
    · rename_i found
      obtain ⟨part, member, stands⟩ := List.mem_filterMap.mp member
      exact .intro found member (standIn?_eq_some_iff.mp stands)
    · simp at member
  · rintro ⟨found, member, stands⟩
    rw [found]
    exact List.mem_filterMap.mpr ⟨_, member, standIn?_eq_some_iff.mpr stands⟩

/-- Whether every chain of parts from a schema ends in fewer steps. -/
def isShallow (table : Table) : Nat → Mapping → Bool
  | 0, _ => false
  | depth + 1, schema => (partSchemas table schema).all (isShallow table depth)

theorem isShallow_iff {depth : Nat} : isShallow table depth schema = true ↔
    Shallow table depth schema := by
  induction depth generalizing schema with
  | zero =>
      refine ⟨by simp [isShallow], ?_⟩
      rintro ⟨⟩
  | succ depth ih =>
      simp only [isShallow, List.all_eq_true, mem_partSchemas_iff, ih]
      exact ⟨.intro, fun ⟨below⟩ => below⟩

instance : Decidable (Acyclic table schema) :=
  decidable_of_iff (isShallow table (depthBound table (.object schema)) schema = true) <| by
    rw [isShallow_iff]
    exact ⟨Shallow.acyclic, Acyclic.shallow⟩

/-! ## Lists of what a schema is composed of -/

/-- The schemas that a schema is composed of, down to a depth. -/
def components (table : Table) : Nat → Mapping → List Mapping
  | 0, _ => []
  | depth + 1, schema => schema :: (partSchemas table schema).flatMap (components table depth)

theorem Shallow.mem_components_iff {depth : Nat} (h : Shallow table depth schema)
    {owner : Mapping} : owner ∈ components table depth schema ↔ Composes table schema owner := by
  induction h with
  | @intro depth schema below ih =>
      rw [components, List.mem_cons, List.mem_flatMap]
      constructor
      · rintro (rfl | ⟨inner, member, inside⟩)
        · exact .self
        · have step := mem_partSchemas_iff.mp member
          exact ((ih inner step).mp inside).head step
      · intro composes
        refine (composes_cases composes).imp_right ?_
        rintro ⟨inner, step, composes⟩
        exact ⟨inner, mem_partSchemas_iff.mpr step, (ih inner step).mpr composes⟩

/-- The references among the parts of the schemas that a schema is composed of. -/
def references (table : Table) (depth : Nat) (schema : Mapping) : List String :=
  (components table depth schema).flatMap fun owner =>
    match parts owner with
    | .ok members => members.filterMap fun part => (part.field "$ref").text?
    | .error _ => []

theorem Shallow.mem_references {depth : Nat} (h : Shallow table depth schema) {ref : String}
    (refers : RefersDown table schema ref) : ref ∈ references table depth schema := by
  obtain ⟨composes, found, member, href⟩ := refers
  refine List.mem_flatMap.mpr ⟨_, h.mem_components_iff.mpr composes, ?_⟩
  rw [found]
  exact List.mem_filterMap.mpr ⟨_, member, by rw [href]; rfl⟩

/-- Each reference of what a schema is composed of leads somewhere. -/
def Intact (table : Table) (schema : Mapping) : Prop :=
  ∀ ref, RefersDown table schema ref → ∃ target, table.resolve ref = .ok target

theorem Shallow.intact {depth : Nat} (h : Shallow table depth schema)
    (resolves : ∀ ref ∈ references table depth schema,
      (table.resolve ref).toOption.isSome = true) : Intact table schema := by
  intro ref refers
  have resolved := resolves ref (h.mem_references refers)
  cases found : table.resolve ref with
  | error failure => simp [found, Except.toOption] at resolved
  | ok target => exact ⟨target, rfl⟩

/-- A part that refers to a definition. -/
def refTo (key : String) : Value :=
  .ofFields [("$ref", .text ("#/definitions/" ++ key))]

/-- A schema that refers to itself through one of its parts. -/
def ringTable : Table where
  root := "#/definitions/"
  definitions := [
    (.text "Ring", .ofFields [("allOf", .list [.ofFields [("allOf", .list [refTo "Ring"])]])])]

example : Acyclic ringTable [(.text "allOf", .list [refTo "Other"])] ∧
    ¬ Acyclic ringTable [(.text "allOf", .list [refTo "Ring"])] := by
  decide +kernel

end ApiBinding.Schema
