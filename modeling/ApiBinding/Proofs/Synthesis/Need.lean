import ApiBinding.Proofs.Synthesis.Content

/-! Nothing superfluous: every name that the typing of a node mentions for the first time is needed
by the type it returns, directly or through the fields of records, and every such name was given
to a reference. -/

namespace ApiBinding

namespace Catalog

/-- The names that some names need: themselves, and the names in the fields of their records. -/
inductive Needs (catalog : Catalog) (start : List String) : String → Prop where
  | start {name} : name ∈ start → Needs catalog start name
  | field {owner record field name} : Needs catalog start owner →
      catalog.find? owner = some record → field ∈ record.fields →
      name ∈ field.type.references → Needs catalog start name

namespace Needs

variable {catalog : Catalog} {start start' : List String} {name : String}

/-- Stored records stay, so what was needed is still needed. -/
theorem grow {before after : Catalog} (h : before.Needs start name)
    (grown : before.Grows after) : after.Needs start name := by
  induction h with
  | start member => exact .start member
  | field _ found member inside ih => exact .field ih (grown.records found) member inside

theorem trans (h : catalog.Needs start name)
    (hstart : ∀ other ∈ start, catalog.Needs start' other) : catalog.Needs start' name := by
  induction h with
  | start member => exact hstart _ member
  | field _ found member inside ih => exact .field ih found member inside

theorem mono (h : catalog.Needs start name) (hstart : start ⊆ start') :
    catalog.Needs start' name :=
  h.trans fun _ member => .start (hstart member)

end Needs

end Catalog

namespace Session

/-- Between two sessions every name that is mentioned for the first time is needed by the given
names. -/
def Yields (start : List String) (before after : Session) : Prop :=
  ∀ name ∈ after.catalog.names, name ∈ before.catalog.names ∨ after.catalog.Needs start name

theorem Yields.refl (session : Session) (start : List String) : Yields start session session :=
  fun _ member => .inl member

theorem Yields.widen {before after : Session} {start start' : List String}
    (h : Yields start before after) (hstart : start ⊆ start') : Yields start' before after :=
  fun name member => (h name member).imp_right fun needed => needed.mono hstart

theorem Yields.trans {first second third : Session} {start start' : List String}
    (h : Yields start first second) (h' : Yields start' second third)
    (grown : second.Grows third)
    (hstart : ∀ name ∈ start, third.catalog.Needs start' name) : Yields start' first third := by
  intro name member
  rcases h' name member with earlier | needed
  · rcases h name earlier with known | needed
    · exact .inl known
    · exact .inr ((needed.grow grown.catalog).trans hstart)
  · exact .inr needed

/-- Between two sessions every name that is mentioned for the first time was given to a
reference. -/
structure Discovers (before after : Session) : Prop where
  grows : before.Grows after
  sourced : ∀ name ∈ after.catalog.names,
    name ∈ before.catalog.names ∨ ∃ ref, after.nameOf? ref = some name

theorem Discovers.refl (session : Session) : Discovers session session :=
  ⟨.refl session, fun _ member => .inl member⟩

theorem Discovers.trans {first second third : Session} (h : Discovers first second)
    (h' : Discovers second third) : Discovers first third := by
  refine ⟨h.grows.trans h'.grows, ?_⟩
  intro name member
  rcases h'.sourced name member with earlier | named
  · rcases h.sourced name earlier with known | ⟨ref, named⟩
    · exact .inl known
    · exact .inr ⟨ref, h'.grows.names named⟩
  · exact .inr named

theorem discovers_warn (session : Session) (warning : Warning) :
    Discovers session (session.warn warning) :=
  ⟨session.grows_warn warning, fun _ member => .inl member⟩

theorem mem_names_of_reserve {session : Session} {name other : String}
    (h : other ∈ (session.reserve name).catalog.names) :
    other ∈ session.catalog.names ∨ other = name := by
  rw [reserve, Catalog.names_reserve] at h
  split at h
  · exact .inl h
  · simpa using h

theorem mem_names_of_store {session : Session} {record : Record TypeExpr} {other : String}
    (h : other ∈ (session.store record).catalog.names) :
    other ∈ session.catalog.names ∨ other = record.name := by
  rw [store, Catalog.names_add] at h
  split at h
  · exact .inl h
  · simpa using h

/-- A record that is stored in its reserved slot is needed by its name, and what its fields
mention is needed through it. -/
theorem yields_store {session after : Session} {record : Record TypeExpr}
    (h : Yields (record.fields.flatMap (·.type.references)) (session.reserve record.name) after)
    (empty : after.catalog.find? record.name = none) :
    Yields [record.name] session (after.store record) := by
  have grown := after.grows_store record
  have stored : (after.store record).catalog.find? record.name = some record :=
    after.catalog.find?_add_self empty
  have own : (after.store record).catalog.Needs [record.name] record.name :=
    .start (by simp)
  intro name member
  rcases mem_names_of_store member with member | rfl
  · rcases h name member with earlier | needed
    · rcases mem_names_of_reserve earlier with known | rfl
      · exact .inl known
      · exact .inr own
    · refine .inr ((needed.grow grown.catalog).trans fun inner inside => ?_)
      obtain ⟨field, hfield, inside⟩ := List.mem_flatMap.mp inside
      exact .field own stored hfield inside
  · exact .inr own

end Session

namespace Synthesis

open ApiBinding.Schema

variable {scope : Scope}

/-! ## Types and the steps that found them -/

/-- Each node that is typed has one type. -/
theorem StepsDerivation.length {typed : Judgement} {session : Session} {steps : List Step}
    {result : Except Failure (List TypeExpr)} {types : List TypeExpr} {after : Session}
    {events : List Event}
    (derivation : StepsDerivation typed session steps result after events)
    (success : result = .ok types) : types.length = (typedNodes steps).length := by
  induction derivation generalizing types with
  | nil session =>
      obtain rfl := Except.ok.inj success
      rfl
  | skip _ ih => exact ih success
  | stop _ => simp at success
  | refuse _ _ => simp at success
  | @next _ _ _ _ type _ result _ _ _ _ _ _ ih =>
      cases result with
      | error failure => simp [Except.map] at success
      | ok others =>
          obtain rfl : type :: others = types := by simpa [Except.map] using success
          simp [typedNodes, ih rfl]

theorem length_typedProperties (warning : Key → Warning)
    (refusal : Key → TypeExpr → Option Failure) (properties : Mapping) :
    (typedNodes (properties.map (propertyStep warning refusal))).length =
      (typedProperties properties).length := by
  induction properties with
  | nil => rfl
  | cons entry rest ih =>
      obtain ⟨name, property⟩ := entry
      by_cases hasType : isTyped property = true
      · cases property with
        | object own => simp [propertyStep, typedNodes, typedProperties, hasType, ih]
        | _ => simp [isTyped] at hasType
      · cases property with
        | object own => simp [propertyStep, typedNodes, typedProperties, hasType, ih]
        | _ => simp [propertyStep, typedNodes, typedProperties, isTyped, ih]

private theorem zipWith_right {α β : Type} {xs : List α} {ys : List β}
    (length : ys.length = xs.length) : List.zipWith (fun _ y => y) xs ys = ys := by
  induction xs generalizing ys with
  | nil => simpa [List.length_eq_zero_iff, eq_comm] using length
  | cons x xs ih =>
      cases ys with
      | nil => simp at length
      | cons y ys => simp [ih (by simpa using length)]

/-- No type that was found for a property is lost. -/
theorem map_type_fieldsOf (requirement : Requirement) {properties : Mapping}
    {types : List TypeExpr} (length : types.length = (typedProperties properties).length) :
    (fieldsOf requirement properties types).map (·.type) = types := by
  rw [fieldsOf, List.map_zipWith]
  exact zipWith_right length

theorem map_type_membersOf (requirement : Requirement) {properties : Mapping}
    {types : List TypeExpr} (length : types.length = (typedProperties properties).length) :
    (membersOf requirement properties types).map (·.type) = types := by
  rw [membersOf, List.map_zipWith]
  exact zipWith_right length

/-- A composite type mentions all that its parts mention. -/
theorem references_subset_build {session : Session} {node : Value} {composition : Composition}
    (work : workOf scope session node = .compose composition) {types : List TypeExpr}
    (length : types.length = (typedNodes composition.steps).length) :
    types.flatMap TypeExpr.references ⊆ (composition.build types).references := by
  obtain ⟨schema, found, -, -, rule⟩ := workOf_eq_compose work
  cases rule with
  | array items =>
      obtain ⟨type, rfl⟩ : ∃ type, types = [type] :=
        List.length_eq_one_iff.mp (by simpa [typedNodes_plainSteps] using length)
      simp [TypeExpr.references]
  | tuple elements => simp [TypeExpr.references, TypeExpr.referencesOfAll_eq]
  | union members =>
      simp only [unionOf]
      split
      · simp
      · simp [TypeExpr.references, TypeExpr.referencesOfAll_eq]
  | intersection members => simp [TypeExpr.references, TypeExpr.referencesOfAll_eq]
  | object properties requirement =>
      rw [memberSteps, length_typedProperties] at length
      have all : types.flatMap TypeExpr.references =
          (membersOf requirement properties types).flatMap (·.type.references) := by
        conv_lhs => rw [← map_type_membersOf requirement length]
        rw [List.flatMap_map]
      simp only [objectOf]
      split
      · rename_i none
        simp [all, none]
      · rw [TypeExpr.references, TypeExpr.referencesOfMembers_eq, all]
        exact List.Subset.refl _

/-! ## Derivations -/

/-- A judgement whose successes mention nothing that the type does not need. -/
def Judgement.Thrifty (typed : Judgement) : Prop :=
  ∀ ⦃session node type after events⦄, typed session node (.ok type) after events →
    session.Grows after ∧ session.Yields type.references after

theorem StepsDerivation.thrifty {typed : Judgement} (thrifty : typed.Thrifty)
    {session : Session} {steps : List Step} {result : Except Failure (List TypeExpr)}
    {types : List TypeExpr} {after : Session} {events : List Event}
    (derivation : StepsDerivation typed session steps result after events)
    (success : result = .ok types) :
    session.Grows after ∧ session.Yields (types.flatMap TypeExpr.references) after := by
  induction derivation generalizing types with
  | nil session => exact ⟨.refl session, .refl session _⟩
  | skip _ ih =>
      obtain ⟨grown, yields⟩ := ih success
      exact ⟨(Session.grows_warn _ _).trans grown, yields⟩
  | stop _ => simp at success
  | refuse _ _ => simp at success
  | @next _ _ _ _ type _ result _ _ _ typed _ _ ih =>
      cases result with
      | error failure => simp [Except.map] at success
      | ok others =>
          obtain rfl : type :: others = types := by simpa [Except.map] using success
          obtain ⟨grown, yields⟩ := thrifty typed
          obtain ⟨grown', yields'⟩ := ih rfl
          refine ⟨grown.trans grown', ?_⟩
          refine yields.trans (yields'.widen ?_) grown' ?_
          · rw [List.flatMap_cons]
            exact List.subset_append_right _ _
          · exact fun name inside => .start (by simp [inside])

theorem RecordDerivation.thrifty {typed : Judgement} (thrifty : typed.Thrifty)
    (follows : ∀ {session node result after events}, typed session node result after events →
      TypeDerivation scope session node result after events)
    {result : Except Failure TypeExpr} {type : TypeExpr} {session : Session} {name : String}
    {schema : Mapping} {after : Session} {events : List Event}
    (derivation : RecordDerivation scope typed result session name schema after events)
    (success : result = .ok type) : session.Yields type.references after := by
  cases derivation with
  | taken _ => exact .refl session _
  | unreadable _ _ => simp at success
  | broken _ _ _ => simp at success
  | @stored _ _ _ flat types filled _ free _ steps =>
      obtain rfl := Except.ok.inj success
      obtain ⟨_, yields⟩ := steps.thrifty thrifty rfl
      have fields := (steps.mono follows).fields flat.requirement rfl
      obtain ⟨_, kept, _⟩ := fields.spares (session.mem_names_reserve name)
      have new : name ∉ session.catalog.names := by
        rw [← Catalog.mentions_iff, free]
        simp
      have empty : filled.catalog.find? name = none := by
        rw [kept]
        simpa [Session.reserve] using Catalog.find?_eq_none_of_not_mem new
      have length := steps.length rfl
      rw [fieldSteps, length_typedProperties] at length
      have all := map_type_fieldsOf flat.requirement length
      rw [← all, List.flatMap_map] at yields
      exact @Session.yields_store _ _ ⟨name, _, _, _⟩ yields empty

/-- A type needs every name that was mentioned for the first time while it was found. -/
theorem TypeDerivation.thrifty {session : Session} {node : Value}
    {result : Except Failure TypeExpr} {type : TypeExpr} {after : Session} {events : List Event}
    (derivation : TypeDerivation scope session node result after events)
    (success : result = .ok type) : session.Yields type.references after := by
  induction derivation using TypeDerivation.induct generalizing type with
  | done _ => exact .refl _ _
  | @compose _ _ composition result _ _ work steps =>
      cases result with
      | error failure => simp [Except.map] at success
      | ok types =>
          obtain rfl : composition.build types = type := by simpa [Except.map] using success
          obtain ⟨_, yields⟩ := steps.thrifty
            (fun _ _ _ _ _ both => ⟨both.choose.grows, both.choose_spec rfl⟩) rfl
          exact yields.widen (references_subset_build work (steps.length rfl))
  | declare _ record =>
      exact record.thrifty
        (fun _ _ _ _ _ both => ⟨both.choose.grows, both.choose_spec rfl⟩) Exists.choose success
  | expand _ _ ih => exact ih success

/-! ## References that give names -/

/-- A judgement under which new names are given to references. -/
def Judgement.Discovering (typed : Judgement) : Prop :=
  ∀ ⦃session node result after events⦄, typed session node result after events →
    session.Discovers after

theorem StepsDerivation.discovers {typed : Judgement} (discovering : typed.Discovering)
    {session : Session} {steps : List Step} {result : Except Failure (List TypeExpr)}
    {after : Session} {events : List Event}
    (derivation : StepsDerivation typed session steps result after events) :
    session.Discovers after :=
  derivation.leads .refl .trans Session.discovers_warn fun typed => discovering typed

/-- A record that is declared under the name of a reference mentions no other new name. -/
theorem RecordDerivation.discovers {typed : Judgement} (discovering : typed.Discovering)
    {result : Except Failure TypeExpr} {session : Session} {name : String} {schema : Mapping}
    {after : Session} {events : List Event}
    (derivation : RecordDerivation scope typed result session name schema after events)
    {ref : String} (named : session.nameOf? ref = some name) : session.Discovers after := by
  have reserved : session.Discovers (session.reserve name) := by
    refine ⟨session.grows_reserve name, fun other member => ?_⟩
    rcases Session.mem_names_of_reserve member with known | rfl
    · exact .inl known
    · exact .inr ⟨ref, named⟩
  cases derivation with
  | taken _ => exact .refl session
  | unreadable _ _ => exact reserved
  | broken _ _ steps => exact reserved.trans (steps.discovers discovering)
  | @stored _ _ _ flat types filled _ _ _ steps =>
      have fields := reserved.trans (steps.discovers discovering)
      have grown := filled.grows_store ⟨name, (schema.field "description").text?,
        fieldsOf flat.requirement flat.properties types, scope.placement⟩
      refine ⟨fields.grows.trans grown, fun other member => ?_⟩
      rcases Session.mem_names_of_store member with known | rfl
      · exact (fields.sourced other known).imp_right fun ⟨own, found⟩ => ⟨own, grown.names found⟩
      · exact .inr ⟨ref, (fields.grows.trans grown).names named⟩

theorem TypeDerivation.discovers {session : Session} {node : Value}
    {result : Except Failure TypeExpr} {after : Session} {events : List Event}
    (derivation : TypeDerivation scope session node result after events) :
    session.Discovers after := by
  induction derivation using TypeDerivation.induct with
  | done _ => exact .refl _
  | compose _ steps => exact steps.discovers fun _ _ _ _ _ both => both.choose_spec
  | @declare session _ ref name _ _ _ _ work record =>
      obtain ⟨_, unnamed, _⟩ := workOf_eq_declare work
      have named : (session.register ref name).nameOf? ref = some name := by
        simp [Session.nameOf?_register]
      have fields := record.discovers (fun _ _ _ _ _ both => both.choose_spec) named
      exact ⟨(Session.grows_register name unnamed).trans fields.grows, fields.sourced⟩
  | expand work inner ih =>
      obtain ⟨_, _, _, closed⟩ := workOf_eq_expand work
      exact ⟨inner.grows.close closed, ih.sourced⟩

end Synthesis

end ApiBinding
