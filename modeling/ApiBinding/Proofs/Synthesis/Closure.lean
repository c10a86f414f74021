import ApiBinding.Proofs.Schema.Shape
import ApiBinding.Proofs.Record.Tidy
import ApiBinding.Proofs.Synthesis.Growth

/-! No dangling names: a run that succeeds mentions every name that it hands out, and gives each
name that it reserves a record before it returns. -/

namespace ApiBinding

/-! ## Names in types -/

namespace TypeExpr

theorem referencesOfAll_eq (types : List TypeExpr) :
    referencesOfAll types = types.flatMap references := by
  induction types with
  | nil => rfl
  | cons type rest ih => simp [referencesOfAll, ih]

theorem referencesOfMembers_eq (members : List (Member TypeExpr)) :
    referencesOfMembers members = members.flatMap (·.type.references) := by
  induction members with
  | nil => rfl
  | cons member rest ih => simp [referencesOfMembers, ih]

end TypeExpr

namespace Schema

theorem references_builtin {word : String} {type : TypeExpr} (h : builtin? word = some type) :
    type.references = [] := by
  unfold builtin? at h
  repeat' split at h
  all_goals first
    | obtain rfl := Option.some.inj h
      rfl
    | simp at h

/-- A type without schemas inside mentions no record. -/
theorem references_of_shape {schema : Mapping} {type : TypeExpr}
    (h : shape schema = .ok (.leaf type)) : type.references = [] := by
  cases leafRule_of_shape h with
  | builtin built => exact references_builtin built
  | _ => rfl

end Schema

/-! ## Sessions -/

namespace Session

/-- A session in which every name of a reference is mentioned, in a tidy catalog. -/
structure Closed (session : Session) : Prop where
  catalog : session.catalog.Tidy
  named : ∀ {ref name}, session.nameOf? ref = some name → name ∈ session.catalog.names

/-- The later session is closed, and no name is pending in it that was not pending before. -/
structure Settles (before after : Session) : Prop where
  grows : before.Grows after
  closed : after.Closed
  pending : ∀ {name}, after.catalog.Pending name → before.catalog.Pending name

theorem closed_empty : Closed empty :=
  ⟨Catalog.tidy_empty, by simp [nameOf?, empty]⟩

theorem Closed.settles {session : Session} (h : session.Closed) : session.Settles session :=
  ⟨.refl session, h, id⟩

theorem Settles.trans {first second third : Session} (h : first.Settles second)
    (h' : second.Settles third) : first.Settles third :=
  ⟨h.grows.trans h'.grows, h'.closed, fun pending => h.pending (h'.pending pending)⟩

theorem Closed.warn {session : Session} (h : session.Closed) (warning : Warning) :
    session.Settles (session.warn warning) :=
  ⟨session.grows_warn warning, ⟨h.catalog, h.named⟩, id⟩

theorem mem_names_reserve (session : Session) (name : String) :
    name ∈ (session.reserve name).catalog.names := by
  rw [reserve, Catalog.names_reserve]
  split
  · assumption
  · simp

/-- A reservation may come after the name was given to references. -/
theorem closed_reserve {session : Session} {name : String} (tidy : session.catalog.Tidy)
    (named : ∀ {ref own}, session.nameOf? ref = some own →
      own ∈ session.catalog.names ∨ own = name) : (session.reserve name).Closed := by
  refine ⟨Catalog.tidy_reserve tidy name, ?_⟩
  intro ref own found
  rcases named found with mentioned | rfl
  · exact (session.grows_reserve name).catalog.mem_names mentioned
  · exact session.mem_names_reserve own

/-- A name is settled between its reservation and the storing of its record. -/
theorem settles_store {session after : Session} {name : String}
    (h : (session.reserve name).Settles after) {record : Record TypeExpr}
    (own : record.name = name)
    (known : ∀ field ∈ record.fields, field.type.references ⊆ after.catalog.names) :
    session.Settles (after.store record) := by
  subst own
  have grown := after.grows_store record
  refine ⟨((session.grows_reserve _).trans h.grows).trans grown, ⟨?_, ?_⟩, ?_⟩
  · exact Catalog.tidy_add h.closed.catalog known
  · intro ref name found
    exact grown.catalog.mem_names (h.closed.named found)
  · intro name pending
    obtain ⟨pending, hne⟩ := Catalog.pending_add pending
    rcases Catalog.pending_reserve (h.pending pending) with pending | same
    · exact pending
    · exact (hne same).elim

end Session

namespace Synthesis

open ApiBinding.Schema

variable {scope : Scope}

/-! ## Types that are built -/

theorem references_membersOf {requirement : Requirement} {properties : Mapping}
    {types : List TypeExpr} {name : String}
    (h : name ∈ (membersOf requirement properties types).flatMap (·.type.references)) :
    name ∈ types.flatMap TypeExpr.references := by
  obtain ⟨member, hmember, inside⟩ := List.mem_flatMap.mp h
  obtain ⟨i, bound, rfl⟩ := List.mem_iff_getElem.mp hmember
  simp only [membersOf, List.getElem_zipWith] at inside
  exact List.mem_flatMap.mpr ⟨_, List.getElem_mem _, inside⟩

/-- A composite type mentions the records that its parts mention. -/
theorem references_build {session : Session} {node : Value} {composition : Composition}
    (work : workOf scope session node = .compose composition) (types : List TypeExpr) :
    (composition.build types).references ⊆ types.flatMap TypeExpr.references := by
  obtain ⟨schema, found, -, -, rule⟩ := workOf_eq_compose work
  cases rule with
  | array items =>
      cases types with
      | nil => simp [TypeExpr.references, TypeExpr.object]
      | cons type rest => simp [TypeExpr.references]
  | tuple elements => simp [TypeExpr.references, TypeExpr.referencesOfAll_eq]
  | union members =>
      simp only [unionOf]
      split
      · simp
      · simp [TypeExpr.references, TypeExpr.referencesOfAll_eq]
  | intersection members => simp [TypeExpr.references, TypeExpr.referencesOfAll_eq]
  | object properties requirement =>
      simp only [objectOf]
      split
      · simp [TypeExpr.references, TypeExpr.object]
      · intro name inside
        rw [TypeExpr.references, TypeExpr.referencesOfMembers_eq] at inside
        exact references_membersOf inside

theorem mem_types_of_fieldsOf {requirement : Requirement} {properties : Mapping}
    {types : List TypeExpr} {field : Field TypeExpr}
    (h : field ∈ fieldsOf requirement properties types) : field.type ∈ types := by
  obtain ⟨i, bound, rfl⟩ := List.mem_iff_getElem.mp h
  simp only [fieldsOf, List.getElem_zipWith]
  exact List.getElem_mem _

theorem references_done {session : Session} (closed : session.Closed) {node : Value}
    {type : TypeExpr} (work : workOf scope session node = .done (.ok type)) :
    type.references ⊆ session.catalog.names := by
  generalize success : Except.ok type = result at work
  cases workOf_eq_done work with
  | leaf shaped =>
      obtain rfl := Except.ok.inj success
      simp [references_of_shape shaped]
  | named _ known =>
      obtain rfl := Except.ok.inj success
      simpa [TypeExpr.references] using closed.named known
  | unshown _ _ => simp at success
  | malformed _ => simp at success
  | notText _ _ => simp at success
  | unknown _ _ => simp at success
  | _ =>
      obtain rfl := Except.ok.inj success
      simp [TypeExpr.references, TypeExpr.object]

/-! ## Derivations -/

/-- A judgement whose successes settle every name they reserve and mention every name they
return. -/
def Judgement.Settling (typed : Judgement) : Prop :=
  ∀ ⦃session node type after events⦄, typed session node (.ok type) after events →
    session.Closed → session.Settles after ∧ type.references ⊆ after.catalog.names

theorem StepsDerivation.settles {typed : Judgement} (settling : typed.Settling)
    {session : Session} {steps : List Step} {result : Except Failure (List TypeExpr)}
    {types : List TypeExpr} {after : Session} {events : List Event}
    (derivation : StepsDerivation typed session steps result after events)
    (success : result = .ok types) (closed : session.Closed) :
    session.Settles after ∧ types.flatMap TypeExpr.references ⊆ after.catalog.names := by
  induction derivation generalizing types with
  | nil session =>
      obtain rfl := Except.ok.inj success
      exact ⟨closed.settles, by simp⟩
  | @skip session warning _ _ _ _ _ ih =>
      have warned := closed.warn warning
      obtain ⟨settled, known⟩ := ih success warned.closed
      exact ⟨warned.trans settled, known⟩
  | stop _ => simp at success
  | refuse _ _ => simp at success
  | @next _ _ _ _ type _ result _ _ _ typed _ _ ih =>
      obtain ⟨first, mentioned⟩ := settling typed closed
      cases result with
      | error failure => simp [Except.map] at success
      | ok rest =>
          obtain rfl : type :: rest = types := by simpa [Except.map] using success
          obtain ⟨others, known⟩ := ih rfl first.closed
          refine ⟨first.trans others, ?_⟩
          rw [List.flatMap_cons]
          refine List.append_subset.mpr ⟨?_, known⟩
          exact fun name inside => others.grows.catalog.mem_names (mentioned inside)

/-- A record may be declared under a name that references were given just before. -/
theorem RecordDerivation.settles {typed : Judgement} (settling : typed.Settling)
    {result : Except Failure TypeExpr} {type : TypeExpr} {session : Session} {name : String}
    {schema : Mapping} {after : Session} {events : List Event}
    (derivation : RecordDerivation scope typed result session name schema after events)
    (success : result = .ok type) (tidy : session.catalog.Tidy)
    (named : ∀ {ref own}, session.nameOf? ref = some own →
      own ∈ session.catalog.names ∨ own = name) :
    session.Settles after ∧ type.references ⊆ after.catalog.names := by
  have reserved := Session.closed_reserve tidy named
  cases derivation with
  | taken taken =>
      obtain rfl := Except.ok.inj success
      have mentioned := (Catalog.mentions_iff _ _).mp taken
      have closed : session.Closed := by
        refine ⟨tidy, ?_⟩
        intro ref own found
        rcases named found with inside | rfl
        · exact inside
        · exact mentioned
      exact ⟨closed.settles, by simpa [TypeExpr.references] using mentioned⟩
  | unreadable _ _ => simp at success
  | broken _ _ _ => simp at success
  | @stored _ _ _ flat types middle _ _ _ steps =>
      obtain rfl := Except.ok.inj success
      obtain ⟨settled, known⟩ := steps.settles settling rfl reserved
      have fields : ∀ field ∈ fieldsOf flat.requirement flat.properties types,
          field.type.references ⊆ middle.catalog.names := by
        intro field member own inside
        exact known (List.mem_flatMap.mpr ⟨_, mem_types_of_fieldsOf member, inside⟩)
      refine ⟨Session.settles_store settled rfl fields, ?_⟩
      have mentioned := settled.grows.catalog.mem_names (session.mem_names_reserve name)
      have stored := (middle.grows_store ⟨name, (schema.field "description").text?,
        fieldsOf flat.requirement flat.properties types, scope.placement⟩).catalog.mem_names
          mentioned
      simpa [TypeExpr.references] using stored

/-- A node that is typed from a closed session leaves a closed session and nothing pending. -/
theorem TypeDerivation.settles {session : Session} {node : Value}
    {result : Except Failure TypeExpr} {type : TypeExpr} {after : Session} {events : List Event}
    (derivation : TypeDerivation scope session node result after events)
    (success : result = .ok type) (closed : session.Closed) :
    session.Settles after ∧ type.references ⊆ after.catalog.names := by
  induction derivation using TypeDerivation.induct generalizing type with
  | done work =>
      obtain rfl := success
      exact ⟨closed.settles, references_done closed work⟩
  | @compose _ _ composition result _ _ work steps =>
      cases result with
      | error failure => simp [Except.map] at success
      | ok types =>
          obtain rfl : composition.build types = type := by simpa [Except.map] using success
          obtain ⟨settled, known⟩ :=
            steps.settles (fun _ _ _ _ _ both => both.choose_spec rfl) rfl closed
          exact ⟨settled, List.Subset.trans (references_build work types) known⟩
  | @declare session _ ref name _ _ _ _ work record =>
      obtain ⟨_, unnamed, _⟩ := workOf_eq_declare work
      have named : ∀ {other own}, (session.register ref name).nameOf? other = some own →
          own ∈ session.catalog.names ∨ own = name := by
        intro other own found
        rw [Session.nameOf?_register] at found
        split at found
        · exact .inr (Option.some.inj found).symm
        · exact .inl (closed.named found)
      obtain ⟨settled, known⟩ := record.settles
        (fun _ _ _ _ _ both => both.choose_spec rfl) success closed.catalog named
      exact ⟨⟨(Session.grows_register _ unnamed).trans settled.grows, settled.closed,
        settled.pending⟩, known⟩
  | expand work _ ih =>
      obtain ⟨_, _, _, shut⟩ := workOf_eq_expand work
      obtain ⟨settled, known⟩ := ih success ⟨closed.catalog, closed.named⟩
      exact ⟨⟨settled.grows.close shut, ⟨settled.closed.catalog, settled.closed.named⟩,
        settled.pending⟩, known⟩

end Synthesis

end ApiBinding
