import ApiBinding.Proofs.Schema.Inheritance
import ApiBinding.Proofs.Synthesis.Content

/-! The records that a run adds: each has the placement of the scope in which it was found, and no
two of its fields have one name. -/

namespace ApiBinding

namespace Session

/-- Each record of the later session that is not one of the earlier session has a property. -/
def Adds (holds : Record TypeExpr → Prop) (before after : Session) : Prop :=
  ∀ ⦃name record⦄, after.catalog.find? name = some record →
    before.catalog.find? name = some record ∨ holds record

variable {holds : Record TypeExpr → Prop}

theorem adds_refl (session : Session) : session.Adds holds session :=
  fun _ _ found => .inl found

theorem Adds.trans {first second third : Session} (h : first.Adds holds second)
    (h' : second.Adds holds third) : first.Adds holds third := by
  intro name record found
  rcases h' found with old | new
  · exact h old
  · exact .inr new

theorem Adds.mono {before after : Session} {holds' : Record TypeExpr → Prop}
    (h : before.Adds holds after) (weaker : ∀ record, holds record → holds' record) :
    before.Adds holds' after := by
  intro name record found
  exact (h found).imp_right (weaker record)

/-- A reservation adds no record. -/
theorem adds_reserve (session : Session) (name : String) :
    session.Adds holds (session.reserve name) := by
  intro other record found
  exact .inl (by simpa [reserve] using found)

theorem adds_store (session : Session) {record : Record TypeExpr} (h : holds record) :
    session.Adds holds (session.store record) := by
  intro name stored found
  rcases Catalog.find?_add_cases found with old | ⟨-, rfl⟩
  · exact .inl old
  · exact .inr h

end Session

namespace Synthesis

open ApiBinding.Schema

variable {scope : Scope} {holds : Record TypeExpr → Prop}

/-! ## Field names -/

/-- Each field has the name of a property of its own. -/
theorem FieldsDerivation.names_sublist {owner : String} {requirement : Requirement}
    {session : Session} {properties : Mapping} {fields : List (Field TypeExpr)} {after : Session}
    (derivation : FieldsDerivation scope owner requirement session properties fields after) :
    (fields.map fun field => Key.text field.name).Sublist properties.keys := by
  induction derivation with
  | nil session => exact .slnil
  | untyped _ _ ih => exact ih.cons _
  | typed _ _ _ _ _ ih => exact ih.cons_cons _

theorem FieldsDerivation.nodup {owner : String} {requirement : Requirement}
    {session : Session} {properties : Mapping} {fields : List (Field TypeExpr)} {after : Session}
    (derivation : FieldsDerivation scope owner requirement session properties fields after)
    (distinct : properties.Distinct) : (fields.map (·.name)).Nodup :=
  distinct.nodup_names derivation.names_sublist

/-! ## Records made of schemas -/

/-- A record that was found in a scope and has distinct field names. -/
structure Generated (scope : Scope) (record : Record TypeExpr) : Prop where
  placement : record.placement = scope.placement
  distinct : (record.fields.map (·.name)).Nodup

/-- A judgement under which only records with a property are added. -/
def Judgement.Adding (holds : Record TypeExpr → Prop) (typed : Judgement) : Prop :=
  ∀ ⦃session node result after events⦄, typed session node result after events →
    session.Adds holds after

theorem StepsDerivation.adds {typed : Judgement} (adding : typed.Adding holds)
    {session : Session} {steps : List Step} {result : Except Failure (List TypeExpr)}
    {after : Session} {events : List Event}
    (derivation : StepsDerivation typed session steps result after events) :
    session.Adds holds after :=
  derivation.leads Session.adds_refl .trans (fun session _ => session.adds_refl)
    fun typed => adding typed

/-- The record of a schema has the fields of the properties that the schema inherits, and these
are distinct. -/
theorem RecordDerivation.adds {typed : Judgement}
    (follows : ∀ {session node result after events}, typed session node result after events →
      TypeDerivation scope session node result after events)
    (adding : typed.Adding (Generated scope)) {result : Except Failure TypeExpr}
    {session : Session} {name : String} {schema : Mapping} {after : Session} {events : List Event}
    (derivation : RecordDerivation scope typed result session name schema after events) :
    session.Adds (Generated scope) after := by
  have reserved : session.Adds (Generated scope) (session.reserve name) :=
    session.adds_reserve name
  cases derivation with
  | taken _ => exact session.adds_refl
  | unreadable _ _ => exact reserved
  | broken _ _ steps => exact reserved.trans (steps.adds adding)
  | @stored _ _ _ flat types middle _ _ flattened steps =>
      have fields := (steps.mono follows).fields flat.requirement rfl
      have distinct := ((ends_flatten scope.table schema).holds flattened).distinct
      refine (reserved.trans (steps.adds adding)).trans ?_
      exact middle.adds_store ⟨rfl, fields.nodup distinct⟩

/-- However a node leads on to definitions, the records that its typing adds are all found in the
scope of the node. -/
theorem TypeDerivation.adds {session : Session} {node : Value}
    {result : Except Failure TypeExpr} {after : Session} {events : List Event}
    (derivation : TypeDerivation scope session node result after events) :
    session.Adds (Generated scope) after := by
  induction derivation using TypeDerivation.induct with
  | done _ => exact Session.adds_refl _
  | compose _ steps => exact steps.adds fun _ _ _ _ _ both => both.choose_spec
  | declare _ record =>
      exact record.adds (fun both => both.choose) fun _ _ _ _ _ both => both.choose_spec
  | expand _ _ ih => exact ih

end Synthesis

end ApiBinding
