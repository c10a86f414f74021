import ApiBinding.Proofs.Operation.Grouping
import Mathlib.Data.List.Nodup

/-! Template placeholders are bound: the record of the path has a required field for each of them,
unless it is declared and none of its declarations has a type. -/

namespace ApiBinding

open Operation

/-- A parameter fills the segment of a template placeholder. -/
def Parameter.Declares (parameter : Parameter) (name : String) : Prop :=
  parameter.name = name ∧ (parameter.location = .path ∨ parameter.location = .query)

instance (parameter : Parameter) (name : String) : Decidable (parameter.Declares name) :=
  inferInstanceAs (Decidable (_ ∧ (_ ∨ _)))

theorem Operation.required_of_forall₂ {scope : Scope} {parameters : List Parameter}
    {fields : List (Field TypeExpr)} (h : List.Forall₂ (FieldOf scope) parameters fields)
    (required : ∀ parameter ∈ parameters, parameter.required = true) :
    ∀ field ∈ fields, field.required = true := by
  induction h with
  | nil => simp
  | cons own _ ih =>
      obtain ⟨first, others⟩ := List.forall_mem_cons.mp required
      exact List.forall_mem_cons.mpr ⟨own.required.trans first, ih others⟩

namespace Site

variable {site : Site} {binding : Binding TypeExpr} {forms : List Parameter} {name : String}

theorem required_of_addedFields {names : List String} {fields : List (Field TypeExpr)}
    (h : List.Forall₂ site.AddedField names fields) : ∀ field ∈ fields, field.required = true := by
  induction h with
  | nil => simp
  | cons own _ ih => exact List.forall_mem_cons.mpr ⟨own.required, ih⟩

/-- The record of the path has a field for a placeholder, and all its fields are required. -/
structure Binds (site : Site) (binding : Binding TypeExpr) (name : String) : Prop where
  pathRecord : binding.pathRecord = some (site.stem ++ "PathVar")
  record : ∃ record ∈ binding.records, record.name = site.stem ++ "PathVar" ∧
    (∃ field ∈ record.fields, field.name = name) ∧ ∀ field ∈ record.fields, field.required = true

/-- The names of the fields in the record of the path. -/
def pathNames (site : Site) (forms : List Parameter) : List String :=
  ((site.pathForms forms).filter hasType).map (·.name) ++ site.undeclaredNames forms

theorem mem_pathForms_iff {parameter : Parameter} (placed : name ∈ site.placeholders) :
    parameter ∈ site.pathForms forms ∧ parameter.name = name ↔
      parameter ∈ forms ∧ parameter.Declares name := by
  rw [pathForms, List.mem_filter, and_assoc, Parameter.Declares]
  refine and_congr_right fun _ => ⟨?_, ?_⟩
  · rintro ⟨fills, rfl⟩
    exact ⟨rfl, (of_decide_eq_true fills).imp_right And.left⟩
  · rintro ⟨rfl, located⟩
    simpa [placed] using located

/-- A placeholder gives a field its name if something with a type declares it or nothing does. -/
theorem mem_pathNames_iff (placed : name ∈ site.placeholders) :
    name ∈ site.pathNames forms ↔
      ((∃ parameter ∈ forms, parameter.Declares name) →
        ∃ parameter ∈ forms, parameter.Declares name ∧ hasType parameter = true) := by
  have declared : name ∈ (site.pathForms forms).map (·.name) ↔
      ∃ parameter ∈ forms, parameter.Declares name := by
    simp only [List.mem_map, mem_pathForms_iff placed]
  have typed : name ∈ ((site.pathForms forms).filter hasType).map (·.name) ↔
      ∃ parameter ∈ forms, parameter.Declares name ∧ hasType parameter = true := by
    rw [List.mem_map]
    refine exists_congr fun parameter => ?_
    rw [List.mem_filter, and_right_comm, mem_pathForms_iff placed, and_assoc]
  have added : name ∈ site.undeclaredNames forms ↔
      ¬ ∃ parameter ∈ forms, parameter.Declares name := by
    rw [← declared, undeclaredNames, List.mem_filter, List.mem_eraseDups]
    simp [placed]
  rw [pathNames, List.mem_append, typed, added, or_comm, imp_iff_not_or]

theorem PathGroup.exists_record (group : site.PathGroup forms binding)
    (free : site.PathNameFree forms) (present : binding.pathRecord ≠ none) :
    ∃ record ∈ binding.records, record.name = site.stem ++ "PathVar" ∧
      record.fields.map (·.name) = site.pathNames forms ∧
      ∀ field ∈ record.fields, field.required = true := by
  obtain ⟨record, member, named, declared, added, fields, first, last⟩ :=
    group.record free present
  refine ⟨record, member, named, ?_, ?_⟩
  · rw [fields, List.map_append, names_of_forall₂ first, names_of_addedFields last, pathNames,
      List.map_map]
    rfl
  · rw [fields, List.forall_mem_append]
    refine ⟨required_of_forall₂ first ?_, required_of_addedFields last⟩
    exact List.forall_mem_map.mpr fun _ _ => rfl

/-- Two records of a binding do not have the same name. -/
theorem Run.record_unique (run : site.Run binding) {record record' : Record TypeExpr}
    (member : record ∈ binding.records) (member' : record' ∈ binding.records)
    (same : record.name = record'.name) : record = record' := by
  rw [run.records] at member member'
  have distinct := run.response_settles.closed.catalog.nodup_records
  exact List.inj_on_of_nodup_map distinct member member' same

theorem Run.binds_iff (run : site.Run binding) (free : site.PathNameFree run.parameters) :
    site.Binds binding name ↔ name ∈ site.pathNames run.parameters := by
  have group := run.pathGroup
  constructor
  · rintro ⟨present, record, member, named, ⟨field, inside, rfl⟩, -⟩
    have present' : binding.pathRecord ≠ none := by simp [present]
    obtain ⟨record', member', named', names, -⟩ := group.exists_record free present'
    obtain rfl := run.record_unique member member' (named.trans named'.symm)
    rw [← names]
    exact List.mem_map_of_mem inside
  · intro mentioned
    have present : binding.pathRecord = some (site.stem ++ "PathVar") := by
      rw [group.result, if_neg]
      rintro ⟨untyped, declared⟩
      simp [pathNames, untyped, declared] at mentioned
    have present' : binding.pathRecord ≠ none := by simp [present]
    obtain ⟨record, member, named, names, required⟩ := group.exists_record free present'
    rw [← names] at mentioned
    exact ⟨present, record, member, named, List.mem_map.mp mentioned, required⟩

end Site

namespace Binding

/-- Which template placeholders are bound. If no other record has taken the name of the path's,
there is a record of the path with a required field for each placeholder, be it declared with a
type, by the path or the operation and in the path or the query, or not at all. A placeholder
that is only declared without a type has none. -/
theorem placeholder_bound_iff {document : Mapping} {path method : String} {options : Options}
    {lexicon : Name.Lexicon} {binding : Binding TypeExpr} {warnings : List Warning}
    (h : ofDocument (.object document) path method options lexicon =
      .ok (some binding, warnings)) :
    ∃ site forms,
      Site.ofDocument (.object document) path method options lexicon = .ok (some site) ∧
      Operation.parameters site.dialect document site.item site.operation = .ok forms ∧
      (site.PathNameFree forms → ∀ name ∈ Name.Template.placeholders path,
        (site.Binds binding name ↔
          ((∃ parameter ∈ forms, parameter.Declares name) →
            ∃ parameter ∈ forms, parameter.Declares name ∧ hasType parameter = true))) := by
  obtain ⟨site, located, ⟨run⟩⟩ := exists_run h
  obtain ⟨rfl, -, -, rfl, -, -⟩ := Site.of_ofDocument located
  refine ⟨site, run.parameters, located, run.normal, fun free name placed => ?_⟩
  rw [run.binds_iff free, Site.mem_pathNames_iff placed]

/-- Of the placeholders one is declared by the path, one in the query and one nowhere. -/
theorem placeholder_bound_linesDocument :
    ∃ binding warnings,
      ofDocument (.object linesDocument) linesPath "GET" {} .standard =
        .ok (some binding, warnings) ∧
      Name.Template.placeholders linesPath = ["shop", "order", "line"] ∧
      ∀ name ∈ Name.Template.placeholders linesPath, linesSite.Binds binding name := by
  have computed :
      ((ofDocument (.object linesDocument) linesPath "GET" {} .standard).toOption.bind
        (·.1)).map (fun _ => ()) = some () := by decide +kernel
  obtain ⟨binding, warnings, made, -⟩ := exists_of_computed computed
  obtain ⟨site, forms, located, normal, bound⟩ := placeholder_bound_iff made
  obtain rfl : linesSite = site := by
    simpa using site_linesDocument.symm.trans located
  obtain rfl : linesForms = forms := by
    have normal' : Operation.parameters linesSite.dialect linesDocument linesSite.item
        linesSite.operation = .ok linesForms := rfl
    exact Except.ok.inj (normal'.symm.trans normal)
  have free : linesSite.PathNameFree linesForms := by
    unfold Site.PathNameFree Operation.NameFree
    decide +kernel
  have declared : ∀ name ∈ Name.Template.placeholders linesPath,
      (∃ parameter ∈ linesForms, parameter.Declares name) →
        ∃ parameter ∈ linesForms, parameter.Declares name ∧ hasType parameter = true := by
    decide +kernel
  refine ⟨binding, warnings, made, by decide +kernel, fun name placed => ?_⟩
  exact (bound free name placed).mpr (declared name placed)

/-- The one placeholder is declared by a parameter without a schema. -/
def untypedDocument : Mapping := [
  (.text "openapi", .text "3.0.0"),
  (.text "paths", .ofFields [
    ("/pets/\x7bpetId\x7d", .ofFields [
      ("get", .ofFields [
        ("parameters", .list [.ofFields [("name", .text "petId"), ("in", .text "path")]])])])])]

/-- A declaration without a type keeps a placeholder from being bound: there are no records at
all, so none has taken the name of the path's. -/
theorem placeholder_not_bound_untypedDocument :
    "petId" ∈ Name.Template.placeholders "/pets/\x7bpetId\x7d" ∧
      ∃ binding warnings,
        ofDocument (.object untypedDocument) "/pets/\x7bpetId\x7d" "GET" {} .standard =
          .ok (some binding, warnings) ∧
        binding.records.map (·.name) = [] ∧ binding.pathRecord = none := by
  have computed :
      ((ofDocument (.object untypedDocument) "/pets/\x7bpetId\x7d" "GET" {}
        .standard).toOption.bind (·.1)).map
          (fun binding => (binding.records.map (·.name), binding.pathRecord)) =
        some ([], none) := by decide +kernel
  obtain ⟨binding, warnings, made, values⟩ := exists_of_computed computed
  obtain ⟨records, pathRecord⟩ := Prod.mk.inj values
  exact ⟨by decide +kernel, binding, warnings, made, records, pathRecord⟩

end Binding

end ApiBinding
