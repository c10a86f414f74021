import ApiBinding.Proofs.Synthesis.Depth
import ApiBinding.Proofs.Value.TextKeys

/-! Schemas whose mappings have texts as keys lead to schemas of that kind, and the types made of
them have a text. -/

namespace ApiBinding

/-! ## Types with a text -/

namespace TypeExpr

theorem areAllPrintable_iff {types : List TypeExpr} :
    areAllPrintable types = true ↔ ∀ type ∈ types, type.isPrintable = true := by
  induction types with
  | nil => simp [areAllPrintable]
  | cons type rest ih => simp [areAllPrintable, ih]

theorem areMembersPrintable_iff {members : List (Member TypeExpr)} :
    areMembersPrintable members = true ↔
      ∀ member ∈ members, (∃ name, member.name = .text name) ∧ member.type.isPrintable = true := by
  induction members with
  | nil => simp [areMembersPrintable]
  | cons member rest ih =>
      obtain ⟨name, required, type, description⟩ := member
      cases name <;> simp [areMembersPrintable, ih]

end TypeExpr

namespace Schema

open TypeExpr

theorem isPrintable_of_shape {schema : Mapping} {type : TypeExpr}
    (h : shape schema = .ok (.leaf type)) : type.isPrintable = true := by
  cases leafRule_of_shape h with
  | builtin built =>
      unfold builtin? at built
      repeat' split at built
      all_goals first
        | obtain rfl := Option.some.inj built
          rfl
        | simp at built
  | text => rfl
  | literals _ => rfl
  | object => rfl
  | copied _ => rfl

/-- The schemas that a schema leads to without a reference have texts as keys, too. -/
theorem isTextKeyed_of_shape {schema : Mapping} (texts : (Value.object schema).isTextKeyed = true)
    {found : Shape} (h : shape schema = .ok found) {part : Value} (member : part ∈ found.nodes) :
    part.isTextKeyed = true := by
  rcases contains_shape h member with ⟨rfl, -⟩ | written
  · rfl
  · exact Value.isTextKeyed_of_contains written.to_reflTransGen texts

end Schema

namespace Synthesis

open TypeExpr Schema Value

variable {scope : Scope}

/-! ## Composite types -/

theorem mem_of_typedProperties {properties : Mapping} {entry : Key × Mapping}
    (h : entry ∈ typedProperties properties) : (entry.1, .object entry.2) ∈ properties := by
  induction properties with
  | nil => simp [typedProperties] at h
  | cons first rest ih =>
      obtain ⟨name, property⟩ := first
      cases property with
      | object own =>
          by_cases typed : isTyped (.object own) = true
          · simp only [typedProperties, typed, if_true] at h
            rcases List.mem_cons.mp h with rfl | inside
            · exact List.mem_cons_self
            · exact List.mem_cons_of_mem _ (ih inside)
          · simp only [typedProperties, typed] at h
            exact List.mem_cons_of_mem _ (ih h)
      | _ => exact List.mem_cons_of_mem _ (ih h)

theorem isPrintable_unionOf {types : List TypeExpr}
    (h : ∀ type ∈ types, type.isPrintable = true) : (unionOf types).isPrintable = true := by
  unfold unionOf
  split
  · exact h _ (by simp)
  · exact areAllPrintable_iff.mpr h

theorem isPrintable_objectOf {properties : Mapping}
    (texts : (Value.object properties).isTextKeyed = true) (requirement : Requirement)
    {types : List TypeExpr} (h : ∀ type ∈ types, type.isPrintable = true) :
    (objectOf requirement properties types).isPrintable = true := by
  unfold objectOf
  split
  · rfl
  · refine areMembersPrintable_iff.mpr ?_
    intro member inside
    obtain ⟨index, bound, rfl⟩ := List.mem_iff_getElem.mp inside
    obtain ⟨hentry, htype⟩ :
        index < (typedProperties properties).length ∧ index < types.length := by
      simpa [membersOf] using bound
    simp only [membersOf, List.getElem_zipWith]
    have named := mem_of_typedProperties (List.getElem_mem hentry)
    exact ⟨(isTextKeyed_object_iff.mp texts _ named).1, h _ (List.getElem_mem htype)⟩

/-- The type of a composite schema has a text if those of its parts have one. -/
theorem isPrintable_build {session : Session} {node : Value} {composition : Composition}
    (work : workOf scope session node = .compose composition) (texts : node.isTextKeyed = true)
    {types : List TypeExpr} (h : ∀ type ∈ types, type.isPrintable = true) :
    (composition.build types).isPrintable = true := by
  obtain ⟨schema, found, rfl, shaped, rule⟩ := workOf_eq_compose work
  cases rule with
  | array items =>
      cases types with
      | nil => rfl
      | cons type rest => exact h type List.mem_cons_self
  | tuple elements => exact areAllPrintable_iff.mpr h
  | union members => exact isPrintable_unionOf h
  | intersection members => exact areAllPrintable_iff.mpr h
  | object properties requirement =>
      exact isPrintable_objectOf (isTextKeyed_of_holds (holds_of_shape shaped) texts) requirement h

end Synthesis

end ApiBinding
