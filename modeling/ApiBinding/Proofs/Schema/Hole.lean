import ApiBinding.Proofs.Schema.Acyclic

/-! Compositions with a hole among their members, which may be filled in different ways. Nothing
but the members in the hole tells two fillings apart. -/

namespace ApiBinding.Schema

/-! ## Holes -/

/-- Puts members in the place of those of a schema. -/
def withMembers (schema : Mapping) (members : List Value) : Mapping :=
  schema.insert (.text "allOf") (.list members)

/-- A composition with a hole between its members, or inside one of them. -/
inductive Place where
  | among (schema : Mapping) (front back : List Value)
  | inside (schema : Mapping) (front : List Value) (inner : Place) (back : List Value)

def Place.fill : Place → List Value → Mapping
  | .among schema front back, hole => withMembers schema (front ++ (hole ++ back))
  | .inside schema front inner back, hole =>
    withMembers schema (front ++ .object (inner.fill hole) :: back)

/-- A schema on a table, with the hole in the schema itself or in one of the definitions. -/
inductive Spot where
  | schema (table : Table) (place : Place)
  | definition (table : Table) (key : String) (place : Place) (root : Mapping)

namespace Spot

def table : Spot → List Value → Table
  | .schema table _, _ => table
  | .definition table key place _, hole =>
    { table with definitions := table.definitions.insert (.text key) (.object (place.fill hole)) }

def root : Spot → List Value → Mapping
  | .schema _ place, hole => place.fill hole
  | .definition _ _ _ root, _ => root

end Spot

/-! ## Two fillings -/

variable {a b : List Value} {schema schema' : Mapping}

/-- Two nodes that are the same or one place with different fillings. -/
inductive Like (a b : List Value) : Value → Value → Prop where
  | same (node : Value) : Like a b node node
  | filled (place : Place) : Like a b (.object (place.fill a)) (.object (place.fill b))

theorem Like.symm {node node' : Value} (h : Like a b node node') : Like b a node' node := by
  cases h with
  | same node => exact .same node
  | filled place => exact .filled place

/-- Like nodes are both schemas, or the same node. -/
theorem Like.object_cases {node node' : Value} (h : Like a b node node') :
    (node = node' ∧ ∀ schema, node' ≠ .object schema) ∨ ∃ schema schema', node = .object schema ∧
      node' = .object schema' ∧ Like a b (.object schema) (.object schema') := by
  cases h with
  | same node =>
      by_cases isObject : ∃ schema, node = .object schema
      · obtain ⟨schema, rfl⟩ := isObject
        exact .inr ⟨schema, schema, rfl, rfl, .same _⟩
      · exact .inl ⟨rfl, fun schema same => isObject ⟨schema, same⟩⟩
  | filled place => exact .inr ⟨_, _, rfl, rfl, .filled place⟩

/-- Members that are alike in pairs, up to the hole. -/
inductive LikeMembers (a b : List Value) : List Value → List Value → Prop where
  | nil : LikeMembers a b [] []
  | cons {item item' rest rest'} : Like a b item item' → LikeMembers a b rest rest' →
      LikeMembers a b (item :: rest) (item' :: rest')
  | hole {rest rest'} : LikeMembers a b rest rest' → LikeMembers a b (a ++ rest) (b ++ rest')

theorem LikeMembers.refl (items : List Value) : LikeMembers a b items items := by
  induction items with
  | nil => exact .nil
  | cons item rest ih => exact .cons (.same item) ih

theorem LikeMembers.append_left (front : List Value) {items items' : List Value}
    (h : LikeMembers a b items items') : LikeMembers a b (front ++ items) (front ++ items') := by
  induction front with
  | nil => exact h
  | cons item rest ih => exact .cons (.same item) ih

@[simp] theorem field_withMembers (schema : Mapping) (members : List Value) :
    Mapping.field (withMembers schema members) "allOf" = .list members := by
  rw [withMembers, Mapping.field, Mapping.find?_insert_self]
  rfl

theorem find?_fill (place : Place) (hole : List Value) {name : String} (other : name ≠ "allOf") :
    (place.fill hole).find? name = (place.fill []).find? name := by
  cases place <;>
    rw [Place.fill, Place.fill, withMembers, withMembers,
      Mapping.find?_insert_of_ne _ _ other.symm, Mapping.find?_insert_of_ne _ _ other.symm]

/-- Outside the members two fillings have the same entries. -/
theorem Like.find?_eq (h : Like a b (.object schema) (.object schema')) {name : String}
    (other : name ≠ "allOf") : schema.find? name = schema'.find? name := by
  generalize left : Value.object schema = node at h
  generalize right : Value.object schema' = node' at h
  cases h with
  | same _ =>
      obtain rfl := Value.object.inj (left.trans right.symm)
      rfl
  | filled place =>
      obtain rfl := Value.object.inj left
      obtain rfl := Value.object.inj right
      rw [find?_fill place a other, find?_fill place b other]

theorem Like.field_eq (h : Like a b (.object schema) (.object schema')) {name : String}
    (other : name ≠ "allOf") : schema.field name = schema'.field name := by
  rw [Mapping.field, h.find?_eq other, Mapping.field]

/-- The members of two fillings are alike. -/
theorem Like.members (h : Like a b (.object schema) (.object schema')) :
    (schema = schema' ∧ ∀ items, schema.field "allOf" ≠ .list items) ∨
      ∃ items items', schema.field "allOf" = .list items ∧
        schema'.field "allOf" = .list items' ∧ LikeMembers a b items items' := by
  generalize left : Value.object schema = node at h
  generalize right : Value.object schema' = node' at h
  cases h with
  | same _ =>
      obtain rfl := Value.object.inj (left.trans right.symm)
      by_cases listed : ∃ items, schema.field "allOf" = .list items
      · obtain ⟨items, found⟩ := listed
        exact .inr ⟨items, items, found, found, .refl items⟩
      · exact .inl ⟨rfl, fun items found => listed ⟨items, found⟩⟩
  | filled place =>
      obtain rfl := Value.object.inj left
      obtain rfl := Value.object.inj right
      cases place with
      | among schema front back =>
          exact .inr ⟨_, _, field_withMembers .., field_withMembers ..,
            .append_left front (.hole (.refl back))⟩
      | inside schema front inner back =>
          exact .inr ⟨_, _, field_withMembers .., field_withMembers ..,
            .append_left front (.cons (.filled inner) (.refl back))⟩

theorem parts_of_list {items : List Value} (found : schema.field "allOf" = .list items) :
    parts schema = .ok (items.filterMap Value.object?) := by
  rw [parts, found]

/-! ## Tables and roots -/

theorem Spot.like_root (spot : Spot) :
    Like a b (.object (spot.root a)) (.object (spot.root b)) := by
  cases spot with
  | schema table place => exact .filled place
  | definition table key place root => exact .same _

theorem resolve_of_find? {table : Table} {ref key : String} (keyed : table.keyOf ref = .ok key)
    (found : table.definitions.find? key = some (.object schema)) :
    table.resolve ref = .ok schema := by
  simp [Table.resolve, keyed, found, bind, Except.bind]

/-- A reference that leads somewhere in one table leads to a like schema in the other one. -/
theorem Spot.resolve_like (spot : Spot) {ref : String}
    (resolved : (spot.table a).resolve ref = .ok schema) :
    ∃ schema', (spot.table b).resolve ref = .ok schema' ∧
      Like a b (.object schema) (.object schema') := by
  cases spot with
  | schema table place => exact ⟨schema, resolved, .same _⟩
  | definition table key place root =>
      obtain ⟨own, keyed, found⟩ := find?_of_resolve resolved
      by_cases here : key = own
      · subst here
        obtain rfl := Value.object.inj (Option.some.inj
          ((Mapping.find?_insert_self table.definitions _ _).symm.trans found))
        exact ⟨place.fill b, resolve_of_find? keyed (Mapping.find?_insert_self _ _ _),
          .filled place⟩
      · have kept := (Mapping.find?_insert_of_ne table.definitions _ here).symm.trans found
        exact ⟨schema, resolve_of_find? keyed
          ((Mapping.find?_insert_of_ne table.definitions _ here).trans kept), .same _⟩

/-! ## What an empty hole leaves -/

theorem LikeMembers.exists_like {items items' : List Value} (h : LikeMembers a [] items items')
    {item' : Value} (member : item' ∈ items') : ∃ item ∈ items, Like a [] item item' := by
  induction h with
  | nil => simp at member
  | @cons item first rest rest' like _ ih =>
      rcases List.mem_cons.mp member with rfl | member
      · exact ⟨item, List.mem_cons_self, like⟩
      · obtain ⟨item, member, like⟩ := ih member
        exact ⟨item, List.mem_cons_of_mem _ member, like⟩
  | hole _ ih =>
      obtain ⟨item, member, like⟩ := ih member
      exact ⟨item, List.mem_append_right _ member, like⟩

/-- Each part beside the hole has its like where the hole is filled. -/
theorem Like.exists_part (h : Like a [] (.object schema) (.object schema'))
    {members' : List Mapping} {part' : Mapping} (found : parts schema' = .ok members')
    (member : part' ∈ members') :
    ∃ members part, parts schema = .ok members ∧ part ∈ members ∧
      Like a [] (.object part) (.object part') := by
  rcases h.members with ⟨rfl, _⟩ | ⟨items, items', listed, listed', like⟩
  · exact ⟨members', part', found, member, .same _⟩
  · rw [parts_of_list listed'] at found
    obtain rfl := Except.ok.inj found
    obtain ⟨item', member, isObject⟩ := List.mem_filterMap.mp member
    obtain rfl := Value.eq_object_of_object? isObject
    obtain ⟨item, member, like⟩ := like.exists_like member
    rcases like.object_cases with ⟨_, noObject⟩ | ⟨part, own, rfl, isOwn, like⟩
    · exact absurd rfl (noObject part')
    · obtain rfl := Value.object.inj isOwn
      exact ⟨_, part, parts_of_list listed, List.mem_filterMap.mpr ⟨_, member, rfl⟩, like⟩

/-- What is composed around an empty hole is composed around a filled one as well. -/
theorem Spot.exists_composes (spot : Spot) {owner' : Mapping}
    (h : Composes (spot.table []) (spot.root []) owner') :
    ∃ owner, Composes (spot.table a) (spot.root a) owner ∧
      Like a [] (.object owner) (.object owner') := by
  induction h with
  | self => exact ⟨spot.root a, .self, spot.like_root⟩
  | @part owner' members' part' _ found member own ih =>
      obtain ⟨owner, composes, like⟩ := ih
      obtain ⟨members, part, found, member, like⟩ := like.exists_part found member
      refine ⟨part, .part composes found member ?_, like⟩
      rwa [like.field_eq (by decide)]
  | @target owner' members' part' ref target' _ found member href resolved ih =>
      obtain ⟨owner, composes, like⟩ := ih
      obtain ⟨members, part, found, member, like⟩ := like.exists_part found member
      obtain ⟨target, resolved, like'⟩ := spot.resolve_like resolved
      rw [← like.field_eq (by decide)] at href
      exact ⟨target, .target composes found member href resolved, like'.symm⟩

theorem Spot.refersDown (spot : Spot) {ref : String}
    (h : RefersDown (spot.table []) (spot.root []) ref) :
    RefersDown (spot.table a) (spot.root a) ref := by
  obtain ⟨composes, found, member, href⟩ := h
  obtain ⟨owner, composes, like⟩ := spot.exists_composes composes
  obtain ⟨members, part, found, member, like⟩ := like.exists_part found member
  rw [← like.field_eq (by decide)] at href
  exact .intro composes found member href

end ApiBinding.Schema
