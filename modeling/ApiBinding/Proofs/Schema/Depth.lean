import ApiBinding.Proofs.Value.Parts
import ApiBinding.Schema.Composition

/-! The walks through composed schemas end: on every definition table, with references in any
circles, the bound on their depth is never used up, and a larger bound changes nothing. -/

namespace ApiBinding.Schema

/-! ## Settled results -/

/-- Two bounded computations have one result, which is not that a bound was used up, and what
they return has a property. -/
structure Settled {α : Type} (result other : Except Failure α) (post : α → Prop) : Prop where
  same : result = other
  reached : result ≠ .error (.defect .depthExhausted)
  holds : ∀ {value}, result = .ok value → post value

namespace Settled

variable {α β : Type} {post : α → Prop}

theorem ok {value : α} (h : post value) : Settled (.ok value) (.ok value) post := by
  refine ⟨rfl, by simp, ?_⟩
  intro found hfound
  obtain rfl := Except.ok.inj hfound
  exact h

theorem error {failure : Failure} (h : failure ≠ .defect .depthExhausted) :
    Settled (.error failure) (.error failure) post :=
  ⟨rfl, by simpa using h, by simp⟩

/-- A computation without a bound is settled if it cannot run out of one. -/
theorem refl {result : Except Failure α} (reached : result ≠ .error (.defect .depthExhausted))
    (holds : ∀ {value}, result = .ok value → post value) : Settled result result post :=
  ⟨rfl, reached, holds⟩

theorem bind {result other : Except Failure α} {next next' : α → Except Failure β}
    {post' : β → Prop} (h : Settled result other post)
    (hnext : ∀ value, post value → Settled (next value) (next' value) post') :
    Settled (result >>= next) (other >>= next') post' := by
  obtain rfl := h.same
  cases found : result with
  | error failure =>
      refine error ?_
      rintro rfl
      exact h.reached found
  | ok value => exact hnext value (h.holds found)

theorem foldlM {step step' : α → β → Except Failure α} {items : List β}
    (hstep : ∀ state, post state → ∀ item ∈ items,
      Settled (step state item) (step' state item) post)
    {start : α} (hstart : post start) :
    Settled (items.foldlM step start) (items.foldlM step' start) post := by
  induction items generalizing start with
  | nil => exact ok hstart
  | cons item rest ih =>
      rw [List.foldlM_cons, List.foldlM_cons]
      refine (hstep start hstart item (by simp)).bind ?_
      intro state hstate
      exact ih (fun state hstate other member => hstep state hstate other (by simp [member]))
        hstate

end Settled

/-! ## Definition tables -/

/-- A table whose definitions are within bounds. -/
def Bounded (pool : List String) (limit : Nat) (table : Table) : Prop :=
  ∀ entry ∈ table.definitions, entry.2.Within pool limit

theorem keyOf_reached (table : Table) (ref : String) :
    table.keyOf ref ≠ .error (.defect .depthExhausted) := by
  unfold Table.keyOf
  split <;> simp

theorem resolve_reached (table : Table) (ref : String) :
    table.resolve ref ≠ .error (.defect .depthExhausted) := by
  unfold Table.resolve
  cases keyed : table.keyOf ref with
  | error failure =>
      have := keyOf_reached table ref
      simpa [keyed, bind, Except.bind] using this
  | ok key =>
      simp only [bind, Except.bind]
      split <;> simp

/-- A resolved reference leads to the definition of its key. -/
theorem find?_of_resolve {table : Table} {ref : String} {schema : Mapping}
    (h : table.resolve ref = .ok schema) :
    ∃ key, table.keyOf ref = .ok key ∧ table.definitions.find? key = some (.object schema) := by
  unfold Table.resolve at h
  cases keyed : table.keyOf ref with
  | error failure => simp [keyed, bind, Except.bind] at h
  | ok key =>
      simp only [keyed, bind, Except.bind] at h
      split at h
      · rename_i own found
        obtain rfl := Except.ok.inj h
        exact ⟨key, rfl, found⟩
      · simp at h

theorem mem_of_resolve {table : Table} {ref : String} {schema : Mapping}
    (h : table.resolve ref = .ok schema) : ∃ key, (key, .object schema) ∈ table.definitions := by
  obtain ⟨_, _, found⟩ := find?_of_resolve h
  exact Mapping.mem_of_find? found

variable {pool : List String} {limit : Nat} {table : Table}

theorem Bounded.settled_resolve (bounded : Bounded pool limit table) (ref : String) :
    Settled (table.resolve ref) (table.resolve ref)
      (fun schema => (Value.object schema).Within pool limit) := by
  refine .refl (resolve_reached table ref) ?_
  intro schema found
  obtain ⟨key, member⟩ := mem_of_resolve found
  exact bounded _ member

/-! ## Depth -/

/-- What is left of a walk at a node: a whole table after each reference that can still be
followed, and the nodes inside the node. -/
def reach (limit left : Nat) (node : Value) : Nat :=
  left * limit + node.size

theorem reach_pos (limit left : Nat) (node : Value) : 0 < reach limit left node := by
  have := node.size_pos
  rw [reach]
  omega

/-- A part is reached with less than the whole. -/
theorem reach_part (limit : Nat) {left left' : Nat} {node part : Value} (fewer : left' ≤ left)
    (smaller : part.size < node.size) : reach limit left' part < reach limit left node := by
  have := Nat.mul_le_mul_right limit fewer
  rw [reach, reach]
  omega

/-- The target of a new reference is reached with less than the node that holds it. -/
theorem reach_target {left left' : Nat} (node : Value) {target : Value} (fewer : left' < left)
    (fits : target.size < limit) : reach limit left' target < reach limit left node := by
  have := budget_lt fewer fits
  rw [reach, reach]
  omega

/-- The texts of a table and a node, and one more than their size. -/
def poolOf (table : Table) (node : Value) : List String :=
  Value.mappingTexts table.definitions ++ node.texts

def limitOf (table : Table) (node : Value) : Nat :=
  Value.mappingSize table.definitions + node.size + 1

theorem bounded_poolOf (table : Table) (node : Value) :
    Bounded (poolOf table node) (limitOf table node) table := by
  intro entry member
  have size := Value.size_le_mappingSize member
  refine ⟨?_, by unfold limitOf; omega⟩
  exact List.subset_append_of_subset_left _ (Value.texts_subset_mappingTexts member)

theorem within_poolOf (table : Table) (node : Value) :
    node.Within (poolOf table node) (limitOf table node) :=
  ⟨List.subset_append_right _ _, by unfold limitOf; omega⟩

/-- The bound has room for every reference to be followed twice, with a whole table after each
time, and for the table once more. -/
theorem room_le_depthBound (table : Table) (node : Value) {left : Nat}
    (few : left ≤ 2 * (poolOf table node).length) :
    (left + 1) * limitOf table node ≤ depthBound table node := by
  have short : (poolOf table node).length ≤ Value.mappingSize table.definitions + node.size := by
    have := Value.length_mappingTexts_le table.definitions
    have := node.length_texts_le
    simp only [poolOf, List.length_append]
    omega
  unfold depthBound
  apply Nat.mul_le_mul
  · omega
  · unfold limitOf
    omega

theorem reach_le_depthBound (table : Table) (node : Value) {left : Nat}
    (few : left ≤ 2 * (poolOf table node).length) :
    reach (limitOf table node) left node ≤ depthBound table node := by
  have room := room_le_depthBound table node few
  have fits := (within_poolOf table node).size
  rw [Nat.add_mul] at room
  rw [reach]
  omega

/-! ## References that were followed -/

/-- How many references a walk can still follow. -/
def unseen (pool seen : List String) : Nat :=
  unmet pool seen.contains

theorem unseen_le (pool seen : List String) : unseen pool seen ≤ 2 * pool.length := by
  have := unmet_le_length pool seen.contains
  rw [unseen]
  omega

theorem unseen_mono (pool : List String) {seen later : List String} (h : seen ⊆ later) :
    unseen pool later ≤ unseen pool seen := by
  apply unmet_mono
  intro ref met
  simp only [List.contains_iff_mem] at met ⊢
  exact h met

theorem unseen_cons_lt {seen later : List String} {ref : String} (h : seen ⊆ later)
    (member : ref ∈ pool) (new : ref ∉ later) :
    unseen pool (ref :: later) < unseen pool seen := by
  refine unmet_lt ?_ member ?_ ?_
  · intro other met
    simp only [List.contains_iff_mem] at met ⊢
    exact List.mem_cons_of_mem _ (h met)
  · have : ref ∉ seen := fun met => new (h met)
    simpa using this
  · simp

/-! ## Inherited properties -/

/-- Properties whose schemas are within bounds. -/
def Confined (pool : List String) (limit : Nat) (properties : Mapping) : Prop :=
  ∀ entry ∈ properties, entry.2.Within pool limit

theorem Confined.extend {m added : Mapping} (h : Confined pool limit m)
    (hadded : Confined pool limit added) : Confined pool limit (m.extend added) := by
  unfold Mapping.extend
  induction added generalizing m with
  | nil => exact h
  | cons entry rest ih =>
      rw [List.foldl_cons]
      refine ih ?_ fun other member => hadded other (by simp [member])
      unfold Mapping.insertNew
      split
      · exact h
      · intro other member
        rcases List.mem_append.mp member with member | member
        · exact h other member
        · obtain rfl : other = entry := by simpa using member
          exact hadded other (by simp)

theorem mem_of_parts {schema : Mapping} {members : List Mapping}
    (h : parts schema = .ok members) {part : Mapping} (member : part ∈ members) :
    ∃ items, schema.field "allOf" = .list items ∧ .object part ∈ items := by
  unfold parts at h
  split at h
  · rename_i items found
    obtain rfl := Except.ok.inj h
    obtain ⟨item, hitem, hobject⟩ := List.mem_filterMap.mp member
    obtain rfl := Value.eq_object_of_object? hobject
    exact ⟨items, found, hitem⟩
  · simp_all
  · simp_all
  · split at h <;> simp_all

theorem parts_reached (schema : Mapping) :
    parts schema ≠ .error (.defect .depthExhausted) := by
  unfold parts
  split <;> try simp
  split <;> simp

/-- A member of a composition is a smaller part of the schema. -/
theorem member_of_allOf {schema : Mapping} {items : List Value}
    (found : schema.field "allOf" = .list items)
    (within : (Value.object schema).Within pool limit) {item : Value} (member : item ∈ items) :
    item.Within pool limit ∧ item.size < (Value.object schema).size := by
  obtain ⟨key, entry⟩ := Mapping.mem_of_field found (by simp)
  have inner := Value.size_lt_of_mem_list member
  have outer := Value.size_lt_of_mem_object entry
  exact ⟨(within.entry entry).item member, inner.trans outer⟩

/-- The parts of a composed schema are smaller than it. -/
theorem settled_parts {schema : Mapping} (within : (Value.object schema).Within pool limit) :
    Settled (parts schema) (parts schema) fun members => ∀ part ∈ members,
      (Value.object part).Within pool limit ∧
        (Value.object part).size < (Value.object schema).size := by
  refine .refl (parts_reached schema) ?_
  intro members found part member
  obtain ⟨items, hitems, hpart⟩ := mem_of_parts found member
  exact member_of_allOf hitems within hpart

/-- A reference written in a schema is one of the texts. -/
theorem mem_pool_of_ref {schema : Mapping} {ref : String}
    (within : (Value.object schema).Within pool limit)
    (found : schema.field "$ref" = .text ref) : ref ∈ pool := by
  have inside := within.field "$ref"
  rw [found] at inside
  exact inside.texts (by simp [Value.texts])

/-- What has been gathered is within bounds, and no reference that was followed is forgotten. -/
def Gathering.Fits (pool : List String) (limit : Nat) (seen : List String)
    (gathered : Gathering) : Prop :=
  Confined pool limit gathered.properties ∧ seen ⊆ gathered.seen

theorem Gathering.Fits.absorb {seen later : List String} {gathered : Gathering}
    {flat : Flattened} (h : gathered.Fits pool limit seen)
    (confined : Confined pool limit flat.properties) (kept : gathered.seen ⊆ later) :
    (gathered.absorb flat later).Fits pool limit seen :=
  ⟨h.1.extend confined, List.Subset.trans h.2 kept⟩

/-- What a walk that returns properties and the references followed keeps. -/
def Walked (pool : List String) (limit : Nat) (seen : List String)
    (answer : Flattened × List String) : Prop :=
  Confined pool limit answer.1.properties ∧ seen ⊆ answer.2

theorem settled_gatherPart {walk walk' : List String → Mapping →
      Except Failure (Flattened × List String)} (bounded : Bounded pool limit table)
    (node : Value) {start : List String}
    (hwalk : ∀ {seen part}, (Value.object part).Within pool limit →
      reach limit (unseen pool seen) (.object part) < reach limit (unseen pool start) node →
      Settled (walk seen part) (walk' seen part) (Walked pool limit seen))
    {gathered : Gathering} (fits : gathered.Fits pool limit start) {part : Mapping}
    (inside : (Value.object part).Within pool limit)
    (smaller : (Value.object part).size < node.size) :
    Settled (gatherPart table walk gathered part) (gatherPart table walk' gathered part)
      (Gathering.Fits pool limit start) := by
  simp only [gatherPart]
  split
  · rename_i ref href
    split
    · exact .ok fits
    · rename_i new
      refine (bounded.settled_resolve ref).bind ?_
      intro target htarget
      have fewer := unseen_cons_lt fits.2 (mem_pool_of_ref inside href) (by simpa using new)
      refine (hwalk htarget (reach_target node fewer htarget.size)).bind ?_
      rintro ⟨flat, later⟩ ⟨confined, kept⟩
      exact .ok (fits.absorb confined fun other met => kept (List.mem_cons_of_mem _ met))
  · refine (hwalk inside (reach_part limit (unseen_mono pool fits.2) smaller)).bind ?_
    rintro ⟨flat, later⟩ ⟨confined, kept⟩
    exact .ok (fits.absorb confined kept)

/-- A walk over a schema within bounds returns properties within bounds, and no reference that
was followed is forgotten. -/
theorem settled_flattenWithin (bounded : Bounded pool limit table) {depth depth' : Nat}
    {seen : List String} {schema : Mapping} (within : (Value.object schema).Within pool limit)
    (enough : reach limit (unseen pool seen) (.object schema) ≤ depth)
    (enough' : reach limit (unseen pool seen) (.object schema) ≤ depth') :
    Settled (flattenWithin table depth seen schema) (flattenWithin table depth' seen schema)
      (Walked pool limit seen) := by
  have positive := reach_pos limit (unseen pool seen) (.object schema)
  induction depth generalizing depth' seen schema with
  | zero => omega
  | succ depth ih =>
      obtain ⟨depth', rfl⟩ : ∃ less, depth' = less + 1 := ⟨depth' - 1, by omega⟩
      simp only [flattenWithin, flattenStep]
      refine Settled.bind (settled_parts within) ?_
      intro members hmembers
      refine Settled.bind (@Settled.foldlM _ _ (Gathering.Fits pool limit seen) _ _ _ ?_ _ ?_) ?_
      · intro gathered fits part member
        obtain ⟨inside, smaller⟩ := hmembers part member
        refine settled_gatherPart bounded (.object schema) ?_ fits inside smaller
        intro later part inside less
        exact ih inside (by omega) (by omega) (reach_pos ..)
      · exact ⟨by simp [Confined], List.Subset.refl _⟩
      · intro gathered fits
        refine .ok ⟨?_, fits.2⟩
        dsimp only
        split
        · rename_i own found
          obtain ⟨key, entry⟩ := Mapping.mem_of_field found (by simp)
          exact fits.1.extend fun other member => (within.entry entry).entry member
        · exact fits.1

/-! ## Record-shaped schemas -/

theorem settled_anyRecordShaped {walk walk' : List String → Value →
      Except Failure (Bool × List String)} (bounded : Bounded pool limit table)
    (node : Value) {start : List String}
    (hwalk : ∀ {seen part}, part.Within pool limit →
      reach limit (unseen pool seen) part < reach limit (unseen pool start) node →
      Settled (walk seen part) (walk' seen part) (fun answer => seen ⊆ answer.2))
    {seen : List String} (later : start ⊆ seen) {members : List Value}
    (hmembers : ∀ part ∈ members, part.Within pool limit ∧ part.size < node.size) :
    Settled (anyRecordShaped table walk seen members) (anyRecordShaped table walk' seen members)
      (fun answer => start ⊆ answer.2) := by
  induction members generalizing seen with
  | nil => exact .ok later
  | cons part rest ih =>
      obtain ⟨inside, smaller⟩ := hmembers part (by simp)
      have hrest : ∀ other ∈ rest, other.Within pool limit ∧ other.size < node.size :=
        fun other member => hmembers other (by simp [member])
      simp only [anyRecordShaped]
      split
      · rename_i ref href
        split
        · exact ih later hrest
        · rename_i new
          refine (bounded.settled_resolve ref).bind ?_
          intro target htarget
          have member : ref ∈ pool := by
            cases part <;> simp [Value.object?] at href
            exact mem_pool_of_ref inside href
          have fewer := unseen_cons_lt later member (by simpa using new)
          refine (hwalk htarget (reach_target node fewer htarget.size)).bind ?_
          rintro ⟨found, after⟩ kept
          have later' : start ⊆ after :=
            fun other met => kept (List.mem_cons_of_mem _ (later met))
          dsimp only
          split
          · exact .ok later'
          · exact ih later' hrest
      · refine (hwalk inside (reach_part limit (unseen_mono pool later) smaller)).bind ?_
        rintro ⟨found, after⟩ kept
        dsimp only
        split
        · exact .ok (List.Subset.trans later kept)
        · exact ih (List.Subset.trans later kept) hrest

theorem settled_recordShapedWithin (bounded : Bounded pool limit table) {depth depth' : Nat}
    {seen : List String} {node : Value} (within : node.Within pool limit)
    (enough : reach limit (unseen pool seen) node ≤ depth)
    (enough' : reach limit (unseen pool seen) node ≤ depth') :
    Settled (recordShapedWithin table depth seen node)
      (recordShapedWithin table depth' seen node) (fun answer => seen ⊆ answer.2) := by
  have positive := reach_pos limit (unseen pool seen) node
  induction depth generalizing depth' seen node with
  | zero => omega
  | succ depth ih =>
      obtain ⟨depth', rfl⟩ : ∃ less, depth' = less + 1 := ⟨depth' - 1, by omega⟩
      simp only [recordShapedWithin, recordShapedStep]
      split
      · rename_i schema
        split
        · exact .ok (List.Subset.refl _)
        split
        · exact .ok (List.Subset.refl _)
        split
        · rename_i members found
          refine settled_anyRecordShaped bounded (.object schema) ?_ (List.Subset.refl _) ?_
          · intro seen part inside less
            exact ih inside (by omega) (by omega) (reach_pos ..)
          · intro part member
            exact member_of_allOf found within member
        · exact .ok (List.Subset.refl _)
      · exact .ok (List.Subset.refl _)

/-! ## The public walks -/

/-- Flattening ends with a result or a failure of its own, and a larger bound changes nothing. -/
theorem flatten_settled (table : Table) (schema : Mapping) {depth : Nat}
    (enough : depthBound table (.object schema) ≤ depth) :
    Settled (flatten table schema) ((flattenWithin table depth [] schema).map (·.1))
      (fun _ => True) := by
  have usual := reach_le_depthBound table (.object schema) (unseen_le _ [])
  have walk := settled_flattenWithin (bounded_poolOf table (.object schema))
    (within_poolOf table (.object schema)) usual (usual.trans enough)
  exact Settled.bind walk fun _ _ => .ok trivial

/-- The same for the recognition of record-shaped schemas. -/
theorem isRecordShaped_settled (table : Table) (node : Value) {depth : Nat}
    (enough : depthBound table node ≤ depth) :
    Settled (isRecordShaped table node) ((recordShapedWithin table depth [] node).map (·.1))
      (fun _ => True) := by
  have usual := reach_le_depthBound table node (unseen_le _ [])
  have walk := settled_recordShapedWithin (bounded_poolOf table node)
    (within_poolOf table node) usual (usual.trans enough)
  exact Settled.bind walk fun _ _ => .ok trivial

/-- The properties of a schema come from inside the schema and the table. -/
theorem flatten_confined (bounded : Bounded pool limit table) {schema : Mapping}
    (within : (Value.object schema).Within pool limit) {flat : Flattened}
    (h : flatten table schema = .ok flat) : Confined pool limit flat.properties := by
  let need := reach limit (unseen pool []) (.object schema)
  let depth := max (depthBound table (.object schema)) need
  have agree := (flatten_settled table schema (le_max_left _ need)).same
  have enough : need ≤ depth := le_max_right _ need
  have walk := settled_flattenWithin bounded within enough enough
  rw [h] at agree
  cases found : flattenWithin table depth [] schema with
  | error failure => simp [depth, need, found, Except.map] at agree
  | ok answer =>
      obtain rfl : flat = answer.1 := by simpa [depth, need, found, Except.map] using agree
      exact (walk.holds found).1

end ApiBinding.Schema
