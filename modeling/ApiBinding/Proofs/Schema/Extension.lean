import ApiBinding.Proofs.Schema.Depth

/-! A definition table may get more definitions, and its definitions another order: what was
found, flattened or classified in the table is found, flattened and classified as before. -/

namespace ApiBinding

/-! ## Mappings -/

/-- Two keys that are the same as a third one are the same. -/
theorem Key.same_of_same {a b key : Key} (ha : a.same key = true) (hb : b.same key = true) :
    a.same b = true := by
  simp only [Key.same, beq_iff_eq] at ha hb ⊢
  exact ha.trans hb.symm

namespace Mapping

/-- No two entries have the same key. -/
def Distinct (m : Mapping) : Prop :=
  m.Pairwise fun a b => a.1.same b.1 = false

theorem exists_same_of_get? {m : Mapping} {key : Key} {value : Value}
    (h : m.get? key = some value) : ∃ own, (own, value) ∈ m ∧ own.same key = true := by
  induction m with
  | nil => simp [get?] at h
  | cons entry rest ih =>
      obtain ⟨own, stored⟩ := entry
      simp only [get?] at h
      split at h
      · rename_i same
        obtain rfl := Option.some.inj h
        exact ⟨own, by simp, same⟩
      · obtain ⟨found, member, same⟩ := ih h
        exact ⟨found, by simp [member], same⟩

/-- An entry of a mapping with distinct keys is found under its key. -/
theorem Distinct.get?_of_mem {m : Mapping} (distinct : m.Distinct) {own key : Key}
    {value : Value} (member : (own, value) ∈ m) (same : own.same key = true) :
    m.get? key = some value := by
  induction m with
  | nil => simp at member
  | cons entry rest ih =>
      obtain ⟨first, stored⟩ := entry
      obtain ⟨apart, distinct⟩ := List.pairwise_cons.mp distinct
      rcases List.mem_cons.mp member with here | later
      · obtain ⟨rfl, rfl⟩ := Prod.mk.inj here
        simp [get?, same]
      · have other : first.same key = false := by
          rw [Bool.eq_false_iff]
          intro taken
          simpa [Key.same_of_same taken same] using apart _ later
        simpa [get?, other] using ih distinct later

end Mapping

namespace Value

theorem mappingSize_append (m added : Mapping) :
    mappingSize (m ++ added) = mappingSize m + mappingSize added := by
  induction m with
  | nil => simp [mappingSize]
  | cons entry rest ih =>
      obtain ⟨key, value⟩ := entry
      simp only [List.cons_append, mappingSize, ih]
      omega

theorem mappingSize_of_perm {m other : Mapping} (h : m.Perm other) :
    mappingSize m = mappingSize other := by
  induction h with
  | nil => rfl
  | cons entry _ ih => simp [mappingSize, ih]
  | swap first second rest =>
      simp only [mappingSize]
      omega
  | trans _ _ ih ih' => exact ih.trans ih'

/-- A mapping does not get smaller when a value in it is replaced by one that is no smaller. -/
theorem mappingSize_le_insert {m : Mapping} {key : Key} {old new : Value}
    (found : m.get? key = some old) (grown : old.size ≤ new.size) :
    mappingSize m ≤ mappingSize (m.insert key new) := by
  induction m with
  | nil => simp [Mapping.get?] at found
  | cons entry rest ih =>
      obtain ⟨own, stored⟩ := entry
      simp only [Mapping.get?] at found
      split at found
      · rename_i same
        obtain rfl := Option.some.inj found
        simp only [Mapping.insert, same, if_true, mappingSize]
        omega
      · rename_i other
        have := ih found
        simp only [Mapping.insert, other, if_false, Bool.false_eq_true, mappingSize]
        omega

end Value

/-- The definitions of the second table include those of the first, under the same root. -/
structure Table.Extends (table wide : Table) : Prop where
  root : wide.root = table.root
  keeps : ∀ {name value}, table.definitions.find? name = some value →
    wide.definitions.find? name = some value
  size : Value.mappingSize table.definitions ≤ Value.mappingSize wide.definitions

/-- Definitions that are added under keys of their own, and put in any order, extend a table. -/
theorem Table.extends_of_perm {root : String} {definitions added wide : Mapping}
    (permuted : wide.Perm (definitions ++ added)) (distinct : wide.Distinct) :
    Table.Extends ⟨root, definitions⟩ ⟨root, wide⟩ := by
  refine ⟨rfl, ?_, ?_⟩
  · intro name value found
    obtain ⟨own, member, same⟩ := Mapping.exists_same_of_get? found
    exact distinct.get?_of_mem (permuted.mem_iff.mpr (List.mem_append_left _ member)) same
  · have := Value.mappingSize_of_perm permuted
    have := Value.mappingSize_append definitions added
    dsimp only
    omega

namespace Schema

/-! ## Kept results -/

/-- The value of a result that succeeds is kept by the other result. A failure need not be. -/
def Kept {α : Type} (result other : Except Failure α) : Prop :=
  ∀ ⦃value⦄, result = .ok value → other = .ok value

namespace Kept

variable {α β : Type}

theorem refl (result : Except Failure α) : Kept result result := fun _ h => h

theorem bind {result other : Except Failure α} {next next' : α → Except Failure β}
    (h : Kept result other) (hnext : ∀ value, Kept (next value) (next' value)) :
    Kept (result >>= next) (other >>= next') := by
  intro value success
  cases found : result with
  | error failure => simp [found, Bind.bind, Except.bind] at success
  | ok first =>
      rw [h found]
      rw [found] at success
      exact hnext first success

theorem map {result other : Except Failure α} (f : α → β) (h : Kept result other) :
    Kept (result.map f) (other.map f) := by
  intro value success
  cases found : result with
  | error failure => simp [found, Except.map] at success
  | ok first => rwa [h found, ← found]

theorem foldlM {step step' : α → β → Except Failure α}
    (h : ∀ state item, Kept (step state item) (step' state item)) (start : α)
    (items : List β) : Kept (items.foldlM step start) (items.foldlM step' start) := by
  induction items generalizing start with
  | nil => exact .refl _
  | cons item rest ih =>
      rw [List.foldlM_cons, List.foldlM_cons]
      exact (h start item).bind fun state => ih state

end Kept

variable {table wide : Table}

theorem kept_resolve (extension : table.Extends wide) (ref : String) :
    Kept (table.resolve ref) (wide.resolve ref) := by
  intro schema resolved
  obtain ⟨key, keyed, found⟩ := find?_of_resolve resolved
  have keyed' : wide.keyOf ref = .ok key := by
    rw [← keyed, Table.keyOf, Table.keyOf, extension.root]
  simp [Table.resolve, keyed', extension.keeps found, Bind.bind, Except.bind]

theorem keyOf_extends (extension : table.Extends wide) (ref : String) :
    wide.keyOf ref = table.keyOf ref := by
  rw [Table.keyOf, Table.keyOf, extension.root]

theorem depthBound_le (extension : table.Extends wide) (node : Value) :
    depthBound table node ≤ depthBound wide node := by
  have nodes : Value.mappingSize table.definitions + node.size + 2 ≤
      Value.mappingSize wide.definitions + node.size + 2 := by
    have := extension.size
    omega
  exact Nat.mul_le_mul (Nat.mul_le_mul_left 3 nodes) nodes

/-! ## Walks -/

theorem kept_gatherPart (extension : table.Extends wide)
    {walk walk' : List String → Mapping → Except Failure (Flattened × List String)}
    (h : ∀ seen schema, Kept (walk seen schema) (walk' seen schema)) (gathered : Gathering)
    (part : Mapping) : Kept (gatherPart table walk gathered part)
      (gatherPart wide walk' gathered part) := by
  unfold gatherPart
  split
  · split
    · exact .refl _
    · refine (kept_resolve extension _).bind ?_
      intro target
      exact (h _ target).bind fun _ => .refl _
  · exact (h _ part).bind fun _ => .refl _

theorem kept_flattenWithin (extension : table.Extends wide) (depth : Nat) (seen : List String)
    (schema : Mapping) :
    Kept (flattenWithin table depth seen schema) (flattenWithin wide depth seen schema) := by
  induction depth generalizing seen schema with
  | zero => exact .refl _
  | succ depth ih =>
      simp only [flattenWithin, flattenStep]
      refine (Kept.refl _).bind ?_
      intro members
      exact (Kept.foldlM (kept_gatherPart extension ih) _ members).bind fun _ => .refl _

theorem kept_flatten (extension : table.Extends wide) (schema : Mapping) :
    Kept (flatten table schema) (flatten wide schema) := by
  rw [(flatten_settled table schema (depthBound_le extension _)).same]
  exact (kept_flattenWithin extension _ [] schema).map (·.1)

theorem kept_anyRecordShaped (extension : table.Extends wide)
    {walk walk' : List String → Value → Except Failure (Bool × List String)}
    (h : ∀ seen node, Kept (walk seen node) (walk' seen node)) (seen : List String)
    (parts : List Value) :
    Kept (anyRecordShaped table walk seen parts) (anyRecordShaped wide walk' seen parts) := by
  induction parts generalizing seen with
  | nil => exact .refl _
  | cons part rest ih =>
      have onward : ∀ answer : Bool × List String,
          Kept (if answer.1 then .ok (true, answer.2)
              else anyRecordShaped table walk answer.2 rest)
            (if answer.1 then .ok (true, answer.2)
              else anyRecordShaped wide walk' answer.2 rest) := by
        intro answer
        split
        · exact .refl _
        · exact ih answer.2
      simp only [anyRecordShaped]
      split
      · split
        · exact ih seen
        · refine (kept_resolve extension _).bind ?_
          intro target
          exact (h _ _).bind onward
      · exact (h _ _).bind onward

theorem kept_recordShapedWithin (extension : table.Extends wide) (depth : Nat)
    (seen : List String) (node : Value) :
    Kept (recordShapedWithin table depth seen node) (recordShapedWithin wide depth seen node) := by
  induction depth generalizing seen node with
  | zero => exact .refl _
  | succ depth ih =>
      simp only [recordShapedWithin, recordShapedStep]
      cases node with
      | object schema =>
          dsimp only
          split
          · exact .refl _
          · split
            · exact .refl _
            · split
              · exact kept_anyRecordShaped extension ih seen _
              · exact .refl _
      | _ => exact .refl _

theorem kept_isRecordShaped (extension : table.Extends wide) (node : Value) :
    Kept (isRecordShaped table node) (isRecordShaped wide node) := by
  rw [(isRecordShaped_settled table node (depthBound_le extension _)).same]
  exact (kept_recordShapedWithin extension _ [] node).map (·.1)

end Schema

end ApiBinding
