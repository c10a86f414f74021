import ApiBinding.Proofs.Schema.Extension
import ApiBinding.Proofs.Value.Moved

/-! Mappings with distinct keys, and mappings to which the entries of another one are added as far
as their keys are new. -/

namespace ApiBinding

namespace Key

@[simp] theorem same_self (key : Key) : key.same key = true := by
  simp [same]

theorem same_congr {a b : Key} (h : a.same b = true) (key : Key) : a.same key = b.same key := by
  simp only [same, beq_iff_eq] at h
  simp [same, h]

theorem same_comm (a b : Key) : a.same b = b.same a := by
  rw [Bool.eq_iff_iff]
  simp only [same, beq_iff_eq]
  exact eq_comm

end Key

namespace Mapping

/-! ## Distinct keys -/

theorem distinct_nil : Distinct [] := List.Pairwise.nil

theorem get?_eq_none_iff {m : Mapping} {key : Key} :
    m.get? key = none ↔ ∀ entry ∈ m, entry.1.same key = false := by
  induction m with
  | nil => simp [get?]
  | cons entry rest ih =>
      obtain ⟨own, value⟩ := entry
      by_cases same : own.same key = true
      · simp [get?, same]
      · simp [get?, same, ih]

theorem Distinct.insertNew {m : Mapping} (h : m.Distinct) (key : Key) (value : Value) :
    (m.insertNew key value).Distinct := by
  unfold Mapping.insertNew
  split
  · exact h
  · rename_i absent
    rw [Option.not_isSome_iff_eq_none, get?_eq_none_iff] at absent
    refine List.pairwise_append.mpr ⟨h, List.pairwise_singleton _ _, ?_⟩
    intro entry member other hother
    obtain rfl := List.mem_singleton.mp hother
    exact absent entry member

/-- An extension keeps the keys distinct, whatever the added mapping repeats. -/
theorem Distinct.extend {m : Mapping} (h : m.Distinct) (added : Mapping) :
    (m.extend added).Distinct := by
  unfold Mapping.extend
  induction added generalizing m with
  | nil => exact h
  | cons entry rest ih =>
      rw [List.foldl_cons]
      exact ih (h.insertNew entry.1 entry.2)

/-- Entries that have keys of their own are all added. -/
theorem extend_eq_append {m added : Mapping} (distinct : Distinct (m ++ added)) :
    m.extend added = m ++ added := by
  unfold Mapping.extend
  induction added generalizing m with
  | nil => simp
  | cons entry rest ih =>
      have absent : m.get? entry.1 = none :=
        get?_eq_none_iff.mpr fun other member =>
          (List.pairwise_append.mp distinct).2.2 other member entry List.mem_cons_self
      have placed : m.insertNew entry.1 entry.2 = m ++ [entry] := by
        simp [Mapping.insertNew, absent]
      rw [List.append_cons] at distinct ⊢
      rw [List.foldl_cons, placed, ih distinct]

theorem Distinct.nil_extend {m : Mapping} (distinct : m.Distinct) : Mapping.extend [] m = m :=
  extend_eq_append (show Distinct ([] ++ m) from distinct)

theorem mem_of_mem_insertNew {m : Mapping} {key : Key} {value : Value} {entry : Key × Value}
    (member : entry ∈ m.insertNew key value) : entry ∈ m ∨ entry = (key, value) := by
  unfold insertNew at member
  split at member
  · exact .inl member
  · simpa using member

theorem mem_of_mem_extend {m added : Mapping} {entry : Key × Value}
    (member : entry ∈ m.extend added) : entry ∈ m ∨ entry ∈ added := by
  unfold extend at member
  induction added generalizing m with
  | nil => exact .inl member
  | cons first rest ih =>
      rw [List.foldl_cons] at member
      rcases ih member with inside | inside
      · rcases mem_of_mem_insertNew inside with old | rfl
        · exact .inl old
        · exact .inr List.mem_cons_self
      · exact .inr (List.mem_cons_of_mem _ inside)

/-! ## Lookup -/

theorem get?_append (m added : Mapping) (key : Key) :
    get? (m ++ added) key = (get? m key).or (get? added key) := by
  induction m with
  | nil => rfl
  | cons entry rest ih =>
      obtain ⟨own, value⟩ := entry
      by_cases same : own.same key = true <;> simp [get?, same, ih]

theorem get?_congr {m : Mapping} {key other : Key} (same : key.same other = true) :
    m.get? key = m.get? other := by
  induction m with
  | nil => rfl
  | cons entry rest ih =>
      obtain ⟨own, value⟩ := entry
      rw [get?, get?, Key.same_comm own key, Key.same_congr same, Key.same_comm other own, ih]

theorem isSome_get?_of_mem {m : Mapping} {entry : Key × Value} (member : entry ∈ m) :
    (m.get? entry.1).isSome = true := by
  rw [Option.isSome_iff_ne_none]
  intro absent
  simpa using get?_eq_none_iff.mp absent entry member

theorem get?_insertNew (m : Mapping) (own : Key) (value : Value) (key : Key) :
    (m.insertNew own value).get? key =
      (m.get? key).or (if own.same key then some value else none) := by
  unfold insertNew
  split
  · rename_i taken
    by_cases same : own.same key = true
    · rw [get?_congr same] at taken
      obtain ⟨old, found⟩ := Option.isSome_iff_exists.mp taken
      simp [found]
    · simp [same]
  · rw [get?_append]
    rfl

/-- Behind an extension the first mapping is looked at first. -/
theorem get?_extend (m added : Mapping) (key : Key) :
    (m.extend added).get? key = (m.get? key).or (added.get? key) := by
  unfold extend
  induction added generalizing m with
  | nil => simp [get?]
  | cons entry rest ih =>
      obtain ⟨own, value⟩ := entry
      rw [List.foldl_cons, ih, get?_insertNew, get?]
      by_cases same : own.same key = true
      · cases m.get? key <;> simp [same]
      · simp [same]

theorem find?_extend (m added : Mapping) (name : String) :
    (m.extend added).find? name = (m.find? name).or (added.find? name) :=
  get?_extend m added (.text name)

/-- Things named after distinct keys have distinct names. -/
theorem Distinct.nodup_names {α : Type} {m : Mapping} (distinct : m.Distinct) {items : List α}
    {name : α → String} (named : (items.map fun item => Key.text (name item)).Sublist m.keys) :
    (items.map name).Nodup := by
  have apart : m.keys.Pairwise fun a b => a.same b = false := List.pairwise_map.mpr distinct
  have names := List.pairwise_map.mp (apart.sublist named)
  refine List.pairwise_map.mpr (names.imp ?_)
  intro item other differ same
  simp [same] at differ

/-- With distinct keys an entry is what is found under its name. -/
theorem Distinct.find?_iff {m : Mapping} (distinct : m.Distinct) {name : String} {value : Value} :
    m.find? name = some value ↔ (.text name, value) ∈ m := by
  constructor
  · intro found
    obtain ⟨key, member, same⟩ := exists_same_of_get? found
    obtain rfl := eq_text_of_same same
    exact member
  · exact fun member => distinct.get?_of_mem member (by simp)

/-! ## Extensions -/

theorem extend_cons (m : Mapping) (entry : Key × Value) (added : Mapping) :
    m.extend (entry :: added) = (m.insertNew entry.1 entry.2).extend added := rfl

theorem extend_append (m first second : Mapping) :
    m.extend (first ++ second) = (m.extend first).extend second :=
  List.foldl_append

theorem extend_insertNew (m added : Mapping) (key : Key) (value : Value) :
    m.extend (added.insertNew key value) = (m.extend added).insertNew key value := by
  unfold insertNew
  split
  · rename_i taken
    have kept : ((m.extend added).get? key).isSome = true := by
      rw [get?_extend, Option.isSome_or, taken, Bool.or_true]
    rw [if_pos kept]
  · rw [extend_append]
    rfl

/-- It makes no difference whether what is added was merged before. -/
theorem extend_extend (m first second : Mapping) :
    m.extend (first.extend second) = (m.extend first).extend second := by
  induction second generalizing first with
  | nil => rfl
  | cons entry rest ih => rw [extend_cons, ih, extend_insertNew, extend_cons]

/-- Nothing is added exactly if every key is there. -/
theorem extend_eq_self_iff {m added : Mapping} :
    m.extend added = m ↔ ∀ entry ∈ added, (m.get? entry.1).isSome = true := by
  constructor
  · intro same entry member
    rw [← same, get?_extend, Option.isSome_or, isSome_get?_of_mem member, Bool.or_true]
  · intro present
    induction added with
    | nil => rfl
    | cons entry rest ih =>
        obtain ⟨first, others⟩ := List.forall_mem_cons.mp present
        rw [extend_cons, insertNew, if_pos first]
        exact ih others

theorem extend_extend_self (m added : Mapping) :
    (m.extend added).extend added = m.extend added := by
  rw [extend_eq_self_iff]
  intro entry member
  rw [get?_extend, Option.isSome_or, isSome_get?_of_mem member, Bool.or_true]

end Mapping

end ApiBinding
