import ApiBinding.Proofs.Record.Tidy
import ApiBinding.Proofs.Text.Repeats

/-! Histories of a catalog: what a new catalog answers and lists after any sequence of operations
can be told from the sequence alone. A name has its place from the first operation that mentions it
and its record from the first one that brings a record. -/

namespace ApiBinding.Catalog

/-! ## Operations -/

inductive Operation where
  | reserve (name : String)
  | add (record : Record TypeExpr)

namespace Operation

/-- The name that an operation mentions. -/
def name : Operation → String
  | .reserve name => name
  | .add record => record.name

/-- The record that an operation brings. -/
def record? : Operation → Option (Record TypeExpr)
  | .reserve _ => none
  | .add record => some record

/-- The answer to an operation, and the catalog that it leaves. -/
def apply (operation : Operation) (catalog : Catalog) : Bool × Catalog :=
  match operation with
  | .reserve name => catalog.reserve name
  | .add record => catalog.add record

end Operation

/-- The answers to operations one after the other, and the catalog that the last one leaves. -/
def run (catalog : Catalog) : List Operation → List Bool × Catalog
  | [] => ([], catalog)
  | operation :: rest =>
    let (answer, next) := operation.apply catalog
    let (answers, last) := run next rest
    (answer :: answers, last)

/-! ## What a history tells -/

/-- The names that operations mention, in order and with repeats. -/
def mentioned (history : List Operation) : List String :=
  history.map Operation.name

/-- The records that operations bring, in order and with repeats. -/
def brought (history : List Operation) : List (Record TypeExpr) :=
  history.filterMap Operation.record?

/-- The first record that is brought under a name. -/
def firstBrought? (history : List Operation) (name : String) : Option (Record TypeExpr) :=
  (brought history).find? (·.name == name)

/-- Whether an operation finds what it asks for after a history: a name that was never mentioned,
or a name under which no record was brought. -/
def Operation.isNew (history : List Operation) : Operation → Bool
  | .reserve name => !(mentioned history).contains name
  | .add record => !((brought history).map (·.name)).contains record.name

/-- What a history tells about the answers to its operations and about the catalog after them. -/
structure Follows (history : List Operation) (answers : List Bool) (catalog : Catalog) : Prop where
  answers : answers = history.mapIdx fun i operation => operation.isNew (history.take i)
  mentions : ∀ name, catalog.mentions name = true ↔ name ∈ mentioned history
  /-- One record for each name under which a record was brought. -/
  each : ∀ name, (catalog.records.map (·.name)).count name =
    if name ∈ (brought history).map (·.name) then 1 else 0
  first : ∀ record ∈ catalog.records, firstBrought? history record.name = some record
  ordered : catalog.records.Pairwise fun a b =>
    (mentioned history).idxOf a.name < (mentioned history).idxOf b.name
  /-- The next operation leaves the listed records as they are and in their order. -/
  kept : ∀ operation : Operation, catalog.records.Sublist (operation.apply catalog).2.records

/-! ## Steps -/

/-- Every operation mentions its name. -/
theorem Operation.names_apply (operation : Operation) (catalog : Catalog) :
    (operation.apply catalog).2.names =
      if operation.name ∈ catalog.names then catalog.names
      else catalog.names ++ [operation.name] := by
  cases operation with
  | reserve name => exact names_reserve catalog name
  | add record => exact names_add catalog record

theorem Operation.grows_apply (operation : Operation) (catalog : Catalog) :
    Grows catalog (operation.apply catalog).2 := by
  cases operation with
  | reserve name => exact catalog.grows_reserve name
  | add record => exact catalog.grows_add record

/-- The names and the records of a catalog are those of a history. -/
structure Tells (history : List Operation) (catalog : Catalog) : Prop where
  names : catalog.names = (mentioned history).eraseDups
  found : ∀ name, catalog.find? name = firstBrought? history name

theorem tells_empty : Tells [] empty :=
  ⟨by simp [mentioned], fun _ => rfl⟩

theorem mentioned_concat (history : List Operation) (operation : Operation) :
    mentioned (history ++ [operation]) = mentioned history ++ [operation.name] := by
  simp [mentioned]

theorem firstBrought?_reserve (history : List Operation) (name other : String) :
    firstBrought? (history ++ [.reserve name]) other = firstBrought? history other := by
  simp [firstBrought?, brought, Operation.record?]

theorem firstBrought?_add (history : List Operation) (record : Record TypeExpr) (other : String) :
    firstBrought? (history ++ [.add record]) other =
      (firstBrought? history other).or (if record.name == other then some record else none) := by
  simp only [firstBrought?, brought, List.filterMap_append, List.find?_append]
  by_cases own : record.name = other <;> simp [Operation.record?, own]

theorem firstBrought?_eq_none_iff (history : List Operation) (name : String) :
    firstBrought? history name = none ↔ name ∉ (brought history).map (·.name) := by
  simp [firstBrought?]

namespace Tells

variable {history : List Operation} {catalog : Catalog}

theorem mem_names_iff (h : Tells history catalog) (name : String) :
    name ∈ catalog.names ↔ name ∈ mentioned history := by
  rw [h.names, List.mem_eraseDups]

/-- Each operation answers whether it is new to the history. -/
theorem answer (h : Tells history catalog) (operation : Operation) :
    (operation.apply catalog).1 = operation.isNew history := by
  cases operation with
  | reserve name =>
      have same : catalog.mentions name = (mentioned history).contains name := by
        rw [Bool.eq_iff_iff, mentions_iff, h.mem_names_iff, List.contains_iff_mem]
      simp only [Operation.apply, Operation.isNew, reserve_eq, same]
  | add record =>
      simp only [Operation.apply, Operation.isNew, add, h.found]
      cases found : firstBrought? history record.name with
      | none =>
          have new := (firstBrought?_eq_none_iff history record.name).mp found
          simpa using new
      | some old =>
          have known : record.name ∈ (brought history).map (·.name) := by
            by_contra new
            rw [(firstBrought?_eq_none_iff history record.name).mpr new] at found
            simp at found
          simpa using known

theorem apply (h : Tells history catalog) (operation : Operation) :
    Tells (history ++ [operation]) (operation.apply catalog).2 := by
  constructor
  · rw [operation.names_apply, mentioned_concat, eraseDups_concat, h.names]
    simp only [List.mem_eraseDups]
  · intro other
    cases operation with
    | reserve name =>
        rw [firstBrought?_reserve, ← h.found]
        exact find?_reserve catalog name other
    | add record =>
        rw [firstBrought?_add, ← h.found, Operation.apply]
        by_cases own : record.name = other
        · subst own
          cases found : catalog.find? record.name with
          | none => simpa using find?_add_self catalog found
          | some old => simpa using find?_add_of_some catalog record found
        · have other' : other ≠ record.name := Ne.symm own
          simpa [own] using find?_add_of_ne catalog other'

/-- A run of operations goes on where the history ends. -/
theorem run (h : Tells history catalog) (rest : List Operation) :
    (catalog.run rest).1 =
        rest.mapIdx (fun i operation => operation.isNew (history ++ rest.take i)) ∧
      Tells (history ++ rest) (catalog.run rest).2 := by
  induction rest generalizing history catalog with
  | nil => simpa [Catalog.run] using h
  | cons operation rest ih =>
      obtain ⟨answers, tells⟩ := ih (h.apply operation)
      refine ⟨?_, by simpa [Catalog.run] using tells⟩
      simp only [Catalog.run, answers, List.mapIdx_cons, h.answer, List.take_zero,
        List.append_nil, List.take_succ_cons, List.append_assoc, List.singleton_append]

/-! ## The listed records -/

theorem nodup (h : Tells history catalog) : catalog.names.Nodup :=
  h.names ▸ nodup_eraseDups _

/-- The records are those brought first, in the order in which their names were mentioned first. -/
theorem records_eq (h : Tells history catalog) :
    catalog.records = (mentioned history).eraseDups.filterMap (firstBrought? history) := by
  rw [records_eq_filterMap h.nodup, h.names]
  exact List.filterMap_congr fun name _ => h.found name

theorem first (h : Tells history catalog) {record : Record TypeExpr}
    (member : record ∈ catalog.records) : firstBrought? history record.name = some record := by
  rw [h.records_eq] at member
  obtain ⟨name, -, found⟩ := List.mem_filterMap.mp member
  obtain rfl : record.name = name := by simpa using List.find?_some found
  exact found

theorem ordered (h : Tells history catalog) :
    catalog.records.Pairwise fun a b =>
      (mentioned history).idxOf a.name < (mentioned history).idxOf b.name := by
  rw [h.records_eq, List.pairwise_filterMap]
  refine (pairwise_eraseDups (mentioned history)).imp fun {a b} less first ha second hb => ?_
  obtain rfl : first.name = a := by simpa using List.find?_some ha
  obtain rfl : second.name = b := by simpa using List.find?_some hb
  exact less

/-- A name is listed if a record was brought under it. -/
theorem mem_names_records_iff (h : Tells history catalog) (name : String) :
    name ∈ catalog.records.map (·.name) ↔ name ∈ (brought history).map (·.name) := by
  constructor
  · intro listed
    obtain ⟨record, member, rfl⟩ := List.mem_map.mp listed
    exact List.mem_map_of_mem (List.mem_of_find?_eq_some (h.first member))
  · intro known
    cases found : firstBrought? history name with
    | none => exact ((firstBrought?_eq_none_iff history name).mp found known).elim
    | some record =>
        obtain rfl : record.name = name := by simpa using List.find?_some found
        rw [← h.found] at found
        exact List.mem_map_of_mem (mem_records_of_find? found)

theorem each (h : Tells history catalog) (name : String) :
    (catalog.records.map (·.name)).count name =
      if name ∈ (brought history).map (·.name) then 1 else 0 := by
  have distinct : (catalog.records.map (·.name)).Nodup := by
    refine List.pairwise_map.mpr (h.ordered.imp fun less same => ?_)
    rw [same] at less
    exact Nat.lt_irrefl _ less
  rw [distinct.count]
  simp only [h.mem_names_records_iff]

theorem kept (h : Tells history catalog) (operation : Operation) :
    catalog.records.Sublist (operation.apply catalog).2.records :=
  (operation.grows_apply catalog).records_sublist (h.apply operation).nodup

end Tells

/-- A new catalog is a map in which the first writer wins, whatever the operations are. -/
theorem run_follows_history (history : List Operation) :
    Follows history (run empty history).1 (run empty history).2 := by
  obtain ⟨answers, tells⟩ := tells_empty.run history
  simp only [List.nil_append] at answers tells
  refine ⟨answers, fun name => ?_, tells.each, fun record => tells.first, tells.ordered,
    tells.kept⟩
  rw [mentions_iff, tells.mem_names_iff]

/-- A record has the place of its reservation, and a name without a record is not listed. -/
example :
    ((run empty [.reserve "Pet", .reserve "Tag", .add ⟨"Owner", none, [], none⟩,
      .add ⟨"Pet", none, [], none⟩]).2.records.map (·.name)) = ["Pet", "Owner"] := by
  decide

end ApiBinding.Catalog
