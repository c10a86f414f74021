import ApiBinding.Json.Reader
import ApiBinding.Proofs.Text.Repeats

/-! What the items and the entries of a collection come to. Of the entries with one name the first
gives the place and the last the value. Half a character in a text leaves no value for the
collections around it, unless it stands in an entry that is replaced by a later one. -/

namespace ApiBinding.Json

/-! ## Rules -/

/-- What items come to: their list, if each of them is a value. -/
inductive ListOf : List (Option Value) → Option Value → Prop where
  | whole (values : List Value) : ListOf (values.map some) (some (.list values))
  | broken {items} : none ∈ items → ListOf items none

/-- The last of the entries with a name has this value. -/
def IsLast {α : Type} (entries : List (α × Option Value)) (name : α) (value : Option Value) :
    Prop :=
  ∃ front behind, entries = front ++ (name, value) :: behind ∧ name ∉ behind.map Prod.fst

/-- Entries whose names are all texts. -/
def withNames (entries : List (String × Option Value)) : List (Option String × Option Value) :=
  entries.map fun entry => (some entry.1, entry.2)

/-- What entries come to: a mapping with their names in the order in which they first occur, each
with the last of its values. -/
inductive MappingOf : List (Option String × Option Value) → Option Value → Prop where
  | whole {entries : List (String × Option Value)} {mapping : Mapping} :
      mapping.keys = (entries.map Prod.fst).eraseDups.map Key.text →
      (∀ name value, (.text name, value) ∈ mapping → IsLast entries name (some value)) →
      MappingOf (withNames entries) (some (.object mapping))
  | brokenName {entries value} : (none, value) ∈ entries → MappingOf entries none
  | brokenValue {entries} {name : String} : IsLast entries (some name) none →
      MappingOf entries none

/-! ## Lists -/

section mapM

variable {α β : Type} {f : α → Option β}

theorem mapM_eq_some_iff {items : List α} {results : List β} :
    items.mapM f = some results ↔ items.map f = results.map some := by
  induction items generalizing results with
  | nil => cases results <;> simp
  | cons item rest ih =>
      rw [List.mapM_cons, List.map_cons]
      cases results with
      | nil =>
          cases f item with
          | none => simp
          | some first => cases rest.mapM f <;> simp
      | cons result results =>
          cases f item with
          | none => simp
          | some first =>
              rw [List.map_cons, List.cons.injEq, ← ih]
              cases rest.mapM f <;> simp

theorem mapM_eq_none_iff {items : List α} :
    items.mapM f = none ↔ ∃ item ∈ items, f item = none := by
  induction items with
  | nil => simp
  | cons item rest ih =>
      rw [List.mapM_cons]
      cases found : f item with
      | none => simp [found]
      | some first =>
          cases others : rest.mapM f with
          | none => simpa [found] using ih.mp others
          | some results =>
              have every := mt ih.mpr (by simp [others])
              simpa [found] using every

end mapM

theorem listOf_iff {items : List (Option Value)} {value : Option Value} :
    ListOf items value ↔ ofItems items = value := by
  constructor
  · rintro (values | broken)
    · have whole : (values.map some).mapM id = some values := mapM_eq_some_iff.mpr (by simp)
      simp [ofItems, whole]
    · have none : items.mapM id = none := mapM_eq_none_iff.mpr ⟨_, broken, rfl⟩
      simp [ofItems, none]
  · rintro rfl
    cases read : items.mapM id with
    | none =>
        obtain ⟨item, member, rfl⟩ := mapM_eq_none_iff.mp read
        simpa [ofItems, read] using ListOf.broken member
    | some values =>
        obtain rfl : items = values.map some := by simpa using mapM_eq_some_iff.mp read
        simpa [ofItems, read] using ListOf.whole values

/-! ## The last entries -/

/-- What is left of entries that are put into a mapping one after the other. -/
def remaining (entries : List (String × Option Value)) : List (String × Option Value) :=
  entries.foldl (fun all entry => put all entry.1 entry.2) []

theorem remaining_concat (entries : List (String × Option Value)) (name : String)
    (value : Option Value) :
    remaining (entries ++ [(name, value)]) = put (remaining entries) name value := by
  simp [remaining]

variable {entries : List (String × Option Value)} {name : String} {value : Option Value}

theorem names_put (entries : List (String × Option Value)) (name : String)
    (value : Option Value) :
    (put entries name value).map Prod.fst =
      if name ∈ entries.map Prod.fst then entries.map Prod.fst
      else entries.map Prod.fst ++ [name] := by
  induction entries with
  | nil => rfl
  | cons entry rest ih =>
      rw [put]
      by_cases same : entry.1 = name
      · simp [same]
      · have differs : name ≠ entry.1 := Ne.symm same
        by_cases known : name ∈ rest.map Prod.fst <;> simp_all

theorem mem_put (distinct : (entries.map Prod.fst).Nodup) {entry : String × Option Value}
    (member : entry ∈ put entries name value) :
    entry = (name, value) ∨ entry ∈ entries ∧ entry.1 ≠ name := by
  induction entries with
  | nil => exact .inl (by simpa [put] using member)
  | cons first rest ih =>
      rw [List.map_cons, List.nodup_cons] at distinct
      rw [put] at member
      by_cases same : first.1 = name
      · rw [if_pos (by simpa using same)] at member
        rcases List.mem_cons.mp member with rfl | later
        · exact .inl (by rw [same])
        · refine .inr ⟨List.mem_cons_of_mem _ later, ?_⟩
          rintro rfl
          exact distinct.1 (same ▸ List.mem_map_of_mem later)
      · rw [if_neg (by simpa using same)] at member
        rcases List.mem_cons.mp member with rfl | later
        · exact .inr ⟨List.mem_cons_self, same⟩
        · rcases ih distinct.2 later with rfl | ⟨old, differs⟩
          · exact .inl rfl
          · exact .inr ⟨List.mem_cons_of_mem _ old, differs⟩

theorem names_remaining (entries : List (String × Option Value)) :
    (remaining entries).map Prod.fst = (entries.map Prod.fst).eraseDups := by
  induction entries using List.reverseRecOn with
  | nil => rfl
  | append_singleton entries entry ih =>
      rw [remaining_concat, names_put, ih, List.map_append, List.map_singleton, eraseDups_concat]
      simp only [List.mem_eraseDups]

theorem IsLast.concat {α : Type} {entries : List (α × Option Value)} {name : α}
    (h : IsLast entries name value) {entry : α × Option Value} (differs : name ≠ entry.1) :
    IsLast (entries ++ [entry]) name value := by
  obtain ⟨front, behind, rfl, last⟩ := h
  exact ⟨front, behind ++ [entry], by simp, by simpa [differs] using last⟩

theorem isLast_of_mem_remaining (member : (name, value) ∈ remaining entries) :
    IsLast entries name value := by
  induction entries using List.reverseRecOn generalizing name value with
  | nil => simp [remaining] at member
  | append_singleton entries entry ih =>
      rw [remaining_concat] at member
      have distinct : ((remaining entries).map Prod.fst).Nodup :=
        names_remaining entries ▸ nodup_eraseDups _
      rcases mem_put distinct member with same | ⟨old, differs⟩
      · obtain rfl : (name, value) = entry := same
        exact ⟨entries, [], rfl, by simp⟩
      · exact (ih old).concat differs

/-- There is one last entry with a name. -/
theorem IsLast.unique {α : Type} {entries : List (α × Option Value)} {name : α}
    {other : Option Value} (h : IsLast entries name value) (h' : IsLast entries name other) :
    other = value := by
  obtain ⟨front, behind, rfl, last⟩ := h
  obtain ⟨front', behind', same, last'⟩ := h'
  rcases List.append_eq_append_iff.mp same with ⟨between, rfl, split⟩ | ⟨between, rfl, split⟩
  · cases between with
    | nil => exact (Prod.mk.inj (List.cons.inj split).1).2.symm
    | cons entry between =>
        obtain ⟨rfl, rfl⟩ := List.cons.inj split
        exact absurd (by simp) last
  · cases between with
    | nil => exact (Prod.mk.inj (List.cons.inj split).1).2
    | cons entry between =>
        obtain ⟨rfl, rfl⟩ := List.cons.inj split
        exact absurd (by simp) last'

theorem isLast_iff : IsLast entries name value ↔ (name, value) ∈ remaining entries := by
  refine ⟨fun last => ?_, isLast_of_mem_remaining⟩
  have known : name ∈ (remaining entries).map Prod.fst := by
    obtain ⟨front, behind, rfl, -⟩ := last
    rw [names_remaining, List.mem_eraseDups]
    simp
  obtain ⟨⟨_, own⟩, member, rfl⟩ := List.mem_map.mp known
  rwa [(isLast_of_mem_remaining member).unique last]

/-! ## Mappings -/

theorem exists_withNames (entries : List (Option String × Option Value)) :
    (∃ value, (none, value) ∈ entries) ∨ ∃ named, entries = withNames named := by
  induction entries with
  | nil => exact .inr ⟨[], rfl⟩
  | cons entry rest ih =>
      obtain ⟨_ | name, value⟩ := entry
      · exact .inl ⟨value, List.mem_cons_self⟩
      · rcases ih with ⟨other, member⟩ | ⟨named, rfl⟩
        · exact .inl ⟨other, List.mem_cons_of_mem _ member⟩
        · exact .inr ⟨(name, value) :: named, rfl⟩

theorem ofEntries_brokenName {entries : List (Option String × Option Value)}
    (member : (none, value) ∈ entries) : ofEntries entries = none := by
  have none : (entries.mapM fun entry => entry.1.map (·, entry.2)) = none :=
    mapM_eq_none_iff.mpr ⟨_, member, rfl⟩
  simp [ofEntries, none]

theorem ofEntries_withNames (entries : List (String × Option Value)) :
    ofEntries (withNames entries) =
      ((remaining entries).mapM ofEntry).map .object := by
  have named : ((withNames entries).mapM fun entry => entry.1.map (·, entry.2)) = some entries :=
    mapM_eq_some_iff.mpr (by simp [withNames])
  rw [ofEntries, named]
  rfl

theorem isLast_withNames_iff :
    IsLast (withNames entries) (some name) value ↔ IsLast entries name value := by
  constructor
  · rintro ⟨front, behind, same, last⟩
    obtain ⟨own, others, rfl, rfl, rest⟩ := List.map_eq_append_iff.mp same
    obtain ⟨⟨_, _⟩, later, rfl, first, rfl⟩ := List.map_eq_cons_iff.mp rest
    obtain ⟨named, rfl⟩ := Prod.mk.inj first
    obtain rfl := Option.some.inj named
    exact ⟨own, later, rfl, by simpa using last⟩
  · rintro ⟨front, behind, rfl, last⟩
    exact ⟨withNames front, withNames behind, by simp [withNames], by simpa [withNames] using last⟩

/-- Entries with the same names and the same values, one after the other. -/
theorem map_eq_of_names {entries : List (String × Option Value)} {mapping : Mapping}
    (names : mapping.keys = (entries.map Prod.fst).map Key.text)
    (values : ∀ name value, (.text name, value) ∈ mapping →
      ∀ other, (name, other) ∈ entries → other = some value) :
    entries.map ofEntry = mapping.map some := by
  induction entries generalizing mapping with
  | nil => simpa [Mapping.keys] using names
  | cons entry rest ih =>
      cases mapping with
      | nil => simp [Mapping.keys] at names
      | cons first mapping =>
          obtain ⟨key, value⟩ := first
          obtain ⟨name, own⟩ := entry
          simp only [Mapping.keys, List.map_cons, List.cons.injEq] at names
          obtain ⟨rfl, others⟩ := names
          have same : own = some value :=
            values name value List.mem_cons_self own List.mem_cons_self
          rw [List.map_cons, List.map_cons, same, ih others fun name value member other inside =>
            values name value (List.mem_cons_of_mem _ member) other (List.mem_cons_of_mem _ inside)]
          rfl

section

variable {entries : List (String × Option Value)} {mapping : Mapping}
  (same : entries.map ofEntry = mapping.map some)
include same

theorem names_of_map_eq : mapping.keys = (entries.map Prod.fst).map Key.text := by
  induction entries generalizing mapping with
  | nil => simp_all [Mapping.keys]
  | cons entry rest ih =>
      cases mapping with
      | nil => simp at same
      | cons first mapping =>
          rw [List.map_cons, List.map_cons, List.cons.injEq] at same
          obtain ⟨value, -, rfl⟩ := Option.map_eq_some_iff.mp same.1
          exact congrArg (Key.text entry.1 :: ·) (ih same.2)

theorem mem_of_map_eq {name : String} {value : Value} (member : (.text name, value) ∈ mapping) :
    (name, some value) ∈ entries := by
  have inside : some (.text name, value) ∈ entries.map ofEntry := by
    rw [same]
    exact List.mem_map_of_mem member
  obtain ⟨⟨own, left⟩, among, read⟩ := List.mem_map.mp inside
  obtain ⟨_, rfl, pair⟩ := Option.map_eq_some_iff.mp read
  obtain ⟨rfl, rfl⟩ : own = name ∧ _ = value := by simpa using pair
  exact among

end

/-- Entries come to what is read for them. -/
theorem mappingOf_iff {entries : List (Option String × Option Value)} {whole : Option Value} :
    MappingOf entries whole ↔ ofEntries entries = whole := by
  constructor
  · rintro (@⟨entries, mapping, names, latest⟩ | broken | @⟨_, name, broken⟩)
    · have same := map_eq_of_names (names_remaining entries ▸ names)
        fun name value member other left =>
          (latest name value member).unique (isLast_of_mem_remaining left)
      rw [ofEntries_withNames, mapM_eq_some_iff.mpr same]
      rfl
    · exact ofEntries_brokenName broken
    · rcases exists_withNames entries with ⟨value, member⟩ | ⟨named, rfl⟩
      · exact ofEntries_brokenName member
      · have left := isLast_iff.mp (isLast_withNames_iff.mp broken)
        rw [ofEntries_withNames, mapM_eq_none_iff.mpr ⟨_, left, rfl⟩]
        rfl
  · rintro rfl
    rcases exists_withNames entries with ⟨value, member⟩ | ⟨named, rfl⟩
    · rw [ofEntries_brokenName member]
      exact .brokenName member
    · rw [ofEntries_withNames]
      cases read : (remaining named).mapM ofEntry with
      | none =>
          obtain ⟨⟨name, value⟩, left, nothing⟩ := mapM_eq_none_iff.mp read
          obtain rfl : value = none := by simpa [ofEntry] using nothing
          exact .brokenValue (isLast_withNames_iff.mpr (isLast_of_mem_remaining left))
      | some mapping =>
          have same := mapM_eq_some_iff.mp read
          refine .whole ?_ fun name value member => ?_
          · rw [← names_remaining]
            exact names_of_map_eq same
          · exact isLast_of_mem_remaining (mem_of_map_eq same member)

end ApiBinding.Json
