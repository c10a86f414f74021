import ApiBinding.Proofs.Reference.Chain
import ApiBinding.Proofs.Value.Cleared

/-! References into a document with another parameter list. A reference that does not point into
the list ends at the same place, and what stands there differs in that list at most. -/

namespace ApiBinding

namespace Value

/-- Two values that are the same with their parameter lists cleared, or are parameter lists
themselves. -/
def Alike (value value' : Value) : Prop :=
  clearedUnder (.text "parameters") value' = clearedUnder (.text "parameters") value

namespace Alike

variable {value value' : Value}

theorem refl (value : Value) : Alike value value := rfl

theorem trans {third : Value} (h : Alike value value') (h' : Alike value' third) :
    Alike value third :=
  Eq.trans h' h

theorem object? (h : Alike value value') :
    value'.object?.map clearedEntries = value.object?.map clearedEntries := by
  rw [← object?_clearedUnder (.text "parameters"), ← object?_clearedUnder (.text "parameters"), h]

/-- Both are mappings, or neither is. -/
theorem object_or_none (h : Alike value value') :
    (∃ entries entries' : Mapping, value = .object entries ∧ value' = .object entries' ∧
      clearedEntries entries' = clearedEntries entries) ∨
      value.object? = none ∧ value'.object? = none := by
  have same := h.object?
  cases own : value.object? with
  | none => exact .inr ⟨rfl, by simpa [own] using same⟩
  | some entries =>
      rw [own] at same
      obtain ⟨entries', own', alike⟩ := Option.map_eq_some_iff.mp same
      exact .inl ⟨entries, entries', eq_object_of_object? own, eq_object_of_object? own', alike⟩

theorem ne_null (h : Alike value value') (present : value ≠ .null) : value' ≠ .null := by
  rintro rfl
  cases value <;> simp [Alike, clearedUnder] at h present

/-- What stands under another key is the same up to parameter lists. -/
theorem find? (h : Alike value value') {key : String} (other : key ≠ "parameters") :
    (value'.object?.bind (Mapping.find? · key)).map Value.cleared =
      (value.object?.bind (Mapping.find? · key)).map Value.cleared := by
  have found : ∀ value : Value, (value.object?.bind (Mapping.find? · key)).map Value.cleared =
      (value.object?.map clearedEntries).bind (Mapping.find? · key) := by
    intro value
    cases value.object? with
    | none => rfl
    | some entries => exact (Mapping.find?_cleared entries _ other).symm
  rw [found, found, h.object?]

theorem find?_eq_text (h : Alike value value') {key ref : String} (other : key ≠ "parameters")
    (found : value.object?.bind (Mapping.find? · key) = some (.text ref)) :
    value'.object?.bind (Mapping.find? · key) = some (.text ref) := by
  have same := h.find? other
  rw [found] at same
  obtain ⟨target, found', cleared⟩ := Option.map_eq_some_iff.mp same
  obtain rfl : target = .text ref := by cases target <;> simp_all [Value.cleared, mapObject]
  exact found'

theorem find?_eq_none (h : Alike value value') {key : String} (other : key ≠ "parameters")
    (absent : value.object?.bind (Mapping.find? · key) = none) :
    value'.object?.bind (Mapping.find? · key) = none := by
  have same := h.find? other
  rw [absent] at same
  exact Option.map_eq_none_iff.mp same

end Alike

/-- A value around a parameter list is the same up to that list. The induction is on the path to
the list, whose last key is that of parameters. -/
theorem Replaced.clearedUnder {items items' : List Value} {path : List String}
    {value value' : Value} (h : Replaced (.list items) (.list items') path value value')
    (last : ∀ name ∈ path.getLast?, name = "parameters") {key : Key}
    (own : path = [] → key = .text "parameters") :
    clearedUnder key value' = clearedUnder key value := by
  induction h generalizing key with
  | here =>
      obtain rfl := own rfl
      rw [clearedUnder_list, clearedUnder_list]
  | @under entries name path inner inner' found _ ih =>
      have below := @ih (fun other member => last other (by
        cases path <;> simp_all)) (.text name) (by
        rintro rfl
        exact congrArg Key.text (last name (by simp)))
      rw [clearedUnder_object, clearedUnder_object,
        Mapping.clearedEntries_insert_of_find? found below]

theorem Replaced.alike {items items' : List Value} {path : List String} {value value' : Value}
    (h : Replaced (.list items) (.list items') path value value')
    (last : ∀ name ∈ path.getLast?, name = "parameters") : Alike value value' :=
  h.clearedUnder last fun _ => rfl

end Value

namespace Pointer

open Value

variable {old new document document' node node' value : Value} {path : List String}

/-- A reference points at something inside of what a path of keys leads to. -/
def PointsInto (path : List String) (ref : String) : Prop :=
  ∃ step rest, pathOf? ref = some (path ++ step :: rest)

/-! ## Lookup -/

/-- The induction is on the path to what is replaced. A walk leaves this path to a value that is
the same in both documents, or to none, or it stops on the path at a value around what is
replaced. -/
theorem walk_around (h : Replaced old new path document document') {steps : List String}
    (apart : ∀ step rest, steps ≠ path ++ step :: rest) :
    SameEnd (fun value value' => value = value' ∨
        ∃ rest, path = steps ++ rest ∧ Replaced old new rest value value')
      (steps.foldlM enter document) (steps.foldlM enter document') := by
  induction h generalizing steps with
  | here =>
      cases steps with
      | nil => exact .done (.inr ⟨[], rfl, .here⟩)
      | cons step rest => exact absurd rfl (apart step rest)
  | @under entries name path inner inner' found below ih =>
      cases steps with
      | nil => exact .done (.inr ⟨name :: path, rfl, .under found below⟩)
      | cons step rest =>
          rw [List.foldlM_cons, List.foldlM_cons]
          by_cases same : name = step
          · subst same
            simp only [enter, found, Mapping.find?_insert_self]
            refine (@ih rest fun step later same =>
              apart step later (congrArg (name :: ·) same)).mono ?_
            rintro value value' (same | ⟨later, rfl, around⟩)
            · exact .inl same
            · exact .inr ⟨later, rfl, around⟩
          · simp only [enter, Mapping.find?_insert_of_ne entries inner' same]
            exact (SameEnd.refl _).mono fun value value' same => .inl same

/-- The references of one kind lead to the same places in both documents, up to parameter
lists. -/
def Agree (kind : String → Prop) (document document' : Value) : Prop :=
  ∀ ⦃ref⦄, kind ref → ∀ ⦃value⦄, lookup document (.text ref) = .ok value →
    ∃ value', lookup document' (.text ref) = .ok value' ∧ Alike value value'

theorem Agree.refl (kind : String → Prop) (document : Value) : Agree kind document document :=
  fun _ _ value found => ⟨value, found, .refl value⟩

theorem Agree.mono {kind kind' : String → Prop} (h : Agree kind document document')
    (fewer : ∀ ref, kind' ref → kind ref) : Agree kind' document document' :=
  fun ref own => h (fewer ref own)

theorem Agree.trans {kind : String → Prop} {third : Value} (h : Agree kind document document')
    (h' : Agree kind document' third) : Agree kind document third := by
  intro ref own value found
  obtain ⟨value', found', alike⟩ := h own found
  obtain ⟨last, found'', alike'⟩ := h' own found'
  exact ⟨last, found'', alike.trans alike'⟩

theorem agree_replaced {items items' : List Value}
    (h : Replaced (.list items) (.list items') path document document')
    (last : ∀ name ∈ path.getLast?, name = "parameters") :
    Agree (fun ref => ¬ PointsInto path ref) document document' := by
  intro ref apart value found
  obtain ⟨steps, pointed, walked⟩ := lookup_text_eq_ok_iff.mp found
  obtain ⟨reached, present⟩ := walk_eq_ok_iff.mp walked
  have walks := walk_around h fun step rest same =>
    apart ⟨step, rest, pointed.trans (congrArg some same)⟩
  obtain ⟨value', reached', rule⟩ := (reached ▸ walks).exists_of_ok
  have alike : Alike value value' := by
    rcases rule with rfl | ⟨rest, rfl, around⟩
    · exact .refl _
    · refine around.alike fun name member => last name ?_
      rw [List.getLast?_append, member]
      rfl
  exact ⟨value', lookup_text_eq_ok_iff.mpr
    ⟨steps, pointed, walk_eq_ok_iff.mpr ⟨reached', alike.ne_null present⟩⟩, alike⟩

/-! ## Chains -/

/-- The induction is on the bound; the nodes are the same up to parameter lists. -/
theorem followWithin_agree {kind : String → Prop} (agree : Agree kind document document')
    {depth : Nat} {seen : List String} (alike : Alike node node')
    (kinds : ∀ ref, Meets document node ref → kind ref)
    (followed : followWithin document depth seen node = .ok value) :
    ∃ value', followWithin document' depth seen node' = .ok value' ∧ Alike value value' := by
  have other : "$ref" ≠ "parameters" := by decide
  induction depth generalizing seen node node' with
  | zero => simp [followWithin] at followed
  | succ depth ih =>
      simp only [followWithin] at followed
      split at followed
      · rename_i plain
        obtain rfl := Except.ok.inj followed
        exact ⟨node', by simp only [followWithin, alike.find?_eq_none other plain], alike⟩
      · simp at followed
      · simp at followed
      · rename_i ref cited
        split at followed
        · simp at followed
        · rename_i fresh
          obtain ⟨entries, rfl, found⟩ := eq_object_of_cited cited
          cases reached : lookup document (.text ref) with
          | error failure => simp [reached, bind, Except.bind] at followed
          | ok next =>
              rw [reached] at followed
              obtain ⟨next', reached', alike'⟩ := agree (kinds ref (.own found)) reached
              obtain ⟨value', followed', result⟩ := ih alike'
                (fun other met => kinds other (.next found reached met)) followed
              refine ⟨value', ?_, result⟩
              simp only [followWithin, alike.find?_eq_text other cited, if_neg fresh, reached']
              exact followed'
      · rename_i external _
        obtain ⟨ref, rfl⟩ := text_of_lookup followed
        exact (external ref rfl).elim

/-- A bound that is reached by no chain may be larger. -/
theorem followWithin_stable {depth depth' : Nat} (le : depth ≤ depth') {seen : List String}
    (reached : followWithin document depth seen node ≠ .error (.defect .depthExhausted)) :
    followWithin document depth' seen node = followWithin document depth seen node := by
  induction depth generalizing depth' seen node with
  | zero => exact absurd rfl reached
  | succ depth ih =>
      obtain ⟨depth', rfl⟩ : ∃ less, depth' = less + 1 := ⟨depth' - 1, by omega⟩
      simp only [followWithin] at reached ⊢
      split
      · rfl
      · rfl
      · rfl
      · rename_i ref cited
        simp only [cited] at reached
        split
        · rfl
        · rename_i fresh
          rw [if_neg fresh] at reached
          cases found : lookup document (.text ref) with
          | error failure => rfl
          | ok next =>
              rw [found] at reached
              exact ih (by omega) reached
      · rfl

theorem follow_reached (document node : Value) :
    follow document node ≠ .error (.defect .depthExhausted) := by
  intro exhausted
  cases (ends_follow document node).stops exhausted with
  | defect cause =>
      obtain ⟨entries, -, stopper⟩ := cause
      generalize entries.field "$ref" = target at stopper
      cases stopper

/-- No chain is longer than the bound that is used, so any other bound that is not reached gives
the same result. -/
theorem follow_eq_followWithin {depth : Nat}
    (reached : followWithin document depth [] node ≠ .error (.defect .depthExhausted)) :
    follow document node = followWithin document depth [] node := by
  rcases Nat.le_total depth (document.size + 3) with le | le
  · exact followWithin_stable le reached
  · exact (followWithin_stable le (follow_reached document node)).symm

theorem follow_agree {kind : String → Prop} (agree : Agree kind document document')
    (kinds : ∀ ref, Meets document node ref → kind ref)
    (followed : follow document node = .ok value) :
    ∃ value', follow document' node = .ok value' ∧ Alike value value' := by
  obtain ⟨value', followed', alike⟩ := followWithin_agree agree (.refl node) kinds followed
  exact ⟨value', (follow_eq_followWithin (by simp [followed'])).trans followed', alike⟩

end Pointer

end ApiBinding
