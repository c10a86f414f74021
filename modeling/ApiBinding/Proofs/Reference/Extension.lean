import ApiBinding.Proofs.Schema.Extension
import ApiBinding.Proofs.Text.Pieces
import ApiBinding.Reference.Equations

/-! References into a document whose definition table is extended. A reference that is followed
with success, and does not end at the table itself, ends at the same value, or at a mapping around
the table that differs nowhere else. -/

namespace ApiBinding

/-- Two values that differ at most in what a mapping has under a name. -/
inductive Value.DifferAt (name : String) : Value → Value → Prop where
  | same (value) : DifferAt name value value
  | entry (entries : Mapping) (value) :
      DifferAt name (.object entries) (.object (entries.insert (.text name) value))

/-- Two values that differ at most in what a mapping has under a key that is not among those
read. -/
inductive Value.DifferOutside (read : List String) : Value → Value → Prop where
  | same (value) : DifferOutside read value value
  | entry (entries : Mapping) {name} (value) : name ∉ read →
      DifferOutside read (.object entries) (.object (entries.insert (.text name) value))

theorem Value.DifferAt.outside {read : List String} {name : String} {value value' : Value}
    (h : DifferAt name value value') (unread : name ∉ read) :
    DifferOutside read value value' := by
  cases h with
  | same value => exact .same value
  | entry entries value => exact .entry entries value unread

/-- The second value is the first one with the value at a path of keys replaced. -/
inductive Value.Replaced (old new : Value) : List String → Value → Value → Prop where
  | here : Replaced old new [] old new
  | under {entries : Mapping} {name path value value'} : entries.find? name = some value →
      Replaced old new path value value' →
      Replaced old new (name :: path) (.object entries)
        (.object (entries.insert (.text name) value'))

theorem Value.Replaced.size_le {old new value value' : Value} {path : List String}
    (h : Replaced old new path value value') (grown : old.size ≤ new.size) :
    value.size ≤ value'.size := by
  induction h with
  | here => exact grown
  | under found _ ih =>
      have := mappingSize_le_insert found ih
      simp only [size]
      omega

namespace Pointer

open Value

/-- The path of keys in a reference into the document. -/
def pathOf? (ref : String) : Option (List String) :=
  (Text.dropStart? ['#', '/'] ref.toList).map segments

/-- The references that are followed from a node, one after the other. -/
inductive Meets (document : Value) : Value → String → Prop where
  | own {entries : Mapping} {ref} : entries.find? "$ref" = some (.text ref) →
      Meets document (.object entries) ref
  | next {entries : Mapping} {ref target other} : entries.find? "$ref" = some (.text ref) →
      lookup document (.text ref) = .ok target → Meets document target other →
      Meets document (.object entries) other

theorem segments_ne_nil (text : List Char) : segments text ≠ [] := by
  simpa [segments] using Text.pieces_ne_nil (· == '/') text

/-! ## Walks -/

theorem enter_object_eq_ok_iff {entries : Mapping} {name : String} {value : Value} :
    enter (.object entries) name = .ok value ↔ entries.find? name = some value := by
  cases found : entries.find? name <;> simp [enter, found]

section Extension

variable {table wide : Mapping} {path : List String} {name : String} {document document' : Value}

/-- The induction is on the path to the table. A walk leaves this path to a value that is the same
in both documents, stops on it at a mapping around the table, or goes through the table. -/
theorem walk_replaced
    (keeps : ∀ {key value}, table.find? key = some value → wide.find? key = some value)
    (h : Replaced (.object table) (.object wide) path document document')
    {steps : List String} {value : Value}
    (walked : steps.foldlM enter document = .ok value) (apart : steps ≠ path) :
    ∃ value', steps.foldlM enter document' = .ok value' ∧
      (value' = value ∨
        ∃ name rest, path = steps ++ name :: rest ∧ DifferAt name value value') := by
  induction h generalizing steps with
  | here =>
      cases steps with
      | nil => exact absurd rfl apart
      | cons step rest =>
          cases found : table.find? step with
          | none => simp [enter, found, bind, Except.bind] at walked
          | some inner =>
              refine ⟨value, ?_, .inl rfl⟩
              simpa [enter, found, keeps found] using walked
  | @under entries own path inner inner' found _ ih =>
      cases steps with
      | nil =>
          obtain rfl := Except.ok.inj walked
          exact ⟨_, rfl, .inr ⟨own, path, rfl, .entry entries inner'⟩⟩
      | cons step rest =>
          by_cases same : own = step
          · subst same
            obtain ⟨value', walked', rule⟩ :=
              @ih rest (by simpa [enter, found, bind, Except.bind] using walked)
                (by simpa using apart)
            refine ⟨value', by simpa [enter, bind, Except.bind] using walked', rule.imp_right ?_⟩
            rintro ⟨name, later, rfl, differ⟩
            exact ⟨name, later, rfl, differ⟩
          · refine ⟨value, ?_, .inl rfl⟩
            simpa [enter, Mapping.find?_insert_of_ne entries inner' same] using walked

theorem DifferAt.ne_null {value value' : Value} (h : DifferAt name value value')
    (present : value ≠ .null) : value' ≠ .null := by
  cases h with
  | same _ => exact present
  | entry _ _ => simp

theorem walk_eq_ok_iff {steps : List String} {value : Value} :
    walk document steps = .ok value ↔
      steps.foldlM enter document = .ok value ∧ value ≠ .null := by
  unfold walk
  cases found : steps.foldlM enter document with
  | error failure => simp [bind, Except.bind]
  | ok last => cases last <;> simp +contextual [bind, Except.bind, eq_comm]

theorem lookup_text_eq_ok_iff {ref : String} {value : Value} :
    lookup document (.text ref) = .ok value ↔
      ∃ steps, pathOf? ref = some steps ∧ walk document steps = .ok value := by
  unfold lookup pathOf?
  cases found : Text.dropStart? ['#', '/'] ref.toList with
  | none => simp [Value.text?, found]
  | some rest =>
      cases walked : walk document (segments rest) <;>
        simp [Value.text?, found, walked, Except.mapError]

theorem text_of_lookup {target value : Value} (h : lookup document target = .ok value) :
    ∃ ref, target = .text ref := by
  cases target with
  | text ref => exact ⟨ref, rfl⟩
  | _ => simp [lookup, Value.text?] at h

/-- The path to the table is one key, or a key followed by the name of the table. -/
theorem lookup_replaced
    (keeps : ∀ {key value}, table.find? key = some value → wide.find? key = some value)
    (h : Replaced (.object table) (.object wide) path document document')
    (inner : ∀ other ∈ path.tail, other = name) {ref : String} {value : Value}
    (found : lookup document (.text ref) = .ok value) (apart : pathOf? ref ≠ some path) :
    ∃ value', lookup document' (.text ref) = .ok value' ∧ DifferAt name value value' := by
  obtain ⟨steps, pointed, walked⟩ := lookup_text_eq_ok_iff.mp found
  obtain ⟨reached, present⟩ := walk_eq_ok_iff.mp walked
  obtain ⟨value', reached', rule⟩ := walk_replaced keeps h reached
    (fun same => apart (pointed.trans (congrArg some same)))
  have differ : DifferAt name value value' := by
    rcases rule with rfl | ⟨last, rest, onPath, differ⟩
    · exact .same _
    · have nonempty : steps ≠ [] := by
        obtain ⟨text, _, rfl⟩ := Option.map_eq_some_iff.mp pointed
        exact segments_ne_nil text
      obtain ⟨first, steps, rfl⟩ := List.exists_cons_of_ne_nil nonempty
      obtain rfl := inner last (by simp [onPath])
      exact differ
  exact ⟨value', lookup_text_eq_ok_iff.mpr ⟨steps, pointed,
    walk_eq_ok_iff.mpr ⟨reached', DifferAt.ne_null differ present⟩⟩, differ⟩

/-! ## Chains -/

theorem followWithin_mono {depth depth' : Nat} (le : depth ≤ depth') {seen : List String}
    {node value : Value} (h : followWithin document depth seen node = .ok value) :
    followWithin document depth' seen node = .ok value := by
  induction depth generalizing depth' seen node with
  | zero => simp [followWithin] at h
  | succ depth ih =>
      obtain ⟨depth', rfl⟩ : ∃ less, depth' = less + 1 := ⟨depth' - 1, by omega⟩
      simp only [followWithin] at h ⊢
      split at h
      · exact h
      · simp at h
      · simp at h
      · split at h
        · simp at h
        · rename_i new
          rw [if_neg new]
          cases found : lookup document (.text _) with
          | error failure => simp [found, bind, Except.bind] at h
          | ok next =>
              rw [found] at h
              exact ih (by omega) h
      · exact h

theorem find?_object_differ {node node' : Value} {key : String} (differ : DifferAt name node node')
    (other : name ≠ key) :
    node'.object?.bind (Mapping.find? · key) = node.object?.bind (Mapping.find? · key) := by
  cases differ with
  | same _ => rfl
  | entry entries value =>
      simpa [Value.object?] using Mapping.find?_insert_of_ne entries value other

/-- The induction is on the bound; the nodes in the two documents differ at most in the table. -/
theorem followWithin_replaced
    (keeps : ∀ {key value}, table.find? key = some value → wide.find? key = some value)
    (h : Replaced (.object table) (.object wide) path document document')
    (inner : ∀ other ∈ path.tail, other = name) (named : name ≠ "$ref") {depth : Nat}
    {seen : List String} {node node' value : Value} (differ : DifferAt name node node')
    (apart : ∀ ref, Meets document node ref → pathOf? ref ≠ some path)
    (followed : followWithin document depth seen node = .ok value) :
    ∃ value', followWithin document' depth seen node' = .ok value' ∧
      DifferAt name value value' := by
  induction depth generalizing seen node node' with
  | zero => simp [followWithin] at followed
  | succ depth ih =>
      simp only [followWithin] at followed ⊢
      rw [find?_object_differ differ named]
      split at followed
      · obtain rfl := Except.ok.inj followed
        exact ⟨node', rfl, differ⟩
      · simp at followed
      · simp at followed
      · rename_i ref cited
        split at followed
        · simp at followed
        · rename_i new
          simp only [if_neg new]
          obtain ⟨entries, isObject, found⟩ := Option.bind_eq_some_iff.mp cited
          obtain rfl := eq_object_of_object? isObject
          cases reached : lookup document (.text ref) with
          | error failure => simp [reached, bind, Except.bind] at followed
          | ok next =>
              obtain ⟨next', reached', differ'⟩ :=
                lookup_replaced keeps h inner reached (apart ref (.own found))
              rw [reached']
              rw [reached] at followed
              exact ih differ' (fun other met => apart other (.next found reached met)) followed
      · rename_i external _
        obtain ⟨ref, rfl⟩ := text_of_lookup followed
        exact (external ref rfl).elim

theorem follow_replaced
    (keeps : ∀ {key value}, table.find? key = some value → wide.find? key = some value)
    (size : (Value.object table).size ≤ (Value.object wide).size)
    (h : Replaced (.object table) (.object wide) path document document')
    (inner : ∀ other ∈ path.tail, other = name) (named : name ≠ "$ref") {node value : Value}
    (apart : ∀ ref, Meets document node ref → pathOf? ref ≠ some path)
    (followed : follow document node = .ok value) :
    ∃ value', follow document' node = .ok value' ∧ DifferAt name value value' := by
  obtain ⟨value', followed', differ⟩ :=
    followWithin_replaced keeps h inner named (.same node) apart followed
  have := h.size_le size
  exact ⟨value', followWithin_mono (by omega) followed', differ⟩

end Extension

end Pointer

end ApiBinding
