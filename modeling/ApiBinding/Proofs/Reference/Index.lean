import ApiBinding.Proofs.Number.Integer
import ApiBinding.Proofs.Outcome
import ApiBinding.Proofs.Reference.Extension
import ApiBinding.Validation.Writer

/-! Which pointers into a document are followed. A list is entered at every numeral, from its end
if the number is negative, and so at more texts than the standard form of an index allows. -/

namespace ApiBinding

namespace Pointer

/-! ## Indices -/

/-- The standard form of an index: zero, or digits that do not begin with zero. -/
def IsIndex (text : List Char) : Prop :=
  text = ['0'] ∨ text ≠ [] ∧ text.head? ≠ some '0' ∧ text.all Char.isDigit = true

instance (text : List Char) : Decidable (IsIndex text) :=
  inferInstanceAs (Decidable (_ ∨ _ ∧ _ ∧ _))

/-- The number that an index stands for. -/
def indexOf (text : List Char) : Nat :=
  Integer.positional (Integer.plainDigits text)

section Indices

variable {text : List Char}

theorem IsIndex.ne_nil (h : IsIndex text) : text ≠ [] := by
  rcases h with rfl | h
  · exact List.cons_ne_nil _ _
  · exact h.1

theorem IsIndex.digits (h : IsIndex text) : ∀ c ∈ text, c.isDigit = true := by
  rcases h with rfl | ⟨-, -, digits⟩
  · intro c member
    obtain rfl := List.mem_singleton.mp member
    rfl
  · exact List.all_eq_true.mp digits

/-- An index that is not too long is read as the number it stands for. -/
theorem IsIndex.read? (h : IsIndex text) : Integer.read? text =
    if text.length > Integer.digitLimit then none else some ↑(indexOf text) := by
  rw [Integer.read?_of_mapM h.ne_nil (Integer.mapM_plainDigits h.digits), Integer.plainDigits,
    List.length_map]
  rfl

/-- An index below a power of ten has no more digits than the power. -/
theorem IsIndex.length_le (h : IsIndex text) {limit : Nat} (positive : 0 < limit)
    (small : indexOf text < 10 ^ limit) : text.length ≤ limit := by
  rcases h with rfl | ⟨nonempty, head, digits⟩
  · exact positive
  · obtain ⟨c, rest, rfl⟩ := List.exists_cons_of_ne_nil nonempty
    have other : c ≠ '0' := by simpa using head
    obtain ⟨low, -⟩ := Integer.toNat_of_isDigit (List.all_eq_true.mp digits c List.mem_cons_self)
    have one : 1 ≤ c.toNat - '0'.toNat := by
      have apart : c.toNat ≠ 48 := fun same => other (Char.toNat_inj.mp same)
      show 1 ≤ c.toNat - 48
      omega
    have large : 10 ^ rest.length ≤ indexOf (c :: rest) := by
      calc 10 ^ rest.length = 1 * 10 ^ rest.length := (Nat.one_mul _).symm
        _ ≤ (c.toNat - '0'.toNat) * 10 ^ rest.length := Nat.mul_le_mul_right _ one
        _ ≤ indexOf (c :: rest) := by
          simpa [indexOf, Integer.plainDigits] using
            Integer.mul_pow_le_positional (c.toNat - '0'.toNat) (Integer.plainDigits rest)
    exact (Nat.pow_lt_pow_iff_right (by decide)).mp (Nat.lt_of_le_of_lt large small)

end Indices

/-! ## Pointers -/

/-- A pointer to an existing value that is not null: each segment is a key of the mapping, or an
index into the list, where it stands. -/
inductive Points : Value → List String → Value → Prop where
  | here {value : Value} : value ≠ .null → Points value [] value
  | key {entries : Mapping} {name inner path value} : entries.find? name = some inner →
      Points inner path value → Points (.object entries) (name :: path) value
  | item {items : List Value} {text inner path value} : IsIndex text.toList →
      items[indexOf text.toList]? = some inner → Points inner path value →
      Points (.list items) (text :: path) value

/-- What a walk does: it enters a list at any numeral. The texts at which lists were entered are
recorded. -/
inductive Walks : Value → List String → List String → Value → Prop where
  | here {value : Value} : value ≠ .null → Walks value [] [] value
  | key {entries : Mapping} {name inner path entered value} : entries.find? name = some inner →
      Walks inner path entered value → Walks (.object entries) (name :: path) entered value
  | item {items : List Value} {text index inner path entered value} :
      Integer.Numeral text.toList index → itemAt? items index = some inner →
      Walks inner path entered value → Walks (.list items) (text :: path) (text :: entered) value

variable {document value : Value} {path entered : List String}

theorem enter_list_eq_ok_iff {items : List Value} {text : String} :
    enter (.list items) text = .ok value ↔
      ∃ index, Integer.Numeral text.toList index ∧ itemAt? items index = some value := by
  have entered : enter (.list items) text = .ok value ↔
      (Integer.read? text.toList).bind (itemAt? items) = some value := by
    cases found : (Integer.read? text.toList).bind (itemAt? items) <;> simp [enter, found]
  rw [entered, Option.bind_eq_some_iff]
  simp only [Integer.read?_eq_some_iff]

/-! ## Walks -/

theorem Walks.walked (walks : Walks document path entered value) :
    path.foldlM enter document = .ok value ∧ value ≠ .null := by
  induction walks with
  | here present => exact ⟨rfl, present⟩
  | key found _ ih => simpa [enter, found, bind, Except.bind] using ih
  | item numeral found _ ih =>
      rw [List.foldlM_cons, enter_list_eq_ok_iff.mpr ⟨_, numeral, found⟩]
      exact ih

/-- The induction is on the segments; what stands at a place decides how it is left. -/
theorem exists_walks (walked : path.foldlM enter document = .ok value) (present : value ≠ .null) :
    ∃ entered, Walks document path entered value := by
  induction path generalizing document with
  | nil =>
      obtain rfl := Except.ok.inj walked
      exact ⟨[], .here present⟩
  | cons text path ih =>
      rw [List.foldlM_cons] at walked
      obtain ⟨inner, step, rest⟩ := bind_eq_ok_iff.mp walked
      obtain ⟨entered, walks⟩ := ih rest
      cases document with
      | object entries => exact ⟨entered, .key (enter_object_eq_ok_iff.mp step) walks⟩
      | list items =>
          obtain ⟨index, numeral, found⟩ := enter_list_eq_ok_iff.mp step
          exact ⟨text :: entered, .item numeral found walks⟩
      | _ => simp [enter] at step

theorem lookup_inside (document : Value) (rest : String) :
    lookup document (.text ("#/" ++ rest)) = (walk document (segments rest.toList)).mapError
      fun cause => .fault (.unresolved ("#/" ++ rest) cause) := by
  have start : Text.dropStart? ['#', '/'] ("#/" ++ rest).toList = some rest.toList :=
    Text.dropStart?_eq_some_iff.mpr (by simp)
  simp only [lookup, Value.text?, Option.bind_some, start, Option.map_some]

theorem lookup_eq_ok_iff_walks {rest : String} :
    lookup document (.text ("#/" ++ rest)) = .ok value ↔
      ∃ entered, Walks document (segments rest.toList) entered value := by
  have same : lookup document (.text ("#/" ++ rest)) = .ok value ↔
      walk document (segments rest.toList) = .ok value := by
    rw [lookup_inside]
    cases walk document (segments rest.toList) <;> simp [Except.mapError]
  rw [same, walk_eq_ok_iff]
  constructor
  · rintro ⟨walked, present⟩
    exact exists_walks walked present
  · rintro ⟨entered, walks⟩
    exact walks.walked

/-- One walk along the segments is possible at most. -/
theorem Walks.entered_eq {entered' : List String} {value' : Value}
    (walks : Walks document path entered value) (walks' : Walks document path entered' value') :
    entered' = entered := by
  induction walks generalizing entered' value' with
  | here _ =>
      cases walks'
      rfl
  | key found _ ih =>
      cases walks' with
      | key found' walks' =>
          obtain rfl := Option.some.inj (found.symm.trans found')
          exact ih walks'
  | item numeral found _ ih =>
      cases walks' with
      | item numeral' found' walks' =>
          rw [← Integer.read?_eq_some_iff] at numeral numeral'
          obtain rfl := Option.some.inj (numeral.symm.trans numeral')
          obtain rfl := Option.some.inj (found.symm.trans found')
          exact congrArg _ (ih walks')

/-- An item at an index that is counted from the start. -/
theorem itemAt?_indexOf (items : List Value) (text : List Char) :
    itemAt? items ↑(indexOf text) = items[indexOf text]? := by
  rw [itemAt?, if_pos (Int.natCast_nonneg _), Int.toNat_natCast]

theorem Walks.points (walks : Walks document path entered value)
    (indices : ∀ text ∈ entered, IsIndex text.toList) : Points document path value := by
  induction walks with
  | here present => exact .here present
  | key found _ ih => exact .key found (ih indices)
  | @item items text index inner path entered value numeral found _ ih =>
      obtain ⟨isIndex, indices⟩ := List.forall_mem_cons.mp indices
      have read := isIndex.read?
      rw [Integer.read?_eq_some_iff.mpr numeral] at read
      obtain rfl : index = indexOf text.toList := by
        split at read
        · simp at read
        · exact Option.some.inj read
      exact .item isIndex ((itemAt?_indexOf items _).symm.trans found) (ih indices)

/-- In a document of a size that can be counted with the digits of an integer, all pointers are
walked. -/
theorem Points.walks (points : Points document path value)
    (size : document.size ≤ 10 ^ Integer.digitLimit) :
    ∃ entered, Walks document path entered value ∧ ∀ text ∈ entered, IsIndex text.toList := by
  induction points with
  | here present => exact ⟨[], .here present, by simp⟩
  | @key entries name inner path value found _ ih =>
      obtain ⟨key, member⟩ := Mapping.mem_of_find? found
      have inside := Value.size_lt_of_mem_object member
      obtain ⟨entered, walks, indices⟩ := ih (Nat.le_trans (Nat.le_of_lt inside) size)
      exact ⟨entered, .key found walks, indices⟩
  | @item items text inner path value isIndex found _ ih =>
      have inside := Value.size_lt_of_mem_list (List.mem_of_getElem? found)
      obtain ⟨entered, walks, indices⟩ := ih (Nat.le_trans (Nat.le_of_lt inside) size)
      obtain ⟨bound, -⟩ := List.getElem?_eq_some_iff.mp found
      have short : text.toList.length ≤ Integer.digitLimit :=
        isIndex.length_le (by decide)
          (Nat.lt_of_lt_of_le bound (Nat.le_trans (Value.length_le_size items) size))
      have read := isIndex.read?
      rw [if_neg (Nat.not_lt.mpr short), Integer.read?_eq_some_iff] at read
      exact ⟨text :: entered, .item read ((itemAt?_indexOf items _).trans found) walks,
        List.forall_mem_cons.mpr ⟨isIndex, indices⟩⟩

/-- A pointer is looked up exactly where its segments can be walked, and a failed lookup names the
pointer. What is found is what the pointer points at in its standard reading, and nothing else is
found, exactly if all texts at which the walk enters lists are indices in standard form; the
document may be of any size that can be counted with the digits of an integer. -/
theorem lookup_points_iff (document : Value) (rest : String) :
    (∀ value, lookup document (.text ("#/" ++ rest)) = .ok value ↔
      ∃ entered, Walks document (segments rest.toList) entered value) ∧
    (∀ failure, lookup document (.text ("#/" ++ rest)) = .error failure →
      ∃ cause, failure = .fault (.unresolved ("#/" ++ rest) cause)) ∧
    (document.size ≤ 10 ^ Integer.digitLimit →
      ((∀ value, lookup document (.text ("#/" ++ rest)) = .ok value ↔
          Points document (segments rest.toList) value) ↔
        ∀ entered value, Walks document (segments rest.toList) entered value →
          ∀ text ∈ entered, IsIndex text.toList)) := by
  refine ⟨fun value => lookup_eq_ok_iff_walks, fun failure failed => ?_, fun size => ?_⟩
  · rw [lookup_inside] at failed
    cases walked : walk document (segments rest.toList) with
    | ok value => simp [walked, Except.mapError] at failed
    | error cause => exact ⟨cause, by simpa [walked, Except.mapError, eq_comm] using failed⟩
  · constructor
    · intro agree entered value walks
      have points := (agree value).mp (lookup_eq_ok_iff_walks.mpr ⟨entered, walks⟩)
      obtain ⟨entered', walks', indices⟩ := points.walks size
      exact walks.entered_eq walks' ▸ indices
    · intro indices value
      rw [lookup_eq_ok_iff_walks]
      constructor
      · rintro ⟨entered, walks⟩
        exact walks.points (indices entered value walks)
      · intro points
        obtain ⟨entered, walks, -⟩ := points.walks size
        exact ⟨entered, walks⟩

/-- A list of two items under one key. -/
def tagsDocument : Value := .ofFields [
  ("tags", .list [.ofFields [("name", .text "pets")], .ofFields [("name", .text "store")]])]

/-- Two lists are entered at indices in standard form only. -/
theorem lookup_points_iff_tagsDocument :
    (∀ value, lookup tagsDocument (.text "#/tags/1/name") = .ok value ↔
      Points tagsDocument ["tags", "1", "name"] value) ∧
    Points tagsDocument ["tags", "1", "name"] (.text "store") ∧
    lookup tagsDocument (.text "#/tags/1/name") = .ok (.text "store") := by
  have points : Points tagsDocument ["tags", "1", "name"] (.text "store") :=
    .key rfl (.item (by decide) rfl (.key rfl (.here (by simp))))
  obtain ⟨-, -, standard⟩ := lookup_points_iff tagsDocument "tags/1/name"
  have size : tagsDocument.size ≤ 10 ^ Integer.digitLimit :=
    Nat.le_trans (by decide : tagsDocument.size ≤ 10 ^ 2)
      (Nat.pow_le_pow_right (by decide) (by decide))
  obtain ⟨entered, walks, indices⟩ := points.walks size
  have agree := (standard size).mpr fun entered' value walks' =>
    walks.entered_eq walks' ▸ indices
  exact ⟨agree, points, (agree _).mpr points⟩

/-- A negative number is no index, but a list is entered at it. -/
theorem lookup_tagsDocument_negative :
    lookup tagsDocument (.text "#/tags/-1") = .ok (.ofFields [("name", .text "store")]) ∧
    ∀ value, ¬ Points tagsDocument ["tags", "-1"] value := by
  refine ⟨rfl, ?_⟩
  rintro value (_ | ⟨found, inner⟩)
  obtain rfl := Option.some.inj found
  cases inner with
  | item isIndex _ _ => exact absurd isIndex (by decide)

end Pointer

end ApiBinding
