import ApiBinding.Validation.Reader
import Mathlib.Data.List.Forall2

/-! Which data values a reader accepts, and as what. Each way to put readers together accepts what
its parts accept, so that what a record of fields accepts is read off its fields. The readers of
single values are given; all that is used of them is what is documented. -/

namespace ApiBinding.Validated

variable {α β : Type}

/-! ## Results -/

@[simp] theorem map_eq_accepted_iff {f : α → β} {result : Validated α} {value : β} :
    f <$> result = .accepted value ↔ ∃ inner, result = .accepted inner ∧ f inner = value := by
  change result.map f = _ ↔ _
  cases result <;> simp [map]

@[simp] theorem seq_eq_accepted_iff {f : Validated (α → β)} {result : Validated α} {value : β} :
    f <*> result = .accepted value ↔
      ∃ g inner, f = .accepted g ∧ result = .accepted inner ∧ g inner = value := by
  change f.apply result = _ ↔ _
  cases f <;> cases result <;> simp [apply]

@[simp] theorem within_eq_accepted_iff {place : Place} {result : Validated α} {value : α} :
    result.within place = .accepted value ↔ result = .accepted value := by
  cases result <;> simp [within]

@[simp] theorem issue_ne_accepted (kind : IssueKind) (value : α) :
    issue kind ≠ .accepted value := by
  simp [issue]

theorem andIssues_eq_accepted_iff {result : Validated α} {more : List Issue} {value : α} :
    result.andIssues more = .accepted value ↔ result = .accepted value ∧ more = [] := by
  cases result <;> cases more <;> simp [andIssues]

/-! ## Scalars -/

theorem text_eq_accepted_iff {value : Value} {content : String} :
    text value = .accepted content ↔ value = .text content := by
  cases value <;> simp [text]

/-- The words for a truth value, in lower case. -/
def flagWords : Bool → List String
  | false => ["0", "off", "f", "false", "n", "no"]
  | true => ["1", "on", "t", "true", "y", "yes"]

/-- What counts as a truth value: the value itself, the numbers zero and one, and some words in any
case of their letters. -/
inductive FlagForm : Value → Bool → Prop where
  | bool (flag) : FlagForm (.bool flag) flag
  | int (flag : Bool) : FlagForm (.int flag.toInt) flag
  | float {number} {flag : Bool} : number.toInt? = some flag.toInt → FlagForm (.float number) flag
  | word {word flag} : String.ofList (word.toList.map Char.toLower) ∈ flagWords flag →
      FlagForm (.text word) flag

theorem flagOfInt_eq_accepted_iff {number : Int} {flag : Bool} :
    flagOfInt number = .accepted flag ↔ number = flag.toInt := by
  unfold flagOfInt
  by_cases zero : number = 0
  · subst zero
    cases flag <;> simp [isWord64, minWord64]
  · by_cases one : number = 1
    · subst one
      cases flag <;> simp [isWord64, minWord64]
    · simp only [beq_iff_eq, zero, one, if_false]
      cases flag <;> split <;> simp [zero, one]

theorem flagOfWord?_eq_some_iff {word : String} {flag : Bool} :
    flagOfWord? word = some flag ↔
      String.ofList (word.toList.map Char.toLower) ∈ flagWords flag := by
  have apart : ∀ word ∈ flagWords true, word ∉ flagWords false := by decide
  unfold flagOfWord?
  generalize String.ofList (word.toList.map Char.toLower) = lowered
  change (if (flagWords false).contains lowered then some false
    else if (flagWords true).contains lowered then some true else none) = some flag ↔ _
  by_cases no : lowered ∈ flagWords false
  · have yes : lowered ∉ flagWords true := fun yes => apart lowered yes no
    cases flag <;> simp [no, yes]
  · cases flag <;> simp [no]

theorem flag_eq_accepted_iff {value : Value} {flag : Bool} :
    Validated.flag value = .accepted flag ↔ FlagForm value flag := by
  constructor
  · intro accepted
    unfold Validated.flag at accepted
    split at accepted
    · rename_i own
      obtain rfl := Validated.accepted.inj accepted
      exact .bool own
    · rw [flagOfInt_eq_accepted_iff.mp accepted]
      exact .int flag
    · split at accepted
      · rename_i whole found
        split at accepted
        · simp at accepted
        · exact .float (found.trans (congrArg some (flagOfInt_eq_accepted_iff.mp accepted)))
      · simp at accepted
    · split at accepted
      · rename_i own found
        obtain rfl := Validated.accepted.inj accepted
        exact .word (flagOfWord?_eq_some_iff.mp found)
      · simp at accepted
    · simp at accepted
  · rintro (own | own | found | member)
    · rfl
    · exact flagOfInt_eq_accepted_iff.mpr rfl
    · have small : (flag.toInt == minWord64) = false := by cases flag <;> decide
      simp only [Validated.flag, found, small]
      exact flagOfInt_eq_accepted_iff.mpr rfl
    · simp [Validated.flag, flagOfWord?_eq_some_iff.mpr member]

/-! ## Collections -/

theorem itemsFrom_eq_accepted_iff {read : Reader α} {position : Nat} {items : List Value}
    {values : List α} :
    itemsFrom read position items = .accepted values ↔
      List.Forall₂ (fun item value => read item = .accepted value) items values := by
  induction items generalizing position values with
  | nil => cases values <;> simp [itemsFrom]
  | cons item rest ih =>
      simp only [itemsFrom, seq_eq_accepted_iff, map_eq_accepted_iff, within_eq_accepted_iff, ih]
      constructor
      · rintro ⟨_, others, ⟨first, accepted, rfl⟩, all, rfl⟩
        exact .cons accepted all
      · rintro (_ | ⟨accepted, all⟩)
        exact ⟨_, _, ⟨_, accepted, rfl⟩, all, rfl⟩

theorem list_eq_accepted_iff {read : Reader α} {value : Value} {values : List α} :
    list read value = .accepted values ↔ ∃ items, value = .list items ∧
      List.Forall₂ (fun item value => read item = .accepted value) items values := by
  cases value <;> simp [list, itemsFrom_eq_accepted_iff]

/-- A list of what is written of values is read as these values, if each of them is. -/
theorem list_written {read : Reader α} {write : α → Value}
    (written : ∀ value, read (write value) = .accepted value) (values : List α) :
    list read (.list (values.map write)) = .accepted values := by
  rw [list_eq_accepted_iff]
  refine ⟨_, rfl, ?_⟩
  rw [List.forall₂_map_left_iff]
  exact List.forall₂_same.mpr fun value _ => written value

theorem keyIssues_eq_nil_iff {m : Mapping} :
    keyIssues m = [] ↔ ∀ entry ∈ m, ∃ name, entry.1 = .text name := by
  unfold keyIssues Mapping.keys
  rw [List.filterMap_eq_nil_iff, List.forall_mem_map]
  refine forall₂_congr fun entry member => ?_
  cases entry.1 <;> simp

theorem mapping_eq_accepted_iff {value : Value} {m : Mapping} :
    mapping value = .accepted m ↔
      value = .object m ∧ ∀ entry ∈ m, ∃ name, entry.1 = .text name := by
  cases value with
  | object entries =>
      rw [← keyIssues_eq_nil_iff]
      cases issues : keyIssues entries with
      | nil =>
          simp only [mapping, issues, accepted.injEq, Value.object.injEq, iff_self_and]
          rintro rfl
          exact issues
      | cons issue rest =>
          simp only [mapping, issues, reduceCtorEq, Value.object.injEq, false_iff]
          rintro ⟨rfl, none⟩
          simp [issues] at none
  | _ => simp [mapping]

/-! ## Readers of single values -/

/-- What is documented of the readers of single values: a text is read from a text alone, a truth
value from its forms, and a mapping from one whose keys are texts. -/
structure Scalars.Documented (scalars : Scalars) : Prop where
  text : ∀ {value content}, scalars.text value = .accepted content ↔ value = .text content
  flag : ∀ {value flag}, scalars.flag value = .accepted flag ↔ FlagForm value flag
  mapping : ∀ {value entries}, scalars.mapping value = .accepted entries ↔
    value = .object entries ∧ ∀ entry ∈ entries, ∃ name, entry.1 = .text name

theorem standard_documented : Scalars.standard.Documented :=
  ⟨text_eq_accepted_iff, flag_eq_accepted_iff, mapping_eq_accepted_iff⟩

theorem Scalars.Documented.listOfTexts_iff {scalars : Scalars} (documented : scalars.Documented)
    {value : Value} {contents : List String} :
    list scalars.text value = .accepted contents ↔ value = .list (contents.map .text) := by
  rw [list_eq_accepted_iff]
  constructor
  · rintro ⟨items, rfl, all⟩
    congr 1
    induction all with
    | nil => rfl
    | cons accepted _ ih => rw [documented.text.mp accepted, ih, List.map_cons]
  · rintro rfl
    have written (content : String) : scalars.text (.text content) = .accepted content :=
      documented.text.mpr rfl
    exact list_eq_accepted_iff.mp (list_written written contents)

theorem optional_eq_some_iff {read : Reader α} {given : Value} {value : α} :
    optional read given = .accepted (some value) ↔
      given ≠ .null ∧ read given = .accepted value := by
  cases given with
  | null => simp [optional]
  | _ =>
      change some <$> read _ = _ ↔ _
      simp

/-! ## Fields -/

/-- A field has what stands under its name, or else its default. -/
inductive FieldValue (data : Mapping) (name : String) (default : α) (form : Value → α → Prop) :
    α → Prop where
  | absent : data.find? name = none → FieldValue data name default form default
  | given {given value} : data.find? name = some given → form given value →
      FieldValue data name default form value

theorem withDefault_eq_accepted_iff {name : String} {default value : α} {read : Reader α}
    {data : Mapping} {form : Value → α → Prop}
    (reads : ∀ {given value}, read given = .accepted value ↔ form given value) :
    withDefault (.plain name) default read data = .accepted value ↔
      FieldValue data name default form value := by
  have plain : (FieldKey.plain name).nameIn data = name := by simp [FieldKey.nameIn, FieldKey.plain]
  simp only [withDefault, fieldOr, plain, within_eq_accepted_iff]
  constructor
  · intro accepted
    cases found : data.find? name with
    | none =>
        obtain rfl : default = value := by simpa [found] using accepted
        exact .absent found
    | some given => exact .given found (reads.mp (by simpa [found] using accepted))
  · rintro (found | ⟨found, own⟩)
    · simp [found]
    · simpa [found] using reads.mpr own

theorem strangerIssues_eq_nil_iff {known : List String} {data : Mapping} :
    strangerIssues known data = [] ↔ ∀ key ∈ data.keys, ∃ name ∈ known, key = .text name := by
  unfold strangerIssues
  rw [List.filterMap_eq_nil_iff]
  refine forall₂_congr fun key member => ?_
  cases key <;> simp

end ApiBinding.Validated
