import ApiBinding.Operation.Data
import ApiBinding.Options.Data
import ApiBinding.Value.Equations
import ApiBinding.Proofs.Validation.Accepted

/-! Values and their data forms. Data for one value can be written in many ways: a truth value as a
number or a word, a field under either of its names or not at all, keys that nobody reads. What is
written of the value that was read is one of them, and it is read as that value again. -/

namespace ApiBinding

namespace Validated

variable {α β : Type}

/-- A reader accepts what is written of every value that it has read from some data, and reads that
value again. The values that are ever read are the possible ones. -/
structure Survives (read : Reader α) (write : α → Value) (Possible : α → Prop) : Prop where
  again : ∀ data value, read data = .accepted value → read (write value) = .accepted value
  possible : ∀ value, (∃ data, read data = .accepted value) ↔ Possible value

/-- It is enough that only possible values are read, and that these are read from their form. -/
theorem survives_of {read : Reader α} {write : α → Value} {Possible : α → Prop}
    (only : ∀ data value, read data = .accepted value → Possible value)
    (written : ∀ value, Possible value → read (write value) = .accepted value) :
    Survives read write Possible where
  again data value own := written value (only data value own)
  possible value := ⟨fun ⟨data, own⟩ => only data value own, fun fits => ⟨_, written value fits⟩⟩

/-- Where every value is read from its form, nothing restricts the values. -/
theorem survives_of_written {read : Reader α} {write : α → Value}
    (written : ∀ value, read (write value) = .accepted value) :
    Survives read write fun _ => True :=
  survives_of (fun _ _ _ => trivial) fun value _ => written value

/-! ## Parts of a form -/

@[simp] theorem map_accepted (f : α → β) (value : α) :
    f <$> Validated.accepted value = .accepted (f value) := rfl

@[simp] theorem accepted_seq (f : α → β) (value : α) :
    Validated.accepted f <*> Validated.accepted value = .accepted (f value) := rfl

@[simp] theorem within_accepted (place : Place) (value : α) :
    (Validated.accepted value).within place = .accepted value := rfl

section documented

variable {scalars : Scalars} (documented : scalars.Documented)
include documented

theorem Scalars.Documented.text_text (content : String) :
    scalars.text (.text content) = .accepted content :=
  documented.text.mpr rfl

theorem Scalars.Documented.flag_bool (own : Bool) : scalars.flag (.bool own) = .accepted own :=
  documented.flag.mpr (.bool own)

theorem Scalars.Documented.optional_ofText? (content : Option String) :
    optional scalars.text (.ofText? content) = .accepted content := by
  cases content with
  | none => rfl
  | some content =>
      exact optional_eq_some_iff.mpr ⟨by simp [Value.ofText?], documented.text_text content⟩

end documented

/-! ## Fields of a form -/

@[simp] theorem fields_object (read : Mapping → Validated α) (entries : Mapping) :
    fields read (.object entries) = read entries := rfl

@[simp] theorem fieldOr_plain (absent : Validated α) (name : String) (read : Reader α)
    (data : Mapping) :
    fieldOr absent (.plain name) read data =
      ((data.find? name).elim absent read).within (.field name) := by
  simp [fieldOr, FieldKey.nameIn, FieldKey.plain]

/-- What a field has comes from the data, or is the default. -/
theorem origin_of_withDefault {key : FieldKey} {default value : α} {read : Reader α}
    {data : Mapping} (own : withDefault key default read data = .accepted value) :
    value = default ∨ ∃ given, read given = .accepted value := by
  simp only [withDefault, fieldOr, within_eq_accepted_iff] at own
  cases found : data.find? (key.nameIn data) with
  | none =>
      rw [found] at own
      exact .inl (accepted.inj own).symm
  | some given =>
      rw [found] at own
      exact .inr ⟨given, own⟩

end Validated

open Validated

variable {scalars : Scalars}

/-! ## Records and files -/

theorem Field.read_toValue (documented : scalars.Documented) (field : Field String) :
    read scalars field.toValue = .accepted field := by
  simp [read, toValue, Value.ofFields, Validated.required, withDefault, Mapping.find?_cons,
    documented.text_text, documented.flag_bool, documented.optional_ofText?]

theorem Placement.read_ofText? (placement : Option Placement) :
    optional read (.ofText? (placement.map word)) = .accepted placement := by
  rcases placement with _ | placement
  · rfl
  · cases placement <;> rfl

theorem Record.read_toValue (documented : scalars.Documented) (record : Record String) :
    read scalars record.toValue = .accepted record := by
  simp [read, toValue, Value.ofFields, required, withDefault, Mapping.find?_cons,
    Placement.read_ofText?, list_written (Field.read_toValue documented), documented.text_text,
    documented.optional_ofText?]

theorem FileField.read_toValue (documented : scalars.Documented) (file : FileField) :
    read scalars file.toValue = .accepted file := by
  simp [read, toValue, Value.ofFields, required, withDefault, Mapping.find?_cons,
    documented.text_text, documented.flag_bool]

/-! ## Options -/

/-- The names of a form are those of the options, so that none of them is refused. -/
theorem Options.read_toValue (documented : scalars.Documented) (options : Options) :
    read scalars options.toValue = .accepted options := by
  have codes : list scalars.text (.list (options.responseCodes.map .text)) =
      .accepted options.responseCodes := documented.listOfTexts_iff.mpr rfl
  simp [read, toValue, Value.ofFields, withDefault, Mapping.find?_cons, codes, strangerIssues,
    Mapping.keys, fieldNames, andIssues, documented.text_text, documented.flag_bool]

/-! ## Bindings -/

/-- Under whichever of its two names a field is written, the other one is not in the form. -/
theorem Binding.read_toValue (documented : scalars.Documented) (naming : Naming)
    (binding : Binding String) :
    read scalars (binding.toValue naming) = .accepted binding := by
  have records := list_written (Record.read_toValue documented) binding.records
  have files := list_written (FileField.read_toValue documented) binding.files
  cases naming <;>
    simp [read, toValue, required, withDefault, fieldOr, formKey, pathKey, FieldKey.nameIn,
      FieldKey.plain, FieldKey.under, Mapping.find?_cons, records, files, documented.text_text,
      documented.flag_bool, documented.optional_ofText?]

/-! ## Parameters -/

namespace Parameter

/-- The keys of the schema are texts, if there is a schema. -/
def HasTextKeys (parameter : Parameter) : Prop :=
  ∀ schema, parameter.schema = some schema → ∀ entry ∈ schema, ∃ name, entry.1 = .text name

theorem read_location (location : Location) :
    choice Location.ofValue? (.text location.word) = .accepted location := by
  cases location <;> rfl

theorem hasTextKeys_of_read (documented : scalars.Documented) {data : Value}
    {parameter : Parameter} (own : read scalars data = .accepted parameter) :
    parameter.HasTextKeys := by
  cases data with
  | object entries =>
      simp only [read, fields_object, seq_eq_accepted_iff, map_eq_accepted_iff] at own
      obtain ⟨_, schema, ⟨_, _, ⟨_, _, ⟨_, _, ⟨_, -, rfl⟩, -, rfl⟩, -, rfl⟩, -, rfl⟩, given, rfl⟩ :=
        own
      rintro _ rfl
      -- the default is no schema, so that this one was read as a mapping
      rcases origin_of_withDefault given with absent | ⟨_, own⟩
      · simp at absent
      · exact (documented.mapping.mp (optional_eq_some_iff.mp own).2).2
  | _ => simp [read, fields] at own

theorem read_toValue (documented : scalars.Documented) (naming : Naming) {parameter : Parameter}
    (texts : parameter.HasTextKeys) :
    read scalars (parameter.toValue naming) = .accepted parameter := by
  have schema : optional scalars.mapping (parameter.schema.elim .null .object) =
      .accepted parameter.schema := by
    cases own : parameter.schema with
    | none => rfl
    | some schema =>
        exact optional_eq_some_iff.mpr
          ⟨by simp, documented.mapping.mpr ⟨rfl, texts _ own⟩⟩
  cases naming <;>
    simp [read, toValue, Validated.required, withDefault, fieldOr, schemaKey, FieldKey.nameIn,
      FieldKey.under, FieldKey.plain, Mapping.find?_cons, read_location, schema,
      documented.text_text, documented.flag_bool, documented.optional_ofText?]

end Parameter

/-! ## Round trips -/

/-- What is written of a value that was read from any data is read again, as that value, for all
data forms and for both names of the fields that have two. A parameter whose schema has a key that
is no text comes from no data; every other value of these types comes from some. -/
theorem dataForms_survive (documented : scalars.Documented) (naming : Naming) :
    Survives (Options.read scalars) Options.toValue (fun _ => True) ∧
    Survives (Field.read scalars) Field.toValue (fun _ => True) ∧
    Survives (Record.read scalars) Record.toValue (fun _ => True) ∧
    Survives (FileField.read scalars) FileField.toValue (fun _ => True) ∧
    Survives (Parameter.read scalars) (Parameter.toValue naming) Parameter.HasTextKeys ∧
    Survives (Binding.read scalars) (Binding.toValue naming) (fun _ => True) :=
  ⟨survives_of_written (Options.read_toValue documented),
    survives_of_written (Field.read_toValue documented),
    survives_of_written (Record.read_toValue documented),
    survives_of_written (FileField.read_toValue documented),
    survives_of (fun _ _ => Parameter.hasTextKeys_of_read documented)
      fun _ => Parameter.read_toValue documented naming,
    survives_of_written (Binding.read_toValue documented naming)⟩

/-- Data of a binding with a word for a truth value, a number for another, a field under the name it
has inside, and a key that nobody reads. -/
def looseBinding : Value :=
  .ofFields [
    ("name", .text "upload"),
    ("isFormData", .text "Yes"),
    ("path_var", .text "UploadPathVar"),
    ("interfaces", .list [.ofFields [
      ("name", .text "UploadBody"),
      ("fields", .list [.ofFields [
        ("name", .text "scan"), ("required", .int 1), ("type", .text "File")]]),
      ("placement", .text "body")]]),
    ("origin", .list [])]

/-- The binding that these data stand for. -/
def strictBinding : Binding String :=
  { name := "upload", comment := "", body := none, isFormData := true
    records := [⟨"UploadBody", none, [⟨"scan", true, "File", none, none⟩], some .body⟩]
    pathRecord := some "UploadPathVar", queryRecord := none, response := none, files := [] }

theorem dataForms_survive_looseBinding :
    Scalars.standard.Documented ∧
      Binding.read .standard looseBinding = .accepted strictBinding ∧
      Binding.read .standard (strictBinding.toValue .internal) = .accepted strictBinding := by
  have own : Binding.read .standard looseBinding = .accepted strictBinding := rfl
  have survives := dataForms_survive standard_documented .internal
  exact ⟨standard_documented, own, survives.2.2.2.2.2.again _ _ own⟩

end ApiBinding
