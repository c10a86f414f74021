import ApiBinding.Proofs.Operation.Cleared
import ApiBinding.Proofs.Operation.Merge
import ApiBinding.Proofs.Reference.Cleared
import Mathlib.Data.List.Basic

/-! Entries of parameter lists that leave no trace: those sent in headers, and those of a path that
the operation declares anew. Without them the normal forms that count are the same. -/

namespace ApiBinding

open Value

/-- Headers and cookies, which are no part of a binding. -/
def Location.inHeaders (location : Location) : Bool :=
  location == .header || location == .cookie

namespace Parameter

/-- Whether a parameter can have a part in a binding. -/
def counts (parameter : Parameter) : Bool :=
  !parameter.location.inHeaders

/-- Whether a raw parameter is sent in a header. -/
def isInHeaders (raw : Mapping) : Bool :=
  (location? raw).any Location.inHeaders

/-- The location and the name of a raw parameter, without which it has no normal form. -/
structure SentAs (raw : Mapping) (location : Location) (name : String) : Prop where
  location : location? raw = some location
  name : raw.field "name" = .text name

end Parameter

namespace Dialect

variable {dialect : Dialect} {raw : Mapping} {location : Location} {name : String}
  {form : Parameter}

/-- A normal form keeps the name and the location that it is made for. -/
theorem given_of_ofRaw {schema : Value} (h : Parameter.ofRaw raw name location schema = .ok form) :
    form.name = name ∧ form.location = location := by
  simp only [Parameter.ofRaw] at h
  cases issues : Validated.keyIssues (schema.object?.getD []) with
  | nil =>
      simp only [issues] at h
      obtain rfl := Except.ok.inj h
      exact ⟨rfl, rfl⟩
  | cons issue rest => simp [issues] at h

/-- The normal form of a raw parameter has its location and its name. -/
theorem sentAs_iff {normal : Option Parameter} (h : dialect.normalize raw = .ok normal) :
    Parameter.SentAs raw location name ↔
      ∃ form, normal = some form ∧ form.location = location ∧ form.name = name := by
  unfold normalize at h
  split at h
  · rename_i location' name' located named
    cases made : Parameter.ofRaw raw name' location' (dialect.parameterSchema raw location') with
    | error failure => simp [made, bind, Except.bind] at h
    | ok form =>
        obtain rfl : some form = normal := by simpa [made, bind, Except.bind] using h
        obtain ⟨rfl, rfl⟩ := given_of_ofRaw made
        constructor
        · rintro ⟨located', named'⟩
          obtain rfl := Option.some.inj (located.symm.trans located')
          obtain rfl := Value.text.inj (named.symm.trans named')
          exact ⟨form, rfl, rfl, rfl⟩
        · rintro ⟨own, same, rfl, rfl⟩
          obtain rfl := Option.some.inj same
          exact ⟨located, named⟩
  · rename_i unread
    obtain rfl := Except.ok.inj h
    constructor
    · rintro ⟨located, named⟩
      exact (unread _ _ located named).elim
    · rintro ⟨form, absent, -⟩
      simp at absent

theorem normalForm?_eq_some_iff :
    dialect.normalForm? raw = some form ↔ dialect.normalize raw = .ok (some form) := by
  rw [normalForm?]
  cases dialect.normalize raw <;> simp [Except.toOption]

theorem location_of_normalForm? (h : dialect.normalForm? raw = some form) :
    Parameter.location? raw = some form.location := by
  have sent := (sentAs_iff (normalForm?_eq_some_iff.mp h)).mpr ⟨form, rfl, rfl, rfl⟩
  exact sent.location

end Dialect

namespace Parameter

variable {dialect : Dialect} {raw other : Mapping}

/-- What is sent in a header has no normal form that counts. -/
theorem filter_counts_of_isInHeaders (h : isInHeaders raw = true) :
    (dialect.normalForm? raw).filter counts = none := by
  cases normal : dialect.normalForm? raw with
  | none => rfl
  | some form =>
      have located := Dialect.location_of_normalForm? normal
      simp only [isInHeaders, located, Option.any_some] at h
      simp [counts, h]

theorem field_in_of_location? {location : Location} (h : location? raw = some location) :
    raw.field "in" = .text location.word := by
  obtain ⟨word, isText, found⟩ := Option.bind_eq_some_iff.mp h
  obtain rfl : location.word = word := by simpa using List.find?_some found
  cases value : raw.field "in" <;> simp_all [Value.text?]

theorem location?_of_field {location : Location} (h : raw.field "in" = .text location.word) :
    location? raw = some location := by
  rw [location?, h]
  cases location <;> rfl

theorem label_of_labels {own : Label × Label} (read : labels raw = .ok own) :
    Label.ofValue? ((raw.find? "in").getD (.text "")) = some own.2 := by
  unfold labels at read
  dsimp only at read
  split at read
  · rename_i location _ isLabel
    obtain rfl := Except.ok.inj read
    exact isLabel
  · simp at read

/-- Only a text has the label of a text. -/
theorem eq_text_of_same {word : String} {own : Label} {value : Value}
    (same : (Label.key (.text word)).same own = true) (labelled : Label.ofValue? value = some own) :
    value = .text word := by
  cases value with
  | text content =>
      obtain rfl := Option.some.inj labelled
      obtain rfl : word = content := by simpa [Label.same] using same
      rfl
  | float number =>
      obtain rfl := Option.some.inj labelled
      cases whole : number.toInt? <;> simp [Label.same, Key.same, Key.canonical, whole] at same
  | list items => simp [Label.ofValue?, Key.ofValue?] at labelled
  | object entries => simp [Label.ofValue?, Key.ofValue?] at labelled
  | _ =>
      obtain rfl := Option.some.inj labelled
      simp [Label.same, Key.same, Key.canonical] at same

/-- A parameter that overrides another one has its location. -/
theorem location?_of_sameLabels {location : Location} (same : sameLabels raw other = true)
    (h : location? other = some location) : location? raw = some location := by
  have inOther := Mapping.find?_of_field (field_in_of_location? h) (by simp)
  unfold sameLabels at same
  split at same
  · rename_i own taken read read'
    have label := label_of_labels read'
    rw [inOther] at label
    rw [Bool.and_eq_true, ← Option.some.inj label] at same
    have inRaw := eq_text_of_same same.2 (label_of_labels read)
    refine location?_of_field ?_
    cases found : raw.find? "in" with
    | none =>
        rw [found] at inRaw
        cases location <;> simp [Location.word] at inRaw
    | some value =>
        rw [found] at inRaw
        simpa [Mapping.field, found] using inRaw
  · simp at same

/-- A parameter that overrides another one is sent in a header if that one is. -/
theorem isInHeaders_of_sameLabels (same : sameLabels raw other = true)
    (h : isInHeaders other = true) : isInHeaders raw = true := by
  cases located : location? other with
  | none => simp [isInHeaders, located] at h
  | some location => simpa [isInHeaders, location?_of_sameLabels same located, located] using h

/-! ## Cleared parameters -/

theorem sameLabels_cleared (raw other : Mapping) :
    sameLabels (clearedEntries raw) (clearedEntries other) = sameLabels raw other := by
  simp only [sameLabels, labels_cleared]

theorem isOverridden_cleared (own : List Mapping) (raw : Mapping) :
    isOverridden (own.map clearedEntries) (clearedEntries raw) = isOverridden own raw := by
  simp only [isOverridden, List.any_map, Function.comp_def, sameLabels_cleared]

theorem merged_cleared (shared own : List Mapping) :
    merged (shared.map clearedEntries) (own.map clearedEntries) =
      (merged shared own).map clearedEntries := by
  simp only [merged, List.map_append, List.filter_map, Function.comp_def, isOverridden_cleared]

theorem normalForm?_cleared (dialect : Dialect) (raw : Mapping) :
    dialect.normalForm? (clearedEntries raw) = (dialect.normalForm? raw).map cleared := by
  simp only [Dialect.normalForm?, Dialect.normalize_cleared]
  cases dialect.normalize raw with
  | error failure => rfl
  | ok form => rfl

end Parameter

namespace Operation

open Parameter

/-! ## Entries that may be left out -/

/-- The entries that two lists keep: of those of the operation all but some that are sent in
headers, and of those of the path all but some that are sent in headers or that the operation
declares anew. One that the operation declares anew may only stay if it is still declared anew,
or if it has a normal form. -/
structure Thinning (dialect : Dialect) (document item operation : Mapping)
    (keepShared keepOwn : Value → Bool) : Prop where
  own : ∀ entry ∈ listed operation, keepOwn entry = false →
    ∀ raw, raw? document entry = some raw → isInHeaders raw = true
  shared : ∀ entry ∈ listed item, keepShared entry = false →
    ∀ raw, raw? document entry = some raw → isInHeaders raw = true ∨
      isOverridden ((listed operation).filterMap (raw? document)) raw = true
  remaining : ∀ entry ∈ listed item, keepShared entry = true →
    ∀ raw, raw? document entry = some raw →
      isOverridden ((listed operation).filterMap (raw? document)) raw = true →
      isOverridden (((listed operation).filter keepOwn).filterMap (raw? document)) raw = true ∨
        ∃ form, dialect.normalize raw = .ok form

variable {dialect : Dialect} {document item operation : Mapping}
  {keepShared keepOwn : Value → Bool}

theorem kept_subset (keep : Value → Bool) (entries : List Value) :
    (entries.filter keep).filterMap (raw? document) ⊆ entries.filterMap (raw? document) :=
  (List.filter_sublist.filterMap _).subset

namespace Thinning

/-- An entry of the path that is declared anew no more is sent in a header, like the one that
declared it anew. -/
theorem isInHeaders_of_declared (thinning : Thinning dialect document item operation keepShared
      keepOwn) {raw : Mapping}
    (before : isOverridden ((listed operation).filterMap (raw? document)) raw = true)
    (after : isOverridden (((listed operation).filter keepOwn).filterMap (raw? document)) raw ≠
      true) : isInHeaders raw = true := by
  obtain ⟨other, member, same⟩ := List.any_eq_true.mp before
  obtain ⟨entry, inside, found⟩ := List.mem_filterMap.mp member
  refine isInHeaders_of_sameLabels same (thinning.own entry inside ?_ other found)
  rw [← Bool.not_eq_true]
  intro kept
  refine after (List.any_eq_true.mpr ⟨other, List.mem_filterMap.mpr ⟨entry, ?_, found⟩, same⟩)
  exact List.mem_filter.mpr ⟨inside, kept⟩

theorem isOverridden_of_kept {raw : Mapping}
    (h : isOverridden (((listed operation).filter keepOwn).filterMap (raw? document)) raw =
      true) : isOverridden ((listed operation).filterMap (raw? document)) raw = true := by
  obtain ⟨other, member, same⟩ := List.any_eq_true.mp h
  exact List.any_eq_true.mpr ⟨other, kept_subset keepOwn _ member, same⟩

/-- The normal forms that count are those of the entries that are kept. -/
theorem filter_counts (thinning : Thinning dialect document item operation keepShared keepOwn) :
    ((merged (((listed item).filter keepShared).filterMap (raw? document))
      (((listed operation).filter keepOwn).filterMap (raw? document))).filterMap
        dialect.normalForm?).filter counts =
    ((merged ((listed item).filterMap (raw? document))
      ((listed operation).filterMap (raw? document))).filterMap
        dialect.normalForm?).filter counts := by
  have declared := @thinning.isInHeaders_of_declared
  have shared := thinning.shared
  have stays := @isOverridden_of_kept document operation keepOwn
  simp only [merged, List.filterMap_append, List.filter_append]
  congr 1
  · generalize ((listed operation).filter keepOwn).filterMap (raw? document) = kept at *
    generalize (listed operation).filterMap (raw? document) = own at *
    simp only [List.filterMap_filter, List.filter_filterMap, List.filterMap_filterMap]
    refine List.filterMap_congr fun entry member => ?_
    cases found : raw? document entry with
    | none => simp
    | some raw =>
        cases keep : keepShared entry with
        | false =>
            rcases shared entry member keep raw found with inHeaders | before
            · have none := @filter_counts_of_isInHeaders dialect raw inHeaders
              cases before : isOverridden own raw <;> simp [Option.filter_some, before, none]
            · simp [Option.filter_some, before]
        | true =>
            cases after : isOverridden kept raw with
            | true => simp [Option.filter_some, after, stays after]
            | false =>
                cases before : isOverridden own raw with
                | false => simp [Option.filter_some, after, before]
                | true =>
                    have inHeaders := declared before (by simp [after])
                    have none := @filter_counts_of_isInHeaders dialect raw inHeaders
                    simp [Option.filter_some, after, before, none]
  · simp only [List.filterMap_filter, List.filter_filterMap, List.filterMap_filterMap]
    refine List.filterMap_congr fun entry member => ?_
    cases keep : keepOwn entry with
    | true => simp
    | false =>
        cases found : raw? document entry with
        | none => simp
        | some raw =>
            simp [filter_counts_of_isInHeaders (thinning.own entry member keep raw found)]

/-- What is kept can be read if everything could be. -/
theorem exists_normalForm (thinning : Thinning dialect document item operation keepShared keepOwn)
    (readable : Readable dialect document item operation) :
    ∀ raw ∈ merged (((listed item).filter keepShared).filterMap (raw? document))
      (((listed operation).filter keepOwn).filterMap (raw? document)),
      ∃ form, dialect.normalize raw = .ok form := by
  intro raw member
  rcases List.mem_append.mp member with ofItem | ofOperation
  · obtain ⟨inside, alone⟩ := List.mem_filter.mp ofItem
    obtain ⟨entry, kept, found⟩ := List.mem_filterMap.mp inside
    obtain ⟨member, keep⟩ := List.mem_filter.mp kept
    by_cases before : isOverridden ((listed operation).filterMap (raw? document)) raw = true
    · rcases thinning.remaining entry member keep raw found before with after | normal
      · simp [after] at alone
      · exact normal
    · have own := kept_subset keepShared _ inside
      refine readable.normal raw (List.mem_append_left _ (List.mem_filter.mpr ⟨own, ?_⟩))
      simpa using before
  · exact readable.normal raw (List.mem_append_right _ (kept_subset keepOwn _ ofOperation))

end Thinning

/-- Keeps what is not sent in a header. -/
def keepsOwn (document : Mapping) (entry : Value) : Bool :=
  !(raw? document entry).any isInHeaders

/-- Keeps what is neither sent in a header nor declared anew by the operation. -/
def keepsShared (document operation : Mapping) (entry : Value) : Bool :=
  !(raw? document entry).any fun raw =>
    isInHeaders raw || isOverridden ((listed operation).filterMap (raw? document)) raw

/-- Everything that is sent in headers or overridden may be left out at once. -/
theorem thinning_all (dialect : Dialect) (document item operation : Mapping) :
    Thinning dialect document item operation (keepsShared document operation)
      (keepsOwn document) where
  own entry _ dropped raw found := by simpa [keepsOwn, found] using dropped
  shared entry _ dropped raw found := by
    rw [← Bool.or_eq_true, ← Bool.not_eq_false']
    simpa [keepsShared, found] using dropped
  remaining entry _ kept raw found declared := by simp [keepsShared, found, declared] at kept

/-! ## Two documents -/

/-- Each of the entries leads to the same place in both documents, up to parameter lists. -/
def Follows (document document' : Mapping) (entries : List Value) : Prop :=
  ∀ entry ∈ entries, ∀ target, Pointer.follow (.object document) entry = .ok target →
    ∃ target', Pointer.follow (.object document') entry = .ok target' ∧ Alike target target'

theorem Follows.filter {document document' : Mapping} {entries : List Value}
    (h : Follows document document' entries) (keep : Value → Bool) :
    Follows document document' (entries.filter keep) :=
  fun entry member => h entry (List.mem_filter.mp member).1

theorem map_filterMap_raw? {document document' : Mapping} {entries : List Value}
    (follows : Follows document document' entries)
    (read : ∀ entry ∈ entries, ∃ target, Pointer.follow (.object document) entry = .ok target) :
    (entries.filterMap (raw? document')).map clearedEntries =
      (entries.filterMap (raw? document)).map clearedEntries := by
  rw [List.map_filterMap, List.map_filterMap]
  refine List.filterMap_congr fun entry member => ?_
  obtain ⟨target, followed⟩ := read entry member
  obtain ⟨target', followed', alike⟩ := follows entry member target followed
  simpa [raw?, followed, followed', Except.toOption] using alike.object?

/-- A raw parameter in the one list is up to parameter lists one in the other. -/
theorem exists_of_map_cleared {raws raws' : List Mapping}
    (same : raws'.map clearedEntries = raws.map clearedEntries) {raw : Mapping}
    (member : raw ∈ raws') : ∃ other ∈ raws, clearedEntries other = clearedEntries raw :=
  List.mem_map.mp (same ▸ List.mem_map_of_mem member)

theorem labelled_of_cleared {raws raws' : List Mapping}
    (same : raws'.map clearedEntries = raws.map clearedEntries)
    (labelled : ∀ raw ∈ raws, Labelled raw) : ∀ raw ∈ raws', Labelled raw := by
  intro raw member
  obtain ⟨other, inside, alike⟩ := exists_of_map_cleared same member
  obtain ⟨own, read⟩ := labelled other inside
  exact ⟨own, by rw [← labels_cleared, ← alike, labels_cleared, read]⟩

theorem normal_of_cleared {raws raws' : List Mapping}
    (same : raws'.map clearedEntries = raws.map clearedEntries)
    (normal : ∀ raw ∈ raws, ∃ form, dialect.normalize raw = .ok form) :
    ∀ raw ∈ raws', ∃ form, dialect.normalize raw = .ok form := by
  intro raw member
  obtain ⟨other, inside, alike⟩ := exists_of_map_cleared same member
  obtain ⟨form, normalized⟩ := normal other inside
  have both := dialect.normalize_cleared raw
  rw [← alike, dialect.normalize_cleared, normalized] at both
  cases found : dialect.normalize raw with
  | error failure => simp [found, Except.map] at both
  | ok own => exact ⟨own, rfl⟩

theorem forms_of_cleared {raws raws' : List Mapping}
    (same : raws'.map clearedEntries = raws.map clearedEntries) :
    (raws'.filterMap dialect.normalForm?).map Parameter.cleared =
      (raws.filterMap dialect.normalForm?).map Parameter.cleared := by
  have pushed : ∀ raws : List Mapping, (raws.filterMap dialect.normalForm?).map Parameter.cleared =
      (raws.map clearedEntries).filterMap dialect.normalForm? := by
    intro raws
    rw [List.map_filterMap, List.filterMap_map]
    exact List.filterMap_congr fun raw _ => (normalForm?_cleared dialect raw).symm
  rw [pushed, pushed, same]

/-- The parameters that count, with the parameter lists in their schemas cleared. -/
def counted (forms : List Parameter) : List Parameter :=
  (forms.filter counts).map Parameter.cleared

theorem counted_eq (forms : List Parameter) :
    counted forms = (forms.map Parameter.cleared).filter counts := by
  rw [counted, List.filter_map]
  rfl

/-- The parameters of an operation are read again in a document that keeps only some of the
entries, and those that count are the same. -/
theorem parameters_thinned {document' item' operation' : Mapping} {forms : List Parameter}
    (thinning : Thinning dialect document item operation keepShared keepOwn)
    (followsShared : Follows document document' (listed item))
    (followsOwn : Follows document document' (listed operation))
    (ofItem : listed item' = (listed item).filter keepShared)
    (ofOperation : listed operation' = (listed operation).filter keepOwn)
    (success : parameters dialect document item operation = .ok forms) :
    ∃ forms', parameters dialect document' item' operation' = .ok forms' ∧
      counted forms' = counted forms := by
  obtain ⟨readable, rfl⟩ := parameters_eq_ok_iff.mp success
  have inItem : ∀ entry ∈ listed item', entry ∈ listed item := fun entry member =>
    (List.mem_filter.mp (ofItem ▸ member)).1
  have inOperation : ∀ entry ∈ listed operation', entry ∈ listed operation :=
    fun entry member => (List.mem_filter.mp (ofOperation ▸ member)).1
  have sameShared := map_filterMap_raw? (followsShared.filter keepShared) fun entry member =>
    readable.shared entry (List.mem_filter.mp member).1
  have sameOwn := map_filterMap_raw? (followsOwn.filter keepOwn) fun entry member =>
    readable.own entry (List.mem_filter.mp member).1
  have sameAll : (merged ((listed item').filterMap (raw? document'))
        ((listed operation').filterMap (raw? document'))).map clearedEntries =
      (merged (((listed item).filter keepShared).filterMap (raw? document))
        (((listed operation).filter keepOwn).filterMap (raw? document))).map clearedEntries := by
    rw [ofItem, ofOperation, ← merged_cleared, ← merged_cleared, sameShared, sameOwn]
  rw [← ofItem] at sameShared
  rw [← ofOperation] at sameOwn
  refine ⟨_, parameters_eq_ok_iff.mpr ⟨⟨?_, ?_, ?_, ?_, ?_⟩, rfl⟩, ?_⟩
  · intro entry member
    obtain ⟨target, followed⟩ := readable.shared entry (inItem entry member)
    obtain ⟨target', followed', -⟩ := followsShared entry (inItem entry member) target followed
    exact ⟨target', followed'⟩
  · intro entry member
    obtain ⟨target, followed⟩ := readable.own entry (inOperation entry member)
    obtain ⟨target', followed', -⟩ := followsOwn entry (inOperation entry member) target followed
    exact ⟨target', followed'⟩
  · exact labelled_of_cleared sameShared fun raw member =>
      readable.labelledShared raw (kept_subset keepShared _ (ofItem ▸ member))
  · exact labelled_of_cleared sameOwn fun raw member =>
      readable.labelledOwn raw (kept_subset keepOwn _ (ofOperation ▸ member))
  · exact normal_of_cleared sameAll (thinning.exists_normalForm readable)
  · rw [counted_eq, forms_of_cleared sameAll, ← counted_eq, counted, thinning.filter_counts]
    rfl

end Operation

end ApiBinding
