import ApiBinding.Operation.Binding

/-! The parameters of an operation in terms of the entries in its two lists: which of them count,
in which order, and when all of them can be read. -/

namespace ApiBinding

/-! ## Lists of steps that may fail -/

section Lists

variable {α β : Type} {items : List α}

theorem mapM_eq_ok {step : α → Except Failure β}
    (all : ∀ item ∈ items, ∃ value, step item = .ok value) :
    items.mapM step = .ok (items.filterMap fun item => (step item).toOption) := by
  induction items with
  | nil => rfl
  | cons item rest ih =>
      obtain ⟨⟨value, first⟩, others⟩ := List.forall_mem_cons.mp all
      rw [List.mapM_cons, first, ih others, List.filterMap_cons, first]
      rfl

theorem forall_of_mapM {step : α → Except Failure β} {values : List β}
    (h : items.mapM step = .ok values) : ∀ item ∈ items, ∃ value, step item = .ok value := by
  induction items generalizing values with
  | nil => simp
  | cons item rest ih =>
      rw [List.mapM_cons] at h
      cases first : step item with
      | error failure => simp [first, bind, Except.bind] at h
      | ok value =>
          cases others : rest.mapM step with
          | error failure => simp [first, others, bind, Except.bind] at h
          | ok later => exact List.forall_mem_cons.mpr ⟨⟨value, first⟩, ih others⟩

/-- A step along a list succeeds if it succeeds for each item. -/
theorem mapM_eq_ok_iff {step : α → Except Failure β} {values : List β} :
    items.mapM step = .ok values ↔
      (∀ item ∈ items, ∃ value, step item = .ok value) ∧
        values = items.filterMap fun item => (step item).toOption := by
  constructor
  · intro h
    have all := forall_of_mapM h
    exact ⟨all, Except.ok.inj (h.symm.trans (mapM_eq_ok all))⟩
  · rintro ⟨all, rfl⟩
    exact mapM_eq_ok all

/-- The walk gathers what it keeps from behind. -/
theorem filterAuxM_eq_ok {test : α → Except Failure Bool} {p : α → Bool} (before : List α)
    (all : ∀ item ∈ items, test item = .ok (p item)) :
    items.filterAuxM test before = .ok ((items.filter p).reverse ++ before) := by
  induction items generalizing before with
  | nil => rfl
  | cons item rest ih =>
      obtain ⟨first, others⟩ := List.forall_mem_cons.mp all
      rw [List.filterAuxM, first, List.filter_cons]
      cases holds : p item <;> simp [bind, Except.bind, ih _ others]

theorem forall_of_filterAuxM {test : α → Except Failure Bool} {before found : List α}
    (h : items.filterAuxM test before = .ok found) :
    ∀ item ∈ items, ∃ holds, test item = .ok holds := by
  induction items generalizing before with
  | nil => simp
  | cons item rest ih =>
      rw [List.filterAuxM] at h
      cases first : test item with
      | error failure => simp [first, bind, Except.bind] at h
      | ok holds =>
          rw [first] at h
          exact List.forall_mem_cons.mpr ⟨⟨holds, first⟩, ih h⟩

theorem filterM_eq_ok {test : α → Except Failure Bool} {p : α → Bool}
    (all : ∀ item ∈ items, test item = .ok (p item)) :
    items.filterM test = .ok (items.filter p) := by
  simp [List.filterM, filterAuxM_eq_ok [] all, bind, Except.bind, pure, Except.pure]

theorem forall_of_filterM {test : α → Except Failure Bool} {kept : List α}
    (h : items.filterM test = .ok kept) : ∀ item ∈ items, ∃ holds, test item = .ok holds := by
  unfold List.filterM at h
  cases gathered : items.filterAuxM test [] with
  | error failure => simp [gathered, bind, Except.bind] at h
  | ok found => exact forall_of_filterAuxM gathered

end Lists

/-! ## Merged parameters -/

namespace Parameter

/-- Whether two raw parameters have one name and one location. -/
def sameLabels (raw other : Mapping) : Bool :=
  match labels raw, labels other with
  | .ok own, .ok taken => taken.1.same own.1 && taken.2.same own.2
  | _, _ => false

/-- Whether one of the operation's parameters has the name and the location of a parameter. -/
def isOverridden (own : List Mapping) (raw : Mapping) : Bool :=
  own.any (sameLabels raw)

/-- The parameters of a path that the operation does not declare anew, and then its own. -/
def merged (shared own : List Mapping) : List Mapping :=
  shared.filter (!isOverridden own ·) ++ own

/-- Whether a raw parameter has a name and a location that can be compared. -/
def Labelled (raw : Mapping) : Prop :=
  ∃ own, labels raw = .ok own

theorem any_taken {own : List Mapping} (labelled : ∀ raw ∈ own, Labelled raw) {raw : Mapping}
    {name location : Label} (read : labels raw = .ok (name, location)) :
    ((own.filterMap fun other => (labels other).toOption).any fun other =>
      other.1.same name && other.2.same location) = isOverridden own raw := by
  induction own with
  | nil => rfl
  | cons other rest ih =>
      obtain ⟨⟨taken, first⟩, later⟩ := List.forall_mem_cons.mp labelled
      have here : sameLabels raw other = (taken.1.same name && taken.2.same location) := by
        simp [sameLabels, read, first]
      simp only [List.filterMap_cons, first, Except.toOption, List.any_cons, isOverridden, here]
      exact congrArg (_ || ·) (ih later)

theorem merge_eq_ok {shared own : List Mapping} (ofShared : ∀ raw ∈ shared, Labelled raw)
    (ofOwn : ∀ raw ∈ own, Labelled raw) : merge shared own = .ok (merged shared own) := by
  unfold merge
  rw [mapM_eq_ok ofOwn]
  dsimp only [bind, Except.bind]
  rw [@filterM_eq_ok _ _ _ (!isOverridden own ·)]
  · rfl
  · intro raw member
    obtain ⟨⟨name, location⟩, read⟩ := ofShared raw member
    simp only [read, any_taken ofOwn read]

/-- Parameters are merged if the names and the locations of all of them can be compared. -/
theorem merge_eq_ok_iff {shared own raws : List Mapping} :
    merge shared own = .ok raws ↔
      (∀ raw ∈ shared, Labelled raw) ∧ (∀ raw ∈ own, Labelled raw) ∧ raws = merged shared own := by
  constructor
  · intro h
    have ofOwn : ∀ raw ∈ own, Labelled raw := by
      cases taken : own.mapM labels with
      | error failure => simp [merge, taken, bind, Except.bind] at h
      | ok all => exact forall_of_mapM taken
    have ofShared : ∀ raw ∈ shared, Labelled raw := by
      rw [merge, mapM_eq_ok ofOwn] at h
      dsimp only [bind, Except.bind] at h
      split at h
      · simp at h
      · rename_i kept filtered
        intro raw member
        obtain ⟨holds, read⟩ := forall_of_filterM filtered raw member
        cases own : labels raw with
        | error failure => simp [own] at read
        | ok both => exact ⟨both, own⟩
    exact ⟨ofShared, ofOwn, Except.ok.inj (h.symm.trans (merge_eq_ok ofShared ofOwn))⟩
  · rintro ⟨ofShared, ofOwn, rfl⟩
    exact merge_eq_ok ofShared ofOwn

end Parameter

/-! ## Normal forms -/

/-- The normal form of a raw parameter, if it has one. -/
def Dialect.normalForm? (dialect : Dialect) (raw : Mapping) : Option Parameter :=
  (dialect.normalize raw).toOption.join

namespace Operation

open Parameter

/-- The entries in the parameter list of a path or of an operation. -/
def listed (parent : Mapping) : List Value :=
  (parent.field "parameters").list?.getD []

/-- The raw parameter that an entry is or leads to. -/
def raw? (document : Mapping) (entry : Value) : Option Mapping :=
  (Pointer.follow (.object document) entry).toOption.bind Value.object?

variable {document parent item operation : Mapping} {dialect : Dialect}

/-- The entries in a list are read if each of them can be followed. -/
theorem rawParameters_eq_ok_iff {raws : List Mapping} :
    rawParameters document parent = .ok raws ↔
      (∀ entry ∈ listed parent, ∃ target, Pointer.follow (.object document) entry = .ok target) ∧
        raws = (listed parent).filterMap (raw? document) := by
  have read : rawParameters document parent =
      ((listed parent).mapM (Pointer.follow (.object document))).map
        (List.filterMap Value.object?) := by
    unfold rawParameters listed
    cases parent.field "parameters" with
    | list items =>
        simp only [Value.list?, Option.getD_some]
        cases items.mapM (Pointer.follow (.object document)) <;> rfl
    | _ => rfl
  rw [read]
  constructor
  · intro h
    cases followed : (listed parent).mapM (Pointer.follow (.object document)) with
    | error failure => simp [followed, Except.map] at h
    | ok targets =>
        obtain ⟨all, rfl⟩ := mapM_eq_ok_iff.mp followed
        rw [followed, Except.map, Except.ok.injEq, List.filterMap_filterMap] at h
        exact ⟨all, h.symm⟩
  · rintro ⟨all, rfl⟩
    rw [mapM_eq_ok all, Except.map, List.filterMap_filterMap]
    rfl

/-- What can be read of the parameters of an operation and its path. -/
structure Readable (dialect : Dialect) (document item operation : Mapping) : Prop where
  shared : ∀ entry ∈ listed item, ∃ target, Pointer.follow (.object document) entry = .ok target
  own : ∀ entry ∈ listed operation,
    ∃ target, Pointer.follow (.object document) entry = .ok target
  labelledShared : ∀ raw ∈ (listed item).filterMap (raw? document), Labelled raw
  labelledOwn : ∀ raw ∈ (listed operation).filterMap (raw? document), Labelled raw
  normal : ∀ raw ∈ merged ((listed item).filterMap (raw? document))
    ((listed operation).filterMap (raw? document)), ∃ form, dialect.normalize raw = .ok form

/-- The parameters of an operation are the normal forms of the merged entries. -/
theorem parameters_eq_ok_iff {forms : List Parameter} :
    parameters dialect document item operation = .ok forms ↔
      Readable dialect document item operation ∧
        forms = (merged ((listed item).filterMap (raw? document))
          ((listed operation).filterMap (raw? document))).filterMap dialect.normalForm? := by
  unfold parameters
  constructor
  · intro h
    cases ofItem : rawParameters document item with
    | error failure => simp [ofItem, bind, Except.bind] at h
    | ok shared =>
        cases ofOperation : rawParameters document operation with
        | error failure => simp [ofItem, ofOperation, bind, Except.bind] at h
        | ok own =>
            obtain ⟨followed, rfl⟩ := rawParameters_eq_ok_iff.mp ofItem
            obtain ⟨followed', rfl⟩ := rawParameters_eq_ok_iff.mp ofOperation
            simp only [ofItem, ofOperation, bind, Except.bind] at h
            split at h
            · simp at h
            · rename_i raws merges
              obtain ⟨labelled, labelled', rfl⟩ := merge_eq_ok_iff.mp merges
              split at h
              · simp at h
              · rename_i normal normalized
                obtain ⟨all, rfl⟩ := mapM_eq_ok_iff.mp normalized
                rw [Except.ok.injEq, List.filterMap_filterMap] at h
                exact ⟨⟨followed, followed', labelled, labelled', all⟩, h.symm⟩
  · rintro ⟨readable, rfl⟩
    rw [rawParameters_eq_ok_iff.mpr ⟨readable.shared, rfl⟩,
      rawParameters_eq_ok_iff.mpr ⟨readable.own, rfl⟩]
    dsimp only [bind, Except.bind]
    rw [merge_eq_ok readable.labelledShared readable.labelledOwn]
    dsimp only
    rw [mapM_eq_ok readable.normal]
    dsimp only
    rw [List.filterMap_filterMap]
    rfl

end Operation

end ApiBinding
