import ApiBinding.Operation.Binding
import ApiBinding.Proofs.Operation.Status
import ApiBinding.Proofs.Reference.Chain
import ApiBinding.Proofs.Validation.Accepted

/-! What a run reads off the document before it types anything: the parameters in normal form and
the schema of the response. In a document with texts as keys these have texts as keys, too, and
reading them fails only for a few reasons in the places that are read. -/

namespace ApiBinding

namespace Ends

variable {α : Type} {stop : Failure → Prop}

/-- A filter with a test that may fail keeps some of the items. -/
theorem filterM {test : α → Except Failure Bool} {items : List α}
    (htest : ∀ item ∈ items, Ends (test item) (fun _ => True) stop) :
    Ends (items.filterM test) (· ⊆ items) stop := by
  have walk : ∀ (rest kept : List α), rest ⊆ items → kept ⊆ items →
      Ends (List.filterAuxM test rest kept) (· ⊆ items) stop := by
    intro rest
    induction rest with
    | nil => exact fun kept _ inside => .ok inside
    | cons item rest ih =>
        intro kept later inside
        obtain ⟨member, later⟩ := List.cons_subset.mp later
        refine (htest item member).bind ?_
        intro holds _
        cases holds with
        | false => exact ih kept later inside
        | true => exact ih (item :: kept) later (List.cons_subset.mpr ⟨member, inside⟩)
  refine (walk items [] (List.Subset.refl _) (List.nil_subset _)).bind ?_
  intro kept inside
  exact .ok fun item member => inside (List.mem_reverse.mp member)

end Ends

/-! ## Parameters -/

namespace Parameter

variable {raw : Mapping}

/-! ### Normal form -/

/-- The normal form of a parameter with a given name, location and schema. -/
def formOf (raw : Mapping) (name : String) (location : Location) (schema : Option Mapping) :
    Parameter where
  name := name
  location := location
  required :=
    match raw.field "required" with
    | .bool required => required || location == .path
    | _ => location == .path
  description := (raw.field "description").text?
  schema := schema

theorem ofRaw_of_textKeys {name : String} {location : Location} {schema : Value}
    (texts : Validated.keyIssues (schema.object?.getD []) = []) :
    ofRaw raw name location schema = .ok (formOf raw name location schema.object?) := by
  unfold ofRaw
  dsimp only
  split
  · rfl
  · simp_all

/-- A lifted schema is made of entries of the parameter. -/
theorem origin_liftedSchema {schema : Mapping}
    (h : (Dialect.liftedSchema raw).object? = some schema) :
    ∀ entry ∈ schema, ∃ name, entry.1 = .text name ∧ raw.find? name = some entry.2 := by
  unfold Dialect.liftedSchema at h
  split at h
  · simp [Value.object?] at h
  · obtain rfl := Option.some.inj h
    intro entry member
    obtain ⟨name, _, found⟩ := List.mem_filterMap.mp member
    obtain ⟨value, written, rfl⟩ := Option.map_eq_some_iff.mp found
    exact ⟨name, rfl, written⟩

theorem textKeys_liftedSchema {schema : Mapping}
    (h : (Dialect.liftedSchema raw).object? = some schema) :
    ∀ entry ∈ schema, ∃ name, entry.1 = .text name :=
  fun entry member => (origin_liftedSchema h entry member).imp fun _ => And.left

/-- A parameter whose schema has texts as keys. -/
def TextKeyed (parameter : Parameter) : Prop :=
  ∀ schema, parameter.schema = some schema → (Value.object schema).isTextKeyed = true

/-- A raw parameter with a list or a mapping as its name or its location. -/
def Unlabelled (raw : Mapping) : Prop :=
  ∃ key ∈ ["name", "in"], (raw.field key).isCollection = true

theorem ends_labels (raw : Mapping) :
    Ends (labels raw) (fun _ => True) (Stops fun defect =>
      defect = .collectionParameterKey ∧ Unlabelled raw) := by
  have labelled (key : String) (absent : Label.ofValue? ((raw.find? key).getD (.text "")) = none) :
      (raw.field key).isCollection = true := by
    cases found : raw.find? key with
    | none => simp [found, Label.ofValue?, Key.ofValue?] at absent
    | some value =>
        cases value <;>
          simp_all [Mapping.field, Label.ofValue?, Key.ofValue?, Value.isCollection]
  refine ⟨fun _ => trivial, ?_⟩
  intro failure failed
  simp only [labels] at failed
  split at failed
  · simp at failed
  · rename_i incomplete
    obtain rfl := Except.error.inj failed
    refine .defect ⟨rfl, ?_⟩
    cases named : Label.ofValue? ((raw.find? "name").getD (.text "")) with
    | none => exact ⟨"name", by simp, labelled "name" named⟩
    | some name =>
        cases located : Label.ofValue? ((raw.find? "in").getD (.text "")) with
        | none => exact ⟨"in", by simp, labelled "in" located⟩
        | some location => exact (incomplete name location named located).elim

theorem ends_merge (shared own : List Mapping) :
    Ends (merge shared own) (· ⊆ shared ++ own) (Stops fun defect =>
      defect = .collectionParameterKey ∧ ∃ raw ∈ shared ++ own, Unlabelled raw) := by
  have labelled {raws : List Mapping} (inside : raws ⊆ shared ++ own) :
      ∀ raw ∈ raws, Ends (labels raw) (fun _ => True) (Stops fun defect =>
        defect = .collectionParameterKey ∧ ∃ raw ∈ shared ++ own, Unlabelled raw) := by
    intro raw member
    refine (ends_labels raw).widen ?_
    rintro defect ⟨rfl, unlabelled⟩
    exact ⟨rfl, raw, inside member, unlabelled⟩
  refine (Ends.mapM (labelled (List.subset_append_right _ _))).bind ?_
  intro taken _
  refine (Ends.filterM ?_).bind ?_
  · intro raw member
    refine (labelled (List.subset_append_left _ _) raw member).bind fun label _ => .ok trivial
  · intro kept inside
    refine .ok (List.append_subset.mpr ⟨?_, List.subset_append_right _ _⟩)
    exact List.Subset.trans inside (List.subset_append_left _ _)

end Parameter

namespace Dialect

open Value

variable {raw : Mapping}

theorem isTextKeyed_firstSchema {content : Mapping}
    (texts : (Value.object content).isTextKeyed = true) :
    (firstSchema content).isTextKeyed = true := by
  unfold firstSchema
  dsimp only
  generalize found : content.findSome? _ = result
  cases result with
  | none => rfl
  | some schema =>
      obtain ⟨entry, member, written⟩ := List.exists_of_findSome?_eq_some found
      split at written
      · rename_i own media
        obtain rfl := Option.some.inj written
        obtain ⟨entries, isObject, isSchema⟩ := Option.map_eq_some_iff.mp media
        have held := isTextKeyed_of_holds (.entry member) texts
        rw [eq_object_of_object? isObject] at held
        exact isSchema ▸ isTextKeyed_field held "schema"
      · simp at written

theorem isTextKeyed_liftedSchema (texts : (Value.object raw).isTextKeyed = true) :
    (liftedSchema raw).isTextKeyed = true := by
  cases lifted : (liftedSchema raw).object? with
  | none =>
      unfold liftedSchema at lifted ⊢
      split at lifted
      · rfl
      · simp [Value.object?] at lifted
  | some schema =>
      rw [eq_object_of_object? lifted, isTextKeyed_object_iff]
      intro entry member
      obtain ⟨name, isText, found⟩ := Parameter.origin_liftedSchema lifted entry member
      exact ⟨⟨name, isText⟩, isTextKeyed_of_holds (holds_find? found) texts⟩

theorem isTextKeyed_parameterSchema (texts : (Value.object raw).isTextKeyed = true)
    (dialect : Dialect) (location : Location) :
    (dialect.parameterSchema raw location).isTextKeyed = true := by
  unfold parameterSchema
  split
  · split
    · exact isTextKeyed_field texts "schema"
    · exact isTextKeyed_liftedSchema texts
  · split
    · rename_i content _ found
      exact isTextKeyed_firstSchema (found ▸ isTextKeyed_field texts "content")
    · exact isTextKeyed_field texts "schema"

/-- With texts as keys a raw parameter has a normal form or is left out. -/
theorem ends_normalize (texts : (Value.object raw).isTextKeyed = true) (dialect : Dialect)
    {stop : Failure → Prop} :
    Ends (dialect.normalize raw)
      (fun found => ∀ parameter, found = some parameter → parameter.TextKeyed) stop := by
  unfold normalize
  split
  · rename_i location name _ _
    have keyed := isTextKeyed_parameterSchema texts dialect location
    have issues : Validated.keyIssues
        ((dialect.parameterSchema raw location).object?.getD []) = [] := by
      refine Validated.keyIssues_eq_nil_iff.mpr ?_
      cases found : (dialect.parameterSchema raw location).object? with
      | none => simp
      | some schema =>
          rw [eq_object_of_object? found, isTextKeyed_object_iff] at keyed
          exact fun entry member => (keyed entry member).1
    rw [Parameter.ofRaw_of_textKeys issues]
    refine .ok ?_
    intro parameter same schema written
    obtain rfl := Option.some.inj same
    have written : (dialect.parameterSchema raw location).object? = some schema := written
    rwa [eq_object_of_object? written] at keyed
  · exact .ok (by simp)

theorem isTextKeyed_responseSchema? (texts : (Value.object raw).isTextKeyed = true)
    {dialect : Dialect} {schema : Value} (h : dialect.responseSchema? raw = some schema) :
    schema.isTextKeyed = true := by
  unfold responseSchema? at h
  split at h
  · split at h
    · simp at h
    · obtain rfl := Option.some.inj h
      exact isTextKeyed_field texts "schema"
  · split at h
    · rename_i media _ written
      have content := isTextKeyed_field texts "content"
      rw [written] at content
      have held : media.isTextKeyed = true :=
        isTextKeyed_of_holds (.entry List.mem_cons_self) content
      split at h
      · obtain rfl := Option.some.inj h
        rfl
      · obtain rfl := Option.some.inj h
        rfl
      · rename_i found
        obtain rfl := Option.some.inj h
        obtain ⟨entries, isObject, rfl⟩ := Option.map_eq_some_iff.mp found
        rw [eq_object_of_object? isObject] at held
        exact isTextKeyed_field held "schema"
    · simp at h

end Dialect

namespace Operation

open Value

variable {document operation : Mapping}

/-! ## Parameters of an operation -/

theorem ends_rawParameters (texts : (Value.object document).isTextKeyed = true) {parent : Mapping}
    (hparent : (Value.object parent).isTextKeyed = true) :
    Ends (rawParameters document parent)
      (fun raws => ∀ raw ∈ raws, (Value.object raw).isTextKeyed = true)
      (Stops fun defect => ∃ node ∈ (parent.field "parameters").list?.getD [],
        Pointer.Blocked (.object document) node defect) := by
  unfold rawParameters
  split
  · rename_i items listed
    have followed : ∀ node ∈ items, Ends (Pointer.follow (.object document) node)
        (fun value => value.isTextKeyed = true)
        (Stops fun defect => ∃ node ∈ (parent.field "parameters").list?.getD [],
          Pointer.Blocked (.object document) node defect) := by
      intro node member
      have hnode := isTextKeyed_of_holds (.item member) (listed ▸ isTextKeyed_field hparent _)
      refine (Pointer.ends_follow_of_texts texts hnode).widen ?_
      exact fun defect blocked => ⟨node, by simpa [listed, Value.list?] using member, blocked⟩
    refine (Ends.mapM followed).bind ?_
    intro targets keyed
    refine .ok ?_
    intro raw member
    obtain ⟨target, inside, isObject⟩ := List.mem_filterMap.mp member
    exact eq_object_of_object? isObject ▸ keyed target inside
  · exact .ok (by simp)

/-- What keeps the parameters from being found, apart from a reference that leads nowhere: a
blocked reference, or a parameter without a label. -/
inductive ParameterFlaw (document item operation : Mapping) : Defect → Prop where
  | reference {parent node defect} : parent ∈ [item, operation] →
      node ∈ (parent.field "parameters").list?.getD [] →
      Pointer.Blocked (.object document) node defect →
      ParameterFlaw document item operation defect
  | label {shared own raw} : rawParameters document item = .ok shared →
      rawParameters document operation = .ok own → raw ∈ shared ++ own →
      Parameter.Unlabelled raw → ParameterFlaw document item operation .collectionParameterKey

theorem ends_parameters (texts : (Value.object document).isTextKeyed = true) {item : Mapping}
    (hitem : (Value.object item).isTextKeyed = true)
    (hoperation : (Value.object operation).isTextKeyed = true) (dialect : Dialect) :
    Ends (parameters dialect document item operation)
      (fun normal => ∀ parameter ∈ normal, parameter.TextKeyed)
      (Stops (ParameterFlaw document item operation)) := by
  have raws {parent : Mapping} (either : parent ∈ [item, operation])
      (hparent : (Value.object parent).isTextKeyed = true) :
      Ends (rawParameters document parent) (fun raws => rawParameters document parent = .ok raws ∧
          ∀ raw ∈ raws, (Value.object raw).isTextKeyed = true)
        (Stops (ParameterFlaw document item operation)) := by
    refine (ends_rawParameters texts hparent).found.widen ?_
    rintro defect ⟨node, member, blocked⟩
    exact .reference either member blocked
  refine (raws (by simp) hitem).bind ?_
  rintro shared ⟨inItem, hshared⟩
  refine (raws (by simp) hoperation).bind ?_
  rintro own ⟨inOperation, hown⟩
  refine ((Parameter.ends_merge shared own).widen ?_).bind ?_
  · rintro defect ⟨rfl, raw, member, unlabelled⟩
    exact .label inItem inOperation member unlabelled
  intro merged inside
  have normalized : ∀ raw ∈ merged, Ends (dialect.normalize raw)
      (fun found => ∀ parameter, found = some parameter → parameter.TextKeyed)
      (Stops (ParameterFlaw document item operation)) := by
    intro raw member
    refine Dialect.ends_normalize ?_ dialect
    rcases List.mem_append.mp (inside member) with shared | own
    · exact hshared raw shared
    · exact hown raw own
  refine (Ends.mapM normalized).bind ?_
  intro normal keyed
  refine .ok ?_
  intro parameter member
  obtain ⟨found, listed, same⟩ := List.mem_filterMap.mp member
  exact keyed found listed parameter same

/-! ## The schema of the response -/

/-- What keeps the schema of the response from being found, apart from a reference that leads
nowhere: a status code that cannot be read, or a blocked reference. -/
inductive ResponseFlaw (options : Options) (document operation : Mapping) : Defect → Prop where
  | status {code} : code ∈ options.responseCodes → UnreadableCode code →
      ResponseFlaw options document operation .statusNotDecimal
  | reference {node defect} : node ∈ ((operation.field "responses").object?.getD []).map (·.2) →
      Pointer.Blocked (.object document) node defect →
      ResponseFlaw options document operation defect

theorem ends_selectedSchema (texts : (Value.object document).isTextKeyed = true)
    (hoperation : (Value.object operation).isTextKeyed = true) (dialect : Dialect)
    (options : Options) :
    Ends (selectedSchema dialect options document operation)
      (fun found => ∀ schema, found = some schema → schema.isTextKeyed = true)
      (Stops (ResponseFlaw options document operation)) := by
  unfold selectedSchema
  split
  · rename_i responses declared
    refine ((ends_selectResponse responses options.responseCodes).widen ?_).bind ?_
    · rintro defect ⟨rfl, code, member, unreadable⟩
      exact .status member unreadable
    · intro selected held
      cases selected with
      | none => exact .ok (by simp)
      | some entry =>
          have inside := held entry rfl
          have hresponses := declared ▸ isTextKeyed_field hoperation "responses"
          refine ((Pointer.ends_follow_of_texts texts
            (isTextKeyed_of_holds inside hresponses)).widen ?_).bind ?_
          · intro defect blocked
            refine .reference ?_ blocked
            cases inside with
            | entry member =>
                simpa [declared, Value.object?] using ⟨_, member⟩
          · intro value hvalue
            split
            · rename_i response
              exact .ok fun schema found => Dialect.isTextKeyed_responseSchema? hvalue found
            · exact .ok (by simp)
  · exact .ok (by simp)

end Operation

end ApiBinding
