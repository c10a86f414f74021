import ApiBinding.Proofs.Operation.Files
import ApiBinding.Proofs.Operation.Inputs
import ApiBinding.Proofs.Synthesis.Flaw

/-! How the parts of an operation end, in a document whose mappings have texts as keys: with a
result, with a fault, or with a defect of a schema that they ask for or of a list of files. -/

namespace ApiBinding

namespace Synthesis

open Schema

variable {α β : Type} {cause : Defect → Prop} {post : α → Prop} {post' : β → Prop}

/-! ## Endings of steps -/

/-- In every session a step returns a result with a property, fails with a fault, or fails with a
defect that has a cause. -/
def Ending (step : Synthesis α) (post : α → Prop) (cause : Defect → Prop) : Prop :=
  ∀ session, Ends (outcome step session).1 post (Stops cause)

theorem ending_pure {value : α} (h : post value) : Ending (pure value) post cause :=
  fun _ => .ok h

theorem ending_lift {result : Except Failure α} (h : Ends result post (Stops cause)) :
    Ending (lift result) post cause :=
  fun _ => h

theorem ending_warn (warning : Warning) : Ending (warn warning) (fun _ => True) cause :=
  fun _ => .ok trivial

theorem Ending.bind {step : Synthesis α} {next : α → Synthesis β} (h : Ending step post cause)
    (hnext : ∀ value, post value → Ending (next value) post' cause) :
    Ending (step >>= next) post' cause := by
  intro session
  have first := h session
  rw [outcome_bind]
  generalize outcome step session = found at first
  obtain ⟨result, after⟩ := found
  cases result with
  | error failure => exact .error (first.stops rfl)
  | ok value => exact hnext value (first.holds rfl) after

theorem Ending.widen {step : Synthesis α} {cause' : Defect → Prop} (h : Ending step post cause)
    (hcause : ∀ defect, cause defect → cause' defect) : Ending step post cause' :=
  fun session => (h session).widen hcause

/-! ## Requests -/

def Request.isTextKeyed : Request → Bool
  | .type node => node.isTextKeyed
  | .declare _ schema => (Value.object schema).isTextKeyed

variable {scope : Scope} (texts : (Value.object scope.table.definitions).isTextKeyed = true)

include texts

theorem ending_request {request : Request} (hrequest : request.isTextKeyed = true) :
    Ending (request.perform scope) (·.isPrintable = true) (request.Meets scope) := by
  intro session
  obtain ⟨events, derivation⟩ :=
    request.performWithin_derivation scope session (le_refl (request.bound scope.table))
  rw [← request.perform_eq] at derivation
  cases derivation with
  | type typed => exact TypeDerivation.explained texts typed hrequest
  | declare record => exact record.explained texts (TypeDerivation.explained texts) hrequest

/-- With texts as keys every type that is found has a text. -/
theorem ending_printedType {node : Value} (hnode : node.isTextKeyed = true) :
    Ending (printedType scope node) (fun _ => True) ((Request.type node).Meets scope) := by
  have keyed : (Request.type node).isTextKeyed = true := hnode
  refine (ending_request texts keyed).bind ?_
  intro type printable
  rw [if_pos printable]
  exact ending_pure trivial

theorem ending_declareRecord (name : String) {schema : Mapping}
    (hschema : (Value.object schema).isTextKeyed = true) :
    Ending (declareRecord scope name schema) (fun _ => True)
      ((Request.declare name schema).Meets scope) := by
  have keyed : (Request.declare name schema).isTextKeyed = true := hschema
  exact fun session => (ending_request texts keyed session).mono (fun _ _ => trivial) fun _ => id

end Synthesis

/-! ## Marks -/

namespace FileField

variable {schema : Mapping}

/-- A property whose name is a text is scanned for files without failure. -/
theorem ends_ofProperty? (name : String) (property : Value) {stop : Failure → Prop} :
    Ends (ofProperty? (.text name) property)
      (fun file => ofProperty? (.text name) property = .ok file) stop := by
  refine ⟨id, ?_⟩
  intro failure failed
  cases several : multiplicity? property <;> simp [ofProperty?, several] at failed

/-- What keeps several files from being marked in a property. -/
inductive ItemsFlaw (property : Mapping) : Defect → Prop where
  | missing : property.find? "items" = none → ItemsFlaw property .itemsMissing
  | notMapping {items} : property.find? "items" = some items → items.object? = none →
      ItemsFlaw property .itemsNotMapping

/-- Marks keep the items of a property or leave a mapping in their place. -/
structure MarkedFrom (schema marked : Mapping) : Prop where
  texts : (Value.object schema).isTextKeyed = true → (Value.object marked).isTextKeyed = true
  items : marked.find? "items" = schema.find? "items" ∨
    ∃ items, marked.find? "items" = some (.object items)

theorem ends_mark (schema : Mapping) (multiple : Bool) :
    Ends (mark schema multiple) (MarkedFrom schema)
      (Stops fun defect => multiple = true ∧ ItemsFlaw schema defect) := by
  have texts (name : String) {value : Value} (hvalue : value.isTextKeyed = true) :
      (Value.object schema).isTextKeyed = true →
        (Value.object (schema.insert (.text name) value)).isTextKeyed = true :=
    fun keyed => Value.isTextKeyed_insert keyed name hvalue
  unfold mark
  split
  · rename_i several
    split
    · rename_i missing
      exact .error (.defect ⟨several, .missing missing⟩)
    · rename_i items found
      refine .ok ⟨?_, .inr ⟨_, Mapping.find?_insert_self _ _ _⟩⟩
      intro keyed
      have inner := Value.isTextKeyed_of_holds (Value.holds_find? found) keyed
      exact texts "items" (Value.isTextKeyed_insert inner "type" rfl) keyed
    · rename_i items noMapping found
      refine .error (.defect ⟨several, .notMapping found ?_⟩)
      cases items <;> simp_all [Value.object?]
  · exact .ok ⟨texts "type" rfl, .inl (Mapping.find?_insert_of_ne _ _ (by decide))⟩

theorem MarkedFrom.refl (schema : Mapping) : MarkedFrom schema schema :=
  ⟨id, .inl rfl⟩

theorem MarkedFrom.trans {middle marked : Mapping} (h : MarkedFrom schema middle)
    (h' : MarkedFrom middle marked) : MarkedFrom schema marked := by
  refine ⟨h'.texts ∘ h.texts, ?_⟩
  rcases h'.items with same | mapping
  · rw [same]
    exact h.items
  · exact .inr mapping

/-- Items that are a mapping have no flaw. -/
theorem not_itemsFlaw {items : Mapping} (found : schema.find? "items" = some (.object items))
    {defect : Defect} : ¬ ItemsFlaw schema defect := by
  intro flaw
  cases flaw with
  | missing missing => simp [found] at missing
  | notMapping other noMapping =>
      obtain rfl := Option.some.inj (found.symm.trans other)
      simp [Value.object?] at noMapping

/-- A mark does not bring in a flaw of the items. -/
theorem ItemsFlaw.of_marked {marked : Mapping} {defect : Defect} (flaw : ItemsFlaw marked defect)
    (h : MarkedFrom schema marked) : ItemsFlaw schema defect := by
  rcases h.items with same | ⟨mapping, found⟩
  · cases flaw with
    | missing missing => exact .missing (same ▸ missing)
    | notMapping found noMapping => exact .notMapping (same ▸ found) noMapping
  · exact (not_itemsFlaw found flaw).elim

/-- The items of a property that takes several files can be marked. -/
theorem not_itemsFlaw_of_multiplicity {defect : Defect}
    (several : multiplicity? (.object schema) = some true) : ¬ ItemsFlaw schema defect := by
  obtain ⟨-, items, declared⟩ := list_of_multiplicity? several
  exact not_itemsFlaw (Mapping.find?_of_field declared (by simp))

/-- A property that takes several of the files cannot be marked. -/
def Unmarkable (properties : Mapping) (files : List FileField) (defect : Defect) : Prop :=
  ∃ file ∈ files, file.multiple = true ∧ ∃ property,
    properties.find? file.name = some (.object property) ∧ ItemsFlaw property defect

/-- The invariant of the fold: each property so far is marked from the original one of its name. -/
theorem ends_markAll {properties : Mapping}
    (texts : (Value.object properties).isTextKeyed = true) (files : List FileField) :
    Ends (markAll properties files) (fun marked => (Value.object marked).isTextKeyed = true)
      (Stops (Unmarkable properties files)) := by
  let kept (marked : Mapping) : Prop := (Value.object marked).isTextKeyed = true ∧
    ∀ name property, marked.find? name = some (.object property) →
      ∃ own, properties.find? name = some (.object own) ∧ MarkedFrom own property
  have start : kept properties := ⟨texts, fun name property found => ⟨property, found, .refl _⟩⟩
  refine Ends.mono (@Ends.foldlM _ _ kept _ _ _ ?_ _ start) (fun marked h => h.1) (fun _ => id)
  rintro marked ⟨keyed, origins⟩ file member
  split
  · rename_i property found
    obtain ⟨own, declared, marks⟩ := origins _ _ found
    refine ((ends_mark property file.multiple).widen ?_).bind ?_
    · rintro defect ⟨several, flaw⟩
      exact ⟨file, member, several, own, declared, flaw.of_marked marks⟩
    · intro copy copied
      refine .ok ⟨Value.isTextKeyed_insert keyed _ ?_, ?_⟩
      · exact copied.texts (Value.isTextKeyed_of_holds (Value.holds_find? found) keyed)
      · intro name other held
        by_cases same : file.name = name
        · subst same
          rw [Mapping.find?_insert_self] at held
          obtain rfl := Value.object.inj (Option.some.inj held)
          exact ⟨own, declared, marks.trans copied⟩
        · rw [Mapping.find?_insert_of_ne _ _ same] at held
          exact origins name other held
  · exact .ok ⟨keyed, origins⟩

end FileField

namespace Operation

open Synthesis Schema Value FileField

variable {scope : Scope} {table : Table}

/-! ## Groups of parameters -/

/-- The type of a parameter in a list meets a flaw. -/
def GroupMeets (scope : Scope) (parameters : List Parameter) (defect : Defect) : Prop :=
  ∃ parameter ∈ parameters, ∃ schema, parameter.schema = some schema ∧
    (Request.type (.object schema)).Meets scope defect

section

variable (texts : (Value.object scope.table.definitions).isTextKeyed = true)

include texts

theorem ending_parameterField (owner : String) {parameter : Parameter}
    (hparameter : parameter.TextKeyed) :
    Ending (parameterField scope owner parameter) (fun _ => True)
      (GroupMeets scope [parameter]) := by
  unfold parameterField
  split
  · rename_i schema written
    split
    · have typed := ending_printedType texts (hparameter schema written)
      refine (typed.widen ?_).bind fun type _ => ending_pure trivial
      exact fun defect met => ⟨parameter, by simp, schema, written, met⟩
    · exact (ending_warn _).bind fun _ _ => ending_pure trivial
  · exact (ending_warn _).bind fun _ _ => ending_pure trivial

theorem ending_parameterFields (owner : String) {parameters : List Parameter}
    (hparameters : ∀ parameter ∈ parameters, parameter.TextKeyed) :
    Ending (parameterFields scope owner parameters) (fun _ => True)
      (GroupMeets scope parameters) := by
  induction parameters with
  | nil => exact ending_pure trivial
  | cons parameter rest ih =>
      have first := ending_parameterField texts owner (hparameters parameter (by simp))
      have others := ih fun other member => hparameters other (by simp [member])
      refine (first.widen ?_).bind fun field _ =>
        (others.widen ?_).bind fun fields _ => ending_pure trivial
      · rintro defect ⟨other, member, met⟩
        obtain rfl := List.mem_singleton.mp member
        exact ⟨other, by simp, met⟩
      · rintro defect ⟨other, member, met⟩
        exact ⟨other, by simp [member], met⟩

theorem ending_groupRecord (name : String) {parameters : List Parameter}
    (hparameters : ∀ parameter ∈ parameters, parameter.TextKeyed) :
    Ending (groupRecord scope name parameters) (fun _ => True) (GroupMeets scope parameters) := by
  refine (ending_parameterFields texts name hparameters).bind ?_
  intro fields _
  split
  · exact ending_pure trivial
  · intro session
    have kept := outcome_keep ⟨name, none, fields, scope.placement⟩ session
    exact kept ▸ .ok trivial

end

/-! ## Files -/

/-- The schema of which the files of a form are taken: what it refers to, or itself. -/
def formTarget (table : Table) (schema : Mapping) : Except Failure Mapping :=
  match schema.field "$ref" with
  | .text ref => table.resolve ref
  | _ => .ok schema

theorem fileFields_object (table : Table) (entries : Mapping) :
    fileFields table (.object entries) = (do
      let target ← formTarget table entries
      let flat ← flatten table target
      let found ← flat.properties.mapM fun (name, property) => FileField.ofProperty? name property
      .ok (found.filterMap id)) := by
  rw [fileFields, formTarget]
  cases Mapping.field entries "$ref" <;> rfl

/-- The files of a form cannot be told, for want of its properties. -/
inductive Untold (table : Table) : Value → Defect → Prop where
  | properties {schema target defect} : formTarget table schema = .ok target →
      Unreadable table target defect → Untold table (.object schema) defect

theorem ends_fileFields (texts : (Value.object table.definitions).isTextKeyed = true)
    {schema : Value} (hschema : schema.isTextKeyed = true) :
    Ends (fileFields table schema) (fun files => fileFields table schema = .ok files)
      (Stops (Untold table schema)) := by
  suffices h : Ends (fileFields table schema) (fun _ => True) (Stops (Untold table schema)) from
    ⟨id, h.stops⟩
  cases schema with
  | object entries =>
      have aimed : Ends (formTarget table entries)
          (fun target => formTarget table entries = .ok target ∧
            (Value.object target).isTextKeyed = true) (Stops (Untold table (.object entries))) := by
        unfold formTarget
        split
        · rename_i ref _
          refine (ends_resolve table ref).mono ?_ (fun _ => id)
          exact fun target resolved => ⟨resolved, isTextKeyed_of_resolve texts resolved⟩
        · exact .ok ⟨rfl, hschema⟩
      rw [fileFields_object]
      refine aimed.bind ?_
      rintro target ⟨found, keyed⟩
      refine ((ends_flatten_of_texts texts keyed).widen ?_).bind ?_
      · exact fun defect unreadable => .properties found unreadable
      · rintro flat ⟨-, properties⟩
        have scanned : ∀ entry ∈ flat.properties,
            Ends (FileField.ofProperty? entry.1 entry.2) (fun _ => True)
              (Stops (Untold table (.object entries))) := by
          rintro ⟨name, property⟩ member
          obtain ⟨⟨text, isText⟩, -⟩ := isTextKeyed_object_iff.mp properties _ member
          obtain rfl : name = .text text := isText
          exact (ends_ofProperty? text property).mono (fun _ _ => trivial) fun _ => id
        exact (Ends.mapM scanned).bind fun found _ => .ok trivial
  | _ => exact .ok trivial

/-! ## Bodies -/

theorem ends_markFiles {entries : Mapping} (hentries : (Value.object entries).isTextKeyed = true)
    (files : List FileField) :
    Ends (markFiles entries files)
      (fun marked => markFiles entries files = .ok marked ∧
        (Value.object marked).isTextKeyed = true)
      (Stops fun defect => ∃ own, entries.field "properties" = .object own ∧
        Unmarkable own files defect) := by
  refine Ends.found ?_
  unfold markFiles
  split
  · rename_i first rest own declared
    have hown := isTextKeyed_of_holds (holds_field declared (by simp)) hentries
    refine ((ends_markAll hown (first :: rest)).widen ?_).bind ?_
    · exact fun defect unmarkable => ⟨own, declared, unmarkable⟩
    · exact fun marked keyed => .ok (isTextKeyed_insert hentries _ keyed)
  · exact .ok hentries

theorem eq_object_of_inline {schema : Value} {entries : Mapping}
    (inline : inlineObject? schema = some entries) : schema = .object entries :=
  eq_object_of_object? (Option.filter_eq_some_iff.mp inline).1

theorem isTextKeyed_mediaSchema {media : Value} (hmedia : media.isTextKeyed = true) :
    (mediaSchema media).isTextKeyed = true := by
  cases media with
  | object entries => exact isTextKeyed_field hmedia "schema"
  | _ => rfl

/-- The files that are looked for in the schema of a body. -/
def bodyFiles (table : Table) (mediaType : String) (schema : Value) :
    Except Failure (List FileField) :=
  if isMultipart mediaType then fileFields table schema else .ok []

/-- What keeps a body from being typed, apart from a reference that leads nowhere. -/
inductive BodyFlaw (scope : Scope) (stem mediaType : String) (schema : Value) : Defect → Prop where
  | files {defect} : isMultipart mediaType = true → Untold scope.table schema defect →
      BodyFlaw scope stem mediaType schema defect
  | marks {entries own files defect} : inlineObject? schema = some entries →
      bodyFiles scope.table mediaType schema = .ok files →
      entries.field "properties" = .object own → Unmarkable own files defect →
      BodyFlaw scope stem mediaType schema defect
  | record {entries files marked defect} : inlineObject? schema = some entries →
      bodyFiles scope.table mediaType schema = .ok files → markFiles entries files = .ok marked →
      (Request.declare (stem ++ "Body") marked).Meets scope defect →
      BodyFlaw scope stem mediaType schema defect
  | type {defect} : inlineObject? schema = none → (Request.type schema).Meets scope defect →
      BodyFlaw scope stem mediaType schema defect

section

variable (texts : (Value.object scope.table.definitions).isTextKeyed = true)
  {stem mediaType : String} {files : List FileField}

include texts

theorem ending_recordBody {entries : Mapping}
    (hentries : (Value.object entries).isTextKeyed = true)
    (inline : inlineObject? (.object entries) = some entries)
    (found : bodyFiles scope.table mediaType (.object entries) = .ok files) (isForm : Bool) :
    Ending
      (do
        let marked ← Synthesis.lift (markFiles entries files)
        let type ← declareRecord scope (stem ++ "Body") marked
        pure (Body.mk (some type) isForm files))
      (fun _ => True) (BodyFlaw scope stem mediaType (.object entries)) := by
  refine (ending_lift ((ends_markFiles hentries files).widen ?_)).bind ?_
  · rintro defect ⟨own, declared, unmarkable⟩
    exact .marks inline found declared unmarkable
  · rintro marked ⟨marks, keyed⟩
    refine ((ending_declareRecord texts _ keyed).widen ?_).bind fun type _ => ending_pure trivial
    exact fun defect met => .record inline found marks met

theorem ending_typedBody {schema : Value} (hschema : schema.isTextKeyed = true)
    (foreign : inlineObject? schema = none) (isForm : Bool) :
    Ending
      (do
        let type ← printedType scope schema
        pure (Body.mk (some type) isForm files))
      (fun _ => True) (BodyFlaw scope stem mediaType schema) := by
  refine ((ending_printedType texts hschema).widen ?_).bind fun type _ => ending_pure trivial
  exact fun defect met => .type foreign met

theorem ending_bodyOfSchema (stem mediaType : String) {schema : Value}
    (hschema : schema.isTextKeyed = true) :
    Ending (bodyOfSchema scope stem mediaType schema) (fun _ => True)
      (BodyFlaw scope stem mediaType schema) := by
  unfold bodyOfSchema
  dsimp only
  split
  · rename_i multipart
    refine (ending_lift ((ends_fileFields texts hschema).widen ?_)).bind ?_
    · exact fun defect untold => .files multipart untold
    intro files scanned
    have found : bodyFiles scope.table mediaType schema = .ok files :=
      (if_pos multipart).trans scanned
    split
    · rename_i entries inline
      obtain rfl := eq_object_of_inline inline
      exact ending_recordBody texts hschema inline found _
    · rename_i foreign
      exact ending_typedBody texts hschema foreign _
  · rename_i single
    have found : bodyFiles scope.table mediaType schema = .ok [] := if_neg single
    split
    · rename_i entries inline
      obtain rfl := eq_object_of_inline inline
      exact ending_recordBody texts hschema inline found _
    · rename_i foreign
      exact ending_typedBody texts hschema foreign _

end

end Operation

end ApiBinding
