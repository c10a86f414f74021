import ApiBinding.Proofs.Schema.Inheritance
import ApiBinding.Proofs.Synthesis.Printable
import ApiBinding.Proofs.Synthesis.Termination
import ApiBinding.Proofs.Synthesis.Alias

/-! What stops the typing of a schema other than a reference that leads nowhere. Among schemas
whose mappings have texts as keys it is one of a few flaws, in a schema that the typing comes to: an
enumeration without values, a composition whose parts are no list, or an integer that is too long in
what is written out. -/

namespace ApiBinding

open Relation Value

namespace Schema

variable {table : Table} {schema : Mapping}

/-! ## Text keys -/

theorem isTextKeyed_of_resolve (texts : (Value.object table.definitions).isTextKeyed = true)
    {ref : String} (h : table.resolve ref = .ok schema) :
    (Value.object schema).isTextKeyed = true := by
  obtain ⟨key, member⟩ := mem_of_resolve h
  exact isTextKeyed_of_holds (.entry member) texts

/-- The schemas that a schema is composed of have texts as keys, too. -/
theorem isTextKeyed_of_composes (texts : (Value.object table.definitions).isTextKeyed = true)
    (hschema : (Value.object schema).isTextKeyed = true) {owner : Mapping}
    (h : Composes table schema owner) : (Value.object owner).isTextKeyed = true := by
  have part {owner : Mapping} {members : List Mapping}
      (hown : (Value.object owner).isTextKeyed = true) (found : parts owner = .ok members)
      {part : Mapping} (member : part ∈ members) :
      (Value.object part).isTextKeyed = true := by
    obtain ⟨items, declared, inside⟩ := mem_of_parts found member
    exact isTextKeyed_of_holds (.item inside)
      (isTextKeyed_of_holds (holds_field declared (by simp)) hown)
  induction h with
  | self => exact hschema
  | part _ found member _ ih => exact part ih found member
  | target _ _ _ _ resolved _ => exact isTextKeyed_of_resolve texts resolved

/-- The properties that are gathered for a schema have texts as keys. -/
theorem ends_flatten_of_texts (texts : (Value.object table.definitions).isTextKeyed = true)
    (hschema : (Value.object schema).isTextKeyed = true) :
    Ends (flatten table schema)
      (fun flat => flatten table schema = .ok flat ∧
        (Value.object flat.properties).isTextKeyed = true)
      (Stops (Unreadable table schema)) := by
  refine (ends_flatten table schema).found.mono ?_ (fun _ => id)
  rintro flat ⟨flattened, inherits⟩
  refine ⟨flattened, isTextKeyed_object_iff.mpr ?_⟩
  intro entry member
  obtain ⟨owner, own, composes, declared, inside⟩ := inherits.owned entry member
  have hown := isTextKeyed_of_holds (holds_field declared (by simp))
    (isTextKeyed_of_composes texts hschema composes)
  exact isTextKeyed_object_iff.mp hown entry inside

end Schema

namespace Synthesis

open Schema

variable {scope : Scope}

/-! ## References -/

theorem ends_anyRecordShaped {table : Table}
    {walk : List String → Value → Except Failure (Bool × List String)} {cause : Defect → Prop}
    (hwalk : ∀ seen node, Ends (walk seen node) (fun _ => True) (Stops cause))
    (seen : List String) (parts : List Value) :
    Ends (anyRecordShaped table walk seen parts) (fun _ => True) (Stops cause) := by
  induction parts generalizing seen with
  | nil => exact .ok trivial
  | cons part rest ih =>
      have walked (seen : List String) (node : Value) :
          Ends (walk seen node >>= fun answer =>
              if answer.1 then .ok (true, answer.2) else anyRecordShaped table walk answer.2 rest)
            (fun _ => True) (Stops cause) := by
        refine (hwalk seen node).bind ?_
        rintro ⟨found, later⟩ -
        cases found with
        | true => exact .ok trivial
        | false => exact ih later
      simp only [anyRecordShaped]
      split
      · split
        · exact ih seen
        · exact (ends_resolve table _).bind fun target _ => walked _ (.object target)
      · exact walked seen part

theorem ends_recordShapedWithin (table : Table) (depth : Nat) (seen : List String) (node : Value) :
    Ends (recordShapedWithin table depth seen node) (fun _ => True)
      (Stops (· = .depthExhausted)) := by
  induction depth generalizing seen node with
  | zero => exact .error (.defect rfl)
  | succ depth ih =>
      simp only [recordShapedWithin, recordShapedStep]
      split
      · split
        · exact .ok trivial
        · split
          · exact .ok trivial
          · split
            · exact ends_anyRecordShaped ih seen _
            · exact .ok trivial
      · exact .ok trivial

/-- Only a fault keeps a schema from being recognised. -/
theorem ends_isRecordShaped (table : Table) (node : Value) {cause : Defect → Prop} :
    Ends (isRecordShaped table node) (fun _ => True) (Stops cause) := by
  refine ⟨fun _ => trivial, ?_⟩
  intro failure failed
  have walked : Ends (isRecordShaped table node) (fun _ => True) (Stops (· = .depthExhausted)) :=
    (ends_recordShapedWithin table _ [] node).map
  cases walked.stops failed with
  | fault cause => exact .fault cause
  | defect same =>
      obtain rfl := same
      exact ((isRecordShaped_settled table node (le_refl _)).reached failed).elim

/-- Only a fault keeps a reference from designating a definition. -/
theorem ends_definitionOf (scope : Scope) (ref : String) {cause : Defect → Prop} :
    Ends (definitionOf scope ref) (fun _ => True) (Stops cause) := by
  refine (ends_resolve scope.table ref).bind ?_
  intro schema _
  refine (ends_isRecordShaped scope.table _).bind ?_
  intro recordShaped _
  split
  · exact (ends_keyOf scope.table ref).bind fun key _ => .ok trivial
  · exact .ok trivial

/-! ## Flaws that a request meets -/

/-- What the answer to a request asks for in turn: the schemas written in a schema, the record
that a reference designates, and the fields of a record. -/
inductive Request.Asks (scope : Scope) : Request → Request → Prop where
  | written {node inner} : WrittenIn scope node inner → Asks scope (.type node) (.type inner)
  | record {node ref name schema} : RefersTo node ref →
      definitionOf scope ref = .ok (.record name schema) →
      Asks scope (.type node) (.declare name schema)
  | field {name schema flat field} : flatten scope.table schema = .ok flat →
      field ∈ typedNodes (fieldSteps name flat.properties) →
      Asks scope (.declare name schema) (.type field)

/-- Why a request cannot be answered by itself. -/
inductive Request.Flaw (scope : Scope) : Request → Defect → Prop where
  | shapeless {schema defect} : ShapelessRule schema defect →
      Flaw scope (.type (.object schema)) defect
  | unshown {node} : node.object? = none → node.HasLongInteger →
      Flaw scope (.type node) .integerTooLong
  | properties {name schema defect} : Unreadable scope.table schema defect →
      Flaw scope (.declare name schema) defect

/-- A request that comes, directly or through others, to one that cannot be answered. -/
def Request.Meets (scope : Scope) (request : Request) (defect : Defect) : Prop :=
  ∃ last, ReflTransGen (Request.Asks scope) request last ∧ last.Flaw scope defect

theorem Request.Flaw.meets {request : Request} {defect : Defect} (h : request.Flaw scope defect) :
    request.Meets scope defect :=
  ⟨request, .refl, h⟩

theorem Request.Meets.of_asks {request next : Request} {defect : Defect}
    (h : next.Meets scope defect) (asks : request.Asks scope next) :
    request.Meets scope defect := by
  obtain ⟨last, path, flaw⟩ := h
  exact ⟨last, .head asks path, flaw⟩

/-! ## Derivations -/

/-- A judgement under which a schema with texts as keys gets a type that has a text, or fails with
a fault or by a flaw that it meets. -/
def Judgement.Explained (scope : Scope) (typed : Judgement) : Prop :=
  ∀ ⦃session node result after events⦄, typed session node result after events →
    node.isTextKeyed = true →
    Ends result (·.isPrintable = true) (Stops ((Request.type node).Meets scope))

/-- Steps that refuse no type that has a text. -/
def Lenient (steps : List Step) : Prop :=
  ∀ node refusal, .type node refusal ∈ steps → ∀ type : TypeExpr, type.isPrintable = true →
    refusal type = none

theorem lenient_plainSteps (nodes : List Value) : Lenient (plainSteps nodes) := by
  intro node refusal member type _
  obtain ⟨_, _, same⟩ := List.mem_map.mp member
  obtain ⟨_, rfl⟩ := Step.type.inj same
  rfl

theorem lenient_propertySteps {warning : Key → Warning} {refusal : Key → TypeExpr → Option Failure}
    {properties : Mapping}
    (h : ∀ entry ∈ properties, ∀ type : TypeExpr, type.isPrintable = true →
      refusal entry.1 type = none) :
    Lenient (properties.map (propertyStep warning refusal)) := by
  intro node own member type printable
  obtain ⟨entry, inside, same⟩ := List.mem_map.mp member
  unfold propertyStep at same
  split at same
  · obtain ⟨_, rfl⟩ := Step.type.inj same
    exact h entry inside type printable
  · simp at same

theorem lenient_compose {session : Session} {node : Value} {composition : Composition}
    (work : workOf scope session node = .compose composition) : Lenient composition.steps := by
  obtain ⟨schema, found, -, -, rule⟩ := workOf_eq_compose work
  cases rule with
  | object properties requirement => exact lenient_propertySteps (by simp)
  | _ => exact lenient_plainSteps _

theorem lenient_fieldSteps {properties : Mapping}
    (texts : (Value.object properties).isTextKeyed = true) (owner : String) :
    Lenient (fieldSteps owner properties) := by
  refine lenient_propertySteps ?_
  intro entry member type printable
  obtain ⟨⟨name, isText⟩, -⟩ := isTextKeyed_object_iff.mp texts entry member
  simp [fieldRefusal, printable, isText]

theorem StepsDerivation.explained {typed : Judgement} (explained : typed.Explained scope)
    {session : Session} {steps : List Step} {result : Except Failure (List TypeExpr)}
    {after : Session} {events : List Event} (lenient : Lenient steps)
    (texts : ∀ node ∈ typedNodes steps, node.isTextKeyed = true)
    (derivation : StepsDerivation typed session steps result after events) :
    Ends result (fun types => ∀ type ∈ types, type.isPrintable = true)
      (Stops fun defect => ∃ node ∈ typedNodes steps, (Request.type node).Meets scope defect) := by
  induction derivation with
  | nil session => exact .ok (by simp)
  | skip _ ih => exact ih (fun node refusal member => lenient node refusal (by simp [member])) texts
  | stop typed =>
      have stopped := (explained typed (texts _ (by simp [typedNodes]))).stops rfl
      exact .error (stopped.mono fun defect met => ⟨_, by simp [typedNodes], met⟩)
  | refuse typed refused =>
      have printable := (explained typed (texts _ (by simp [typedNodes]))).holds rfl
      simp [lenient _ _ List.mem_cons_self _ printable] at refused
  | next typed _ _ ih =>
      have printable := (explained typed (texts _ (by simp [typedNodes]))).holds rfl
      have rest := ih (fun node refusal member => lenient node refusal (by simp [member]))
        (fun node member => texts node (by simp [typedNodes, member]))
      refine Ends.map (rest.mono ?_ ?_)
      · intro types others
        simpa using ⟨printable, others⟩
      · intro failure stopped
        refine stopped.mono ?_
        rintro defect ⟨node, member, met⟩
        exact ⟨node, by simp [typedNodes, member], met⟩

/-- The fields of a record have texts as keys. -/
theorem isTextKeyed_of_fieldSteps {name : String} {properties : Mapping}
    (texts : (Value.object properties).isTextKeyed = true) {node : Value}
    (member : node ∈ typedNodes (fieldSteps name properties)) : node.isTextKeyed = true := by
  rw [fieldSteps, typedNodes_propertySteps] at member
  obtain ⟨entry, hentry, rfl⟩ := List.mem_map.mp (List.mem_filter.mp member).1
  exact (isTextKeyed_object_iff.mp texts entry hentry).2

variable (texts : (Value.object scope.table.definitions).isTextKeyed = true)

include texts

theorem RecordDerivation.explained {typed : Judgement} (explained : typed.Explained scope)
    {result : Except Failure TypeExpr} {session : Session} {name : String} {schema : Mapping}
    {after : Session} {events : List Event} (hschema : (Value.object schema).isTextKeyed = true)
    (derivation : RecordDerivation scope typed result session name schema after events) :
    Ends result (·.isPrintable = true) (Stops ((Request.declare name schema).Meets scope)) := by
  have flattening := ends_flatten_of_texts texts hschema
  cases derivation with
  | taken _ => exact .ok rfl
  | unreadable _ unreadable =>
      refine .error ((flattening.stops unreadable).mono ?_)
      exact fun defect found => (Request.Flaw.properties found).meets
  | broken _ flattened steps =>
      have properties := (flattening.holds flattened).2
      have fields := steps.explained explained (lenient_fieldSteps properties name)
        (fun node member => isTextKeyed_of_fieldSteps properties member)
      refine .error ((fields.stops rfl).mono ?_)
      rintro defect ⟨node, member, met⟩
      exact met.of_asks (.field flattened member)
  | stored _ _ _ => exact .ok rfl

/-- A schema with texts as keys gets a type that has a text, or the typing fails with a fault or by
a flaw that it meets. -/
theorem TypeDerivation.explained : Judgement.Explained scope (TypeDerivation scope) := by
  intro session node result after events derivation hnode
  induction derivation using TypeDerivation.induct with
  | done work =>
      cases workOf_eq_done work with
      | missing => exact .ok rfl
      | copied _ => exact .ok rfl
      | unshown plain long => exact .error (.defect (Request.Flaw.unshown plain long).meets)
      | malformed shaped =>
          obtain ⟨defect, rfl, shapeless⟩ := shapelessRule_of_shape shaped
          exact .error (.defect (Request.Flaw.shapeless shapeless).meets)
      | leaf shaped => exact .ok (isPrintable_of_shape shaped)
      | notText schema target => exact .error (.fault _)
      | named _ _ => exact .ok rfl
      | unknown _ unknown => exact .error ((ends_definitionOf scope _).stops unknown)
      | reentered _ _ _ => exact .ok rfl
  | compose work steps =>
      obtain ⟨schema, found, rfl, shaped, nodes⟩ := nodes_of_compose work
      have parts := steps.explained (fun _ _ _ _ _ both => both.choose_spec) (lenient_compose work)
        (fun part member => isTextKeyed_of_shape hnode shaped (nodes member))
      refine Ends.map (parts.mono ?_ ?_)
      · exact fun types printable => isPrintable_build work hnode printable
      · intro failure stopped
        refine stopped.mono ?_
        rintro defect ⟨part, member, met⟩
        exact met.of_asks (.written (.inl ⟨_, workOf_compose_eq work .empty, member⟩))
  | declare work record =>
      obtain ⟨refers, _, defined⟩ := workOf_eq_declare work
      have target := isTextKeyed_of_resolve texts (resolve_of_definition (.inr ⟨_, defined⟩))
      have fields := record.explained texts (fun _ _ _ _ _ both => both.choose_spec) target
      refine fields.widen ?_
      exact fun defect met => met.of_asks (.record refers defined)
  | expand work _ ih =>
      obtain ⟨refers, _, defined, _⟩ := workOf_eq_expand work
      have target := isTextKeyed_of_resolve texts (resolve_of_definition (.inl defined))
      refine (ih target).widen ?_
      exact fun defect met => met.of_asks (.written (.inr ⟨_, _, refers, defined, rfl⟩))

end Synthesis

end ApiBinding
