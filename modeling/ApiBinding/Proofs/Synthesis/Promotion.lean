import ApiBinding.Proofs.Schema.Inheritance
import ApiBinding.Proofs.Synthesis.Rendering
import ApiBinding.Proofs.Synthesis.Simulation

/-! An object that is written in place and the record that is made of it agree: the members of the
one are the fields of the other. The two are typed by loops of their own, which leave different
warnings behind; so typing is shown first to read no warnings. -/

namespace ApiBinding

/-! ## Sessions that differ in their warnings -/

namespace Session.SameState

variable {session session' : Session}

theorem warn (same : session.SameState session') (warning warning' : Warning) :
    (session.warn warning).SameState (session'.warn warning') :=
  ⟨same.names, same.inlining, same.catalog⟩

theorem register (same : session.SameState session') (ref name : String) :
    (session.register ref name).SameState (session'.register ref name) :=
  ⟨congrArg (Session.assign ref name) same.names, same.inlining, same.catalog⟩

theorem reserve (same : session.SameState session') (name : String) :
    (session.reserve name).SameState (session'.reserve name) :=
  ⟨same.names, same.inlining, congrArg (fun catalog => (catalog.reserve name).2) same.catalog⟩

theorem store (same : session.SameState session') (record : Record TypeExpr) :
    (session.store record).SameState (session'.store record) :=
  ⟨same.names, same.inlining, congrArg (fun catalog => (catalog.add record).2) same.catalog⟩

theorem openInline (same : session.SameState session') (ref : String) :
    (session.openInline ref).SameState (session'.openInline ref) :=
  ⟨same.names, congrArg (ref :: ·) same.inlining, same.catalog⟩

theorem endInline (same : session.SameState session') (ref : String) :
    (session.endInline ref).SameState (session'.endInline ref) :=
  ⟨same.names, congrArg (List.filter (· != ref)) same.inlining, same.catalog⟩

end Session.SameState

namespace Synthesis

open ApiBinding.Schema

variable {scope : Scope}

/-! ## Typing reads no warnings -/

theorem workOf_sameState {session session' : Session} (same : session.SameState session')
    (scope : Scope) (node : Value) : workOf scope session' node = workOf scope session node := by
  rcases refersTo_or_workOf_eq scope node with ⟨ref, refers⟩ | independent
  · simp only [workOf_of_refersTo refers, referenceWork, same.nameOf?, same.inlining]
  · exact independent _ _

theorem isSimulation_sameState : Session.IsSimulation Session.SameState :=
  ⟨fun same => same.catalog, fun warning same => same.warn warning warning,
    fun name same => same.reserve name, fun record same => same.store record⟩

theorem TypeDerivation.sameState {session session' after : Session} {node : Value}
    {result : Except Failure TypeExpr} {events : List Event}
    (derivation : TypeDerivation scope session node result after events)
    (same : session.SameState session') :
    ∃ after', TypeDerivation scope session' node result after' events ∧
      after.SameState after' := by
  induction derivation using TypeDerivation.induct generalizing session' with
  | done work =>
      rw [← workOf_sameState same] at work
      exact ⟨session', .done work, same⟩
  | compose work steps =>
      rw [← workOf_sameState same] at work
      obtain ⟨after', steps', same'⟩ :=
        steps.simulate isSimulation_sameState (fun _ _ _ _ _ _ both => both.choose_spec) same
      exact ⟨after', .compose work steps', same'⟩
  | declare work record =>
      rw [← workOf_sameState same] at work
      obtain ⟨after', record', same'⟩ :=
        record.simulate isSimulation_sameState (fun _ _ _ _ _ _ both => both.choose_spec)
          (same.register _ _)
      exact ⟨after', .declare work record', same'⟩
  | expand work _ ih =>
      rw [← workOf_sameState same] at work
      obtain ⟨after', inner, same'⟩ := ih (same.openInline _)
      exact ⟨_, .expand work inner, same'.endInline _⟩

/-- What a node is typed as does not depend on the warnings. -/
theorem typeOf_sameState {session session' : Session} (same : session.SameState session')
    (node : Value) :
    ∃ after', outcome (typeOf scope node) session' =
        ((outcome (typeOf scope node) session).1, after') ∧
      (outcome (typeOf scope node) session).2.SameState after' := by
  obtain ⟨_, derivation⟩ := typeOf_derivation scope session node (le_refl _)
  obtain ⟨after', derivation', same'⟩ := derivation.sameState same
  exact ⟨after', derivation'.outcome_eq, same'⟩

/-! ## Objects that are written in place -/

/-- The type of an object with the given members. -/
def structOf : List (Member TypeExpr) → TypeExpr
  | [] => .object
  | members => .struct members

theorem StepsDerivation.outcome {session after : Session} {steps : List Step}
    {result : Except Failure (List TypeExpr)} {events : List Event}
    (derivation : StepsDerivation (TypeDerivation scope) session steps result after events) :
    outcome (typeAll (typeOf scope) steps) session = (result, after) := by
  obtain ⟨_, usual⟩ := typeAll_derivation fun node (_ : node ∈ typedNodes steps) =>
    follows_typeOf scope session node
  obtain ⟨same, left, -⟩ := usual.deterministic
    (fun _ _ _ _ _ _ _ _ typed typed' => typed.deterministic typed') derivation
  exact Prod.ext same left

/-- The properties of an object that is written in place are typed like any other node. -/
theorem outcome_typeOf_object {schema properties : Mapping} {requirement : Requirement}
    (shaped : shape schema = .ok (.object properties requirement)) (session : Session) :
    outcome (typeOf scope (.object schema)) session =
      mapResult structOf
        (outcome (membersWith (typeOf scope) requirement properties) session) := by
  have work : workOf scope session (.object schema) =
      .compose ⟨memberSteps properties, objectOf requirement properties⟩ := by
    simp [workOf, shaped, shapeWork]
  obtain ⟨_, derivation⟩ := typeOf_derivation scope session (.object schema) (le_refl _)
  change TypeDerivation scope session _ (outcome (typeOf scope (.object schema)) session).1
    (outcome (typeOf scope (.object schema)) session).2 _ at derivation
  generalize outcome (typeOf scope (.object schema)) session = found at derivation ⊢
  obtain ⟨result, after⟩ := found
  cases derivation with
  | done work' => simp [work] at work'
  | declare work' _ => simp [work] at work'
  | expand work' _ => simp [work] at work'
  | compose work' steps =>
      obtain rfl := Work.compose.inj (work.symm.trans work')
      rw [outcome_membersWith, steps.outcome, mapResult_mapResult]
      rfl

/-! ## Members and fields -/

/-- What comes of fields that are typed in place of members. They are made where the members are
and all have a text, with the same changes to the state; a failure is the same one after the same
changes, unless a type before it has no text. -/
inductive Promotes {α β : Type} (printable : α → Prop) (agrees : α → β → Prop) :
    Except Failure α × Session → Except Failure β × Session → Prop where
  | made {value value' after after'} : printable value → agrees value value' →
      after.SameState after' →
      Promotes printable agrees (.ok value, after) (.ok value', after')
  | unprintable {value after after'} : ¬ printable value →
      Promotes printable agrees (.ok value, after) (.error (.defect .memberNameNotText), after')
  | failed {failure after after'} : after.SameState after' →
      Promotes printable agrees (.error failure, after) (.error failure, after')
  | refused {failure after after'} :
      Promotes printable agrees (.error failure, after)
        (.error (.defect .memberNameNotText), after')

theorem Promotes.map {α β γ δ : Type} {printable : α → Prop} {agrees : α → β → Prop}
    {printable' : γ → Prop} {agrees' : γ → δ → Prop} {f : α → γ} {g : β → δ}
    {inline : Except Failure α × Session} {promoted : Except Failure β × Session}
    (h : Promotes printable agrees inline promoted)
    (hprintable : ∀ value, printable' (f value) ↔ printable value)
    (hagrees : ∀ value value', agrees value value' → agrees' (f value) (g value')) :
    Promotes printable' agrees' (mapResult f inline) (mapResult g promoted) := by
  cases h with
  | made printable agrees same =>
      exact .made ((hprintable _).mpr printable) (hagrees _ _ agrees) same
  | unprintable unprintable => exact .unprintable (mt (hprintable _).mp unprintable)
  | failed same => exact .failed same
  | refused => exact .refused

/-- A member and a field that say the same. -/
structure MemberAgrees (member : Member TypeExpr) (field : Field TypeExpr) : Prop where
  name : member.name = .text field.name
  required : member.required = field.required
  type : member.type = field.type
  description : member.description = field.description

/-- What comes of a list of members when fields are made in their place. -/
abbrev MembersPromote : Except Failure (List (Member TypeExpr)) × Session →
    Except Failure (List (Field TypeExpr)) × Session → Prop :=
  Promotes (TypeExpr.areMembersPrintable · = true) (List.Forall₂ MemberAgrees)

/-- A member with a text in front of others becomes a field in front of theirs. -/
theorem MembersPromote.cons {member : Member TypeExpr} {field : Field TypeExpr}
    (agree : MemberAgrees member field) (printable : member.type.isPrintable = true)
    {inline : Except Failure (List (Member TypeExpr)) × Session}
    {promoted : Except Failure (List (Field TypeExpr)) × Session}
    (h : MembersPromote inline promoted) :
    MembersPromote (mapResult (member :: ·) inline) (mapResult (field :: ·) promoted) := by
  refine h.map (fun members => ?_) fun members fields others => .cons agree others
  obtain ⟨name, required, type, description⟩ := member
  obtain rfl : name = .text field.name := agree.name
  simp [TypeExpr.areMembersPrintable, printable]

/-- A member without a text ends the fields, whatever becomes of the others. -/
theorem membersPromote_of_unprintable {member : Member TypeExpr} {name : String}
    (named : member.name = .text name) (unprintable : ¬ member.type.isPrintable = true)
    (inline : Except Failure (List (Member TypeExpr)) × Session) (after : Session) :
    MembersPromote (mapResult (member :: ·) inline)
      (.error (.defect .memberNameNotText), after) := by
  obtain ⟨result, last⟩ := inline
  cases result with
  | error failure => exact .refused
  | ok members =>
      refine .unprintable ?_
      obtain ⟨_, required, type, description⟩ := member
      obtain rfl := named
      simp [TypeExpr.areMembersPrintable, unprintable]

/-- The loop for fields does what the loop for members does. -/
theorem membersPromote_membersWith (scope : Scope) (owner : String) (requirement : Requirement)
    {properties : Mapping} (texts : ∀ entry ∈ properties, ∃ name, entry.1 = .text name)
    {session session' : Session} (same : session.SameState session') :
    MembersPromote (outcome (membersWith (typeOf scope) requirement properties) session)
      (outcome (fieldsWith (typeOf scope) owner requirement properties) session') := by
  induction properties generalizing session session' with
  | nil => exact .made rfl .nil same
  | cons entry rest ih =>
      obtain ⟨key, property⟩ := entry
      obtain ⟨⟨name, rfl⟩, texts'⟩ := List.forall_mem_cons.mp texts
      have skipped := ih texts' (same.warn (.untypedMember (.text name))
        (.untypedField (.text name) owner))
      cases property with
      | object property =>
          by_cases typed : isTyped (.object property) = true
          · rw [membersWith, fieldsWith, if_pos typed, if_pos typed, outcome_bind, outcome_bind,
              outcome_fieldOf]
            obtain ⟨after', again, same'⟩ := typeOf_sameState same (.object property)
            rw [again]
            generalize outcome (typeOf scope (.object property)) session = found at same' ⊢
            obtain ⟨result, after⟩ := found
            cases result with
            | error failure => exact .failed same'
            | ok type =>
                by_cases printable : type.isPrintable = true
                · simp only [fieldRefusal, printable, if_true, outcome_bind_pure]
                  exact (ih texts' same').cons ⟨rfl, rfl, rfl, rfl⟩ printable
                · simp only [fieldRefusal, printable, outcome_bind_pure]
                  exact membersPromote_of_unprintable rfl printable _ after'
          · rw [membersWith, fieldsWith, if_neg typed, if_neg typed, outcome_bind, outcome_bind]
            exact skipped
      | _ => exact skipped

end Synthesis

/-! ## Schemas of objects -/

namespace Schema

/-- The keys that make something else of a schema than an object with its own properties. -/
def composingKeys : List String :=
  ["$ref", "enum", "oneOf", "anyOf", "allOf", "items", "prefixItems"]

/-- The schema of an object with properties of its own and no others. Its properties are named by
texts that differ, its type is that of an object or left out, and no other key stands in the way. -/
structure IsPlainObject (schema properties : Mapping) : Prop where
  declared : schema.field "properties" = .object properties
  nonempty : properties ≠ []
  texts : ∀ entry ∈ properties, ∃ name, entry.1 = .text name
  distinct : properties.Distinct
  word : typeWord? schema = none ∨ typeWord? schema = some "object"
  keys : ∀ key ∈ composingKeys, schema.has key = false
  format : ∀ format, format? (.object schema) = some format → format ∉ numberTypes

namespace IsPlainObject

variable {schema properties : Mapping}

theorem decisiveWord? (plain : IsPlainObject schema properties) :
    decisiveWord? schema = typeWord? schema := by
  have noEnum : ¬ schema.has "enum" = true := by simp [plain.keys "enum" (by decide)]
  rw [Schema.decisiveWord?, if_neg noEnum]
  split
  · rename_i format written
    rw [if_neg]
    simpa using plain.format format written
  · rfl

theorem composedShape (plain : IsPlainObject schema properties) (word : Option String) :
    composedShape word schema =
      .object properties (Requirement.ofValue (schema.field "required")) := by
  have written : schema.has "properties" = true := by
    simp [Mapping.has, Mapping.find?_of_field plain.declared (by simp)]
  have own : objectShape schema =
      .object properties (Requirement.ofValue (schema.field "required")) := by
    obtain ⟨first, rest, rfl⟩ := List.exists_cons_of_ne_nil plain.nonempty
    rw [objectShape, plain.declared]
  unfold Schema.composedShape
  rw [Mapping.field_eq_null (plain.keys "oneOf" (by decide)),
    Mapping.field_eq_null (plain.keys "anyOf" (by decide)),
    Mapping.field_eq_null (plain.keys "allOf" (by decide))]
  simp [written, own]

theorem shape (plain : IsPlainObject schema properties) :
    shape schema =
      .ok (.object properties (Requirement.ofValue (schema.field "required"))) := by
  have noItems : schema.has "items" = false := plain.keys "items" (by decide)
  have noPrefix : schema.has "prefixItems" = false := plain.keys "prefixItems" (by decide)
  have noBuiltin : builtin? "object" = none := by decide
  rw [Schema.shape, Mapping.find?_eq_none (plain.keys "$ref" (by decide))]
  simp only [plain.decisiveWord?, plain.composedShape]
  rcases plain.word with word | word
  · simp [word, noItems, noPrefix]
  · simp [word, noBuiltin]

/-- Nothing is inherited, and what is required stays as it is written. -/
theorem flatten (plain : IsPlainObject schema properties) (table : Table) :
    flatten table schema =
      .ok ⟨properties, Requirement.ofValue (schema.field "required")⟩ := by
  have noParts : parts schema = .ok [] := by
    simp [parts, Mapping.field_eq_null (plain.keys "allOf" (by decide)), Value.isTruthy]
  have added : Mapping.extend [] properties = properties :=
    Mapping.extend_eq_append plain.distinct
  refine (flatten_eq_ok (Nat.le_succ _)).mpr ⟨[], ?_⟩
  rw [flattenWithin, flattenStep, noParts]
  simp only [bind, Except.bind, List.foldlM_nil, pure, Except.pure, plain.declared, added]
  cases schema.field "required" <;> rfl

end IsPlainObject

end Schema

namespace Synthesis

open Schema

/-! ## Promotion -/

/-- The type of an object that is written in place says what the fields of its record say. -/
structure SaysSame (type : TypeExpr) (fields : List (Field TypeExpr)) : Prop where
  plain : type = .object ↔ fields = []
  members : ∃ members, type = structOf members ∧ List.Forall₂ MemberAgrees members fields

theorem saysSame_structOf {members : List (Member TypeExpr)} {fields : List (Field TypeExpr)}
    (agree : List.Forall₂ MemberAgrees members fields) : SaysSame (structOf members) fields := by
  refine ⟨?_, members, rfl, agree⟩
  cases agree with
  | nil => simp [structOf]
  | cons _ _ => simp [structOf, TypeExpr.object]

theorem isPrintable_structOf (members : List (Member TypeExpr)) :
    (structOf members).isPrintable = true ↔ TypeExpr.areMembersPrintable members = true := by
  cases members <;> rfl

/-- The members of an object that is written in place are the fields of its record. The schema
can be flattened, and where it is typed, in any session, its members agree with the fields that
are made of it one by one and in order; both leave the same names, records and open aliases
behind. It becomes a plain object where there are no fields. No fields are made where a type has
no text, which a member does not need, and none where the schema cannot be typed. -/
theorem inline_object_promotes (scope : Scope) (session : Session) (owner : String)
    {schema properties : Mapping} (plain : IsPlainObject schema properties) :
    ∃ flat, flatten scope.table schema = .ok flat ∧
      Promotes (fun type => type.isPrintable = true) SaysSame
        (outcome (typeOf scope (.object schema)) session)
        (outcome (fields scope owner flat.properties flat.requirement) session) := by
  refine ⟨_, plain.flatten scope.table, ?_⟩
  have loops := membersPromote_membersWith scope owner
    (Requirement.ofValue (schema.field "required")) plain.texts (.refl session)
  have promotes : Promotes (fun type => type.isPrintable = true) SaysSame (mapResult structOf _)
      (mapResult id _) :=
    loops.map isPrintable_structOf fun _ _ => saysSame_structOf
  rw [outcome_typeOf_object plain.shape]
  simpa [mapResult, Except.map_id, fields] using promotes

/-- The properties of a record that refers to itself. -/
def nodeProperties : Mapping :=
  (nodeSchema.field "properties").object?.getD []

theorem isPlainObject_nodeSchema : IsPlainObject nodeSchema nodeProperties where
  declared := rfl
  nonempty := by decide
  texts := by
    have texts : nodeProperties.map (·.1) = ["next", "twin", "note", "label"].map .text := rfl
    intro entry member
    have named := List.mem_map_of_mem (f := (·.1)) member
    rw [texts] at named
    obtain ⟨name, -, same⟩ := List.mem_map.mp named
    exact ⟨name, same.symm⟩
  distinct := by
    unfold Mapping.Distinct
    decide
  word := .inr rfl
  keys := by decide
  format := by decide

/-- The properties refer to the record itself and to another one of its name, and one has no type;
the others are its members as they are its fields. -/
theorem inline_object_promotes_nodeSchema :
    ∃ type own after after',
      outcome (typeOf nodeScope (.object nodeSchema)) .empty = (.ok type, after) ∧
      outcome (fields nodeScope "Node" nodeProperties (.listed [.text "label"])) .empty =
        (.ok own, after') ∧
      SaysSame type own ∧ after.SameState after' ∧
      own.map (fun field => (field.name, field.required, field.type.render)) =
        [("next", false, "Node"), ("twin", false, "Node"), ("label", true, "string")] := by
  obtain ⟨flat, flattened, promotes⟩ :=
    inline_object_promotes nodeScope .empty "Node" isPlainObject_nodeSchema
  obtain rfl := Except.ok.inj (flattened.symm.trans (isPlainObject_nodeSchema.flatten _))
  have made : (outcome (fields nodeScope "Node" nodeProperties (.listed [.text "label"]))
      .empty).1.toOption.map (fun own => own.map fun field =>
        (field.name, field.required, field.type.render)) =
      some [("next", false, "Node"), ("twin", false, "Node"), ("label", true, "string")] := by
    decide +kernel
  change Promotes _ _ _ (outcome (fields nodeScope "Node" nodeProperties (.listed [.text "label"]))
    .empty) at promotes
  generalize outcome (typeOf nodeScope (.object nodeSchema)) .empty = inline at promotes ⊢
  generalize outcome (fields nodeScope "Node" nodeProperties (.listed [.text "label"])) .empty =
    promoted at promotes made ⊢
  cases promotes with
  | made _ agree same =>
      exact ⟨_, _, _, _, rfl, rfl, agree, same, by simpa [Except.toOption] using made⟩
  | _ => simp [Except.toOption] at made

end Synthesis

end ApiBinding
