import ApiBinding.Proofs.Outcome
import ApiBinding.Proofs.Schema.Depth
import ApiBinding.Validation.Writer

/-! Which schemas are record-shaped: those from which a chain of parts leads to an object. The
search follows each reference once, and what it passes over has been searched, or is still being
searched further up. -/

namespace ApiBinding.Schema

open Relation

variable {table : Table}

/-! ## Chains of parts -/

/-- A schema with a union or an enumeration of values in it. -/
def HasAlternatives (schema : Mapping) : Prop :=
  (schema.field "oneOf").isTruthy = true ∨ (schema.field "anyOf").isTruthy = true ∨
    schema.has "enum" = true

/-- A schema that has properties, or that has the type of an object and no alternatives. -/
def IsObjectLike (schema : Mapping) : Prop :=
  schema.has "properties" = true ∨
    typeWord? schema = some "object" ∧ ¬ HasAlternatives schema

/-- A composition that is neither an object by itself nor, without properties, a union or an
enumeration. -/
structure Passable (schema : Mapping) (members : List Value) : Prop where
  plain : ¬ IsObjectLike schema
  single : schema.has "properties" = true ∨ ¬ HasAlternatives schema
  composed : schema.field "allOf" = .list members

/-- The text of a member of a composition that is a reference. -/
def memberRef? (part : Value) : Option String :=
  part.object?.bind fun own => (own.field "$ref").text?

/-- A step from a composition to one of its members, or to the target of a member that is a
reference. -/
inductive Consults (table : Table) : Value → Value → Prop where
  | member {schema members part} : Passable schema members → part ∈ members →
      memberRef? part = none → Consults table (.object schema) part
  | target {schema members part ref target} : Passable schema members → part ∈ members →
      memberRef? part = some ref → table.resolve ref = .ok target →
      Consults table (.object schema) (.object target)

/-- A chain of steps leads from a node to an object. -/
def LeadsToObject (table : Table) (node : Value) : Prop :=
  ∃ last, ReflTransGen (Consults table) node (.object last) ∧ IsObjectLike last

/-- A failure that tells of a reference, met on a chain from a node, that leads nowhere. -/
inductive LosesReference (table : Table) (node : Value) : Failure → Prop where
  | met {schema members part ref cause} :
      ReflTransGen (Consults table) node (.object schema) → Passable schema members →
      part ∈ members → memberRef? part = some ref →
      table.resolve ref = .error (.fault (.unresolved ref cause)) →
      LosesReference table node (.fault (.unresolved ref cause))

theorem LeadsToObject.of_consults {node next : Value} (step : Consults table node next)
    (h : LeadsToObject table next) : LeadsToObject table node := by
  obtain ⟨last, chain, object⟩ := h
  exact ⟨last, .head step chain, object⟩

theorem isAlternative_iff {schema : Mapping} :
    isAlternative schema = true ↔ schema.has "properties" = false ∧ HasAlternatives schema := by
  simp [isAlternative, HasAlternatives, or_assoc]

/-- The tests that the search makes on a schema, in their order. -/
theorem isObjectLike_iff {schema : Mapping} (single : isAlternative schema = false) :
    IsObjectLike schema ↔ isObject schema = true := by
  rw [← Bool.not_eq_true, isAlternative_iff] at single
  cases own : schema.has "properties" with
  | true => simp [IsObjectLike, isObject, own]
  | false =>
      have bare : ¬ HasAlternatives schema := fun alternatives => single ⟨own, alternatives⟩
      simp [IsObjectLike, isObject, own, bare]

theorem not_isObjectLike_of_isAlternative {schema : Mapping}
    (alternative : isAlternative schema = true) : ¬ IsObjectLike schema := by
  obtain ⟨bare, alternatives⟩ := isAlternative_iff.mp alternative
  rintro (own | ⟨-, none⟩)
  · simp [bare] at own
  · exact none alternatives

theorem exists_unresolved {ref : String} {failure : Failure}
    (h : table.resolve ref = .error failure) :
    ∃ cause, failure = .fault (.unresolved ref cause) := by
  unfold Table.resolve Table.keyOf at h
  split at h
  · simp only [bind, Except.bind] at h
    split at h
    · simp at h
    · exact ⟨_, (Except.error.inj h).symm⟩
  · exact ⟨_, (Except.error.inj h).symm⟩

/-! ## What a search without success has seen -/

/-- A node without an object in it and below it, where the references that were followed are left
aside. -/
inductive Barren (table : Table) (seen : List String) : Value → Prop where
  | value {node} : (∀ schema, node ≠ .object schema) → Barren table seen node
  | closed {schema} : ¬ IsObjectLike schema → (∀ members, ¬ Passable schema members) →
      Barren table seen (.object schema)
  | passed {schema members} : Passable schema members →
      (∀ part ∈ members, ∀ ref, memberRef? part = some ref → ref ∈ seen) →
      (∀ part ∈ members, memberRef? part = none → Barren table seen part) →
      Barren table seen (.object schema)

theorem Barren.mono {seen later : List String} {node : Value} (h : Barren table seen node)
    (kept : seen ⊆ later) : Barren table later node := by
  induction h with
  | value other => exact .value other
  | closed plain closed => exact .closed plain closed
  | passed passable followed _ ih =>
      refine .passed passable ?_ ih
      exact fun part member ref refers => kept (followed part member ref refers)

theorem Barren.not_isObjectLike {seen : List String} {schema : Mapping}
    (h : Barren table seen (.object schema)) : ¬ IsObjectLike schema := by
  cases h with
  | value other => exact (other schema rfl).elim
  | closed plain _ => exact plain
  | passed passable _ _ => exact passable.plain

/-- A member of a composition in which no object was found. -/
structure Spent (table : Table) (seen : List String) (part : Value) : Prop where
  followed : ∀ ref, memberRef? part = some ref → ref ∈ seen
  barren : memberRef? part = none → Barren table seen part

theorem Barren.spent {seen : List String} {schema : Mapping} {members : List Value} {part : Value}
    (h : Barren table seen (.object schema)) (passable : Passable schema members)
    (member : part ∈ members) : Spent table seen part := by
  obtain ⟨other⟩ | ⟨-, closed⟩ | ⟨passable', followed, inner⟩ := h
  · exact (other schema rfl).elim
  · exact (closed members passable).elim
  · obtain rfl := Value.list.inj (passable.composed.symm.trans passable'.composed)
    exact ⟨followed part member, inner part member⟩

theorem Spent.mono {seen later : List String} {part : Value} (h : Spent table seen part)
    (kept : seen ⊆ later) : Spent table later part :=
  ⟨fun ref refers => kept (h.followed ref refers), fun own => (h.barren own).mono kept⟩

/-- Between two moments of a search each reference that it began to follow was searched in
vain. -/
structure Searched (table : Table) (seen later : List String) : Prop where
  kept : seen ⊆ later
  barren : ∀ ref ∈ later, ref ∉ seen → ∀ target, table.resolve ref = .ok target →
    Barren table later (.object target)

theorem Searched.refl (table : Table) (seen : List String) : Searched table seen seen :=
  ⟨List.Subset.refl _, fun _ member new => absurd member new⟩

theorem Searched.trans {seen middle later : List String} (h : Searched table seen middle)
    (h' : Searched table middle later) : Searched table seen later := by
  refine ⟨List.Subset.trans h.kept h'.kept, ?_⟩
  intro ref member new target resolved
  by_cases early : ref ∈ middle
  · exact (h.barren ref early new target resolved).mono h'.kept
  · exact h'.barren ref member early target resolved

/-- A reference is searched when its target is. -/
theorem Searched.follow {seen later : List String} {ref : String} {target : Mapping}
    (resolved : table.resolve ref = .ok target) (h : Searched table (ref :: seen) later)
    (barren : Barren table later (.object target)) : Searched table seen later := by
  refine ⟨fun other member => h.kept (List.mem_cons_of_mem _ member), ?_⟩
  intro other member new target' resolved'
  by_cases same : other = ref
  · subst same
    obtain rfl := Except.ok.inj (resolved.symm.trans resolved')
    exact barren
  · refine h.barren other member ?_ target' resolved'
    simp [same, new]

/-- What the answer of a search from a node tells. -/
inductive Verdict (table : Table) (seen : List String) (node : Value) :
    Bool × List String → Prop where
  | found {later} : LeadsToObject table node → Verdict table seen node (true, later)
  | searched {later} : Searched table seen later → Barren table later node →
      Verdict table seen node (false, later)

/-- What the answer of a search among some members of a composition tells. -/
inductive MembersVerdict (table : Table) (seen : List String) (schema : Mapping)
    (members : List Value) : Bool × List String → Prop where
  | found {later} : LeadsToObject table (.object schema) →
      MembersVerdict table seen schema members (true, later)
  | searched {later} : Searched table seen later → (∀ part ∈ members, Spent table later part) →
      MembersVerdict table seen schema members (false, later)

theorem MembersVerdict.cons {seen middle : List String} {schema : Mapping} {part : Value}
    {rest : List Value} {answer : Bool × List String} (first : Searched table seen middle)
    (spent : Spent table middle part) (h : MembersVerdict table middle schema rest answer) :
    MembersVerdict table seen schema (part :: rest) answer := by
  cases h with
  | found object => exact .found object
  | searched searched others =>
      refine .searched (first.trans searched) (List.forall_mem_cons.mpr ⟨?_, others⟩)
      exact spent.mono searched.kept

/-! ## The search -/

theorem memberRef?_eq_some {part : Value} {ref : String} :
    memberRef? part = some ref ↔
      part.object?.map (Mapping.field · "$ref") = some (.text ref) := by
  unfold memberRef?
  cases part.object? with
  | none => simp
  | some own => cases h : Mapping.field own "$ref" <;> simp [h, Value.text?]

/-- A search from a node on a chain, which may have run out of depth. -/
def Stranded (table : Table) (root : Value) (failure : Failure) : Prop :=
  failure = .defect .depthExhausted ∨ LosesReference table root failure

theorem ends_members {root : Value} {schema : Mapping} {members : List Value}
    (reached : ReflTransGen (Consults table) root (.object schema))
    (passable : Passable schema members)
    {walk : List String → Value → Except Failure (Bool × List String)}
    (hwalk : ∀ seen next, ReflTransGen (Consults table) root next →
      Ends (walk seen next) (Verdict table seen next) (Stranded table root))
    {rest : List Value} (inside : rest ⊆ members) (seen : List String) :
    Ends (anyRecordShaped table walk seen rest) (MembersVerdict table seen schema rest)
      (Stranded table root) := by
  induction rest generalizing seen with
  | nil => exact .ok (.searched (.refl table seen) (by simp))
  | cons part rest ih =>
      obtain ⟨member, inside⟩ := List.cons_subset.mp inside
      simp only [anyRecordShaped]
      split
      · rename_i ref refers
        have refers : memberRef? part = some ref := memberRef?_eq_some.mpr refers
        have spent {later : List String} (followed : ref ∈ later) : Spent table later part := by
          refine ⟨?_, by simp [refers]⟩
          intro other same
          obtain rfl := Option.some.inj (refers.symm.trans same)
          exact followed
        split
        · rename_i followed
          refine (ih inside seen).mono ?_ fun _ => id
          intro answer
          exact .cons (.refl table seen) (spent (by simpa using followed))
        · have resolving : Ends (table.resolve ref) (fun target => table.resolve ref = .ok target)
              (Stranded table root) := by
            refine ⟨id, ?_⟩
            intro failure failed
            obtain ⟨cause, rfl⟩ := exists_unresolved failed
            exact .inr (.met reached passable member refers failed)
          refine resolving.bind ?_
          intro target resolved
          have step := Consults.target passable member refers resolved
          refine (hwalk (ref :: seen) _ (reached.tail step)).bind ?_
          rintro ⟨found, later⟩ verdict
          cases verdict with
          | found object => exact .ok (.found (object.of_consults step))
          | searched searched barren =>
              refine (ih inside later).mono ?_ fun _ => id
              intro answer
              exact .cons (.follow resolved searched barren) (spent (searched.kept (by simp)))
      · rename_i own
        have own : memberRef? part = none := by
          cases refers : memberRef? part with
          | none => rfl
          | some ref => exact (own ref (memberRef?_eq_some.mp refers)).elim
        have step : Consults table (.object schema) part := .member passable member own
        refine (hwalk seen _ (reached.tail step)).bind ?_
        rintro ⟨found, later⟩ verdict
        cases verdict with
        | found object => exact .ok (.found (object.of_consults step))
        | searched searched barren =>
            refine (ih inside later).mono ?_ fun _ => id
            intro answer
            exact .cons searched ⟨by simp [own], fun _ => barren⟩

theorem passable_of_tests {schema : Mapping} {members : List Value}
    (single : isAlternative schema = false) (plain : isObject schema = false)
    (composed : schema.field "allOf" = .list members) : Passable schema members := by
  refine ⟨?_, ?_, composed⟩
  · simp [isObjectLike_iff single, plain]
  · rw [← Bool.not_eq_true, isAlternative_iff] at single
    by_cases own : schema.has "properties" = true
    · exact .inl own
    · exact .inr fun alternatives => single ⟨by simpa using own, alternatives⟩

theorem not_passable_of_isAlternative {schema : Mapping} {members : List Value}
    (alternative : isAlternative schema = true) : ¬ Passable schema members := by
  obtain ⟨bare, alternatives⟩ := isAlternative_iff.mp alternative
  rintro ⟨-, own | none, -⟩
  · simp [bare] at own
  · exact none alternatives

/-- The induction is on the depth; the invariant of the search is the verdict on the references
that were begun since. -/
theorem ends_search {root : Value} (depth : Nat) (seen : List String) {node : Value}
    (reached : ReflTransGen (Consults table) root node) :
    Ends (recordShapedWithin table depth seen node) (Verdict table seen node)
      (Stranded table root) := by
  induction depth generalizing seen node with
  | zero => exact .error (.inl rfl)
  | succ depth ih =>
      have inVain {node : Value} (barren : Barren table seen node) :
          Verdict table seen node (false, seen) := .searched (.refl table seen) barren
      simp only [recordShapedWithin, recordShapedStep]
      split
      · rename_i schema
        split
        · rename_i alternative
          refine .ok (inVain (.closed (not_isObjectLike_of_isAlternative alternative) ?_))
          exact fun _ => not_passable_of_isAlternative alternative
        rename_i single
        rw [Bool.not_eq_true] at single
        split
        · rename_i object
          exact .ok (.found ⟨schema, .refl, (isObjectLike_iff single).mpr object⟩)
        rename_i plain
        split
        · rename_i members composed
          have passable := passable_of_tests single (by simpa using plain) composed
          refine (ends_members reached passable (fun seen next => ih seen)
            (List.Subset.refl members) seen).mono ?_ fun _ => id
          intro answer verdict
          cases verdict with
          | found object => exact .found object
          | searched searched spent =>
              exact .searched searched (.passed passable
                (fun part member => (spent part member).followed)
                (fun part member => (spent part member).barren))
        · rename_i noList
          refine .ok (inVain (.closed ?_ fun members passable =>
            noList members passable.composed))
          simpa [isObjectLike_iff single] using plain
      · rename_i noSchema
        exact .ok (inVain (.value noSchema))

/-- When a whole search was in vain, no chain leads to an object. -/
theorem not_leadsToObject {root : Value} {later : List String}
    (searched : Searched table [] later) (barren : Barren table later root) :
    ¬ LeadsToObject table root := by
  rintro ⟨last, chain, object⟩
  have visited : ∀ node, ReflTransGen (Consults table) root node → Barren table later node := by
    intro node chain
    induction chain with
    | refl => exact barren
    | tail _ step ih =>
        cases step with
        | member passable member own => exact (ih.spent passable member).barren own
        | target passable member refers resolved =>
            have followed := (ih.spent passable member).followed _ refers
            exact searched.barren _ followed (by simp) _ resolved
  exact (visited _ chain).not_isObjectLike object

/-- On every table, with references in any circles: a schema is found to be record-shaped exactly
if a chain of parts leads from it to an object, and the search fails only at a reference on such
a chain that leads nowhere. -/
theorem isRecordShaped_decides (table : Table) (node : Value) :
    Ends (isRecordShaped table node) (fun answer => answer = true ↔ LeadsToObject table node)
      (LosesReference table node) := by
  have search : Ends (isRecordShaped table node)
      (fun answer => answer = true ↔ LeadsToObject table node) (Stranded table node) := by
    refine Ends.map ((ends_search _ [] .refl).mono ?_ fun _ => id)
    intro answer verdict
    cases verdict with
    | found object => simpa using object
    | searched searched barren => simpa using not_leadsToObject searched barren
  refine ⟨search.holds, ?_⟩
  intro failure failed
  rcases search.stops failed with rfl | lost
  · exact ((isRecordShaped_settled table node (le_refl _)).reached failed).elim
  · exact lost

/-- Two compositions that refer to each other, one of them to a third definition, too. -/
def mutualTable (third : Value) : Table :=
  let refersTo (key : String) : Value := .ofFields [("$ref", .text ("#/definitions/" ++ key))]
  ⟨"#/definitions/", [
    (.text "Owner", .ofFields [("allOf", .list [refersTo "Pet"])]),
    (.text "Pet", .ofFields [("allOf", .list [refersTo "Owner", refersTo "Animal"])]),
    (.text "Animal", third)]⟩

example (node : Value)
    (h : node = .ofFields [("allOf", .list [.ofFields [("$ref", .text "#/definitions/Pet")]])]) :
    isRecordShaped (mutualTable (.ofFields [("type", .text "object")])) node = .ok true ∧
      isRecordShaped (mutualTable (.ofFields [("type", .text "string")])) node = .ok false := by
  subst h
  exact ⟨rfl, rfl⟩

end ApiBinding.Schema
