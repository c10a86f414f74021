import ApiBinding.Proofs.Schema.Hole

/-! Parts that refer to an alias, a definition that is nothing but a reference. The walks through
a composition follow the reference of a part, but not the one that they find there: a part behind
an alias adds nothing, as if it were not there. -/

namespace ApiBinding.Schema

/-! ## Aliases -/

/-- A schema that is nothing but a reference. -/
def refSchema (ref : String) : Mapping := [(.text "$ref", .text ref)]

/-- A reference leads to a target through one definition after the other, each of them nothing
but a reference to the next one. -/
inductive AliasChain (table : Table) (target : String) : String → Prop where
  | last {ref} : table.resolve ref = .ok (refSchema target) → AliasChain table target ref
  | next {ref other} : table.resolve ref = .ok (refSchema other) →
      AliasChain table target other → AliasChain table target ref

theorem AliasChain.exists_next {table : Table} {target ref : String}
    (h : AliasChain table target ref) : ∃ next, table.resolve ref = .ok (refSchema next) := by
  cases h with
  | last resolved => exact ⟨_, resolved⟩
  | next resolved _ => exact ⟨_, resolved⟩

/-- A table on which an added part leads to a schema that is nothing but a reference, and a table
and a root without the part and with like targets for all other references. -/
structure Overlooks (wide narrow : Table) (root part : Mapping) (ref : String) : Prop where
  refers : part.field "$ref" = .text ref
  leads : ∃ next, wide.resolve ref = .ok (refSchema next)
  others : ∀ other, RefersDown narrow root other → other ≠ ref ∧ ∃ schema schema',
    wide.resolve other = .ok schema ∧ narrow.resolve other = .ok schema' ∧
      Like [.object part] [] (.object schema) (.object schema')

/-- The same references were followed, but for one. -/
def Beside (ref : String) (seen seen' : List String) : Prop :=
  ∀ other, other ≠ ref → (other ∈ seen ↔ other ∈ seen')

variable {wide narrow : Table} {root part : Mapping} {ref : String} {seen seen' : List String}

theorem Beside.cons (h : Beside ref seen seen') (other : String) :
    Beside ref (other :: seen) (other :: seen') := by
  intro own differs
  simp [h own differs]

theorem Beside.cons_left (h : Beside ref seen seen') : Beside ref (ref :: seen) seen' := by
  intro own differs
  simp [differs, h own differs]

theorem Beside.contains_eq (h : Beside ref seen seen') {other : String} (differs : other ≠ ref) :
    seen.contains other = seen'.contains other := by
  rw [Bool.eq_iff_iff, List.contains_iff_mem, List.contains_iff_mem, h other differs]

/-! ## Inherited properties -/

/-- The same properties and required names were gathered. -/
structure GathersLike (ref : String) (gathered gathered' : Gathering) : Prop where
  properties : gathered.properties = gathered'.properties
  required : gathered.required = gathered'.required
  seen : Beside ref gathered.seen gathered'.seen

/-- What two walks return that differ in one reference followed. -/
def AnswersLike {α : Type} (ref : String) (answer answer' : α × List String) : Prop :=
  answer.1 = answer'.1 ∧ Beside ref answer.2 answer'.2

theorem GathersLike.absorb {gathered gathered' : Gathering}
    (h : GathersLike ref gathered gathered') {answer answer' : Flattened × List String}
    (like : AnswersLike ref answer answer') :
    GathersLike ref (gathered.absorb answer.1 answer.2) (gathered'.absorb answer'.1 answer'.2) := by
  obtain ⟨same, beside⟩ := like
  exact ⟨by simp [Gathering.absorb, h.properties, same],
    by simp [Gathering.absorb, h.required, same], beside⟩

/-- Results that settled walks lead to are equal if the walks end alike. -/
theorem eq_of_answersLike {α : Type} {result result' : Except Failure α}
    {walked walked' : Except Failure (α × List String)} {post post' : α → Prop}
    (settled : Settled result (walked.map (·.1)) post)
    (settled' : Settled result' (walked'.map (·.1)) post')
    (like : EndsLike (AnswersLike ref) walked walked') : result = result' := by
  have reached := settled.reached
  rw [settled.same] at reached ⊢
  rw [settled'.same]
  cases like with
  | exhausted => exact absurd rfl reached
  | failed failure => rfl
  | done answers => exact congrArg Except.ok answers.1

/-- Two ways to walk end alike on like schemas. -/
def WalksLike (narrow : Table) (root part : Mapping) (ref : String) {α : Type}
    (walk walk' : List String → Mapping → Except Failure (α × List String)) : Prop :=
  ∀ ⦃schema schema'⦄, Like [.object part] [] (.object schema) (.object schema') →
    Composes narrow root schema' → ∀ ⦃seen seen'⦄, Beside ref seen seen' →
      EndsLike (AnswersLike ref) (walk seen schema) (walk' seen' schema')

theorem flattenWithin_refSchema (table : Table) (depth : Nat) (seen : List String)
    (next : String) :
    flattenWithin table (depth + 1) seen (refSchema next) = .ok (⟨[], .listed []⟩, seen) := rfl

/-- The added part is gathered without a trace but for the reference. -/
theorem Overlooks.gatherPart_left (h : Overlooks wide narrow root part ref) (depth : Nat)
    {gathered gathered' : Gathering} (like : GathersLike ref gathered gathered') :
    EndsLike (fun after _ => GathersLike ref after gathered')
      (gatherPart wide (flattenWithin wide depth) gathered part) (.ok ()) := by
  rw [gatherPart_of_ref h.refers]
  split
  · exact .done like
  · obtain ⟨next, resolved⟩ := h.leads
    rw [resolved]
    cases depth with
    | zero => exact .exhausted
    | succ depth =>
        have nothing : gathered.required ++ [] = gathered'.required := by simp [like.required]
        simp only [bind, Except.bind, flattenWithin_refSchema]
        exact .done ⟨like.properties, nothing, like.seen.cons_left⟩

theorem Overlooks.gatherPart_like (h : Overlooks wide narrow root part ref)
    {walk walk' : List String → Mapping → Except Failure (Flattened × List String)}
    (hwalk : WalksLike narrow root part ref walk walk')
    {owner member member' : Mapping} {members : List Mapping}
    (composes : Composes narrow root owner) (found : parts owner = .ok members)
    (inside : member' ∈ members) (same : Like [.object part] [] (.object member) (.object member'))
    {gathered gathered' : Gathering} (like : GathersLike ref gathered gathered') :
    EndsLike (GathersLike ref) (gatherPart wide walk gathered member)
      (gatherPart narrow walk' gathered' member') := by
  have alike : member.field "$ref" = member'.field "$ref" := same.field_eq (by decide)
  by_cases own : ∀ ref, member'.field "$ref" ≠ .text ref
  · rw [gatherPart_of_own own, gatherPart_of_own (by rwa [alike])]
    refine (hwalk same (.part composes found inside own) like.seen).bind ?_
    intro answer answer' answers
    exact .done (like.absorb answers)
  push Not at own
  obtain ⟨other, href⟩ := own
  obtain ⟨differs, schema, schema', resolved, resolved', target⟩ :=
    h.others other (.intro composes found inside href)
  rw [gatherPart_of_ref href, gatherPart_of_ref (alike.trans href), resolved, resolved',
    like.seen.contains_eq differs]
  split
  · exact .done like
  · have walked := hwalk target (.target composes found inside href resolved')
      (like.seen.cons other)
    refine walked.bind ?_
    intro answer answer' answers
    exact .done (like.absorb answers)

/-- The induction is on the members, which are alike in pairs, up to the added part. -/
theorem Overlooks.foldlM_like (h : Overlooks wide narrow root part ref) {depth : Nat}
    (hwalk : WalksLike narrow root part ref (flattenWithin wide depth)
      (flattenWithin narrow depth))
    {owner : Mapping} {members : List Mapping} (composes : Composes narrow root owner)
    (found : parts owner = .ok members) {items items' : List Value}
    (same : LikeMembers [.object part] [] items items')
    (inside : items'.filterMap Value.object? ⊆ members)
    {gathered gathered' : Gathering} (like : GathersLike ref gathered gathered') :
    EndsLike (GathersLike ref)
      ((items.filterMap Value.object?).foldlM (gatherPart wide (flattenWithin wide depth)) gathered)
      ((items'.filterMap Value.object?).foldlM (gatherPart narrow (flattenWithin narrow depth))
        gathered') := by
  induction same generalizing gathered gathered' with
  | nil => exact .done like
  | @cons item item' rest rest' first _ ih =>
      rcases first.object_cases with ⟨rfl, noObject⟩ | ⟨member, member', rfl, rfl, first⟩
      · have skipped : item.object? = none := by
          cases item with
          | object schema => exact absurd rfl (noObject schema)
          | _ => rfl
        simp only [List.filterMap_cons, skipped] at inside ⊢
        exact ih inside like
      · simp only [List.filterMap_cons, Value.object?, List.foldlM_cons] at inside ⊢
        obtain ⟨here, inside⟩ := List.cons_subset.mp inside
        refine (h.gatherPart_like hwalk composes found here first like).bind ?_
        intro after after' like
        exact ih inside like
  | hole _ ih =>
      simp only [List.singleton_append, List.nil_append, List.filterMap_cons, Value.object?,
        List.foldlM_cons] at inside ⊢
      exact (h.gatherPart_left depth like).bind fun after _ like => ih inside like

theorem finish_eq {schema schema' : Mapping} {gathered gathered' : Gathering}
    (same : Like [.object part] [] (.object schema) (.object schema'))
    (like : GathersLike ref gathered gathered') :
    gathered.finish schema = gathered'.finish schema' := by
  simp only [Gathering.finish, ownProperties, like.properties, like.required,
    same.field_eq (by decide : "properties" ≠ "allOf"),
    same.field_eq (by decide : "required" ≠ "allOf")]

/-- The induction is on the depth; it is carried by the references that were followed. -/
theorem Overlooks.flattenWithin_like (h : Overlooks wide narrow root part ref) (depth : Nat) :
    WalksLike narrow root part ref (flattenWithin wide depth) (flattenWithin narrow depth) := by
  induction depth with
  | zero => exact fun _ _ _ _ _ _ _ => .exhausted
  | succ depth ih =>
      intro schema schema' same composes seen seen' beside
      simp only [flattenWithin, flattenStep_eq]
      have start : GathersLike ref ⟨[], [], seen⟩ ⟨[], [], seen'⟩ := ⟨rfl, rfl, beside⟩
      have ended : ∀ gathered gathered', GathersLike ref gathered gathered' →
          EndsLike (AnswersLike ref) (.ok (gathered.finish schema, gathered.seen))
            (.ok (gathered'.finish schema', gathered'.seen)) :=
        fun _ _ like => .done ⟨finish_eq same like, like.seen⟩
      rcases same.members with ⟨rfl, unlisted⟩ | ⟨items, items', listed, listed', members⟩
      · refine EndsLike.rfl.bind ?_
        rintro members _ ⟨rfl, found⟩
        have none : members = [] := List.eq_nil_iff_forall_not_mem.mpr fun part member => by
          obtain ⟨items, listed, _⟩ := mem_of_parts found member
          exact unlisted items listed
        subst none
        exact ended _ _ start
      · rw [parts_of_list listed, parts_of_list listed']
        exact (h.foldlM_like ih composes (parts_of_list listed') members (List.Subset.refl _)
          start).bind ended

theorem Overlooks.flatten_eq (h : Overlooks wide narrow root part ref) {schema : Mapping}
    (same : Like [.object part] [] (.object schema) (.object root)) :
    flatten wide schema = flatten narrow root := by
  have walked := h.flattenWithin_like
    (depthBound wide (.object schema) + depthBound narrow (.object root)) same .self
    (fun other _ => Iff.rfl : Beside ref [] [])
  exact eq_of_answersLike (flatten_settled wide schema (Nat.le_add_right _ _))
    (flatten_settled narrow root (Nat.le_add_left _ _)) walked

/-! ## Record-shaped schemas -/

theorem recordShapedWithin_refSchema (table : Table) (depth : Nat) (seen : List String)
    (next : String) :
    recordShapedWithin table (depth + 1) seen (.object (refSchema next)) = .ok (false, seen) := rfl

theorem anyRecordShaped_of_ref {table : Table}
    {walk : List String → Value → Except Failure (Bool × List String)} {schema : Mapping}
    {rest : List Value} (href : schema.field "$ref" = .text ref) :
    anyRecordShaped table walk seen (.object schema :: rest) =
      if seen.contains ref then anyRecordShaped table walk seen rest
      else
        table.resolve ref >>= fun target => walk (ref :: seen) (.object target) >>= fun answer =>
          if answer.1 then .ok (true, answer.2) else anyRecordShaped table walk answer.2 rest := by
  simp only [anyRecordShaped, Value.object?, Option.map_some, href]

theorem anyRecordShaped_of_own {table : Table}
    {walk : List String → Value → Except Failure (Bool × List String)} {node : Value}
    {rest : List Value}
    (own : ∀ schema : Mapping, node = .object schema → ∀ ref, schema.field "$ref" ≠ .text ref) :
    anyRecordShaped table walk seen (node :: rest) = walk seen node >>= fun answer =>
      if answer.1 then .ok (true, answer.2) else anyRecordShaped table walk answer.2 rest := by
  rw [anyRecordShaped]
  split
  · rename_i ref href
    cases node with
    | object schema => exact (own schema rfl ref (by simpa [Value.object?] using href)).elim
    | _ => simp [Value.object?] at href
  · rfl

/-- How a search walks from a schema. -/
abbrev searchWithin (table : Table) (depth : Nat) (seen : List String) (schema : Mapping) :
    Except Failure (Bool × List String) :=
  recordShapedWithin table depth seen (.object schema)

/-- Where two searches go on alike, they end alike. -/
theorem endsLike_onward {answer answer' : Bool × List String}
    {next next' : List String → Except Failure (Bool × List String)}
    (answers : AnswersLike ref answer answer')
    (hnext : ∀ ⦃seen seen'⦄, Beside ref seen seen' →
      EndsLike (AnswersLike ref) (next seen) (next' seen')) :
    EndsLike (AnswersLike ref) (if answer.1 then .ok (true, answer.2) else next answer.2)
      (if answer'.1 then .ok (true, answer'.2) else next' answer'.2) := by
  rw [← answers.1]
  split
  · exact .done ⟨rfl, answers.2⟩
  · exact hnext answers.2

/-- The induction is on the members, which are alike in pairs, up to the added part. -/
theorem Overlooks.anyRecordShaped_like (h : Overlooks wide narrow root part ref) {depth : Nat}
    (hwalk : WalksLike narrow root part ref (searchWithin wide depth) (searchWithin narrow depth))
    {owner : Mapping} {members : List Mapping} (composes : Composes narrow root owner)
    (found : parts owner = .ok members) {items items' : List Value}
    (same : LikeMembers [.object part] [] items items')
    (inside : items'.filterMap Value.object? ⊆ members) {seen seen' : List String}
    (beside : Beside ref seen seen') :
    EndsLike (AnswersLike ref)
      (anyRecordShaped wide (recordShapedWithin wide depth) seen items)
      (anyRecordShaped narrow (recordShapedWithin narrow depth) seen' items') := by
  induction same generalizing seen seen' with
  | nil => exact .done ⟨rfl, beside⟩
  | @cons item item' rest rest' first _ ih =>
      rcases first.object_cases with ⟨rfl, noObject⟩ | ⟨member, member', rfl, rfl, first⟩
      · have skipped : item.object? = none := by
          cases item with
          | object schema => exact absurd rfl (noObject schema)
          | _ => rfl
        simp only [List.filterMap_cons, skipped] at inside
        have own : ∀ schema : Mapping, item = .object schema →
            ∀ ref, schema.field "$ref" ≠ .text ref :=
          fun schema isObject => absurd isObject (noObject schema)
        rw [anyRecordShaped_of_own own, anyRecordShaped_of_own own]
        cases depth with
        | zero => exact .exhausted
        | succ depth =>
            have passed (table : Table) (seen : List String) :
                recordShapedWithin table (depth + 1) seen item = .ok (false, seen) := by
              cases item with
              | object schema => exact absurd rfl (noObject schema)
              | _ => rfl
            rw [passed, passed]
            exact ih inside beside
      · simp only [List.filterMap_cons, Value.object?] at inside
        obtain ⟨here, inside⟩ := List.cons_subset.mp inside
        have alike : Mapping.field member "$ref" = Mapping.field member' "$ref" :=
          first.field_eq (by decide)
        by_cases own : ∀ ref, Mapping.field member' "$ref" ≠ .text ref
        · rw [anyRecordShaped_of_own (by simpa [alike] using own),
            anyRecordShaped_of_own (by simpa using own)]
          refine (hwalk first (.part composes found here own) beside).bind ?_
          intro answer answer' answers
          exact endsLike_onward answers fun _ _ beside => ih inside beside
        push Not at own
        obtain ⟨other, href⟩ := own
        obtain ⟨differs, schema, schema', resolved, resolved', target⟩ :=
          h.others other (.intro composes found here href)
        rw [anyRecordShaped_of_ref href, anyRecordShaped_of_ref (alike.trans href), resolved,
          resolved', beside.contains_eq differs]
        split
        · exact ih inside beside
        · have walked := hwalk target (.target composes found here href resolved')
            (beside.cons other)
          refine walked.bind ?_
          intro answer answer' answers
          exact endsLike_onward answers fun _ _ beside => ih inside beside
  | hole _ ih =>
      rw [List.singleton_append, List.nil_append, anyRecordShaped_of_ref h.refers]
      split
      · exact ih inside beside
      · obtain ⟨next, resolved⟩ := h.leads
        rw [resolved]
        cases depth with
        | zero => exact .exhausted
        | succ depth =>
            simp only [bind, Except.bind, recordShapedWithin_refSchema, Bool.false_eq_true,
              if_false]
            exact ih inside beside.cons_left

theorem isAlternative_eq {schema schema' : Mapping}
    (same : Like [.object part] [] (.object schema) (.object schema')) :
    isAlternative schema = isAlternative schema' := by
  simp only [isAlternative, Mapping.has, same.find?_eq (by decide : "properties" ≠ "allOf"),
    same.find?_eq (by decide : "enum" ≠ "allOf"), same.field_eq (by decide : "oneOf" ≠ "allOf"),
    same.field_eq (by decide : "anyOf" ≠ "allOf")]

theorem isObject_eq {schema schema' : Mapping}
    (same : Like [.object part] [] (.object schema) (.object schema')) :
    isObject schema = isObject schema' := by
  simp only [isObject, typeWord?, Mapping.has, same.find?_eq (by decide : "properties" ≠ "allOf"),
    same.field_eq (by decide : "type" ≠ "allOf")]

theorem Overlooks.searchWithin_like (h : Overlooks wide narrow root part ref) (depth : Nat) :
    WalksLike narrow root part ref (searchWithin wide depth) (searchWithin narrow depth) := by
  induction depth with
  | zero => exact fun _ _ _ _ _ _ _ => .exhausted
  | succ depth ih =>
      intro schema schema' same composes seen seen' beside
      simp only [searchWithin, recordShapedWithin, recordShapedStep, isAlternative_eq same,
        isObject_eq same]
      split
      · exact .done ⟨rfl, beside⟩
      split
      · exact .done ⟨rfl, beside⟩
      rcases same.members with ⟨rfl, unlisted⟩ | ⟨items, items', listed, listed', members⟩
      · split
        · rename_i items listed
          exact absurd listed (unlisted items)
        · exact .done ⟨rfl, beside⟩
      · rw [listed, listed']
        exact h.anyRecordShaped_like ih composes (parts_of_list listed') members
          (List.Subset.refl _) beside

theorem Overlooks.isRecordShaped_eq (h : Overlooks wide narrow root part ref) {schema : Mapping}
    (same : Like [.object part] [] (.object schema) (.object root)) :
    isRecordShaped wide (.object schema) = isRecordShaped narrow (.object root) := by
  have walked := h.searchWithin_like
    (depthBound wide (.object schema) + depthBound narrow (.object root)) same .self
    (fun other _ => Iff.rfl : Beside ref [] [])
  exact eq_of_answersLike (isRecordShaped_settled wide (.object schema) (Nat.le_add_right _ _))
    (isRecordShaped_settled narrow (.object root) (Nat.le_add_left _ _)) walked

/-! ## Parts behind an alias -/

/-- A part that refers to a target where every reference leads somewhere, and in its place another
one that leads to the target through new definitions. -/
structure Rerouted (spot : Spot) (wide : Table) (direct aliased : Mapping)
    (target detour : String) : Prop where
  straight : direct.field "$ref" = .text target
  intact : Intact (spot.table [.object direct]) (spot.root [.object direct])
  detoured : aliased.field "$ref" = .text detour
  new : ∀ schema, (spot.table [.object direct]).resolve detour ≠ .ok schema
  extends_table : (spot.table [.object aliased]).Extends wide
  chain : AliasChain wide target detour

variable {spot : Spot} {direct aliased : Mapping} {target detour : String}

theorem Rerouted.overlooks (h : Rerouted spot wide direct aliased target detour) :
    Overlooks wide (spot.table []) (spot.root []) aliased detour := by
  refine ⟨h.detoured, h.chain.exists_next, ?_⟩
  intro other refers
  obtain ⟨schema, resolved⟩ := h.intact other (spot.refersDown refers)
  refine ⟨?_, ?_⟩
  · rintro rfl
    exact h.new schema resolved
  · obtain ⟨bare, resolvedBare, _⟩ := spot.resolve_like resolved
    obtain ⟨filled, resolvedFilled, like⟩ := spot.resolve_like resolvedBare
    exact ⟨filled, bare, kept_resolve h.extends_table other resolvedFilled, resolvedBare,
      like.symm⟩

/-- A part behind an alias adds nothing to the properties and the required names. -/
theorem Rerouted.flatten_eq (h : Rerouted spot wide direct aliased target detour) :
    flatten wide (spot.root [.object aliased]) = flatten (spot.table []) (spot.root []) :=
  h.overlooks.flatten_eq spot.like_root

theorem Rerouted.isRecordShaped_eq (h : Rerouted spot wide direct aliased target detour) :
    isRecordShaped wide (.object (spot.root [.object aliased])) =
      isRecordShaped (spot.table []) (.object (spot.root [])) :=
  h.overlooks.isRecordShaped_eq spot.like_root

/-- A part that leads to its target through aliases instead of directly keeps the properties and
the required names, and whether the schema is record-shaped, exactly if all that stays the same
without the part. -/
theorem aliased_part_keeps_iff (h : Rerouted spot wide direct aliased target detour) :
    (flatten wide (spot.root [.object aliased]) =
        flatten (spot.table [.object direct]) (spot.root [.object direct]) ↔
      flatten (spot.table []) (spot.root []) =
        flatten (spot.table [.object direct]) (spot.root [.object direct])) ∧
    (isRecordShaped wide (.object (spot.root [.object aliased])) =
        isRecordShaped (spot.table [.object direct]) (.object (spot.root [.object direct])) ↔
      isRecordShaped (spot.table []) (.object (spot.root [])) =
        isRecordShaped (spot.table [.object direct]) (.object (spot.root [.object direct]))) := by
  rw [h.flatten_eq, h.isRecordShaped_eq]
  exact ⟨Iff.rfl, Iff.rfl⟩

/-- A table may get definitions behind its own ones. -/
theorem extends_append (table : Table) (added : Mapping) :
    table.Extends ⟨table.root, table.definitions ++ added⟩ := by
  refine ⟨rfl, ?_, ?_⟩
  · intro name value found
    exact (Mapping.get?_append _ _ _).trans (by rw [show Mapping.get? _ _ = _ from found]; rfl)
  · rw [Value.mappingSize_append]
    exact Nat.le_add_right _ _

def baseTable : Table where
  root := "#/definitions/"
  definitions := [
    (.text "Base", .ofFields [
      ("properties", .ofFields [("id", .ofFields [("type", .text "integer")])]),
      ("required", .list [.text "id"])])]

/-- A definition with a part in a part of it. -/
def ownerSpot : Spot :=
  .definition baseTable "Owner"
    (.inside [(.text "properties", .ofFields [("name", .ofFields [("type", .text "string")])])] []
      (.among [] [] []) [])
    [(.text "allOf", .list [refTo "Owner"])]

/-- A schema with no other part. -/
def soleSpot : Spot := .schema baseTable (.among [] [] [])

def basePart : Mapping := refSchema "#/definitions/Base"

def aliasPart : Mapping := refSchema "#/definitions/Alias"

/-- Two new definitions, of which the first one leads to the second and this one to the base. -/
def withAliases (table : Table) : Table where
  root := table.root
  definitions := table.definitions ++ [
    (.text "Alias", .object (refSchema "#/definitions/Second")),
    (.text "Second", .object basePart)]

theorem rerouted_of_checked {spot : Spot}
    (shallow : isShallow (spot.table [.object basePart]) 4 (spot.root [.object basePart]) = true)
    (resolves : ∀ ref ∈ references (spot.table [.object basePart]) 4 (spot.root [.object basePart]),
      ((spot.table [.object basePart]).resolve ref).toOption.isSome = true)
    (new : ((spot.table [.object basePart]).resolve "#/definitions/Alias").toOption.isNone = true)
    (first : (withAliases (spot.table [.object aliasPart])).resolve "#/definitions/Alias" =
      .ok (refSchema "#/definitions/Second"))
    (second : (withAliases (spot.table [.object aliasPart])).resolve "#/definitions/Second" =
      .ok basePart) :
    Rerouted spot (withAliases (spot.table [.object aliasPart])) basePart aliasPart
      "#/definitions/Base" "#/definitions/Alias" where
  straight := rfl
  intact := (isShallow_iff.mp shallow).intact resolves
  detoured := rfl
  new schema resolved := by simp [resolved, Except.toOption] at new
  extends_table := extends_append _ _
  chain := .next first (.last second)

theorem rerouted_ownerSpot :
    Rerouted ownerSpot (withAliases (ownerSpot.table [.object aliasPart])) basePart aliasPart
      "#/definitions/Base" "#/definitions/Alias" :=
  rerouted_of_checked (by decide +kernel) (by decide +kernel) (by decide +kernel) rfl rfl

/-- Behind an alias the base of an owner is lost. The owner is record-shaped without it. -/
theorem aliased_part_of_ownerSpot :
    flatten (withAliases (ownerSpot.table [.object aliasPart]))
        (ownerSpot.root [.object aliasPart]) ≠
      flatten (ownerSpot.table [.object basePart]) (ownerSpot.root [.object basePart]) ∧
    isRecordShaped (withAliases (ownerSpot.table [.object aliasPart]))
        (.object (ownerSpot.root [.object aliasPart])) =
      isRecordShaped (ownerSpot.table [.object basePart])
        (.object (ownerSpot.root [.object basePart])) := by
  obtain ⟨inherited, shaped⟩ := aliased_part_keeps_iff rerouted_ownerSpot
  have bare : isRecordShaped (ownerSpot.table []) (.object (ownerSpot.root [])) = .ok true := rfl
  have full : isRecordShaped (ownerSpot.table [.object basePart])
      (.object (ownerSpot.root [.object basePart])) = .ok true := rfl
  refine ⟨inherited.not.mpr ?_, shaped.mpr (bare.trans full.symm)⟩
  intro same
  have keys := congrArg (fun result => result.toOption.map (·.properties.keys)) same
  revert keys
  decide +kernel

/-- The keys of what is inherited, and whether one of them is required. -/
def outline (table : Table) (schema : Mapping) (name : String) : Option (List Key × Bool) :=
  (flatten table schema).toOption.map fun flat =>
    (flat.properties.keys, flat.requirement.requires (.text name))

/-- A composition of the base alone has its property, and behind an alias it has none and is no
record any more. -/
theorem fields_lost_behind_alias :
    Rerouted soleSpot (withAliases (soleSpot.table [.object aliasPart])) basePart aliasPart
        "#/definitions/Base" "#/definitions/Alias" ∧
      outline (soleSpot.table [.object basePart]) (soleSpot.root [.object basePart]) "id" =
        some ([.text "id"], true) ∧
      outline (withAliases (soleSpot.table [.object aliasPart]))
        (soleSpot.root [.object aliasPart]) "id" = some ([], false) ∧
      isRecordShaped (soleSpot.table [.object basePart])
        (.object (soleSpot.root [.object basePart])) = .ok true ∧
      isRecordShaped (withAliases (soleSpot.table [.object aliasPart]))
        (.object (soleSpot.root [.object aliasPart])) = .ok false := by
  refine ⟨?_, by decide +kernel, by decide +kernel, rfl, rfl⟩
  exact rerouted_of_checked (by decide +kernel) (by decide +kernel) (by decide +kernel) rfl rfl

end ApiBinding.Schema
