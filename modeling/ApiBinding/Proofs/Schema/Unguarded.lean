import ApiBinding.Proofs.Schema.Acyclic

/-! The memory of the references that were followed does not change the properties of a schema.
Where compositions have no circles, passing over a part that was followed before leaves out only
properties that are declared already. -/

namespace ApiBinding

namespace Schema

variable {table : Table} {schema : Mapping}

/-! ## Inheritance without memory -/

/-- Adds the properties of a part, be it followed before or not. -/
def unguardedPart (table : Table) (walk : Mapping → Except Failure Mapping)
    (properties part : Mapping) : Except Failure Mapping :=
  match part.field "$ref" with
  | .text ref => do
    let target ← table.resolve ref
    let inherited ← walk target
    .ok (properties.extend inherited)
  | _ => do
    let inherited ← walk part
    .ok (properties.extend inherited)

/-- The properties of the parts from left to right, and then the schema's own; of several
declarations the first one counts. -/
def unguardedStep (table : Table) (walk : Mapping → Except Failure Mapping) (schema : Mapping) :
    Except Failure Mapping := do
  let members ← parts schema
  let inherited ← members.foldlM (unguardedPart table walk) []
  .ok (inherited.extend (ownProperties schema))

def unguardedWithin (table : Table) : Nat → Mapping → Except Failure Mapping
  | 0 => fun _ => .error (.defect .depthExhausted)
  | depth + 1 => unguardedStep table (unguardedWithin table depth)

/-- The own and inherited properties of a schema, where every part is followed as often as it is
met. -/
def unguardedProperties (table : Table) (schema : Mapping) : Except Failure Mapping :=
  unguardedWithin table (depthBound table (.object schema)) schema

theorem unguardedPart_of_ref {walk : Mapping → Except Failure Mapping} {properties part : Mapping}
    {ref : String} (href : part.field "$ref" = .text ref) :
    unguardedPart table walk properties part =
      table.resolve ref >>= fun target => walk target >>= fun inherited =>
        .ok (properties.extend inherited) := by
  simp only [unguardedPart, href]

theorem unguardedPart_of_own {walk : Mapping → Except Failure Mapping} {properties part : Mapping}
    (own : ∀ ref, part.field "$ref" ≠ .text ref) :
    unguardedPart table walk properties part =
      walk part >>= fun inherited => .ok (properties.extend inherited) := by
  unfold unguardedPart
  split
  · rename_i ref href
    exact (own ref href).elim
  · rfl

theorem unguardedPart_eq_ok_iff {walk : Mapping → Except Failure Mapping}
    {properties after : Mapping} :
    unguardedPart table walk properties part = .ok after ↔
      ∃ inner full, StandsFor table part inner ∧ walk inner = .ok full ∧
        after = properties.extend full := by
  by_cases own : ∀ ref, part.field "$ref" ≠ .text ref
  · rw [unguardedPart_of_own own, bind_eq_ok_iff]
    constructor
    · rintro ⟨full, walked, same⟩
      exact ⟨part, full, .inline own, walked, (Except.ok.inj same).symm⟩
    · rintro ⟨inner, full, stands, walked, rfl⟩
      obtain rfl := stands.unique (.inline own)
      exact ⟨full, walked, rfl⟩
  push Not at own
  obtain ⟨ref, href⟩ := own
  simp only [unguardedPart_of_ref href, bind_eq_ok_iff]
  constructor
  · rintro ⟨target, resolved, full, walked, same⟩
    exact ⟨target, full, .target href resolved, walked, (Except.ok.inj same).symm⟩
  · rintro ⟨inner, full, stands, walked, rfl⟩
    exact ⟨inner, stands.resolve href, full, walked, rfl⟩

theorem unguardedPart_congr {walk walk' : Mapping → Except Failure Mapping} {part : Mapping}
    (agree : ∀ inner, StandsFor table part inner → walk inner = walk' inner)
    (properties : Mapping) :
    unguardedPart table walk properties part = unguardedPart table walk' properties part := by
  unfold unguardedPart
  split
  · rename_i ref href
    cases resolved : table.resolve ref with
    | error failure => rfl
    | ok target => simp only [bind, Except.bind, agree target (.target href resolved)]
  · rename_i own
    rw [agree part (.inline own)]

/-- A step asks for the parts of the schema only. -/
theorem unguardedStep_congr {walk walk' : Mapping → Except Failure Mapping}
    (agree : ∀ inner, HasPart table schema inner → walk inner = walk' inner) :
    unguardedStep table walk schema = unguardedStep table walk' schema := by
  unfold unguardedStep
  cases found : parts schema with
  | error failure => rfl
  | ok members =>
      have folded : members.foldlM (unguardedPart table walk) [] =
          members.foldlM (unguardedPart table walk') [] := by
        refine foldlM_congr (fun properties part member => ?_) []
        exact unguardedPart_congr (fun inner stands => agree inner (.intro found member stands))
          properties
      simp only [bind, Except.bind, folded]

/-- A depth that is enough for every chain of parts gives the same as any larger one. -/
theorem Shallow.unguardedWithin_eq {few depth depth' : Nat} (shallow : Shallow table few schema)
    (enough : few ≤ depth) (enough' : few ≤ depth') :
    unguardedWithin table depth schema = unguardedWithin table depth' schema := by
  induction shallow generalizing depth depth' with
  | intro _ ih =>
      obtain ⟨depth, rfl⟩ : ∃ less, depth = less + 1 := ⟨depth - 1, by omega⟩
      obtain ⟨depth', rfl⟩ : ∃ less, depth' = less + 1 := ⟨depth' - 1, by omega⟩
      refine unguardedStep_congr ?_
      intro inner step
      exact ih inner step (by omega) (by omega)

/-- Without circles the bound on the depth does not show. -/
theorem Acyclic.unguardedProperties_eq (acyclic : Acyclic table schema) :
    unguardedProperties table schema = unguardedStep table (unguardedProperties table) schema := by
  have shallow := acyclic.shallow
  unfold unguardedProperties
  generalize depthBound table (.object schema) = depth at shallow
  obtain ⟨below⟩ := shallow
  refine unguardedStep_congr ?_
  intro inner step
  rcases Nat.le_total ‹Nat› (depthBound table (.object inner)) with few | many
  · exact (below inner step).unguardedWithin_eq (Nat.le_refl _) few
  · exact (acyclic.part step).shallow.unguardedWithin_eq many (Nat.le_refl _)

theorem distinct_unguardedStep {walk : Mapping → Except Failure Mapping} :
    Ends (unguardedStep table walk schema) Mapping.Distinct (fun _ => True) := by
  have anything {α : Type} {result : Except Failure α} :
      Ends result (fun _ => True) (fun _ => True) := ⟨fun _ => trivial, fun _ => trivial⟩
  refine Ends.bind anything ?_
  intro members _
  refine Ends.bind (Ends.foldlM ?_ Mapping.distinct_nil) ?_
  · intro properties distinct part _
    unfold unguardedPart
    split
    · refine Ends.bind anything fun target _ => Ends.bind anything fun inherited _ => ?_
      exact .ok (distinct.extend inherited)
    · refine Ends.bind anything fun inherited _ => ?_
      exact .ok (distinct.extend inherited)
  · intro inherited distinct
    exact .ok (distinct.extend (ownProperties schema))

/-! ## The two ways of inheriting -/

/-- All properties of a schema are declared in a mapping. -/
def Absorbs (table : Table) (properties schema : Mapping) : Prop :=
  ∃ full, unguardedProperties table schema = .ok full ∧ properties.extend full = properties

theorem Absorbs.extend {properties : Mapping} (h : Absorbs table properties schema)
    (added : Mapping) : Absorbs table (properties.extend added) schema := by
  obtain ⟨full, computed, present⟩ := h
  refine ⟨full, computed, ?_⟩
  rw [Mapping.extend_eq_self_iff] at present ⊢
  intro entry member
  rw [Mapping.get?_extend, Option.isSome_or, present entry member, Bool.true_or]

/-- A reference was followed to the end: all that it adds is declared. -/
def Followed (table : Table) (properties : Mapping) (ref : String) : Prop :=
  ∃ target, table.resolve ref = .ok target ∧ Absorbs table properties target

theorem Followed.extend {properties : Mapping} {ref : String}
    (h : Followed table properties ref) (added : Mapping) :
    Followed table (properties.extend added) ref := by
  obtain ⟨target, resolved, absorbs⟩ := h
  exact ⟨target, resolved, absorbs.extend added⟩

/-- Before a walk through a schema, of the references that were begun all are at their end that
the schema refers to. The others may be on the way to it. -/
def Ready (table : Table) (properties : Mapping) (seen : List String) (schema : Mapping) : Prop :=
  ∀ ref ∈ seen, RefersDown table schema ref → Followed table properties ref

/-- What is gathered with and without memory comes to the same behind what was declared before,
and each reference that was begun since is at its end. -/
structure Matches (table : Table) (before : Mapping) (seen : List String) (guarded full : Mapping)
    (later : List String) : Prop where
  same : before.extend guarded = before.extend full
  followed : ∀ ref ∈ later, ref ∈ seen ∨ Followed table (before.extend full) ref

theorem matches_nil (table : Table) (before : Mapping) (seen : List String) :
    Matches table before seen [] [] seen :=
  ⟨rfl, fun _ member => .inl member⟩

/-- What a part adds follows what was gathered before it. -/
theorem Matches.trans {before guarded full inner innerFull : Mapping}
    {seen middle later : List String} (h : Matches table before seen guarded full middle)
    (h' : Matches table (before.extend full) middle inner innerFull later) :
    Matches table before seen (guarded.extend inner) (full.extend innerFull) later := by
  refine ⟨?_, ?_⟩
  · rw [Mapping.extend_extend, h.same, h'.same, Mapping.extend_extend]
  · intro ref member
    rw [Mapping.extend_extend]
    rcases h'.followed ref member with early | done
    · exact (h.followed ref early).imp_right fun done => done.extend innerFull
    · exact .inr done

/-- Before a part, as before the whole. -/
theorem Matches.ready {before guarded full : Mapping} {seen later : List String}
    (h : Matches table before seen guarded full later) (ready : Ready table before seen schema)
    {inner : Mapping} (step : HasPart table schema inner) :
    Ready table (before.extend full) later inner := by
  intro ref member refers
  rcases h.followed ref member with early | done
  · exact (ready ref early (refers.head step)).extend full
  · exact done

/-- A reference that was begun is at its end once the properties of its target are there. -/
theorem Matches.follow {before guarded full : Mapping} {seen later : List String} {ref : String}
    {target : Mapping} (h : Matches table before (ref :: seen) guarded full later)
    (resolved : table.resolve ref = .ok target)
    (computed : unguardedProperties table target = .ok full) :
    Matches table before seen guarded full later := by
  refine ⟨h.same, ?_⟩
  intro other member
  rcases h.followed other member with (_ | ⟨_, early⟩) | done
  · exact .inr ⟨target, resolved, full, computed, Mapping.extend_extend_self before full⟩
  · exact .inl early
  · exact .inr done

theorem endsLike_gatherPart {members : List Mapping} {part before : Mapping} {seen : List String}
    {walk : List String → Mapping → Except Failure (Flattened × List String)}
    (acyclic : Acyclic table schema) (found : parts schema = .ok members)
    (member : part ∈ members)
    (hwalk : ∀ {inner properties later}, HasPart table schema inner →
      Ready table properties later inner →
      EndsLike (fun answer full => Matches table properties later answer.1.properties full answer.2)
        (walk later inner) (unguardedProperties table inner))
    (ready : Ready table before seen schema) {gathered : Gathering} {full : Mapping}
    (matched : Matches table before seen gathered.properties full gathered.seen) :
    EndsLike (fun after full => Matches table before seen after.properties full after.seen)
      (gatherPart table walk gathered part)
      (unguardedPart table (unguardedProperties table) full part) := by
  by_cases own : ∀ ref, part.field "$ref" ≠ .text ref
  · rw [gatherPart_of_own own, unguardedPart_of_own own]
    have step : HasPart table schema part := .intro found member (.inline own)
    refine (hwalk step (matched.ready ready step)).bind ?_
    intro answer inherited inner
    exact .done (matched.trans inner)
  push Not at own
  obtain ⟨ref, href⟩ := own
  rw [gatherPart_of_ref href, unguardedPart_of_ref href]
  split
  · rename_i begun
    -- The reference is at its end, since the schema refers to it.
    have here : RefersDown table schema ref := .intro .self found member href
    have done : Followed table (before.extend full) ref := by
      rcases matched.followed ref (by simpa using begun) with early | done
      · exact (ready ref early here).extend full
      · exact done
    obtain ⟨target, resolved, inherited, computed, present⟩ := done
    simp only [resolved, computed, bind, Except.bind]
    refine .done ⟨?_, ?_⟩
    · rw [Mapping.extend_extend, present, matched.same]
    · rw [Mapping.extend_extend, present]
      exact matched.followed
  · refine EndsLike.rfl.bind ?_
    rintro target _ ⟨rfl, resolved⟩
    have step : HasPart table schema target := .intro found member (.target href resolved)
    have onward : Ready table (before.extend full) (ref :: gathered.seen) target := by
      refine List.forall_mem_cons.mpr ⟨?_, matched.ready ready step⟩
      intro refers
      exact ((acyclic.part step).not_refersDown resolved refers).elim
    refine (hwalk step onward).found.bind ?_
    rintro answer inherited ⟨⟨-, computed⟩, inner⟩
    exact .done (matched.trans (inner.follow resolved computed))

/-- The induction is on the depth; it is carried by what the references that were begun have
added. -/
theorem endsLike_flattenWithin (depth : Nat) {before : Mapping} {seen : List String}
    (acyclic : Acyclic table schema) (ready : Ready table before seen schema) :
    EndsLike (fun answer full => Matches table before seen answer.1.properties full answer.2)
      (flattenWithin table depth seen schema) (unguardedProperties table schema) := by
  induction depth generalizing before seen schema with
  | zero => exact .exhausted
  | succ depth ih =>
      rw [acyclic.unguardedProperties_eq]
      simp only [flattenWithin, flattenStep_eq, unguardedStep]
      refine EndsLike.rfl.bind ?_
      rintro members _ ⟨rfl, found⟩
      let alike (gathered : Gathering) (full : Mapping) : Prop :=
        Matches table before seen gathered.properties full gathered.seen
      have start : alike ⟨[], [], seen⟩ [] := matches_nil table before seen
      refine EndsLike.bind (EndsLike.foldlM ?_ start) ?_
      · intro gathered full matched part member
        exact endsLike_gatherPart acyclic found member
          (fun step ready => ih (acyclic.part step) ready) ready matched
      · intro gathered full matched
        exact .done (matched.trans ⟨rfl, fun _ member => .inl member⟩)

/-- The two ways of inheriting end alike, as nothing is declared before the whole. -/
theorem endsLike_flatten (acyclic : Acyclic table schema) :
    EndsLike (fun flat full => flat.properties = full) (flatten table schema)
      (unguardedProperties table schema) := by
  have ready : Ready table [] [] schema := by simp [Ready]
  have distinct : Ends (unguardedProperties table schema) Mapping.Distinct (fun _ => True) := by
    rw [acyclic.unguardedProperties_eq]
    exact distinct_unguardedStep
  have walked := endsLike_flattenWithin (depthBound table (.object schema)) acyclic ready
  have alike : EndsLike
      (fun flat full => Mapping.extend [] flat.properties = Mapping.extend [] full)
      (flatten table schema) (unguardedProperties table schema) :=
    EndsLike.map (walked.mono fun _ _ matched => matched.same)
  refine alike.found.mono ?_
  rintro flat full ⟨⟨gathered, computed⟩, same⟩
  rwa [((ends_flatten table schema).holds gathered).distinct.nil_extend,
    (distinct.holds computed).nil_extend] at same

theorem unguardedProperties_of_flatten (acyclic : Acyclic table schema) {flat : Flattened}
    (h : flatten table schema = .ok flat) :
    unguardedProperties table schema = .ok flat.properties := by
  have alike := endsLike_flatten acyclic
  rw [h] at alike
  generalize unguardedProperties table schema = unguarded at *
  cases alike with
  | done same => rw [same]

theorem flatten_of_unguardedProperties (acyclic : Acyclic table schema) {full : Mapping}
    (h : unguardedProperties table schema = .ok full) :
    ∃ flat, flatten table schema = .ok flat ∧ flat.properties = full := by
  have alike := endsLike_flatten acyclic
  have reached := (flatten_settled table schema (le_refl _)).reached
  rw [h] at alike
  generalize flatten table schema = guarded at *
  cases alike with
  | exhausted => exact absurd rfl reached
  | done same => exact ⟨_, rfl, same⟩

/-- Without circles among the compositions: the properties of a schema are the same, with the
same values and in the same order, as if each part were followed as often as it is met, and where
the one way fails, so does the other. -/
theorem properties_eq_unguardedProperties (acyclic : Acyclic table schema) :
    (flatten table schema).map (·.properties) = unguardedProperties table schema := by
  have alike := endsLike_flatten acyclic
  have reached := (flatten_settled table schema (le_refl _)).reached
  generalize flatten table schema = guarded at *
  generalize unguardedProperties table schema = unguarded at *
  cases alike with
  | exhausted => exact absurd rfl reached
  | failed failure => rfl
  | done same => exact congrArg Except.ok same

/-- Two schemas with one base, of which the second one declares a property of the base, too. -/
def diamondTable : Table where
  root := "#/definitions/"
  definitions := [
    (.text "Base", .ofFields [("properties", .ofFields [
      ("id", .ofFields [("type", .text "integer")]),
      ("kind", .ofFields [("type", .text "string")])])]),
    (.text "Left", .ofFields [
      ("allOf", .list [refTo "Base"]),
      ("properties", .ofFields [("kind", .ofFields [("type", .text "boolean")])])]),
    (.text "Right", .ofFields [
      ("allOf", .list [
        .ofFields [("properties", .ofFields [("kind", .ofFields [("type", .text "number")])])],
        refTo "Base"]),
      ("properties", .ofFields [("weight", .ofFields [("type", .text "number")])])])]

def diamondSchema : Mapping := [
  (.text "allOf", .list [refTo "Left", refTo "Right"]),
  (.text "properties", .ofFields [("id", .ofFields [("type", .text "string")])])]

/-- By itself the right side has its own kind first; in the whole that of the base comes before,
and the base is passed over on the right. -/
theorem properties_of_diamondSchema :
    Acyclic diamondTable diamondSchema ∧
      (flatten diamondTable diamondSchema).map (·.properties) =
        unguardedProperties diamondTable diamondSchema ∧
      ((unguardedProperties diamondTable diamondSchema).map Mapping.keys).toOption =
        some [.text "id", .text "kind", .text "weight"] := by
  have acyclic : Acyclic diamondTable diamondSchema := by decide +kernel
  exact ⟨acyclic, properties_eq_unguardedProperties acyclic, by decide +kernel⟩

end Schema

end ApiBinding
