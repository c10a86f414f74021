import ApiBinding.Proofs.Schema.Gathering

/-! The required names of a composition. What the list of a part requires is required in the
whole, unless it stands in a definition that is followed on the way through a part whose own
word goes before all lists. -/

namespace ApiBinding.Schema

variable {table : Table} {schema part : Mapping} {key : Key}

/-! ## Lists of names -/

/-- A schema with a truth value in the place of its list of required names. As an object it
requires all of its properties or none of them, and as a property it is required or not. -/
def IsFlagged (schema : Mapping) : Prop :=
  ∃ required, schema.field "required" = .bool required

instance (schema : Mapping) : Decidable (IsFlagged schema) :=
  match kind : schema.field "required" with
  | .bool required => isTrue ⟨required, kind⟩
  | .null | .int _ | .float _ | .date _ | .text _ | .list _ | .object _ =>
    isFalse fun ⟨required, same⟩ => by simp [kind] at same

/-- The names in the list of a schema. -/
def ownRequired (schema : Mapping) : List Value :=
  match schema.field "required" with
  | .list names => names
  | _ => []

/-- A key is among some required names. -/
def Names (names : List Value) (key : Key) : Prop :=
  (Requirement.listed names).requires key = true

@[simp] theorem not_names_nil : ¬ Names [] key := by
  simp [Names, Requirement.requires]

@[simp] theorem names_append {names others : List Value} :
    Names (names ++ others) key ↔ Names names key ∨ Names others key := by
  simp [Names, Requirement.requires, List.filterMap_append]

theorem requirement_finish (gathered : Gathering) (h : ¬ IsFlagged schema) :
    (gathered.finish schema).requirement =
      .listed (gathered.required ++ ownRequired schema) := by
  unfold Gathering.finish ownRequired
  cases kind : schema.field "required" with
  | bool required => exact (h ⟨required, kind⟩).elim
  | _ => simp

/-- A finished part adds its names, unless it is flagged. -/
theorem names_absorb_finish {gathered own : Gathering} {inner : Mapping} {seen : List String} :
    Names (gathered.absorb (own.finish inner) seen).required key ↔
      Names gathered.required key ∨
        ¬ IsFlagged inner ∧ (Names own.required key ∨ Names (ownRequired inner) key) := by
  by_cases flagged : IsFlagged inner
  · obtain ⟨required, kind⟩ := flagged
    simp [Gathering.absorb, Gathering.finish, IsFlagged, kind]
  · simp [Gathering.absorb, requirement_finish own flagged, flagged]

/-- A key is in the list of a schema, or of a part of it down to which no schema is flagged. -/
inductive Obliges (table : Table) (key : Key) : Mapping → Prop where
  | own {schema : Mapping} : ¬ IsFlagged schema → Names (ownRequired schema) key →
      Obliges table key schema
  | part {schema inner : Mapping} : ¬ IsFlagged schema → HasPart table schema inner →
      Obliges table key inner → Obliges table key schema

theorem Obliges.not_flagged (h : Obliges table key schema) : ¬ IsFlagged schema := by
  cases h with
  | own listing _ => exact listing
  | part listing _ _ => exact listing

/-! ## Names that are gathered -/

variable {gathered after : Gathering} {members rest : List Mapping} {ref : String}

theorem Gathers.names (h : Gathers table gathered members after)
    (named : Names gathered.required key) : Names after.required key := by
  induction h with
  | nil gathered => exact named
  | pass _ _ _ ih => exact ih named
  | enter _ _ _ _ _ ihRest => exact ihRest (names_absorb_finish.mpr (.inl named))

/-- A name that is gathered from some parts is in the list of one of them. -/
theorem Gathers.obliges (h : Gathers table gathered members after)
    (named : Names after.required key) :
    Names gathered.required key ∨
      ∃ part ∈ members, ∃ inner, StandsFor table part inner ∧ Obliges table key inner := by
  induction h with
  | nil gathered => exact .inl named
  | pass _ _ _ ih =>
      refine (ih named).imp_right ?_
      rintro ⟨part, member, inner⟩
      exact ⟨part, List.mem_cons_of_mem _ member, inner⟩
  | @enter gathered part rest after inner begun members own enters found gathers others ihOwn
      ihRest =>
      rcases ihRest named with named | ⟨part, member, inner⟩
      · rcases names_absorb_finish.mp named with named | ⟨listing, named⟩
        · exact .inl named
        · refine .inr ⟨part, List.mem_cons_self, inner, enters.standsFor, ?_⟩
          rcases named with named | named
          · rcases ihOwn named with none | ⟨part, member, other, stands, obliges⟩
            · exact (not_names_nil none).elim
            · exact .part listing (.intro found member stands) obliges
          · exact .own listing named
      · exact .inr ⟨part, List.mem_cons_of_mem _ member, inner⟩

/-- What a schema gathers for itself and lists is a name that it requires. -/
theorem Gathers.obliges_self {seen : List String} {own : Gathering}
    (h : Gathers table ⟨[], [], seen⟩ members own) (found : parts schema = .ok members)
    (listing : ¬ IsFlagged schema)
    (named : Names own.required key ∨ Names (ownRequired schema) key) :
    Obliges table key schema := by
  rcases named with named | named
  · rcases h.obliges named with none | ⟨part, member, inner, stands, obliges⟩
    · exact (not_names_nil none).elim
    · exact .part listing (.intro found member stands) obliges
  · exact .own listing named

/-! ## References that convey a name -/

/-- A part refers to a definition that requires a key. -/
structure Conveys (table : Table) (key : Key) (part : Mapping) (ref : String) : Prop where
  refers : RefersAmong table [part] ref
  obliges : ∃ target, table.resolve ref = .ok target ∧ Obliges table key target

/-- No flagged schema among some parts refers to a definition that conveys a key to a later
part. -/
def Unhidden (table : Table) (key : Key) (part : Mapping) (members : List Mapping) : Prop :=
  ∀ earlier ∈ members, ∀ inner owner, StandsFor table earlier inner →
    Composes table inner owner → IsFlagged owner →
      ∀ ref, RefersDown table owner ref → ¬ Conveys table key part ref

theorem Unhidden.inner {inner : Mapping} (h : Unhidden table key part members)
    {earlier : Mapping} (member : earlier ∈ members) (stands : StandsFor table earlier inner)
    {inside : List Mapping} (found : parts inner = .ok inside) :
    Unhidden table key part inside :=
  fun _ member' _ _ stands' composes =>
    h _ member inner _ stands (composes.head (.intro found member' stands'))

/-- Some parts were gathered without a key: no reference was begun that conveys it to a later
part, and if the later part refers to all that they refer to, none of them requires the key. -/
structure Mute (table : Table) (key : Key) (part : Mapping) (members : List Mapping)
    (seen later : List String) : Prop where
  begun : ∀ ref ∈ later, Conveys table key part ref → ref ∈ seen
  silent : (∀ ref, RefersAmong table members ref → RefersAmong table [part] ref) →
    ∀ member ∈ members, ∀ inner, StandsFor table member inner → ¬ Obliges table key inner

/-- An entered part that does not give a key. The names of a flagged schema are lost; but then
none of its references conveys the key. -/
theorem Mute.of_entered {inner : Mapping} {seen : List String} {own : Gathering}
    (found : parts inner = .ok members) (gathers : Gathers table ⟨[], [], seen⟩ members own)
    (hidden : IsFlagged inner → ∀ ref, RefersDown table inner ref → ¬ Conveys table key part ref)
    (unlisted : ¬ IsFlagged inner → ¬ Names (ownRequired inner) key)
    (mute : ¬ IsFlagged inner → Mute table key part members seen own.seen) :
    (∀ ref ∈ own.seen, Conveys table key part ref → ref ∈ seen) ∧
      ((∀ ref, RefersDown table inner ref → RefersAmong table [part] ref) →
        ¬ Obliges table key inner) := by
  by_cases flagged : IsFlagged inner
  · refine ⟨?_, fun _ obliges => obliges.not_flagged flagged⟩
    intro ref member conveys
    refine (gathers.refersAmong member).resolve_right fun refers => ?_
    exact hidden flagged ref ((refersDown_iff found).mpr refers) conveys
  · obtain ⟨begun, silent⟩ := mute flagged
    refine ⟨begun, ?_⟩
    rintro among (⟨_, named⟩ | ⟨_, ⟨found', member, stands⟩, obliges⟩)
    · exact unlisted flagged named
    · obtain rfl := Except.ok.inj (found.symm.trans found')
      exact silent (fun ref refers => among ref ((refersDown_iff found).mpr refers)) _ member _
        stands obliges

/-- While a key is not gathered, no reference that conveys it is followed. -/
theorem Gathers.mute (h : Gathers table gathered members after)
    (acyclic : AcyclicParts table members) (unhidden : Unhidden table key part members)
    (fresh : ∀ ref ∈ gathered.seen, RefersAmong table members ref →
      ¬ Conveys table key part ref)
    (unnamed : ¬ Names after.required key) :
    Mute table key part members gathered.seen after.seen := by
  induction h with
  | nil gathered => exact ⟨fun ref member _ => member, by simp⟩
  | @pass gathered first rest after own href begun others ih =>
      obtain ⟨_, acyclicRest⟩ := List.forall_mem_cons.mp acyclic
      obtain ⟨_, unhiddenRest⟩ := List.forall_mem_cons.mp unhidden
      obtain ⟨still, silent⟩ := ih acyclicRest unhiddenRest
        (fun ref member refers => fresh ref member (refers.mono (by simp))) unnamed
      refine ⟨still, ?_⟩
      intro among
      refine List.forall_mem_cons.mpr
        ⟨?_, silent fun ref refers => among ref (refers.mono (by simp))⟩
      intro inner stands obliges
      have here : RefersAmong table (first :: rest) own := .here List.mem_cons_self href
      exact fresh own begun here ⟨among own here, inner, stands.resolve href, obliges⟩
  | @enter gathered first rest after inner begun members own enters found gathers others ihOwn
      ihRest =>
      obtain ⟨acyclicFirst, acyclicRest⟩ := List.forall_mem_cons.mp acyclic
      obtain ⟨unhiddenFirst, unhiddenRest⟩ := List.forall_mem_cons.mp unhidden
      have acyclicInner := acyclicFirst inner enters.standsFor
      have unnamedOwn := fun named => unnamed (others.names (names_absorb_finish.mpr named))
      have inside {ref : String} (refers : RefersDown table inner ref) :
          RefersAmong table (first :: rest) ref :=
        .below List.mem_cons_self enters.standsFor refers
      -- Without circles a target does not refer to itself, so the new reference does not count.
      have freshOwn : ∀ ref ∈ begun, RefersAmong table members ref →
          ¬ Conveys table key part ref := by
        intro ref member refers
        have down := (refersDown_iff found).mpr refers
        rcases enters.mem_iff.mp member with member | href
        · exact fresh ref member (inside down)
        · exact (acyclicInner.not_refersDown (enters.standsFor.resolve href) down).elim
      obtain ⟨beforeOwn, silentOwn⟩ := Mute.of_entered found gathers
        (unhiddenFirst inner inner enters.standsFor .self)
        (fun listing named => unnamedOwn (.inr ⟨listing, .inr named⟩))
        (fun listing => ihOwn (acyclicInner.parts found)
          (unhidden.inner List.mem_cons_self enters.standsFor found) freshOwn
          fun named => unnamedOwn (.inr ⟨listing, .inl named⟩))
      -- Had the part's own reference conveyed the key, its target would have given it.
      have early : ∀ ref ∈ own.seen, Conveys table key part ref → ref ∈ gathered.seen := by
        intro ref member conveys
        refine (enters.mem_iff.mp (beforeOwn ref member conveys)).resolve_right fun href => ?_
        obtain ⟨refers, target, resolved, obliges⟩ := conveys
        obtain rfl := Except.ok.inj (resolved.symm.trans (enters.standsFor.resolve href))
        exact silentOwn (fun other below => refers.follow resolved below) obliges
      obtain ⟨still, silent⟩ := ihRest acyclicRest unhiddenRest
        (fun ref member refers conveys =>
          fresh ref (early ref member conveys) (refers.mono (by simp)) conveys) unnamed
      refine ⟨fun ref member conveys => early ref (still ref member conveys) conveys, ?_⟩
      intro among
      refine List.forall_mem_cons.mpr
        ⟨?_, silent fun ref refers => among ref (refers.mono (by simp))⟩
      intro target stands
      obtain rfl := stands.unique enters.standsFor
      exact silentOwn fun ref refers => among ref (inside refers)

/-! ## Two gatherings of one part -/

/-- Earlier references are at their end and none of them leads to a key, as far as they are among
some parts. -/
def Idle (table : Table) (key : Key) (early : List String) (members : List Mapping) : Prop :=
  ∀ ref ∈ early, RefersAmong table members ref → Finished table early ref ∧
    ∀ target, table.resolve ref = .ok target → ¬ Obliges table key target

theorem Idle.mono {early : List String} (h : Idle table key early rest) (inside : members ⊆ rest) :
    Idle table key early members :=
  fun ref member refers => h ref member (refers.mono inside)

theorem Idle.inner {early : List String} {inner : Mapping} {inside : List Mapping}
    (h : Idle table key early members) (member : part ∈ members)
    (stands : StandsFor table part inner) (found : parts inner = .ok inside) :
    Idle table key early inside :=
  fun ref old refers => h ref old (.below member stands ((refersDown_iff found).mpr refers))

/-- Alone, an earlier reference is followed. It leads to earlier references only, and not to the
key. -/
theorem Idle.entered {early seen begun : List String} {inner : Mapping} {inside : List Mapping}
    {own : Gathering} (h : Idle table key early (part :: rest))
    (href : part.field "$ref" = .text ref) (old : ref ∈ early)
    (enters : Enters table seen part inner begun) (found : parts inner = .ok inside)
    (gathers : Gathers table ⟨[], [], begun⟩ inside own) :
    (∀ other ∈ own.seen, other ∈ seen ∨ other ∈ early) ∧
      (Names (gathered.absorb (own.finish inner) own.seen).required key →
        Names gathered.required key) := by
  obtain ⟨done, none⟩ := h ref old (.here List.mem_cons_self href)
  have resolved := enters.standsFor.resolve href
  refine ⟨?_, ?_⟩
  · intro other member
    rcases gathers.refersAmong member with member | refers
    · refine (enters.mem_iff.mp member).imp_right fun href' => ?_
      obtain rfl := Value.text.inj (href.symm.trans href')
      exact old
    · exact .inr (done inner resolved other ((refersDown_iff found).mpr refers))
  · intro named
    refine (names_absorb_finish.mp named).resolve_right fun ⟨listing, named⟩ => ?_
    exact none inner resolved (gathers.obliges_self found listing named)

/-- Parts are gathered without and with a memory of earlier references. Where these are idle, a
key that is gathered without them is gathered with them. -/
theorem Gathers.names_of_alone {gathered' after' : Gathering} {early : List String}
    (alone : Gathers table gathered members after)
    (whole : Gathers table gathered' members after')
    (same : ∀ ref, ref ∈ gathered'.seen ↔ ref ∈ gathered.seen ∨ ref ∈ early)
    (idle : Idle table key early members)
    (kept : Names gathered.required key → Names gathered'.required key) :
    (∀ ref, ref ∈ after'.seen ↔ ref ∈ after.seen ∨ ref ∈ early) ∧
      (Names after.required key → Names after'.required key) := by
  induction alone generalizing gathered' after' with
  | nil gathered =>
      cases whole with
      | nil _ => exact ⟨same, kept⟩
  | @pass gathered first rest after own href begun others ih =>
      have idleRest : Idle table key early rest := idle.mono (by simp)
      cases whole with
      | pass _ _ others' => exact ih others' same idleRest kept
      | enter enters' _ _ _ => exact (enters'.new href ((same own).mpr (.inl begun))).elim
  | @enter gathered first rest after inner begun members own enters found gathers others ihOwn
      ihRest =>
      have idleRest : Idle table key early rest := idle.mono (by simp)
      cases whole with
      | @pass _ _ _ _ ref href begun' others' =>
          have old : ref ∈ early := ((same ref).mp begun').resolve_left (enters.new href)
          obtain ⟨below, none⟩ := idle.entered href old enters found gathers
          refine ihRest others' ?_ idleRest fun named => kept (none named)
          intro other
          rw [same]
          refine ⟨?_, ?_⟩
          · exact fun member => member.imp_left fun member => gathers.subset (enters.subset member)
          · exact fun member => member.elim (below other) .inr
      | @enter _ _ _ _ inner' begun' members' own' enters' found' gathers' others' =>
          obtain rfl := enters.standsFor.unique enters'.standsFor
          obtain rfl := Except.ok.inj (found.symm.trans found')
          have sameBegun : ∀ ref, ref ∈ begun' ↔ ref ∈ begun ∨ ref ∈ early := by
            intro ref
            simp only [enters.mem_iff, enters'.mem_iff, same, or_right_comm]
          obtain ⟨sameOwn, keptOwn⟩ := ihOwn gathers' sameBegun
            (idle.inner List.mem_cons_self enters.standsFor found) id
          refine ihRest others' sameOwn idleRest ?_
          simp only [names_absorb_finish]
          exact Or.imp kept (And.imp_right (Or.imp_left keptOwn))

/-- The name is gathered in front of the part, or the part is entered, and by then the references
that were begun are idle. -/
theorem Gathers.names_of_part {base : Mapping} {front back inside : List Mapping}
    {own whole : Gathering}
    (h : Gathers table ⟨[], [], []⟩ (front ++ part :: back) whole)
    (acyclic : AcyclicParts table (front ++ part :: back)) (stands : StandsFor table part base)
    (unhidden : Unhidden table key part front) (found : parts base = .ok inside)
    (alone : Gathers table ⟨[], [], []⟩ inside own) (listing : ¬ IsFlagged base)
    (named : Names own.required key ∨ Names (ownRequired base) key) :
    Names whole.required key := by
  by_contra silent
  obtain ⟨acyclicFront, acyclicBack⟩ := List.forall_mem_append.mp acyclic
  have acyclicBase := acyclicBack part List.mem_cons_self base stands
  have obliges := alone.obliges_self found listing named
  obtain ⟨middle, before, others⟩ := gathers_append h
  obtain ⟨ended, _⟩ := before.finished acyclicFront (by simp)
  obtain ⟨still, _⟩ := before.mute acyclicFront unhidden (by simp)
    fun named => silent (others.names named)
  cases others with
  | @pass _ _ _ _ ref href begun _ =>
      have conveys : Conveys table key part ref :=
        ⟨.here (by simp) href, base, stands.resolve href, obliges⟩
      exact List.not_mem_nil (still ref begun conveys)
  | @enter _ _ _ _ inner begun members own' enters found' gathers later =>
      obtain rfl := stands.unique enters.standsFor
      obtain rfl := Except.ok.inj (found.symm.trans found')
      have idle : Idle table key begun inside := by
        intro ref member refers
        have down := (refersDown_iff found).mpr refers
        rcases enters.mem_iff.mp member with old | href
        · have done := (ended ref old).resolve_left List.not_mem_nil
          refine ⟨done.mono enters.subset, ?_⟩
          intro target resolved obliges
          have conveys : Conveys table key part ref :=
            ⟨.below (by simp) stands down, target, resolved, obliges⟩
          exact List.not_mem_nil (still ref old conveys)
        · exact (acyclicBase.not_refersDown (stands.resolve href) down).elim
      obtain ⟨_, kept⟩ := alone.names_of_alone gathers (by simp) idle id
      refine silent (later.names (names_absorb_finish.mpr (.inr ⟨listing, ?_⟩)))
      exact named.imp_left kept

end ApiBinding.Schema
