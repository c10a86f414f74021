import ApiBinding.Proofs.Schema.Acyclic

/-! How the parts of a composition are gathered, part by part: a part that is a reference followed
before is passed over, any other one is entered, and without circles the references are at their
end when the parts are done. -/

namespace ApiBinding.Schema

variable {table : Table} {schema : Mapping}

/-! ## The rules -/

/-- A part is entered: the schema that it stands for, with the references that are begun by then. -/
inductive Enters (table : Table) (seen : List String) (part : Mapping) :
    Mapping → List String → Prop where
  | inline : (∀ ref, part.field "$ref" ≠ .text ref) → Enters table seen part part seen
  | target {ref target} : part.field "$ref" = .text ref → ref ∉ seen →
      table.resolve ref = .ok target → Enters table seen part target (ref :: seen)

theorem Enters.standsFor {seen begun : List String} {part inner : Mapping}
    (h : Enters table seen part inner begun) : StandsFor table part inner := by
  cases h with
  | inline own => exact .inline own
  | target href _ resolved => exact .target href resolved

theorem Enters.subset {seen begun : List String} {part inner : Mapping}
    (h : Enters table seen part inner begun) : seen ⊆ begun := by
  cases h with
  | inline _ => exact List.Subset.refl _
  | target _ _ _ => exact List.subset_cons_self _ _

/-- What becomes of a gathering along some parts of a composition. -/
inductive Gathers (table : Table) : Gathering → List Mapping → Gathering → Prop where
  | nil (gathered) : Gathers table gathered [] gathered
  | pass {gathered part rest after ref} : part.field "$ref" = .text ref →
      ref ∈ gathered.seen → Gathers table gathered rest after →
      Gathers table gathered (part :: rest) after
  | enter {gathered part rest after inner begun members own} :
      Enters table gathered.seen part inner begun → parts inner = .ok members →
      Gathers table ⟨[], [], begun⟩ members own →
      Gathers table (gathered.absorb (own.finish inner) own.seen) rest after →
      Gathers table gathered (part :: rest) after

theorem flattenWithin_eq_ok {depth : Nat} {seen : List String} {answer : Flattened × List String}
    (h : flattenWithin table (depth + 1) seen schema = .ok answer) :
    ∃ members own, parts schema = .ok members ∧
      members.foldlM (gatherPart table (flattenWithin table depth)) ⟨[], [], seen⟩ = .ok own ∧
      answer = (own.finish schema, own.seen) := by
  rw [flattenWithin, flattenStep_eq] at h
  obtain ⟨members, found, h⟩ := bind_eq_ok_iff.mp h
  obtain ⟨own, folded, h⟩ := bind_eq_ok_iff.mp h
  exact ⟨members, own, found, folded, (Except.ok.inj h).symm⟩

/-- A part that is gathered is passed over or entered. -/
theorem gatherPart_cases
    {walk : List String → Mapping → Except Failure (Flattened × List String)}
    {gathered after : Gathering} {part : Mapping}
    (h : gatherPart table walk gathered part = .ok after) :
    (∃ ref, part.field "$ref" = .text ref ∧ ref ∈ gathered.seen ∧ after = gathered) ∨
      ∃ inner begun answer, Enters table gathered.seen part inner begun ∧
        walk begun inner = .ok answer ∧ after = gathered.absorb answer.1 answer.2 := by
  by_cases own : ∀ ref, part.field "$ref" ≠ .text ref
  · rw [gatherPart_of_own own] at h
    obtain ⟨answer, walked, h⟩ := bind_eq_ok_iff.mp h
    exact .inr ⟨part, _, answer, .inline own, walked, (Except.ok.inj h).symm⟩
  push Not at own
  obtain ⟨ref, href⟩ := own
  rw [gatherPart_of_ref href] at h
  split at h
  · rename_i begun
    exact .inl ⟨ref, href, by simpa using begun, (Except.ok.inj h).symm⟩
  · rename_i new
    obtain ⟨target, resolved, h⟩ := bind_eq_ok_iff.mp h
    obtain ⟨answer, walked, h⟩ := bind_eq_ok_iff.mp h
    exact .inr ⟨target, _, answer, .target href (by simpa using new) resolved, walked,
      (Except.ok.inj h).symm⟩

/-- Parts are gathered by the rules if what a walk returns is. -/
theorem gathers_of_walk
    {walk : List String → Mapping → Except Failure (Flattened × List String)}
    (hwalk : ∀ {begun inner answer}, walk begun inner = .ok answer → ∃ members own,
      parts inner = .ok members ∧ Gathers table ⟨[], [], begun⟩ members own ∧
        answer = (own.finish inner, own.seen))
    {members : List Mapping} {gathered after : Gathering}
    (h : members.foldlM (gatherPart table walk) gathered = .ok after) :
    Gathers table gathered members after := by
  induction members generalizing gathered with
  | nil =>
      obtain rfl := Except.ok.inj h
      exact .nil _
  | cons part rest ih =>
      rw [List.foldlM_cons] at h
      obtain ⟨middle, first, others⟩ := bind_eq_ok_iff.mp h
      rcases gatherPart_cases first with
        ⟨ref, href, begun, rfl⟩ | ⟨inner, begun, answer, enters, walked, rfl⟩
      · exact .pass href begun (ih others)
      · obtain ⟨members, own, found, gathers, rfl⟩ := hwalk walked
        exact .enter enters found gathers (ih others)

theorem gathers_of_foldlM {depth : Nat} {members : List Mapping} {gathered after : Gathering}
    (h : members.foldlM (gatherPart table (flattenWithin table depth)) gathered = .ok after) :
    Gathers table gathered members after := by
  induction depth generalizing members gathered after with
  | zero => exact gathers_of_walk (by simp [flattenWithin]) h
  | succ depth ih =>
      refine gathers_of_walk ?_ h
      intro begun inner answer walked
      obtain ⟨members, own, found, folded, rfl⟩ := flattenWithin_eq_ok walked
      exact ⟨members, own, found, ih folded, rfl⟩

/-- A schema is flattened by gathering its parts. -/
theorem gathers_of_flatten {flat : Flattened} (h : flatten table schema = .ok flat) :
    ∃ members own, parts schema = .ok members ∧ Gathers table ⟨[], [], []⟩ members own ∧
      flat = own.finish schema := by
  obtain ⟨seen, walked⟩ := (flatten_eq_ok (Nat.le_succ _)).mp h
  obtain ⟨members, own, found, folded, same⟩ := flattenWithin_eq_ok walked
  exact ⟨members, own, found, gathers_of_foldlM folded, congrArg Prod.fst same⟩

/-! ## References among some parts -/

/-- A reference is one of some parts, or among what they stand for. -/
inductive RefersAmong (table : Table) (members : List Mapping) (ref : String) : Prop where
  | here {part} : part ∈ members → part.field "$ref" = .text ref → RefersAmong table members ref
  | below {part inner} : part ∈ members → StandsFor table part inner →
      RefersDown table inner ref → RefersAmong table members ref

variable {part : Mapping} {members rest : List Mapping} {ref : String}

theorem RefersAmong.mono (h : RefersAmong table members ref) (inside : members ⊆ rest) :
    RefersAmong table rest ref := by
  cases h with
  | here member href => exact .here (inside member) href
  | below member stands refers => exact .below (inside member) stands refers

theorem refersAmong_cons (h : RefersAmong table (part :: rest) ref) :
    part.field "$ref" = .text ref ∨
      (∃ inner, StandsFor table part inner ∧ RefersDown table inner ref) ∨
        RefersAmong table rest ref := by
  cases h with
  | here member href =>
      rcases List.mem_cons.mp member with rfl | member
      · exact .inl href
      · exact .inr (.inr (.here member href))
  | below member stands refers =>
      rcases List.mem_cons.mp member with rfl | member
      · exact .inr (.inl ⟨_, stands, refers⟩)
      · exact .inr (.inr (.below member stands refers))

theorem refersDown_iff (found : parts schema = .ok members) :
    RefersDown table schema ref ↔ RefersAmong table members ref := by
  constructor
  · intro h
    rcases refersDown_cases h with ⟨_, part, found', member, href⟩ | ⟨inner, step, refers⟩
    · obtain rfl := Except.ok.inj (found.symm.trans found')
      exact .here member href
    · obtain ⟨found', member, stands⟩ := step
      obtain rfl := Except.ok.inj (found.symm.trans found')
      exact .below member stands refers
  · rintro (⟨member, href⟩ | ⟨member, stands, refers⟩)
    · exact .intro .self found member href
    · exact refers.head (.intro found member stands)

theorem RefersAmong.follow {target : Mapping} {other : String}
    (h : RefersAmong table members ref) (resolved : table.resolve ref = .ok target)
    (refers : RefersDown table target other) : RefersAmong table members other := by
  cases h with
  | here member href => exact .below member (.target href resolved) refers
  | below member stands refers' => exact .below member stands (refers'.follow resolved refers)

/-! ## What a gathering keeps and adds -/

variable {gathered after : Gathering}

theorem gathers_append {front back : List Mapping}
    (h : Gathers table gathered (front ++ back) after) :
    ∃ middle, Gathers table gathered front middle ∧ Gathers table middle back after := by
  induction front generalizing gathered with
  | nil => exact ⟨gathered, .nil _, h⟩
  | cons first rest ih =>
      cases h with
      | pass href begun others =>
          obtain ⟨middle, gathers, later⟩ := ih others
          exact ⟨middle, .pass href begun gathers, later⟩
      | enter enters found own others =>
          obtain ⟨middle, gathers, later⟩ := ih others
          exact ⟨middle, .enter enters found own gathers, later⟩

theorem Enters.mem_iff {seen begun : List String} {inner : Mapping}
    (h : Enters table seen part inner begun) :
    ref ∈ begun ↔ ref ∈ seen ∨ part.field "$ref" = .text ref := by
  cases h with
  | inline own => simp [own ref]
  | target href _ _ => simp [href, or_comm, eq_comm]

/-- A reference that is entered was not begun. -/
theorem Enters.new {seen begun : List String} {inner : Mapping}
    (h : Enters table seen part inner begun) (href : part.field "$ref" = .text ref) :
    ref ∉ seen := by
  cases h with
  | inline own => exact (own ref href).elim
  | target href' new _ =>
      obtain rfl := Value.text.inj (href.symm.trans href')
      exact new

theorem Gathers.subset (h : Gathers table gathered members after) :
    gathered.seen ⊆ after.seen := by
  induction h with
  | nil gathered => exact List.Subset.refl _
  | pass _ _ _ ih => exact ih
  | enter enters _ _ _ ihOwn ihRest =>
      exact List.Subset.trans enters.subset (List.Subset.trans ihOwn ihRest)

/-- A gathering begins only references among its parts. -/
theorem Gathers.refersAmong (h : Gathers table gathered members after)
    (member : ref ∈ after.seen) : ref ∈ gathered.seen ∨ RefersAmong table members ref := by
  induction h with
  | nil gathered => exact .inl member
  | pass _ _ _ ih => exact (ih member).imp_right fun refers => refers.mono (by simp)
  | @enter gathered part rest after inner begun members own enters found gathers others ihOwn
      ihRest =>
      rcases ihRest member with inside | refers
      · rcases ihOwn inside with inside | refers
        · exact (enters.mem_iff.mp inside).imp_right fun href => .here (by simp) href
        · exact .inr (.below (by simp) enters.standsFor ((refersDown_iff found).mpr refers))
      · exact .inr (refers.mono (by simp))

/-! ## References at their end -/

/-- A reference was followed with all that its target refers to. -/
def Finished (table : Table) (seen : List String) (ref : String) : Prop :=
  ∀ target, table.resolve ref = .ok target → ∀ other, RefersDown table target other → other ∈ seen

theorem Finished.mono {seen later : List String} (h : Finished table seen ref)
    (kept : seen ⊆ later) : Finished table later ref :=
  fun target resolved other refers => kept (h target resolved other refers)

/-- None of some parts leads to a schema that leads back to itself. -/
def AcyclicParts (table : Table) (members : List Mapping) : Prop :=
  ∀ part ∈ members, ∀ inner, StandsFor table part inner → Acyclic table inner

theorem Acyclic.parts (h : Acyclic table schema) (found : parts schema = .ok members) :
    AcyclicParts table members :=
  fun _ member _ stands => h.part (.intro found member stands)

/-- Where the references begun before are at their end, as far as they are among some parts, all
references among the parts are at their end after them. -/
theorem Gathers.finished (h : Gathers table gathered members after)
    (acyclic : AcyclicParts table members)
    (early : ∀ ref ∈ gathered.seen, RefersAmong table members ref →
      Finished table gathered.seen ref) :
    (∀ ref ∈ after.seen, ref ∈ gathered.seen ∨ Finished table after.seen ref) ∧
      ∀ ref, RefersAmong table members ref → ref ∈ after.seen := by
  induction h with
  | nil gathered =>
      refine ⟨fun _ => .inl, ?_⟩
      rintro ref (⟨⟨⟩, _⟩ | ⟨⟨⟩, _, _⟩)
  | @pass gathered part rest after own href begun others ih =>
      obtain ⟨_, acyclicRest⟩ := List.forall_mem_cons.mp acyclic
      obtain ⟨ends, all⟩ := ih acyclicRest fun ref member refers =>
        early ref member (refers.mono (by simp))
      refine ⟨ends, ?_⟩
      intro ref refers
      rcases refersAmong_cons refers with href' | ⟨inner, stands, refers⟩ | refers
      · obtain rfl := Value.text.inj (href.symm.trans href')
        exact others.subset begun
      · have done := early own begun (.here List.mem_cons_self href)
        exact others.subset (done inner (stands.resolve href) ref refers)
      · exact all ref refers
  | @enter gathered part rest after inner begun members own enters found gathers others ihOwn
      ihRest =>
      obtain ⟨acyclicPart, acyclicRest⟩ := List.forall_mem_cons.mp acyclic
      have acyclicInner := acyclicPart inner enters.standsFor
      have inside {ref : String} (refers : RefersAmong table members ref) :
          RefersDown table inner ref := (refersDown_iff found).mpr refers
      obtain ⟨ends, all⟩ := ihOwn (acyclicInner.parts found) <| by
        intro ref member refers
        rcases enters.mem_iff.mp member with member | href
        · have among : RefersAmong table (part :: rest) ref :=
            .below List.mem_cons_self enters.standsFor (inside refers)
          exact (early ref member among).mono enters.subset
        · have resolved := enters.standsFor.resolve href
          exact (acyclicInner.not_refersDown resolved (inside refers)).elim
      -- When its target is done, the reference of the part itself is at its end, too.
      have ended : ∀ ref ∈ own.seen, ref ∈ gathered.seen ∨ Finished table own.seen ref := by
        intro ref member
        rcases ends ref member with member | done
        · refine (enters.mem_iff.mp member).imp_right ?_
          intro href target resolved other refers
          obtain rfl := Except.ok.inj (resolved.symm.trans (enters.standsFor.resolve href))
          exact all other ((refersDown_iff found).mp refers)
        · exact .inr done
      have kept := List.Subset.trans enters.subset gathers.subset
      obtain ⟨endsRest, allRest⟩ := ihRest acyclicRest <| by
        intro ref member refers
        rcases ended ref member with member | done
        · exact (early ref member (refers.mono (by simp))).mono kept
        · exact done
      refine ⟨?_, ?_⟩
      · intro ref member
        rcases endsRest ref member with member | done
        · exact (ended ref member).imp_right fun done => done.mono others.subset
        · exact .inr done
      · intro ref refers
        rcases refersAmong_cons refers with href | ⟨target, stands, refers⟩ | refers
        · exact others.subset (gathers.subset (enters.mem_iff.mpr (.inr href)))
        · obtain rfl := stands.unique enters.standsFor
          exact others.subset (all ref ((refersDown_iff found).mp refers))
        · exact allRest ref refers

end ApiBinding.Schema
