import ApiBinding.Proofs.Schema.Alias
import ApiBinding.Proofs.Synthesis.Alias
import ApiBinding.Proofs.Synthesis.Depth
import ApiBinding.Proofs.Synthesis.Simulation
import ApiBinding.Validation.Writer

/-! Chains of aliases. A reference to the start of a chain has the type of a reference to its end.
More references are open while the end is written through the chain; but where one of them is met,
the aliases behind it lead to the end, which is open both ways, and so a plain object comes out. -/

namespace ApiBinding

/-- A session in which one reference is open and no other. -/
def Session.only (session : Session) (ref : String) : Session :=
  { session with inlining := [ref] }

theorem Session.eq_of_fields {session session' : Session} (names : session'.names = session.names)
    (inlining : session'.inlining = session.inlining)
    (catalog : session'.catalog = session.catalog)
    (warnings : session'.warnings = session.warnings) : session' = session := by
  cases session
  cases session'
  simp_all

namespace Synthesis

open ApiBinding.Schema

/-! ## Aliases -/

/-- A reference is defined as nothing but a reference to the next one. -/
def AliasOf (table : Table) (ref next : String) : Prop :=
  table.resolve ref = .ok (refSchema next)

/-- The references of a chain of aliases, from its start to its end. -/
inductive AliasPath (table : Table) : String → List String → String → Prop where
  | here (ref) : AliasPath table ref [ref] ref
  | next {ref next refs last} : AliasOf table ref next → AliasPath table next refs last →
      AliasPath table ref (ref :: refs) last

/-- A reference that becomes a plain object: its target is being written in place, or is nothing
but a reference to another such reference. -/
inductive Degrades (scope : Scope) (session : Session) : String → Prop where
  | opened {ref schema} : session.nameOf? ref = none →
      definitionOf scope ref = .ok (.inPlace schema) → ref ∈ session.inlining →
      Degrades scope session ref
  | behind {ref next} : session.nameOf? ref = none → AliasOf scope.table ref next →
      Degrades scope session next → Degrades scope session ref

/-- Two sessions that differ only in which references are open, and in which the same ones become
plain objects. -/
structure DegradeAlike (scope : Scope) (session session' : Session) : Prop where
  names : session'.names = session.names
  catalog : session'.catalog = session.catalog
  warnings : session'.warnings = session.warnings
  degrades : ∀ ref, Degrades scope session ref ↔ Degrades scope session' ref

variable {scope : Scope} {table : Table} {session session' after after' : Session}
  {ref next first last : String} {refs : List String} {node node' : Value}

theorem AliasOf.unique {other : String} (leads : AliasOf table ref next)
    (leads' : AliasOf table ref other) : other = next := by
  have same : refSchema next = refSchema other := Except.ok.inj (leads.symm.trans leads')
  simpa [refSchema, eq_comm] using same

/-- An alias is no record. -/
theorem AliasOf.definitionOf (leads : AliasOf scope.table ref next) :
    definitionOf scope ref = .ok (.inPlace (refSchema next)) := by
  have plain : isRecordShaped scope.table (.object (refSchema next)) = .ok false := by
    have settled := isRecordShaped_settled scope.table (.object (refSchema next))
      (Nat.le_succ (depthBound scope.table (.object (refSchema next))))
    rw [settled.same, recordShapedWithin_refSchema]
    rfl
  have resolved : scope.table.resolve ref = .ok (refSchema next) := leads
  simp [Synthesis.definitionOf, resolved, plain, bind, Except.bind]

theorem refersTo_refSchema (next : String) : RefersTo (.object (refSchema next)) next :=
  ⟨refSchema next, rfl, rfl⟩

/-! ## Paths -/

theorem AliasPath.first_mem (path : AliasPath table first refs last) : first ∈ refs := by
  cases path <;> exact List.mem_cons_self

theorem AliasPath.last_mem (path : AliasPath table first refs last) : last ∈ refs := by
  induction path with
  | here ref => exact List.mem_cons_self
  | next _ _ ih => exact List.mem_cons_of_mem _ ih

/-- The rest of a path is the path from a reference on it. -/
theorem AliasPath.exists_from (path : AliasPath table first refs last) (member : ref ∈ refs) :
    ∃ rest, rest.length ≤ refs.length ∧ rest ⊆ refs ∧ AliasPath table ref rest last := by
  induction path with
  | here own =>
      obtain rfl := List.mem_singleton.mp member
      exact ⟨[ref], Nat.le_refl _, List.Subset.refl _, .here ref⟩
  | next leads rest ih =>
      rcases List.mem_cons.mp member with rfl | member
      · exact ⟨_, Nat.le_refl _, List.Subset.refl _, .next leads rest⟩
      · obtain ⟨others, fewer, inside, path⟩ := ih member
        exact ⟨others, Nat.le_succ_of_le fewer, List.subset_cons_of_subset _ inside, path⟩

/-- Only one path leads to a reference that is no alias. -/
theorem AliasPath.unique {refs' : List String} (path : AliasPath table first refs last)
    (path' : AliasPath table first refs' last) (ends : ∀ next, ¬ AliasOf table last next) :
    refs' = refs := by
  induction path generalizing refs' with
  | here ref =>
      cases path' with
      | here _ => rfl
      | next leads _ => exact absurd leads (ends _)
  | next leads _ ih =>
      cases path' with
      | here _ => exact absurd leads (ends _)
      | next leads' rest =>
          obtain rfl := leads.unique leads'
          exact congrArg _ (ih rest ends)

/-- No reference is met again on the way to one that is no alias. -/
theorem AliasPath.not_mem (leads : AliasOf table ref next) (path : AliasPath table next refs last)
    (ends : ∀ next, ¬ AliasOf table last next) : ref ∉ refs := by
  intro member
  obtain ⟨rest, fewer, -, again⟩ := path.exists_from member
  obtain rfl := (AliasPath.next leads path).unique again ends
  simp at fewer

/-! ## Open references -/

/-- Two sessions that give the same names to the references of aliases. -/
def NamesAlike (scope : Scope) (session session' : Session) : Prop :=
  ∀ ref schema, definitionOf scope ref = .ok (.inPlace schema) →
    session'.nameOf? ref = session.nameOf? ref

theorem NamesAlike.of_eq (names : session'.names = session.names) :
    NamesAlike scope session session' := by
  intro ref schema _
  rw [Session.nameOf?, names, Session.nameOf?]

theorem namesAlike_register {name : String} {schema : Mapping}
    (defined : definitionOf scope ref = .ok (.record name schema)) (own : String) :
    NamesAlike scope session (session.register ref own) := by
  intro other target inPlace
  have apart : other ≠ ref := by
    rintro rfl
    simp [defined] at inPlace
  rw [Session.nameOf?_register, if_neg apart]

/-- A run names no alias. -/
theorem TypeDerivation.namesAlike {result : Except Failure TypeExpr} {events : List Event}
    (derivation : TypeDerivation scope session node result after events) :
    NamesAlike scope session after := by
  refine derivation.keepsNames (P := fun names => NamesAlike scope session
    { session with names := names }) ?_ (.of_eq rfl)
  intro names ref name schema defined held other target inPlace
  let middle : Session := { session with names := names }
  have kept : NamesAlike scope middle (middle.register ref name) := namesAlike_register defined name
  exact (kept other target inPlace).trans (held other target inPlace)

theorem Degrades.mono (degrades : Degrades scope session ref)
    (names : NamesAlike scope session session') (opened : session.inlining ⊆ session'.inlining) :
    Degrades scope session' ref := by
  induction degrades with
  | opened unnamed defined member =>
      exact .opened ((names _ _ defined).trans unnamed) defined (opened member)
  | behind unnamed leads _ ih =>
      exact .behind ((names _ _ leads.definitionOf).trans unnamed) leads ih

theorem degrades_congr (names : NamesAlike scope session session')
    (inlining : session'.inlining = session.inlining) (ref : String) :
    Degrades scope session ref ↔ Degrades scope session' ref :=
  ⟨fun degrades => degrades.mono names (inlining ▸ List.Subset.refl _),
    fun degrades => degrades.mono (fun ref schema defined => (names ref schema defined).symm)
      (inlining ▸ List.Subset.refl _)⟩

/-- What degrades while one more reference is open is led to that one, or degrades before. -/
theorem degrades_openInline {opened : String} : Degrades scope (session.openInline opened) ref ↔
    Degrades scope (session.only opened) ref ∨ Degrades scope session ref := by
  constructor
  · intro degrades
    induction degrades with
    | opened unnamed defined member =>
        rcases List.mem_cons.mp member with rfl | member
        · exact .inl (.opened unnamed defined (List.mem_singleton_self _))
        · exact .inr (.opened unnamed defined member)
    | behind unnamed leads _ ih => exact ih.imp (.behind unnamed leads) (.behind unnamed leads)
  · rintro (degrades | degrades)
    · exact degrades.mono (.of_eq rfl) (by simp [Session.only, Session.openInline])
    · exact degrades.mono (.of_eq rfl) (List.subset_cons_self _ _)

/-- What leads to an alias leads to its target. -/
theorem Degrades.only_next {schema : Mapping} {other : String}
    (degrades : Degrades scope (session.only ref) other) (leads : AliasOf scope.table ref next)
    (defined : definitionOf scope next = .ok (.inPlace schema))
    (unnamed : session.nameOf? next = none) : Degrades scope (session.only next) other := by
  induction degrades with
  | opened own _ member =>
      obtain rfl := List.mem_singleton.mp member
      exact .behind own leads (.opened unnamed defined (List.mem_singleton_self _))
  | behind own leads' _ ih => exact .behind own leads' ih

theorem AliasPath.degrades (path : AliasPath scope.table first refs last)
    (unnamed : ∀ ref ∈ refs, session.nameOf? ref = none) (opened : Degrades scope session last) :
    Degrades scope session first := by
  induction path with
  | here ref => exact opened
  | next leads _ ih =>
      obtain ⟨own, others⟩ := List.forall_mem_cons.mp unnamed
      exact .behind own leads (ih others opened)

theorem endInline_openInline (closed : ref ∉ session.inlining) :
    (session.openInline ref).endInline ref = session := by
  have kept : ((session.openInline ref).endInline ref).inlining = session.inlining :=
    Session.inlining_endInline closed rfl
  cases session
  simpa [Session.endInline, Session.openInline] using kept

/-- A degrading reference becomes a plain object, and nothing is changed by it. -/
theorem Degrades.derivation (degrades : Degrades scope session ref) (refers : RefersTo node ref) :
    TypeDerivation scope session node (.ok .object) session [] := by
  suffices general : ∀ {session' node}, NamesAlike scope session session' →
      session.inlining ⊆ session'.inlining → RefersTo node ref →
      TypeDerivation scope session' node (.ok .object) session' [] from
    general (.of_eq rfl) (List.Subset.refl _) refers
  clear refers
  induction degrades with
  | opened unnamed defined member =>
      intro session' node names opened refers
      have work := workOf_alias refers ((names _ _ defined).trans unnamed) defined
      rw [if_pos (opened member)] at work
      exact .done work
  | @behind ref next unnamed leads _ ih =>
      intro session' node names opened refers
      have work := workOf_alias refers ((names _ _ leads.definitionOf).trans unnamed)
        leads.definitionOf
      split at work
      · exact .done work
      · rename_i closed
        have inner : TypeDerivation scope (session'.openInline ref) (.object (refSchema next))
            (.ok .object) (session'.openInline ref) [] :=
          ih names (List.subset_cons_of_subset _ opened) (refersTo_refSchema next)
        simpa [endInline_openInline closed] using TypeDerivation.expand work inner

/-! ## Runs that degrade alike -/

namespace DegradeAlike

/-- Sessions that come from two that degrade alike, by changes that name no alias and close what
they open. -/
theorem later (same : DegradeAlike scope session session')
    (kept : NamesAlike scope session after) (kept' : NamesAlike scope session' after')
    (inlining : after.inlining = session.inlining)
    (inlining' : after'.inlining = session'.inlining) (names : after'.names = after.names)
    (catalog : after'.catalog = after.catalog) (warnings : after'.warnings = after.warnings) :
    DegradeAlike scope after after' :=
  ⟨names, catalog, warnings, fun ref => (degrades_congr kept inlining ref).symm.trans
    ((same.degrades ref).trans (degrades_congr kept' inlining' ref))⟩

theorem isSimulation (scope : Scope) : Session.IsSimulation (DegradeAlike scope) where
  catalog same := same.catalog
  warn warning same := same.later (.of_eq rfl) (.of_eq rfl) rfl rfl same.names same.catalog
    (congrArg (· ++ [warning]) same.warnings)
  reserve name same := same.later (.of_eq rfl) (.of_eq rfl) rfl rfl same.names
    (congrArg (fun catalog => (catalog.reserve name).2) same.catalog) same.warnings
  store record same := same.later (.of_eq rfl) (.of_eq rfl) rfl rfl same.names
    (congrArg (fun catalog => (catalog.add record).2) same.catalog) same.warnings

theorem register (same : DegradeAlike scope session session') {name : String} {schema : Mapping}
    (defined : definitionOf scope ref = .ok (.record name schema)) :
    DegradeAlike scope (session.register ref name) (session'.register ref name) :=
  same.later (namesAlike_register defined name) (namesAlike_register defined name) rfl rfl
    (congrArg (Session.assign ref name) same.names) same.catalog same.warnings

theorem openInline (same : DegradeAlike scope session session') (opened : String) :
    DegradeAlike scope (session.openInline opened) (session'.openInline opened) := by
  refine ⟨same.names, same.catalog, same.warnings, fun ref => ?_⟩
  have kept : NamesAlike scope (session.only opened) (session'.only opened) := .of_eq same.names
  rw [degrades_openInline, degrades_openInline, same.degrades, degrades_congr kept rfl]

/-- The work on a node is the same, unless it refers to what becomes a plain object. -/
theorem workOf_eq (same : DegradeAlike scope session session') (node : Value) :
    (∃ ref, RefersTo node ref ∧ Degrades scope session ref) ∨
      workOf scope session' node = workOf scope session node := by
  rcases refersTo_or_workOf_eq scope node with ⟨ref, refers⟩ | independent
  · by_cases degrades : Degrades scope session ref
    · exact .inl ⟨ref, refers, degrades⟩
    · right
      have known : session'.nameOf? ref = session.nameOf? ref := by
        rw [Session.nameOf?, same.names, Session.nameOf?]
      simp only [workOf_of_refersTo refers, referenceWork, known]
      cases named : session.nameOf? ref with
      | some name => rfl
      | none =>
          cases defined : definitionOf scope ref with
          | error failure => rfl
          | ok definition =>
              cases definition with
              | record name schema => rfl
              | inPlace schema =>
                  have closed : ref ∉ session.inlining := fun member =>
                    degrades (.opened named defined member)
                  have closed' : ref ∉ session'.inlining := fun member =>
                    degrades ((same.degrades ref).mpr (.opened (known.trans named) defined member))
                  simp [closed, closed']
  · exact .inr (independent _ _)

/-- What becomes a plain object in one session does so in the other. -/
theorem of_degrades (same : DegradeAlike scope session session') (refers : RefersTo node ref)
    (degrades : Degrades scope session ref) {result : Except Failure TypeExpr}
    {events : List Event} (derivation : TypeDerivation scope session node result after events) :
    ∃ after', TypeDerivation scope session' node result after' events ∧
      DegradeAlike scope after after' := by
  obtain ⟨rfl, rfl, rfl⟩ := derivation.deterministic (degrades.derivation refers)
  exact ⟨session', ((same.degrades ref).mp degrades).derivation refers, same⟩

end DegradeAlike

/-- A node is typed in the same way in sessions that degrade alike. The two runs part only where
one of them opens an alias that is open in the other, and there a plain object comes out of both. -/
theorem TypeDerivation.degradeAlike {result : Except Failure TypeExpr} {events : List Event}
    (derivation : TypeDerivation scope session node result after events)
    (same : DegradeAlike scope session session') :
    ∃ after', TypeDerivation scope session' node result after' events ∧
      DegradeAlike scope after after' := by
  induction derivation using TypeDerivation.induct generalizing session' with
  | @done session node result work =>
      rcases same.workOf_eq node with ⟨ref, refers, degrades⟩ | again
      · exact same.of_degrades refers degrades (.done work)
      · exact ⟨session', .done (again.trans work), same⟩
  | @compose session node composition result after events work steps =>
      rcases same.workOf_eq node with ⟨ref, refers, degrades⟩ | again
      · exact same.of_degrades refers degrades (.compose work (steps.mono Exists.choose))
      · obtain ⟨after', steps', same'⟩ := steps.simulate (DegradeAlike.isSimulation scope)
          (fun _ _ _ _ _ _ both => both.choose_spec) same
        exact ⟨after', .compose (again.trans work) steps', same'⟩
  | @declare session node own name schema result after events work record =>
      rcases same.workOf_eq node with ⟨ref, refers, degrades⟩ | again
      · exact same.of_degrades refers degrades (.declare work (record.mono Exists.choose))
      · obtain ⟨_, _, defined⟩ := workOf_eq_declare work
        obtain ⟨after', record', same'⟩ := record.simulate (DegradeAlike.isSimulation scope)
          (fun _ _ _ _ _ _ both => both.choose_spec) (same.register defined)
        exact ⟨after', .declare (again.trans work) record', same'⟩
  | @expand session node own schema result after events work inner ih =>
      rcases same.workOf_eq node with ⟨ref, refers, degrades⟩ | again
      · exact same.of_degrades refers degrades (.expand work inner)
      · obtain ⟨_, _, _, closed⟩ := workOf_eq_expand work
        obtain ⟨_, _, _, closed'⟩ := workOf_eq_expand (again.trans work)
        obtain ⟨after', inner', same'⟩ := ih (same.openInline own)
        refine ⟨_, .expand (again.trans work) inner', ?_⟩
        exact same.later inner.namesAlike inner'.namesAlike
          (Session.inlining_endInline closed inner.grows.inlining)
          (Session.inlining_endInline closed' inner'.grows.inlining) same'.names same'.catalog
          same'.warnings

/-! ## Aliases are transparent -/

/-- Only the work on a node matters. -/
theorem TypeDerivation.of_workOf_eq {result : Except Failure TypeExpr} {events : List Event}
    (derivation : TypeDerivation scope session node result after events)
    (same : workOf scope session node' = workOf scope session node) :
    TypeDerivation scope session node' result after events := by
  cases derivation with
  | done work => exact .done (same.trans work)
  | compose work steps => exact .compose (same.trans work) steps
  | declare work record => exact .declare (same.trans work) record
  | expand work inner => exact .expand (same.trans work) inner

/-- While an alias is open, its target degrades in no other way. -/
theorem degradeAlike_alias {schema : Mapping} (leads : AliasOf scope.table ref next)
    (defined : definitionOf scope next = .ok (.inPlace schema))
    (unnamed : session.nameOf? next = none) :
    DegradeAlike scope (session.openInline next) ((session.openInline ref).openInline next) := by
  refine ⟨rfl, rfl, rfl, fun other => ?_⟩
  have only : Degrades scope ((session.openInline ref).only next) other ↔
      Degrades scope (session.only next) other := degrades_congr (.of_eq rfl) rfl other
  have led : Degrades scope (session.only ref) other → Degrades scope (session.only next) other :=
    fun degrades => degrades.only_next leads defined unnamed
  rw [degrades_openInline, degrades_openInline, degrades_openInline, only]
  tauto

/-- A reference to an alias of what is written in place is typed as that, step by step. -/
theorem TypeDerivation.through_alias {schema : Mapping} {result : Except Failure TypeExpr}
    {events : List Event} (derivation : TypeDerivation scope session node' result after events)
    (leads : AliasOf scope.table ref next) (refers : RefersTo node ref)
    (refers' : RefersTo node' next) (defined : definitionOf scope next = .ok (.inPlace schema))
    (unnamed : session.nameOf? ref = none) (unnamed' : session.nameOf? next = none)
    (closed : ref ∉ session.inlining) (closed' : next ∉ session.inlining) :
    TypeDerivation scope session node result after events := by
  by_cases same : next = ref
  · subst same
    refine derivation.of_workOf_eq ?_
    rw [workOf_of_refersTo refers, workOf_of_refersTo refers']
  · obtain ⟨direct, inner, rfl⟩ := derivation.inside refers' unnamed' defined closed'
    obtain ⟨nested, inner', alike⟩ :=
      inner.degradeAlike (degradeAlike_alias leads defined unnamed')
    have nestedUnnamed : (session.openInline ref).nameOf? next = none := unnamed'
    have nestedClosed : next ∉ (session.openInline ref).inlining := by
      simp [Session.openInline, same, closed']
    have whole : workOf scope session node = .expand ref (refSchema next) := by
      rw [workOf_alias refers unnamed leads.definitionOf, if_neg closed]
    have part : workOf scope (session.openInline ref) (.object (refSchema next)) =
        .expand next schema := by
      rw [workOf_alias (refersTo_refSchema next) nestedUnnamed defined, if_neg nestedClosed]
    have around : TypeDerivation scope session node result
        ((nested.endInline next).endInline ref) events := .expand whole (.expand part inner')
    have closedNext := Session.inlining_endInline nestedClosed inner'.grows.inlining
    have closedBoth := Session.inlining_endInline closed closedNext
    have closedDirect := Session.inlining_endInline closed' inner.grows.inlining
    have ended : (nested.endInline next).endInline ref = direct.endInline next :=
      Session.eq_of_fields alike.names (closedBoth.trans closedDirect.symm) alike.catalog
        alike.warnings
    exact ended ▸ around

/-- The end of a chain is written in place, and so is each alias on the way. -/
theorem AliasPath.definitionOf {schema : Mapping} (path : AliasPath scope.table first refs last)
    (defined : definitionOf scope last = .ok (.inPlace schema)) :
    ∃ schema, definitionOf scope first = .ok (.inPlace schema) := by
  cases path with
  | here _ => exact ⟨schema, defined⟩
  | next leads _ => exact ⟨_, leads.definitionOf⟩

/-- The induction is on the chain; each step passes one alias. -/
theorem TypeDerivation.through_path {schema : Mapping} {result : Except Failure TypeExpr}
    {events : List Event} (derivation : TypeDerivation scope session node' result after events)
    (path : AliasPath scope.table first refs last) (refers : RefersTo node first)
    (refers' : RefersTo node' last) (defined : definitionOf scope last = .ok (.inPlace schema))
    (fresh : ∀ ref ∈ refs, session.nameOf? ref = none ∧ ref ∉ session.inlining) :
    TypeDerivation scope session node result after events := by
  induction path generalizing node with
  | here ref =>
      refine derivation.of_workOf_eq ?_
      rw [workOf_of_refersTo refers, workOf_of_refersTo refers']
  | @next ref next refs last leads path ih =>
      obtain ⟨⟨unnamed, closed⟩, others⟩ := List.forall_mem_cons.mp fresh
      obtain ⟨unnamed', closed'⟩ := others next path.first_mem
      obtain ⟨target, written⟩ := path.definitionOf defined
      have rest := ih (refersTo_refSchema next) refers' defined others
      exact rest.through_alias leads refers (refersTo_refSchema next) written unnamed unnamed'
        closed closed'

/-- A reference through a chain to a record becomes the name of the record. On the way no open
reference is met, since none is met twice. -/
theorem TypeDerivation.eq_reference_of_path {name : String} {schema : Mapping} {type : TypeExpr}
    {events : List Event} (derivation : TypeDerivation scope session node (.ok type) after events)
    (path : AliasPath scope.table first refs last) (refers : RefersTo node first)
    (defined : definitionOf scope last = .ok (.record name schema))
    (fresh : ∀ ref ∈ refs, session.nameOf? ref = none ∧ ref ∉ session.inlining) :
    type = .reference name := by
  have ends : ∀ next, ¬ AliasOf scope.table last next := by
    intro next leads
    simp [leads.definitionOf] at defined
  induction path generalizing session node after events with
  | here ref =>
      obtain ⟨unnamed, -⟩ := fresh ref List.mem_cons_self
      exact derivation.eq_reference refers defined (by simp [unnamed])
  | @next ref next refs last leads path ih =>
      obtain ⟨⟨unnamed, closed⟩, others⟩ := List.forall_mem_cons.mp fresh
      obtain ⟨inner, written, -⟩ :=
        derivation.inside refers unnamed leads.definitionOf closed
      refine ih written (refersTo_refSchema next) defined (fun other member => ?_) ends
      obtain ⟨unnamed', closed'⟩ := others other member
      have apart : other ≠ ref := by
        rintro rfl
        exact AliasPath.not_mem leads path ends member
      exact ⟨unnamed', by simp [Session.openInline, apart, closed']⟩

/-- A chain of aliases that leads back to one of its references becomes a plain object. -/
theorem AliasPath.derivation_of_closed (path : AliasPath scope.table first refs last)
    (member : ref ∈ refs) (leads : AliasOf scope.table last ref) (refers' : RefersTo node' last)
    (fresh : ∀ ref ∈ refs, session.nameOf? ref = none ∧ ref ∉ session.inlining) :
    TypeDerivation scope session node' (.ok .object) session [] := by
  obtain ⟨unnamed, closed⟩ := fresh last path.last_mem
  obtain ⟨rest, -, inside, back⟩ := path.exists_from member
  have opened : Degrades scope (session.openInline last) last :=
    .opened unnamed leads.definitionOf List.mem_cons_self
  have degrades : Degrades scope (session.openInline last) ref :=
    back.degrades (fun other member => (fresh other (inside member)).1) opened
  have work : workOf scope session node' = .expand last (refSchema ref) := by
    rw [workOf_alias refers' unnamed leads.definitionOf, if_neg closed]
  have inner := degrades.derivation (refersTo_refSchema ref)
  simpa [endInline_openInline closed] using TypeDerivation.expand work inner

/-- A reference through a chain of aliases is as good as a reference to its end, in every session
in which none of the references of the chain has a name or is open. If both are typed, their types
are equal, whatever the end is. If the end is written in place, the whole runs are equal, results
and failures, warnings and records. If the end leads back into the chain, the type is a plain
object, and the run changes nothing. -/
theorem typeOf_aliasPath (scope : Scope) (session : Session) {first last : String}
    {refs : List String} {node node' : Value} (path : AliasPath scope.table first refs last)
    (refers : RefersTo node first) (refers' : RefersTo node' last)
    (fresh : ∀ ref ∈ refs, session.nameOf? ref = none ∧ ref ∉ session.inlining) :
    (∀ type type' after after', outcome (typeOf scope node) session = (.ok type, after) →
      outcome (typeOf scope node') session = (.ok type', after') → type = type') ∧
    (∀ schema, definitionOf scope last = .ok (.inPlace schema) →
      outcome (typeOf scope node) session = outcome (typeOf scope node') session) ∧
    ∀ ref ∈ refs, AliasOf scope.table last ref →
      outcome (typeOf scope node) session = (.ok .object, session) := by
  have inPlace : ∀ schema, definitionOf scope last = .ok (.inPlace schema) →
      outcome (typeOf scope node) session = outcome (typeOf scope node') session := by
    intro schema defined
    obtain ⟨_, run⟩ := typeOf_derivation scope session node' (le_refl _)
    exact (run.through_path path refers refers' defined fresh).outcome_eq
  refine ⟨fun type type' after after' typed typed' => ?_, inPlace, fun ref member leads => ?_⟩
  · cases defined : definitionOf scope last with
    | error failure =>
        obtain ⟨_, run'⟩ := derivation_of_outcome typed'
        obtain ⟨unnamed, -⟩ := fresh last path.last_mem
        have work : workOf scope session node' = .done (.error failure) := by
          rw [workOf_of_refersTo refers', referenceWork, unnamed]
          simp only [defined]
        have failed := (run'.deterministic (.done work)).1
        simp at failed
    | ok definition =>
        cases definition with
        | inPlace schema =>
            rw [inPlace schema defined, typed'] at typed
            obtain ⟨same, -⟩ := Prod.mk.inj typed
            exact (Except.ok.inj same).symm
        | record name schema =>
            obtain ⟨_, run⟩ := derivation_of_outcome typed
            obtain ⟨_, run'⟩ := derivation_of_outcome typed'
            have fresh' := fun ref (member : ref ∈ [last]) =>
              fresh ref (List.mem_singleton.mp member ▸ path.last_mem)
            rw [run.eq_reference_of_path path refers defined fresh,
              run'.eq_reference_of_path (.here last) refers' defined fresh']
  · rw [inPlace _ leads.definitionOf]
    exact (path.derivation_of_closed member leads refers' fresh).outcome_eq

/-- Two aliases of a list that refers back to the first of them, and two aliases of each other. -/
def chainScope : Scope where
  table := ⟨"#/definitions/", [
    (.text "Names", .object (refSchema "#/definitions/Labels")),
    (.text "Labels", .object (refSchema "#/definitions/Lines")),
    (.text "Lines", .ofFields [
      ("type", .text "array"), ("items", .object (refSchema "#/definitions/Names"))]),
    (.text "Round", .object (refSchema "#/definitions/Back")),
    (.text "Back", .object (refSchema "#/definitions/Round"))]⟩
  options := {}
  lexicon := .standard
  placement := some .body

theorem typeOf_aliasPath_chainScope :
    outcome (typeOf chainScope (.object (refSchema "#/definitions/Names"))) .empty =
      outcome (typeOf chainScope (.object (refSchema "#/definitions/Lines"))) .empty ∧
    (∃ type after, outcome (typeOf chainScope (.object (refSchema "#/definitions/Names"))) .empty =
      (.ok type, after) ∧ type.render = "object[]") ∧
    outcome (typeOf chainScope (.object (refSchema "#/definitions/Round"))) .empty =
      (.ok .object, .empty) := by
  have toLines : AliasPath chainScope.table "#/definitions/Names"
      ["#/definitions/Names", "#/definitions/Labels", "#/definitions/Lines"]
      "#/definitions/Lines" :=
    .next rfl (.next rfl (.here _))
  have around : AliasPath chainScope.table "#/definitions/Round"
      ["#/definitions/Round", "#/definitions/Back"] "#/definitions/Back" :=
    .next rfl (.here _)
  have fresh : ∀ refs : List String, ∀ ref ∈ refs,
      Session.empty.nameOf? ref = none ∧ ref ∉ Session.empty.inlining :=
    fun _ _ _ => ⟨rfl, List.not_mem_nil⟩
  obtain ⟨-, whole, -⟩ := typeOf_aliasPath chainScope .empty toLines
    (refersTo_refSchema _) (refersTo_refSchema _) (fresh _)
  obtain ⟨-, -, closed⟩ := typeOf_aliasPath chainScope .empty around
    (refersTo_refSchema _) (refersTo_refSchema _) (fresh _)
  refine ⟨whole _ rfl, ⟨_, _, rfl, rfl⟩, closed "#/definitions/Round" List.mem_cons_self rfl⟩

end Synthesis

end ApiBinding
