import ApiBinding.Proofs.Record.Growth
import ApiBinding.Proofs.Synthesis.Derivation

/-! A session only grows: every step, whether it fails or not, keeps the names of references, the
stored records and their order, the warnings, and the references that are open. -/

namespace ApiBinding

namespace Session

private theorem lookup_assign (ref name other : String) (names : List (String × String)) :
    (assign ref name names).lookup other =
      if other = ref then some name else names.lookup other := by
  induction names with
  | nil =>
      by_cases h : other = ref
      · simp [assign, h]
      · simp [assign, List.lookup_cons, h, beq_false_of_ne h]
  | cons entry rest ih =>
      obtain ⟨key, old⟩ := entry
      by_cases same : key = ref
      · subst same
        by_cases h : other = key
        · simp [assign, h]
        · simp [assign, List.lookup_cons, h, beq_false_of_ne h]
      · by_cases h : other = key
        · simp [assign, same, h]
        · simp [assign, same, List.lookup_cons, beq_false_of_ne h, ih]

theorem nameOf?_register (session : Session) (ref name other : String) :
    (session.register ref name).nameOf? other =
      if other = ref then some name else session.nameOf? other :=
  lookup_assign ref name other session.names

/-- What every step keeps. -/
structure Grows (before after : Session) : Prop where
  names : ∀ {ref name}, before.nameOf? ref = some name → after.nameOf? ref = some name
  inlining : after.inlining = before.inlining
  catalog : before.catalog.Grows after.catalog
  warnings : before.warnings <+: after.warnings

theorem Grows.refl (session : Session) : Grows session session :=
  ⟨id, rfl, .refl _, List.prefix_refl _⟩

theorem Grows.trans {first second third : Session} (h : Grows first second)
    (h' : Grows second third) : Grows first third :=
  ⟨fun found => h'.names (h.names found), h'.inlining.trans h.inlining,
    h.catalog.trans h'.catalog, h.warnings.trans h'.warnings⟩

theorem grows_warn (session : Session) (warning : Warning) :
    Grows session (session.warn warning) :=
  ⟨id, rfl, .refl _, List.prefix_append _ _⟩

theorem grows_reserve (session : Session) (name : String) :
    Grows session (session.reserve name) :=
  ⟨id, rfl, session.catalog.grows_reserve name, List.prefix_refl _⟩

theorem grows_store (session : Session) (record : Record TypeExpr) :
    Grows session (session.store record) :=
  ⟨id, rfl, session.catalog.grows_add record, List.prefix_refl _⟩

/-- Naming a reference that has no name keeps the names of the others. -/
theorem grows_register {session : Session} {ref : String} (name : String)
    (unnamed : session.nameOf? ref = none) : Grows session (session.register ref name) := by
  refine ⟨?_, rfl, .refl _, List.prefix_refl _⟩
  intro other old found
  have hne : other ≠ ref := by
    rintro rfl
    simp [unnamed] at found
  rw [nameOf?_register, if_neg hne, found]

/-- Closing a reference undoes its opening if it was not open before. -/
theorem inlining_endInline {session after : Session} {ref : String}
    (closed : ref ∉ session.inlining) (opened : after.inlining = ref :: session.inlining) :
    (after.endInline ref).inlining = session.inlining := by
  have kept : session.inlining.filter (· != ref) = session.inlining := by
    rw [List.filter_eq_self]
    intro other member
    simp only [bne_iff_ne]
    rintro rfl
    exact closed member
  simp [endInline, opened, kept]

/-- A reference that was not open is closed again after its target was written. -/
theorem Grows.close {session after : Session} {ref : String} (closed : ref ∉ session.inlining)
    (h : Grows (session.openInline ref) after) : Grows session (after.endInline ref) :=
  ⟨h.names, inlining_endInline closed h.inlining, h.catalog, h.warnings⟩

end Session

namespace Synthesis

open ApiBinding.Schema

/-- A judgement under which sessions grow. -/
def Judgement.Growing (typed : Judgement) : Prop :=
  ∀ ⦃session node result after events⦄, typed session node result after events →
    session.Grows after

theorem StepsDerivation.grows {typed : Judgement} (growing : typed.Growing) {session : Session}
    {steps : List Step} {result : Except Failure (List TypeExpr)} {after : Session}
    {events : List Event} (derivation : StepsDerivation typed session steps result after events) :
    session.Grows after :=
  derivation.leads .refl .trans Session.grows_warn fun typed => growing typed

theorem RecordDerivation.grows {scope : Scope} {typed : Judgement} (growing : typed.Growing)
    {result : Except Failure TypeExpr} {session : Session} {name : String} {schema : Mapping}
    {after : Session} {events : List Event}
    (derivation : RecordDerivation scope typed result session name schema after events) :
    session.Grows after := by
  cases derivation with
  | taken _ => exact .refl session
  | unreadable _ _ => exact session.grows_reserve name
  | broken _ _ steps => exact (session.grows_reserve name).trans (steps.grows growing)
  | stored _ _ steps =>
      exact ((session.grows_reserve name).trans (steps.grows growing)).trans
        (Session.grows_store _ _)

theorem TypeDerivation.grows {scope : Scope} {session : Session} {node : Value}
    {result : Except Failure TypeExpr} {after : Session} {events : List Event}
    (derivation : TypeDerivation scope session node result after events) :
    session.Grows after := by
  induction derivation using TypeDerivation.induct with
  | done _ => exact .refl _
  | compose _ steps => exact steps.grows fun _ _ _ _ _ both => both.choose_spec
  | declare work record =>
      obtain ⟨_, unnamed, _⟩ := workOf_eq_declare work
      exact (Session.grows_register _ unnamed).trans
        (record.grows fun _ _ _ _ _ both => both.choose_spec)
  | expand work _ ih =>
      obtain ⟨_, _, _, closed⟩ := workOf_eq_expand work
      exact ih.close closed

end Synthesis

end ApiBinding
