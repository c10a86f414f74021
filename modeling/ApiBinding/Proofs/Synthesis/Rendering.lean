import ApiBinding.Proofs.Synthesis.Alias
import ApiBinding.Proofs.Synthesis.Calls

/-! Types do not depend on what was typed before, and typing a node again changes nothing but
the warnings: a reference that was visited has the name that it would get on a first visit. -/

namespace ApiBinding

namespace Session

/-- Two sessions that differ in their warnings at most. -/
structure SameState (before after : Session) : Prop where
  names : after.names = before.names
  inlining : after.inlining = before.inlining
  catalog : after.catalog = before.catalog

namespace SameState

theorem refl (session : Session) : SameState session session :=
  ⟨rfl, rfl, rfl⟩

theorem trans {first second third : Session} (h : SameState first second)
    (h' : SameState second third) : SameState first third :=
  ⟨h'.names.trans h.names, h'.inlining.trans h.inlining, h'.catalog.trans h.catalog⟩

theorem nameOf? {before after : Session} (h : SameState before after) (ref : String) :
    after.nameOf? ref = before.nameOf? ref := by
  rw [Session.nameOf?, h.names, Session.nameOf?]

end SameState

theorem sameState_warn (session : Session) (warning : Warning) :
    SameState session (session.warn warning) :=
  ⟨rfl, rfl, rfl⟩

/-- Opening an alias that is closed and closing it again leaves the aliases as they were. -/
theorem SameState.close {session after : Session} {ref : String} (closed : ref ∉ session.inlining)
    (h : SameState (session.openInline ref) after) : SameState session (after.endInline ref) :=
  ⟨h.names, inlining_endInline closed h.inlining, h.catalog⟩

end Session

namespace Synthesis

open ApiBinding.Schema

variable {scope : Scope}

/-! ## Names after calls -/

theorem canonical_empty (scope : Scope) : Canonical scope .empty := by
  simp [Canonical, Session.nameOf?, Session.empty]

theorem RecordDerivation.canonical {session : Session} {name : String} {schema : Mapping}
    {result : Except Failure TypeExpr} {after : Session} {events : List Event}
    (derivation : RecordDerivation scope (TypeDerivation scope) result session name schema after
      events)
    (canonical : Canonical scope session) : Canonical scope after := by
  cases derivation with
  | taken _ => exact canonical
  | unreadable _ _ => exact canonical
  | broken _ _ steps => exact steps.canonical (fun typed => typed.canonical) canonical
  | stored _ _ steps => exact steps.canonical (fun typed => typed.canonical) canonical

theorem CallDerivation.canonical {session after : Session} {call : Call} {events : List Event}
    (derivation : CallDerivation scope session call after events)
    (canonical : Canonical scope session) : Canonical scope after := by
  cases derivation with
  | request answered =>
      cases answered with
      | type typed => exact typed.canonical canonical
      | declare record => exact record.canonical canonical
  | text typed => exact typed.canonical canonical
  | flatten _ => exact canonical
  | fields steps => exact steps.canonical (fun typed => typed.canonical) canonical

theorem CallsDerivation.canonical {session after : Session}
    {calls : List (Option Placement × Call)} {events : List Event}
    (derivation : CallsDerivation scope session calls after events)
    (canonical : Canonical scope session) : Canonical scope after := by
  induction derivation with
  | nil session => exact canonical
  | next first _ ih => exact ih (first.canonical canonical)

/-- After any calls from the start every name is the one of its definition, and nothing is
open. -/
theorem canonical_afterCalls (scope : Scope) (calls : List (Option Placement × Call)) :
    Canonical scope (afterCalls scope .empty calls) ∧
      (afterCalls scope .empty calls).inlining = [] := by
  obtain ⟨_, derivation⟩ := afterCalls_derivation scope .empty calls
  exact ⟨derivation.canonical (canonical_empty scope), derivation.grows.inlining⟩

/-! ## Typing again -/

/-- A session in which a node can be typed again: the names that the first run left are known,
and the same aliases are open as before that run. -/
structure Revisits (scope : Scope) (before after later : Session) : Prop where
  canonical : Canonical scope later
  inlining : later.inlining = before.inlining
  names : ∀ {ref name}, after.nameOf? ref = some name → later.nameOf? ref = some name

theorem Revisits.keep {before after later again : Session}
    (h : Revisits scope before after later) (same : later.SameState again) :
    Revisits scope before after again where
  canonical ref name known := h.canonical ref name (by rwa [← same.nameOf?])
  inlining := same.inlining.trans h.inlining
  names known := by
    rw [same.nameOf?]
    exact h.names known

/-- A judgement under which a node that was typed gets its type again, without an event. -/
def Judgement.Repeats (scope : Scope) (placement : Option Placement) (typed : Judgement) : Prop :=
  ∀ ⦃before node type after events later⦄, typed before node (.ok type) after events →
    Revisits scope before after later →
    ∃ again, TypeDerivation { scope with placement := placement } later node (.ok type) again [] ∧
      later.SameState again

theorem StepsDerivation.again {placement : Option Placement} {typed : Judgement}
    (repeats : typed.Repeats scope placement)
    (growing : typed.Growing) {before after later : Session} {steps : List Step}
    {result : Except Failure (List TypeExpr)} {types : List TypeExpr} {events : List Event}
    (derivation : StepsDerivation typed before steps result after events)
    (success : result = .ok types) (revisits : Revisits scope before after later) :
    ∃ again, StepsDerivation (TypeDerivation { scope with placement := placement }) later steps
      (.ok types) again [] ∧ later.SameState again := by
  induction derivation generalizing later types with
  | nil session =>
      obtain rfl := Except.ok.inj success
      exact ⟨later, .nil later, .refl later⟩
  | @skip _ warning _ _ _ _ _ ih =>
      have warned := Session.sameState_warn later warning
      have onward := revisits.keep warned
      obtain ⟨again, steps, same⟩ := ih success ⟨onward.canonical, onward.inlining, onward.names⟩
      exact ⟨again, .skip steps, warned.trans same⟩
  | stop _ => simp at success
  | refuse _ _ => simp at success
  | @next _ _ _ _ type middle result _ _ _ typed accepted rest ih =>
      cases result with
      | error failure => simp [Except.map] at success
      | ok others =>
          obtain rfl : type :: others = types := by simpa [Except.map] using success
          have grown := rest.grows growing
          obtain ⟨between, typed', same⟩ := repeats typed
            ⟨revisits.canonical, revisits.inlining, fun known => revisits.names (grown.names known)⟩
          have onward := revisits.keep same
          have inlining := onward.inlining.trans (growing typed).inlining.symm
          obtain ⟨again, steps, same'⟩ := ih rfl ⟨onward.canonical, inlining, onward.names⟩
          exact ⟨again, .next typed' accepted steps, same.trans same'⟩

/-- The induction is on the first derivation. Where it named a reference, the second one finds
the name; an alias is written in place again, since the same aliases are open. -/
theorem TypeDerivation.again (placement : Option Placement) {before after later : Session}
    {node : Value} {result : Except Failure TypeExpr} {type : TypeExpr} {events : List Event}
    (derivation : TypeDerivation scope before node result after events)
    (success : result = .ok type) (revisits : Revisits scope before after later) :
    ∃ again, TypeDerivation { scope with placement := placement } later node (.ok type) again [] ∧
      later.SameState again := by
  induction derivation using TypeDerivation.induct generalizing later type with
  | @done session node result work =>
      suffices settled : workOf scope later node = .done (.ok type) from
        ⟨later, .done settled, .refl later⟩
      subst success
      rcases refersTo_or_workOf_eq scope node with ⟨ref, refers⟩ | same
      · rw [workOf_of_refersTo refers, referenceWork] at work
        split at work
        · rename_i name known
          rw [workOf_of_refersTo refers, referenceWork, revisits.names known]
          exact work
        · split at work
          · simp at work
          · simp at work
          · rename_i schema defined
            split at work
            · rename_i opened
              rw [← revisits.inlining] at opened
              rw [workOf_alias refers (nameOf?_of_inPlace revisits.canonical defined) defined,
                if_pos opened]
              exact work
            · simp at work
      · rw [same later session, work]
  | @compose session node composition result after events work steps =>
      cases result with
      | error failure => simp [Except.map] at success
      | ok types =>
          obtain rfl : composition.build types = type := by simpa [Except.map] using success
          have repeats : Judgement.Repeats scope placement fun s n r a e =>
              ∃ d : TypeDerivation scope s n r a e, ∀ {later : Session} {type : TypeExpr},
                r = .ok type → Revisits scope s a later →
                ∃ again, TypeDerivation { scope with placement := placement } later n (.ok type)
                  again [] ∧ later.SameState again :=
            fun _ _ _ _ _ _ both revisits => both.choose_spec rfl revisits
          obtain ⟨again, steps', same⟩ := steps.again repeats
            (fun _ _ _ _ _ both => both.choose.grows) rfl revisits
          have work' : workOf { scope with placement := placement } later node =
              .compose composition := workOf_compose_eq work later
          exact ⟨again, .compose work' steps', same⟩
  | @declare session node ref name schema result after events work record =>
      obtain ⟨refers, _, _⟩ := workOf_eq_declare work
      have named : (session.register ref name).nameOf? ref = some name := by
        simp [Session.nameOf?_register]
      have grown := record.grows fun _ _ _ _ _ both => both.choose.grows
      have settled : workOf scope later node = .done (.ok (.reference name)) := by
        rw [workOf_of_refersTo refers, referenceWork, revisits.names (grown.names named)]
      rw [record.eq_reference success]
      exact ⟨later, .done settled, .refl later⟩
  | @expand session node ref schema result after events work inner ih =>
      obtain ⟨refers, _, defined, closed⟩ := workOf_eq_expand work
      rw [← revisits.inlining] at closed
      have work' := workOf_alias refers (nameOf?_of_inPlace revisits.canonical defined) defined
      rw [if_neg closed] at work'
      have inside : Revisits scope (session.openInline ref) after (later.openInline ref) :=
        ⟨revisits.canonical, congrArg (ref :: ·) revisits.inlining, revisits.names⟩
      obtain ⟨again, inner', same⟩ := ih success inside
      exact ⟨again.endInline ref, .expand work' inner', same.close closed⟩

/-- A node that was just typed gets the same type again, and only warnings are added. -/
theorem printedType_again (placement : Option Placement) {before after : Session} {node : Value}
    {type : TypeExpr} (canonical : Canonical scope before)
    (printed : outcome (printedType scope node) before = (.ok type, after)) :
    ∃ again, outcome (printedType { scope with placement := placement } node) after =
      (.ok type, again) ∧ after.SameState again := by
  obtain ⟨events, derivation⟩ := printedType_derivation printed
  have revisits : Revisits scope before after after :=
    ⟨derivation.canonical canonical, derivation.grows.inlining, id⟩
  obtain ⟨again, derivation', same⟩ := derivation.again placement rfl revisits
  exact ⟨again, derivation'.printedType (isPrintable_of_printedType printed), same⟩

/-! ## Independence and repetition -/

/-- What was asked before does not matter to a type: after any calls, failed ones among them, a
node that gets a type gets the one that it has at the start, if it gets one there. Typing the
node once more right away gives that type again and changes no name, no record and no open
alias. Neither depends on the placement of the records. -/
theorem printedType_after_calls {scope : Scope} {calls : List (Option Placement × Call)}
    {placement : Option Placement} {node : Value} {type : TypeExpr} {after : Session}
    (printed : outcome (printedType { scope with placement := placement } node)
      (afterCalls scope .empty calls) = (.ok type, after)) :
    (∀ first type' fresh,
      outcome (printedType { scope with placement := first } node) .empty = (.ok type', fresh) →
      type = type') ∧
    ∀ next, ∃ again,
      outcome (printedType { scope with placement := next } node) after = (.ok type, again) ∧
      again.names = after.names ∧ again.catalog = after.catalog ∧
      again.inlining = after.inlining := by
  obtain ⟨canonical, idle⟩ := canonical_afterCalls scope calls
  constructor
  · intro first type' fresh start
    obtain ⟨_, derivation⟩ := printedType_derivation printed
    obtain ⟨_, derivation'⟩ := printedType_derivation start
    refine derivation.congr rfl derivation' canonical (canonical_empty scope) ?_
    intro ref schema _
    rw [idle]
    rfl
  · intro next
    have here : Canonical { scope with placement := placement } (afterCalls scope .empty calls) :=
      canonical
    obtain ⟨again, repeated, same⟩ := printedType_again next here printed
    exact ⟨again, repeated, same.names, same.catalog, same.inlining⟩

/-- A record whose field is an alias, and an alias that leads back to itself and to the record. -/
def treeScope : Scope where
  table := ⟨"#/definitions/", [
    (.text "Leaf", .ofFields [
      ("properties", .ofFields [
        ("parent", .ofFields [("$ref", .text "#/definitions/Tree")])])]),
    (.text "Tree", .ofFields [
      ("type", .text "array"),
      ("items", .ofFields [
        ("anyOf", .list [
          .ofFields [("$ref", .text "#/definitions/Leaf")],
          .ofFields [("$ref", .text "#/definitions/Tree")]])])])]⟩
  options := {}
  lexicon := .standard
  placement := some .body

def leafNode : Value := .ofFields [("$ref", .text "#/definitions/Leaf")]

def treeNode : Value := .ofFields [("$ref", .text "#/definitions/Tree")]

/-- The alias has one type at the start, after the record, and once more after that. -/
theorem printedType_treeNode :
    ∃ type fresh after again,
      outcome (printedType treeScope treeNode) .empty = (.ok type, fresh) ∧
      outcome (printedType treeScope treeNode)
        (afterCalls treeScope .empty [(some .body, .text leafNode)]) = (.ok type, after) ∧
      outcome (printedType treeScope treeNode) after = (.ok type, again) ∧
      again.catalog = after.catalog ∧ type.render = "(Leaf | object)[]" := by
  have start : (outcome (printedType treeScope treeNode) .empty).1.toOption.map TypeExpr.render =
      some "(Leaf | object)[]" := by
    decide +kernel
  have later : (outcome (printedType treeScope treeNode)
      (afterCalls treeScope .empty [(some .body, .text leafNode)])).1.toBool = true := by
    decide +kernel
  generalize made : outcome (printedType treeScope treeNode) .empty = found at start
  generalize made' : outcome (printedType treeScope treeNode)
    (afterCalls treeScope .empty [(some .body, .text leafNode)]) = found' at later
  obtain ⟨result, fresh⟩ := found
  obtain ⟨result', after⟩ := found'
  cases result with
  | error failure => simp [Except.toOption] at start
  | ok type =>
      cases result' with
      | error failure => simp [Except.toBool] at later
      | ok type' =>
          obtain ⟨same, repeated⟩ := @printedType_after_calls treeScope
            [(some .body, .text leafNode)] (some .body) treeNode type' after made'
          obtain rfl := same (some .body) type fresh made
          obtain ⟨again, typed, -, catalog, -⟩ := repeated (some .body)
          refine ⟨type', fresh, after, again, rfl, rfl, typed, catalog, ?_⟩
          simpa [Except.toOption] using start

end Synthesis

end ApiBinding
