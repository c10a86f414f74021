import ApiBinding.Proofs.Schema.Shape
import ApiBinding.Proofs.Synthesis.Alias
import ApiBinding.Proofs.Synthesis.Depth
import ApiBinding.Proofs.TypeExpr.RoundTrip

/-! The types of schemas are buildable, as far as the names and the values that are copied from a
document allow it: no combination that is synthesized is empty. -/

namespace ApiBinding

/-! ## Copied texts -/

namespace TypeExpr

mutual

/-- The names and copied texts in an expression are words, and its literals are atoms. -/
def IsLexical : TypeExpr → Prop
  | .primitive _ => True
  | .reference name => TypeText.IsWord name
  | .verbatim text => TypeText.IsWord text
  | .array element => IsLexical element
  | .tuple elements => AreLexical elements
  | .union members => AreLexical members
  | .intersection members => AreLexical members
  | .literals texts => ∀ text ∈ texts, TypeText.IsAtomText text
  | .struct members => MembersAreLexical members

def AreLexical : List TypeExpr → Prop
  | [] => True
  | expr :: rest => IsLexical expr ∧ AreLexical rest

def MembersAreLexical : List (Member TypeExpr) → Prop
  | [] => True
  | ⟨_, _, type, _⟩ :: rest => IsLexical type ∧ MembersAreLexical rest

end

theorem areLexical_iff (exprs : List TypeExpr) :
    AreLexical exprs ↔ ∀ expr ∈ exprs, expr.IsLexical := by
  induction exprs with
  | nil => simp [AreLexical]
  | cons expr rest ih => simp [AreLexical, ih]

theorem membersAreLexical_iff (members : List (Member TypeExpr)) :
    MembersAreLexical members ↔ ∀ member ∈ members, member.type.IsLexical := by
  induction members with
  | nil => simp [MembersAreLexical]
  | cons member rest ih => simp [MembersAreLexical, ih]

theorem buildable_object : TypeExpr.object.Buildable :=
  .primitive (by decide)

end TypeExpr

/-! ## Types without schemas inside -/

namespace Schema

theorem buildable_builtin {word : String} {type : TypeExpr} (h : builtin? word = some type) :
    type.Buildable := by
  unfold builtin? at h
  repeat' split at h
  all_goals first
    | obtain rfl := Option.some.inj h
      exact .primitive (by decide)
    | simp at h

theorem buildable_of_shape {schema : Mapping} {type : TypeExpr}
    (h : shape schema = .ok (.leaf type)) (lexical : type.IsLexical) : type.Buildable := by
  cases leafRule_of_shape h with
  | builtin built => exact buildable_builtin built
  | text => exact .primitive (by decide)
  | literals nonempty => exact .literals nonempty lexical
  | object => exact TypeExpr.buildable_object
  | copied text => exact .verbatim lexical

end Schema

namespace Synthesis

open Schema TypeExpr

variable {scope : Scope}

/-! ## Composite types -/

/-- A type that is buildable if its copied texts allow it. -/
def Builds (type : TypeExpr) : Prop :=
  type.IsLexical → type.Buildable

theorem builds_unionOf {types : List TypeExpr} (nonempty : types ≠ [])
    (h : ∀ type ∈ types, Builds type) : Builds (unionOf types) := by
  intro lexical
  match types, nonempty, h with
  | [type], _, h => exact h type List.mem_cons_self lexical
  | first :: second :: rest, _, h =>
      have all := (areLexical_iff _).mp lexical
      exact .union (List.cons_ne_nil _ _) fun type member => h type member (all type member)

theorem builds_objectOf {requirement : Requirement} {properties : Mapping}
    {types : List TypeExpr} (h : ∀ type ∈ types, Builds type) :
    Builds (objectOf requirement properties types) := by
  have parts : ∀ member ∈ membersOf requirement properties types, Builds member.type := by
    intro member inside
    obtain ⟨i, bound, rfl⟩ := List.mem_iff_getElem.mp inside
    simp only [membersOf, List.getElem_zipWith]
    exact h _ (List.getElem_mem _)
  unfold objectOf
  split
  · exact fun _ => buildable_object
  · intro lexical
    have all := (membersAreLexical_iff _).mp lexical
    exact .struct fun member inside => parts member inside (all member inside)

/-- A composite type is buildable from its parts. -/
theorem builds_build {session : Session} {node : Value} {composition : Composition}
    (work : workOf scope session node = .compose composition) {types : List TypeExpr}
    (count : types.length = (typedNodes composition.steps).length)
    (h : ∀ type ∈ types, Builds type) : Builds (composition.build types) := by
  obtain ⟨schema, found, -, shaped, rule⟩ := workOf_eq_compose work
  cases rule with
  | array items =>
      intro lexical
      cases types with
      | nil => exact .array buildable_object
      | cons type rest => exact .array (h type List.mem_cons_self lexical)
  | tuple elements =>
      intro lexical
      have all := (areLexical_iff _).mp lexical
      exact .tuple fun type member => h type member (all type member)
  | union members =>
      refine builds_unionOf ?_ h
      have positive := List.length_pos_iff.mpr (ne_nil_of_shape (.inl shaped))
      rw [typedNodes_plainSteps] at count
      exact List.length_pos_iff.mp (by omega)
  | intersection members =>
      intro lexical
      have all := (areLexical_iff _).mp lexical
      refine .intersection ?_ fun type member => h type member (all type member)
      have positive := List.length_pos_iff.mpr (ne_nil_of_shape (.inr shaped))
      rw [typedNodes_plainSteps] at count
      exact List.length_pos_iff.mp (by omega)
  | object properties requirement => exact builds_objectOf h

theorem builds_done {session : Session} {node : Value} {type : TypeExpr}
    (work : workOf scope session node = .done (.ok type)) : Builds type := by
  generalize success : Except.ok type = result at work
  cases workOf_eq_done work with
  | unshown _ _ => simp at success
  | malformed _ => simp at success
  | notText _ _ => simp at success
  | unknown _ _ => simp at success
  | leaf shaped =>
      obtain rfl := Except.ok.inj success
      exact buildable_of_shape shaped
  | copied _ =>
      obtain rfl := Except.ok.inj success
      exact .verbatim
  | named _ _ =>
      obtain rfl := Except.ok.inj success
      exact .reference
  | _ =>
      obtain rfl := Except.ok.inj success
      exact fun _ => buildable_object

/-! ## Derivations -/

theorem StepsDerivation.builds {typed : Judgement}
    (h : ∀ {session node type after events}, typed session node (.ok type) after events →
      Builds type)
    {session : Session} {steps : List Step} {result : Except Failure (List TypeExpr)}
    {types : List TypeExpr} {after : Session} {events : List Event}
    (derivation : StepsDerivation typed session steps result after events)
    (success : result = .ok types) :
    types.length = (typedNodes steps).length ∧ ∀ type ∈ types, Builds type := by
  induction derivation generalizing types with
  | nil session =>
      obtain rfl := Except.ok.inj success
      simp [typedNodes]
  | skip _ ih => exact ih success
  | stop _ => simp at success
  | refuse _ _ => simp at success
  | @next _ _ _ _ type _ result _ _ _ typed _ _ ih =>
      cases result with
      | error failure => simp [Except.map] at success
      | ok rest =>
          obtain rfl : type :: rest = types := by simpa [Except.map] using success
          obtain ⟨count, others⟩ := ih rfl
          refine ⟨by simp [typedNodes, count], ?_⟩
          intro other member
          rcases List.mem_cons.mp member with rfl | member
          · exact h typed
          · exact others other member

/-- Whatever type a node gets, it is buildable if its copied texts allow it. -/
theorem TypeDerivation.buildable {session : Session} {node : Value}
    {result : Except Failure TypeExpr} {type : TypeExpr} {after : Session} {events : List Event}
    (derivation : TypeDerivation scope session node result after events)
    (success : result = .ok type) (lexical : type.IsLexical) : type.Buildable := by
  induction derivation using TypeDerivation.induct generalizing type with
  | done work =>
      subst success
      exact builds_done work lexical
  | @compose _ _ composition result _ _ work steps =>
      cases result with
      | error failure => simp [Except.map] at success
      | ok types =>
          obtain rfl : composition.build types = type := by simpa [Except.map] using success
          obtain ⟨count, parts⟩ :=
            steps.builds (fun both lexical => both.choose_spec rfl lexical) rfl
          exact builds_build work count parts lexical
  | declare _ record =>
      obtain rfl := record.eq_reference success
      exact .reference lexical
  | expand _ _ ih => exact ih success lexical

theorem buildable_of_typeOf {session after : Session} {node : Value} {type : TypeExpr}
    (h : outcome (typeOf scope node) session = (.ok type, after)) (lexical : type.IsLexical) :
    type.Buildable := by
  obtain ⟨events, derivation⟩ := typeOf_derivation scope session node (le_refl _)
  change outcome (typeWithin scope _ node) session = _ at h
  rw [h] at derivation
  exact derivation.buildable rfl lexical

/-- The text of a type that was synthesized can be read, and is read as the type exactly if no bar
is torn from its union. -/
theorem read_render_of_typeOf {session after : Session} {node : Value} {type : TypeExpr}
    (h : outcome (typeOf scope node) session = (.ok type, after)) (lexical : type.IsLexical) :
    ∃ found, TypeText.read type.render = some found ∧
      (found = type.tree ↔ type.KeepsGroups) := by
  have buildable := buildable_of_typeOf h lexical
  exact ⟨type.chain.tree, read_render buildable, buildable.accurate.same⟩

end Synthesis

end ApiBinding
