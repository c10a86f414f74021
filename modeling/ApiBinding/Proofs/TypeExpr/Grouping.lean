import ApiBinding.Proofs.TypeExpr.LiteralText
import ApiBinding.Proofs.TypeExpr.Tree
import ApiBinding.Proofs.Value.Writable

/-! How a type expression groups, and how its text does. The two trees are equal exactly if no
bar stands where a reader takes it apart from its union. -/

namespace ApiBinding.TypeExpr

open TypeTree

/-! ## The tree of an expression -/

mutual

/-- How an expression groups by its constructors. -/
def tree : TypeExpr → TypeTree
  | .primitive name => .atom name
  | .reference name => .atom name
  | .verbatim text => .atom text
  | .array element => .array (tree element)
  | .tuple elements => .tuple (trees elements)
  | .union members => unite (trees members)
  | .intersection members => meet (trees members)
  | .literals texts => unite (texts.map .atom)
  | .struct members => .object (memberTrees members)

def trees : List TypeExpr → List TypeTree
  | [] => []
  | expr :: rest => tree expr :: trees rest

def memberTrees : List (Member TypeExpr) → List (String × Bool × TypeTree)
  | [] => []
  | ⟨name, required, type, _⟩ :: rest => (name.display, required, tree type) :: memberTrees rest

end

/-! ## The tree of its text -/

mutual

/-- What the text of an expression is read as. -/
def chain : TypeExpr → Chain
  | .primitive name => .single (.atom name)
  | .reference name => .single (.atom name)
  | .verbatim text => .single (.atom text)
  | .array element =>
    let inner := chain element
    if element.isOpenUnion then .single (.array inner.tree)
    else ⟨inner.closed, .array inner.last⟩
  | .tuple elements => .single (.tuple ((chains elements).map Chain.tree))
  | .union members =>
    match chains members with
    | [] => .single (.union [])
    | first :: rest => first.join rest
  | .intersection members =>
    match chains members with
    | [] => .single (.intersection [])
    | first :: rest => .single (Level.empty.closeAll first rest)
  | .literals texts =>
    match texts.map fun text => Chain.single (.atom text) with
    | [] => .single (.union [])
    | first :: rest => first.join rest
  | .struct members => .single (.object (memberReadings members))

def chains : List TypeExpr → List Chain
  | [] => []
  | expr :: rest => chain expr :: chains rest

def memberReadings : List (Member TypeExpr) → List (String × Bool × TypeTree)
  | [] => []
  | ⟨name, required, type, _⟩ :: rest =>
    (name.display, required, (chain type).tree) :: memberReadings rest

end

/-! ## Where the two agree -/

mutual

/-- Whether the text of an expression has a bar outside all brackets. -/
def hasOpenBar : TypeExpr → Bool
  | .array element => !element.isOpenUnion && hasOpenBar element
  | .union members => haveOpenBar members
  | .literals texts => texts.length > 1
  | _ => false

/-- The same for the members of a union. -/
def haveOpenBar : List TypeExpr → Bool
  | [] => false
  | [member] => hasOpenBar member
  | _ :: _ :: _ => true

end

mutual

/-- No bar is torn from its union: two or more members of an intersection have no open bar, and
the element of an array has one only where the array puts parentheses around it. -/
def KeepsGroups : TypeExpr → Prop
  | .array element =>
    KeepsGroups element ∧ (hasOpenBar element = true → element.isOpenUnion = true)
  | .tuple elements => KeepAllGroups elements
  | .union members => KeepAllGroups members
  | .intersection members =>
    KeepAllGroups members ∧ (2 ≤ members.length → ∀ member ∈ members, hasOpenBar member = false)
  | .struct members => MembersKeepGroups members
  | _ => True

def KeepAllGroups : List TypeExpr → Prop
  | [] => True
  | expr :: rest => KeepsGroups expr ∧ KeepAllGroups rest

def MembersKeepGroups : List (Member TypeExpr) → Prop
  | [] => True
  | ⟨_, _, type, _⟩ :: rest => KeepsGroups type ∧ MembersKeepGroups rest

end

/-- An expression that has a text: names and copied texts are words, literals are atoms, and no
combination is empty. -/
inductive Buildable : TypeExpr → Prop where
  | primitive {name} : TypeText.IsWord name → Buildable (.primitive name)
  | reference {name} : TypeText.IsWord name → Buildable (.reference name)
  | verbatim {text} : TypeText.IsWord text → Buildable (.verbatim text)
  | array {element} : Buildable element → Buildable (.array element)
  | tuple {elements} : (∀ element ∈ elements, Buildable element) → Buildable (.tuple elements)
  | union {members} : members ≠ [] → (∀ member ∈ members, Buildable member) →
      Buildable (.union members)
  | intersection {members} : members ≠ [] → (∀ member ∈ members, Buildable member) →
      Buildable (.intersection members)
  | literals {texts} : texts ≠ [] → (∀ text ∈ texts, TypeText.IsAtomText text) →
      Buildable (.literals texts)
  | struct {members : List (Member TypeExpr)} : (∀ member ∈ members, Buildable member.type) →
      Buildable (.struct members)

/-- A union of scalar values. -/
theorem buildable_ofLiterals {values : List Value} {type : TypeExpr} (nonempty : values ≠ [])
    (h : ∀ value ∈ values, TypeText.IsScalar value) (made : ofLiterals values = .ok type) :
    type.Buildable := by
  obtain ⟨-, rfl⟩ := ofLiterals_eq_ok_iff.mp made
  exact .literals (literals_ne_nil nonempty) fun _ => TypeText.isAtomText_of_literals h

/-! ## Lists of expressions -/

theorem trees_eq (exprs : List TypeExpr) : trees exprs = exprs.map tree := by
  induction exprs with
  | nil => rfl
  | cons expr rest ih => simp [trees, ih]

theorem chains_eq (exprs : List TypeExpr) : chains exprs = exprs.map chain := by
  induction exprs with
  | nil => rfl
  | cons expr rest ih => simp [chains, ih]

theorem memberTrees_eq (members : List (Member TypeExpr)) :
    memberTrees members = members.map fun member =>
      (member.name.display, member.required, member.type.tree) := by
  induction members with
  | nil => rfl
  | cons member rest ih => simp [memberTrees, ih]

theorem memberReadings_eq (members : List (Member TypeExpr)) :
    memberReadings members = members.map fun member =>
      (member.name.display, member.required, member.type.chain.tree) := by
  induction members with
  | nil => rfl
  | cons member rest ih => simp [memberReadings, ih]

theorem keepAllGroups_iff (exprs : List TypeExpr) :
    KeepAllGroups exprs ↔ ∀ expr ∈ exprs, KeepsGroups expr := by
  induction exprs with
  | nil => simp [KeepAllGroups]
  | cons expr rest ih => simp [KeepAllGroups, ih]

theorem membersKeepGroups_iff (members : List (Member TypeExpr)) :
    MembersKeepGroups members ↔ ∀ member ∈ members, KeepsGroups member.type := by
  induction members with
  | nil => simp [MembersKeepGroups]
  | cons member rest ih => simp [MembersKeepGroups, ih]

/-! ## Agreement -/

/-- What is known of an expression and its text. The text has at least as many alternatives, so
none can make up for another. -/
structure Accurate (expr : TypeExpr) : Prop where
  flatChain : expr.chain.IsFlat
  flatTree : expr.tree.IsFlat
  bar : expr.chain.closed = [] ↔ expr.hasOpenBar = false
  fewer : expr.tree.alternatives.length ≤ expr.chain.tree.alternatives.length
  same : expr.chain.tree = expr.tree ↔ expr.KeepsGroups

/-- An expression whose text is one operand. -/
theorem accurate_of_single {expr : TypeExpr} {read : TypeTree} (hchain : expr.chain = .single read)
    (single : read.IsSingle) (flat : expr.tree.IsSingle) (bar : expr.hasOpenBar = false)
    (same : read = expr.tree ↔ expr.KeepsGroups) : expr.Accurate where
  flatChain := by
    rw [hchain]
    exact Chain.isFlat_single single.isFlat
  flatTree := flat.isFlat
  bar := by simp [hchain, Chain.single, bar]
  fewer := by
    rw [hchain, Chain.tree_single single.isFlat, single.alternatives, flat.alternatives]
    simp
  same := by
    rw [hchain, Chain.tree_single single.isFlat]
    exact same

/-- An expression that is no union and whose text is read as one. -/
theorem accurate_of_torn {expr : TypeExpr} (flat : expr.chain.IsFlat) (single : expr.tree.IsSingle)
    (two : 2 ≤ expr.chain.tree.alternatives.length)
    (bar : expr.chain.closed = [] ↔ expr.hasOpenBar = false) (torn : ¬expr.KeepsGroups) :
    expr.Accurate := by
  have one : expr.tree.alternatives.length = 1 := by
    rw [single.alternatives]
    rfl
  refine ⟨flat, single.isFlat, bar, by omega, ?_⟩
  constructor
  · intro same
    rw [same] at two
    omega
  · intro kept
    exact (torn kept).elim

theorem accurate_atom {expr : TypeExpr} {text : String} (chain : expr.chain = .single (.atom text))
    (tree : expr.tree = .atom text) (bar : expr.hasOpenBar = false) (keeps : expr.KeepsGroups) :
    expr.Accurate := by
  refine accurate_of_single chain (by simp [IsSingle]) (by simp [IsSingle, tree]) bar ?_
  simp [tree, keeps]

section words

attribute [local simp] tree chain hasOpenBar KeepsGroups

theorem accurate_primitive (name : String) : (TypeExpr.primitive name).Accurate := by
  apply @accurate_atom _ name <;> simp

theorem accurate_reference (name : String) : (TypeExpr.reference name).Accurate := by
  apply @accurate_atom _ name <;> simp

theorem accurate_verbatim (text : String) : (TypeExpr.verbatim text).Accurate := by
  apply @accurate_atom _ text <;> simp

end words

theorem accurate_array {element : TypeExpr} (h : element.Accurate) :
    (TypeExpr.array element).Accurate := by
  by_cases parenthesized : element.isOpenUnion = true
  · have hchain : (TypeExpr.array element).chain = .single (.array element.chain.tree) := by
      simp [chain, parenthesized]
    refine accurate_of_single hchain (by simp [IsSingle]) (by simp [IsSingle, tree]) ?_ ?_
    · simp [hasOpenBar, parenthesized]
    · simp [tree, KeepsGroups, parenthesized, h.same]
  · have hchain : (TypeExpr.array element).chain =
        ⟨element.chain.closed, .array element.chain.last⟩ := by
      simp [chain, parenthesized]
    have bare : (TypeExpr.array element).hasOpenBar = element.hasOpenBar := by
      simp [hasOpenBar, parenthesized]
    by_cases closed : element.chain.closed = []
    · have single : (TypeExpr.array element).chain = .single (.array element.chain.tree) := by
        rw [hchain, closed, h.flatChain.tree_of_closed_nil closed]
        rfl
      have bar := h.bar.mp closed
      refine accurate_of_single single (by simp [IsSingle]) (by simp [IsSingle, tree]) ?_ ?_
      · rw [bare, bar]
      · simp [tree, KeepsGroups, bar, h.same]
    -- The suffix binds the last alternative only.
    · have flat : (TypeExpr.array element).chain.IsFlat := by
        intro read member
        rw [hchain] at member
        rcases List.mem_append.mp member with member | member
        · exact h.flatChain read (List.mem_append_left _ member)
        · obtain rfl := List.mem_singleton.mp member
          trivial
      have bars : (TypeExpr.array element).chain.closed ≠ [] := by rwa [hchain]
      have bar : element.hasOpenBar = true := by
        simpa using mt h.bar.mpr closed
      refine accurate_of_torn flat (by simp [IsSingle, tree]) (flat.two_le_of_closed_ne_nil bars)
        ?_ ?_
      · simp [bars, bare, bar]
      · intro kept
        exact parenthesized (kept.2 bar)

theorem accurate_tuple {elements : List TypeExpr} (h : ∀ element ∈ elements, element.Accurate) :
    (TypeExpr.tuple elements).Accurate := by
  have hchain : (TypeExpr.tuple elements).chain =
      .single (.tuple (elements.map fun element => element.chain.tree)) := by
    simp [chain, chains_eq, Function.comp_def]
  refine accurate_of_single hchain (by simp [IsSingle]) (by simp [IsSingle, tree]) rfl ?_
  simp only [tree, trees_eq, TypeTree.tuple.injEq, List.map_inj_left, KeepsGroups,
    keepAllGroups_iff]
  exact forall₂_congr fun element member => (h element member).same

theorem accurate_struct {members : List (Member TypeExpr)}
    (h : ∀ member ∈ members, member.type.Accurate) : (TypeExpr.struct members).Accurate := by
  have hchain : (TypeExpr.struct members).chain = .single (.object (memberReadings members)) := by
    simp [chain]
  refine accurate_of_single hchain (by simp [IsSingle]) (by simp [IsSingle, tree]) rfl ?_
  simp only [tree, memberTrees_eq, memberReadings_eq, TypeTree.object.injEq, List.map_inj_left,
    KeepsGroups, membersKeepGroups_iff, Prod.mk.injEq, true_and]
  exact forall₂_congr fun member inside => (h member inside).same

theorem length_flatMap_le {α β : Type} {long short : α → List β} {items : List α}
    (h : ∀ item ∈ items, (short item).length ≤ (long item).length) :
    (items.flatMap short).length ≤ (items.flatMap long).length := by
  induction items with
  | nil => simp
  | cons item rest ih =>
      have here := h item (by simp)
      have others := ih fun other member => h other (by simp [member])
      simp only [List.flatMap_cons, List.length_append]
      omega

/-- Concatenations of longer lists are equal only piece by piece. -/
theorem flatMap_eq_iff {α β : Type} {long short : α → List β} {items : List α}
    (h : ∀ item ∈ items, (short item).length ≤ (long item).length) :
    items.flatMap long = items.flatMap short ↔ ∀ item ∈ items, long item = short item := by
  constructor
  · induction items with
    | nil => simp
    | cons item rest ih =>
        intro same
        have here := h item (by simp)
        have others : ∀ other ∈ rest, (short other).length ≤ (long other).length :=
          fun other member => h other (by simp [member])
        have below := length_flatMap_le others
        have lengths := congrArg List.length same
        simp only [List.flatMap_cons, List.length_append] at lengths same
        obtain ⟨first, more⟩ := List.append_inj same (by omega)
        intro other member
        rcases List.mem_cons.mp member with rfl | member
        · exact first
        · exact ih others more other member
  · intro same
    rw [List.flatMap_def, List.map_congr_left same, ← List.flatMap_def]

theorem isFlat_trees {members : List TypeExpr} (h : ∀ member ∈ members, member.Accurate) :
    ∀ read ∈ members.map tree, read.IsFlat := by
  intro read member
  obtain ⟨expr, hexpr, rfl⟩ := List.mem_map.mp member
  exact (h expr hexpr).flatTree

section union

variable {members : List TypeExpr} (nonempty : members ≠ [])
  (h : ∀ member ∈ members, member.Accurate)

include nonempty

theorem all_chain_union :
    (TypeExpr.union members).chain.all = members.flatMap fun member => member.chain.all := by
  obtain ⟨first, rest, rfl⟩ := List.exists_cons_of_ne_nil nonempty
  simp [chain, chains_eq, Chain.all_join, List.flatMap_map]

theorem closed_chain_union (bar : ∀ member ∈ members,
      (member.chain.closed = [] ↔ member.hasOpenBar = false)) :
    (TypeExpr.union members).chain.closed = [] ↔ (TypeExpr.union members).hasOpenBar = false := by
  match members, nonempty, bar with
  | [member], _, bar => exact bar member List.mem_cons_self
  | first :: second :: rest, _, _ =>
      simp [chain, chains, Chain.join, Chain.append, hasOpenBar, haveOpenBar]

include h

theorem isFlat_chain_union : (TypeExpr.union members).chain.IsFlat := by
  intro read member
  rw [all_chain_union nonempty] at member
  obtain ⟨expr, hexpr, inside⟩ := List.mem_flatMap.mp member
  exact (h expr hexpr).flatChain read inside

/-- The alternatives that are read are those of the members' texts. -/
theorem alternatives_chain_union :
    (TypeExpr.union members).chain.tree.alternatives =
      members.flatMap fun member => member.chain.tree.alternatives := by
  rw [(isFlat_chain_union nonempty h).alternatives_tree, all_chain_union nonempty,
    List.flatMap_assoc, List.flatMap_def, List.flatMap_def]
  congr 1
  exact List.map_congr_left fun expr member => (h expr member).flatChain.alternatives_tree.symm

theorem alternatives_tree_union :
    (TypeExpr.union members).tree.alternatives =
      members.flatMap fun member => member.tree.alternatives := by
  rw [tree, trees_eq, alternatives_unite (by simpa using nonempty) (isFlat_trees h),
    List.flatMap_map]

/-- No member makes up for the alternatives of another one, so a union keeps its groups exactly if
each member does. -/
theorem accurate_union : (TypeExpr.union members).Accurate := by
  have flat := isFlat_chain_union nonempty h
  have flatTree : (TypeExpr.union members).tree.IsFlat := by
    rw [tree, trees_eq]
    exact isFlat_unite (by simpa using nonempty) (isFlat_trees h)
  have fewer : ∀ member ∈ members,
      member.tree.alternatives.length ≤ member.chain.tree.alternatives.length :=
    fun member inside => (h member inside).fewer
  refine ⟨flat, flatTree, closed_chain_union nonempty fun member inside => (h member inside).bar,
    ?_, ?_⟩
  · rw [alternatives_chain_union nonempty h, alternatives_tree_union nonempty h]
    exact length_flatMap_le fewer
  · have piecewise := flatMap_eq_iff fewer
    rw [← alternatives_chain_union nonempty h, ← alternatives_tree_union nonempty h] at piecewise
    rw [KeepsGroups, keepAllGroups_iff]
    constructor
    · intro same member inside
      have here := piecewise.mp (congrArg alternatives same) member inside
      exact (h member inside).same.mp
        (eq_of_alternatives_eq (h member inside).flatChain.tree (h member inside).flatTree here)
    · intro kept
      refine eq_of_alternatives_eq flat.tree flatTree (piecewise.mpr fun member inside => ?_)
      rw [(h member inside).same.mpr (kept member inside)]

end union

/-- An expression with the readings of another one. -/
theorem Accurate.congr {expr other : TypeExpr} (h : other.Accurate)
    (chain : expr.chain = other.chain) (tree : expr.tree = other.tree)
    (bar : expr.hasOpenBar = other.hasOpenBar) (keeps : expr.KeepsGroups ↔ other.KeepsGroups) :
    expr.Accurate where
  flatChain := chain ▸ h.flatChain
  flatTree := tree ▸ h.flatTree
  bar := by rw [chain, bar, h.bar]
  fewer := by rw [chain, tree]; exact h.fewer
  same := by rw [chain, tree, keeps, h.same]

/-- Literals are read as a union of copied texts. -/
theorem accurate_literals {texts : List String} (nonempty : texts ≠ []) :
    (TypeExpr.literals texts).Accurate := by
  have union : (TypeExpr.union (texts.map .verbatim)).Accurate := by
    apply accurate_union (by simpa using nonempty)
    intro member inside
    obtain ⟨text, _, rfl⟩ := List.mem_map.mp inside
    exact accurate_verbatim text
  refine union.congr ?_ ?_ ?_ ?_
  · simp [chain, chains_eq, Function.comp_def]
  · simp [tree, trees_eq, Function.comp_def]
  · match texts, nonempty with
    | [text], _ => simp [hasOpenBar, haveOpenBar]
    | _ :: _ :: _, _ => simp [hasOpenBar, haveOpenBar]
  · simp [KeepsGroups, keepAllGroups_iff]

theorem accurate_intersection_singleton {member : TypeExpr} (h : member.Accurate) :
    (TypeExpr.intersection [member]).Accurate := by
  have hchain : (TypeExpr.intersection [member]).chain = .single member.chain.tree := by
    rw [chain, chains, chains]
    exact congrArg Chain.single (Level.close_pass_empty member.chain)
  have htree : (TypeExpr.intersection [member]).tree = member.tree := by
    simp [tree, trees, meet]
  have read := Chain.tree_single h.flatChain.tree
  refine ⟨?_, ?_, ?_, ?_, ?_⟩
  · rw [hchain]
    exact Chain.isFlat_single h.flatChain.tree
  · rw [htree]
    exact h.flatTree
  · simp [hchain, Chain.single, hasOpenBar]
  · rw [hchain, htree, read]
    exact h.fewer
  · rw [hchain, htree, read, h.same]
    simp [KeepsGroups, KeepAllGroups]

section intersection

variable {first second : TypeExpr} {rest : List TypeExpr}
  (h : ∀ member ∈ first :: second :: rest, member.Accurate)

theorem chain_intersection :
    (TypeExpr.intersection (first :: second :: rest)).chain =
      .single (Level.empty.closeAll first.chain ((second :: rest).map chain)) := by
  simp [chain, chains_eq]

theorem tree_intersection :
    (TypeExpr.intersection (first :: second :: rest)).tree =
      .intersection ((first :: second :: rest).map tree) := by
  simp [tree, trees_eq, meet]

include h

/-- Without open bars the members stay together. -/
theorem accurate_intersection_of_shut
    (shut : ∀ member ∈ first :: second :: rest, member.hasOpenBar = false) :
    (TypeExpr.intersection (first :: second :: rest)).Accurate := by
  have closed : ∀ read ∈ first.chain :: (second :: rest).map chain, read.closed = [] := by
    intro read member
    rw [← List.map_cons] at member
    obtain ⟨expr, inside, rfl⟩ := List.mem_map.mp member
    exact (h expr inside).bar.mpr (shut expr inside)
  have last : ∀ member ∈ first :: second :: rest, member.chain.last = member.chain.tree := by
    intro member inside
    have here := (h member inside).bar.mpr (shut member inside)
    exact ((h member inside).flatChain.tree_of_closed_nil here).symm
  have whole : Level.empty.closeAll first.chain ((second :: rest).map chain) =
      .intersection ((first :: second :: rest).map fun member => member.chain.tree) := by
    rw [Level.empty, Level.closeAll_of_closed_nil closed, ← List.map_cons, List.map_map,
      List.nil_append, ← List.map_congr_left last]
    rfl
  refine accurate_of_single (chain_intersection.trans (congrArg Chain.single whole))
    (by simp [IsSingle]) (by simp [IsSingle, tree_intersection]) rfl ?_
  rw [tree_intersection, TypeTree.intersection.injEq, List.map_inj_left, KeepsGroups,
    keepAllGroups_iff]
  constructor
  · intro same
    exact ⟨fun member inside => (h member inside).same.mp (same member inside), fun _ => shut⟩
  · intro kept member inside
    exact (h member inside).same.mpr (kept.1 member inside)

/-- An open bar cuts the members apart. -/
theorem accurate_intersection_of_torn
    (torn : ∃ member ∈ first :: second :: rest, member.hasOpenBar = true) :
    (TypeExpr.intersection (first :: second :: rest)).Accurate := by
  obtain ⟨member, inside, bar⟩ := torn
  have flat : ∀ read ∈ first.chain :: (second :: rest).map chain, read.IsFlat := by
    intro read member
    rw [← List.map_cons] at member
    obtain ⟨expr, inside, rfl⟩ := List.mem_map.mp member
    exact (h expr inside).flatChain
  have bars : member.chain.closed ≠ [] := by
    intro closed
    simp [(h member inside).bar.mp closed] at bar
  have found : member.chain ∈ first.chain :: (second :: rest).map chain := by
    rw [← List.map_cons]
    exact List.mem_map_of_mem inside
  have two := Level.two_le_closeAll Level.isFlat_empty flat (.inr ⟨_, found, bars⟩)
  have flatRead := Level.IsFlat.closeAll Level.isFlat_empty (flat _ List.mem_cons_self)
    (fun next member => flat next (List.mem_cons_of_mem _ member))
  apply accurate_of_torn
  · rw [chain_intersection]
    exact Chain.isFlat_single flatRead
  · simp [IsSingle, tree_intersection]
  · rwa [chain_intersection, Chain.tree_single flatRead]
  · simp [chain_intersection, Chain.single, hasOpenBar]
  · intro kept
    simp [kept.2 (by simp) member inside] at bar

end intersection

/-- Two or more members stay together exactly if none of them has an open bar. -/
theorem accurate_intersection {members : List TypeExpr} (several : 2 ≤ members.length)
    (h : ∀ member ∈ members, member.Accurate) : (TypeExpr.intersection members).Accurate := by
  match members, several, h with
  | first :: second :: rest, _, h =>
      by_cases torn : ∃ member ∈ first :: second :: rest, member.hasOpenBar = true
      · exact accurate_intersection_of_torn h torn
      · apply accurate_intersection_of_shut h
        intro member inside
        simpa using not_and.mp (not_exists.mp torn member) inside

theorem Buildable.accurate {expr : TypeExpr} (h : expr.Buildable) : expr.Accurate := by
  induction h with
  | @primitive name _ =>
      exact accurate_primitive name
  | @reference name _ =>
      exact accurate_reference name
  | @verbatim text _ =>
      exact accurate_verbatim text
  | array _ ih =>
      exact accurate_array ih
  | tuple _ ih =>
      exact accurate_tuple ih
  | union nonempty _ ih =>
      exact accurate_union nonempty ih
  | @intersection members nonempty _ ih =>
      by_cases several : 2 ≤ members.length
      · exact accurate_intersection several ih
      · match members, nonempty with
        | [member], _ => exact accurate_intersection_singleton (ih member List.mem_cons_self)
        | first :: second :: rest, _ => exact (several (by simp)).elim
  | literals nonempty _ =>
      exact accurate_literals nonempty
  | struct _ ih =>
      exact accurate_struct ih

end ApiBinding.TypeExpr
