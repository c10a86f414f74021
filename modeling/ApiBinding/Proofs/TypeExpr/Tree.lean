/-! Trees of types, and how a text outside its brackets groups into one: an ampersand binds
tighter than a bar. Unions are flat, and parentheses leave no trace. -/

namespace ApiBinding

/-- The tree of a type. An atom is a name or a literal. -/
inductive TypeTree where
  | atom (text : String)
  | array (element : TypeTree)
  | tuple (elements : List TypeTree)
  | union (members : List TypeTree)
  | intersection (members : List TypeTree)
  | object (members : List (String × Bool × TypeTree))

namespace TypeTree

/-! ## Unions and intersections -/

/-- The alternatives of a tree: the members of a union, or the tree alone. -/
def alternatives : TypeTree → List TypeTree
  | .union members => members
  | tree => [tree]

def ofAlternatives : List TypeTree → TypeTree
  | [tree] => tree
  | trees => .union trees

/-- The union of trees, with the alternatives of each. -/
def unite (trees : List TypeTree) : TypeTree :=
  ofAlternatives (trees.flatMap alternatives)

/-- The intersection of trees; of one tree it is that tree. -/
def meet : List TypeTree → TypeTree
  | [tree] => tree
  | trees => .intersection trees

/-- A tree that is no union. -/
def IsSingle (tree : TypeTree) : Prop :=
  ∀ members, tree ≠ .union members

/-- A tree whose alternatives are no unions, and which is a union only of two or more. -/
def IsFlat : TypeTree → Prop
  | .union members => 2 ≤ members.length ∧ ∀ member ∈ members, member.IsSingle
  | _ => True

theorem IsSingle.alternatives {tree : TypeTree} (h : tree.IsSingle) :
    tree.alternatives = [tree] := by
  cases tree with
  | union members => exact (h members rfl).elim
  | _ => rfl

theorem IsSingle.isFlat {tree : TypeTree} (h : tree.IsSingle) : tree.IsFlat := by
  cases tree with
  | union members => exact (h members rfl).elim
  | _ => trivial

theorem IsFlat.isSingle_alternatives {tree : TypeTree} (h : tree.IsFlat) :
    ∀ member ∈ tree.alternatives, member.IsSingle := by
  cases tree with
  | union members => exact h.2
  | _ => simp [TypeTree.alternatives, IsSingle]

theorem IsFlat.alternatives_ne_nil {tree : TypeTree} (h : tree.IsFlat) :
    tree.alternatives ≠ [] := by
  cases tree with
  | union members =>
      have := h.1
      rintro same
      simp [show members = [] from same] at this
  | _ => simp [TypeTree.alternatives]

theorem isFlat_ofAlternatives {trees : List TypeTree} (nonempty : trees ≠ [])
    (h : ∀ tree ∈ trees, tree.IsSingle) : (ofAlternatives trees).IsFlat := by
  match trees, nonempty with
  | [tree], _ => exact (h tree (by simp)).isFlat
  | first :: second :: rest, _ => exact ⟨by simp, h⟩

theorem alternatives_ofAlternatives {trees : List TypeTree} (nonempty : trees ≠ [])
    (h : ∀ tree ∈ trees, tree.IsSingle) : (ofAlternatives trees).alternatives = trees := by
  match trees, nonempty with
  | [tree], _ => exact (h tree (by simp)).alternatives
  | first :: second :: rest, _ => rfl

theorem ofAlternatives_alternatives {tree : TypeTree} (h : tree.IsFlat) :
    ofAlternatives tree.alternatives = tree := by
  cases tree with
  | union members =>
      match members, h.1 with
      | first :: second :: rest, _ => rfl
  | _ => rfl

/-- A flat tree is given by its alternatives. -/
theorem eq_of_alternatives_eq {tree tree' : TypeTree} (h : tree.IsFlat) (h' : tree'.IsFlat)
    (same : tree.alternatives = tree'.alternatives) : tree = tree' := by
  rw [← ofAlternatives_alternatives h, same, ofAlternatives_alternatives h']

section unite

variable {trees : List TypeTree}

private theorem single_of_mem_flatMap (h : ∀ tree ∈ trees, tree.IsFlat) :
    ∀ member ∈ trees.flatMap alternatives, member.IsSingle := by
  intro member inside
  obtain ⟨tree, htree, hmember⟩ := List.mem_flatMap.mp inside
  exact (h tree htree).isSingle_alternatives member hmember

private theorem flatMap_ne_nil (nonempty : trees ≠ []) (h : ∀ tree ∈ trees, tree.IsFlat) :
    trees.flatMap alternatives ≠ [] := by
  obtain ⟨first, rest, rfl⟩ := List.exists_cons_of_ne_nil nonempty
  have := (h first (by simp)).alternatives_ne_nil
  simp [this]

theorem isFlat_unite (nonempty : trees ≠ []) (h : ∀ tree ∈ trees, tree.IsFlat) :
    (unite trees).IsFlat :=
  isFlat_ofAlternatives (flatMap_ne_nil nonempty h) (single_of_mem_flatMap h)

theorem alternatives_unite (nonempty : trees ≠ []) (h : ∀ tree ∈ trees, tree.IsFlat) :
    (unite trees).alternatives = trees.flatMap alternatives :=
  alternatives_ofAlternatives (flatMap_ne_nil nonempty h) (single_of_mem_flatMap h)

theorem unite_singleton {tree : TypeTree} (h : tree.IsFlat) : unite [tree] = tree := by
  simpa [unite] using ofAlternatives_alternatives h

/-- Two or more trees have two or more alternatives. -/
theorem two_le_alternatives_unite {first second : TypeTree} {rest : List TypeTree}
    (h : ∀ tree ∈ first :: second :: rest, tree.IsFlat) :
    2 ≤ (unite (first :: second :: rest)).alternatives.length := by
  rw [alternatives_unite (by simp) h]
  have one := List.length_pos_iff.mpr (h first (by simp)).alternatives_ne_nil
  have two := List.length_pos_iff.mpr (h second (by simp)).alternatives_ne_nil
  simp only [List.flatMap_cons, List.length_append]
  omega

end unite

/-! ## The tree of a text -/

/-- What a text outside all brackets is read as: operands with a bar behind each, and an operand
behind the last bar. -/
structure Chain where
  closed : List TypeTree
  last : TypeTree

namespace Chain

def single (tree : TypeTree) : Chain := ⟨[], tree⟩

def all (chain : Chain) : List TypeTree :=
  chain.closed ++ [chain.last]

/-- The tree of a text that ends behind the chain. -/
def tree (chain : Chain) : TypeTree :=
  unite chain.all

/-- Two chains with a bar between them. -/
def append (chain next : Chain) : Chain :=
  ⟨chain.closed ++ chain.last :: next.closed, next.last⟩

/-- Chains with bars between them. -/
def join (chain : Chain) : List Chain → Chain
  | [] => chain
  | next :: rest => chain.append (join next rest)

end Chain

/-- What was read since the last open bracket, up to a place where an operand is due: the
alternatives before the last bar, and the parts before the last ampersand behind it. -/
structure Level where
  alternatives : List TypeTree
  parts : List TypeTree

namespace Level

def empty : Level := ⟨[], []⟩

/-- A bar behind an operand ends an alternative. -/
def bar (level : Level) (operand : TypeTree) : Level :=
  ⟨level.alternatives ++ [meet (level.parts ++ [operand])], []⟩

/-- An ampersand behind an operand ends a part. -/
def ampersand (level : Level) (operand : TypeTree) : Level :=
  ⟨level.alternatives, level.parts ++ [operand]⟩

/-- The tree of a level that ends behind an operand. -/
def close (level : Level) (operand : TypeTree) : TypeTree :=
  unite (level.alternatives ++ [meet (level.parts ++ [operand])])

/-- The level before the last operand of a chain. -/
def pass (level : Level) (chain : Chain) : Level :=
  chain.closed.foldl bar level

/-- The tree of chains with ampersands between them: an ampersand binds only the operands on
either side. -/
def closeAll (level : Level) (chain : Chain) : List Chain → TypeTree
  | [] => (level.pass chain).close chain.last
  | next :: rest => closeAll ((level.pass chain).ampersand chain.last) next rest

end Level

/-! ## Flat chains -/

/-- A chain of flat trees. -/
def Chain.IsFlat (chain : Chain) : Prop :=
  ∀ tree ∈ chain.all, tree.IsFlat

namespace Chain

theorem all_append (chain next : Chain) : (chain.append next).all = chain.all ++ next.all := by
  simp [append, all]

theorem all_join (chain : Chain) (rest : List Chain) :
    (chain.join rest).all = chain.all ++ rest.flatMap all := by
  induction rest generalizing chain with
  | nil => simp [join]
  | cons next rest ih => simp [join, all_append, ih]

theorem all_ne_nil (chain : Chain) : chain.all ≠ [] := by
  simp [all]

theorem isFlat_single {tree : TypeTree} (h : tree.IsFlat) : (single tree).IsFlat := by
  simpa [Chain.IsFlat, all, single] using h

theorem tree_single {tree : TypeTree} (h : tree.IsFlat) : (single tree).tree = tree :=
  unite_singleton h

theorem IsFlat.tree {chain : Chain} (h : chain.IsFlat) : chain.tree.IsFlat :=
  isFlat_unite chain.all_ne_nil h

theorem IsFlat.alternatives_tree {chain : Chain} (h : chain.IsFlat) :
    chain.tree.alternatives = chain.all.flatMap alternatives :=
  alternatives_unite chain.all_ne_nil h

theorem IsFlat.last {chain : Chain} (h : chain.IsFlat) : chain.last.IsFlat :=
  h chain.last (by simp [all])

/-- A chain without bars is read as its operand. -/
theorem IsFlat.tree_of_closed_nil {chain : Chain} (h : chain.IsFlat) (closed : chain.closed = []) :
    chain.tree = chain.last := by
  have single : chain.all = [chain.last] := by simp [all, closed]
  rw [Chain.tree, single, unite_singleton h.last]

/-- A chain with a bar is read as a union. -/
theorem IsFlat.two_le_of_closed_ne_nil {chain : Chain} (h : chain.IsFlat)
    (closed : chain.closed ≠ []) : 2 ≤ chain.tree.alternatives.length := by
  obtain ⟨first, rest, same⟩ := List.exists_cons_of_ne_nil closed
  obtain ⟨second, others, all⟩ : ∃ second others, chain.all = first :: second :: others := by
    cases rest with
    | nil => exact ⟨chain.last, [], by simp [Chain.all, same]⟩
    | cons second others => exact ⟨second, others ++ [chain.last], by simp [Chain.all, same]⟩
  rw [Chain.tree, all]
  exact two_le_alternatives_unite (by rwa [← all])

end Chain

/-! ## Flat levels -/

/-- A level of flat trees. -/
structure Level.IsFlat (level : Level) : Prop where
  alternatives : ∀ tree ∈ level.alternatives, tree.IsFlat
  parts : ∀ tree ∈ level.parts, tree.IsFlat

theorem isFlat_meet {trees : List TypeTree} (h : ∀ tree ∈ trees, tree.IsFlat) :
    (meet trees).IsFlat := by
  match trees with
  | [] => trivial
  | [tree] => exact h tree (by simp)
  | _ :: _ :: _ => trivial

namespace Level

theorem isFlat_empty : empty.IsFlat :=
  ⟨by simp [empty], by simp [empty]⟩

theorem IsFlat.bar {level : Level} (h : level.IsFlat) {operand : TypeTree}
    (flat : operand.IsFlat) : (level.bar operand).IsFlat := by
  refine ⟨?_, by simp [Level.bar]⟩
  intro tree member
  rcases List.mem_append.mp member with member | member
  · exact h.alternatives tree member
  · obtain rfl := List.mem_singleton.mp member
    refine isFlat_meet fun part inside => ?_
    rcases List.mem_append.mp inside with inside | inside
    · exact h.parts part inside
    · obtain rfl := List.mem_singleton.mp inside
      exact flat

theorem IsFlat.ampersand {level : Level} (h : level.IsFlat) {operand : TypeTree}
    (flat : operand.IsFlat) : (level.ampersand operand).IsFlat := by
  refine ⟨h.alternatives, ?_⟩
  intro part inside
  rcases List.mem_append.mp inside with inside | inside
  · exact h.parts part inside
  · obtain rfl := List.mem_singleton.mp inside
    exact flat

theorem close_eq (level : Level) (operand : TypeTree) :
    level.close operand = unite (level.bar operand).alternatives := rfl

theorem IsFlat.close {level : Level} (h : level.IsFlat) {operand : TypeTree}
    (flat : operand.IsFlat) : (level.close operand).IsFlat :=
  isFlat_unite (by simp) (h.bar flat).alternatives

theorem IsFlat.pass {level : Level} (h : level.IsFlat) {chain : Chain} (flat : chain.IsFlat) :
    (level.pass chain).IsFlat := by
  have closed : ∀ tree ∈ chain.closed, tree.IsFlat :=
    fun tree member => flat tree (by simp [Chain.all, member])
  unfold Level.pass
  revert closed
  induction chain.closed generalizing level with
  | nil => exact fun _ => h
  | cons operand rest ih =>
      intro closed
      exact ih (h.bar (closed operand (by simp))) fun tree member => closed tree (by simp [member])

theorem IsFlat.closeAll {level : Level} (h : level.IsFlat) {chain : Chain} (flat : chain.IsFlat)
    {rest : List Chain} (hrest : ∀ next ∈ rest, next.IsFlat) :
    (level.closeAll chain rest).IsFlat := by
  induction rest generalizing level chain with
  | nil => exact (h.pass flat).close flat.last
  | cons next rest ih =>
      exact ih ((h.pass flat).ampersand flat.last) (hrest next (by simp))
        fun other member => hrest other (by simp [member])

/-- Without open bars every chain is one part. -/
theorem closeAll_of_closed_nil {parts : List TypeTree} {chain : Chain} {rest : List Chain}
    (h : ∀ next ∈ chain :: rest, next.closed = []) :
    Level.closeAll ⟨[], parts⟩ chain rest =
      unite [meet (parts ++ (chain :: rest).map Chain.last)] := by
  induction rest generalizing parts chain with
  | nil => simp [closeAll, pass, close, h chain (by simp)]
  | cons next rest ih =>
      have here : chain.closed = [] := h chain (by simp)
      have others : ∀ other ∈ next :: rest, other.closed = [] :=
        fun other member => h other (List.mem_cons_of_mem _ member)
      have passed : Level.pass ⟨[], parts⟩ chain = ⟨[], parts⟩ := by simp [pass, here]
      rw [closeAll, passed, ampersand, ih others]
      simp

/-- Behind a bar or at the start, every operand is an alternative of its own. -/
theorem pass_of_no_parts (alternatives : List TypeTree) (chain : Chain) :
    Level.pass ⟨alternatives, []⟩ chain = ⟨alternatives ++ chain.closed, []⟩ := by
  unfold pass
  induction chain.closed generalizing alternatives with
  | nil => simp
  | cons operand rest ih =>
      have step : Level.bar ⟨alternatives, []⟩ operand = ⟨alternatives ++ [operand], []⟩ := rfl
      rw [List.foldl_cons, step, ih]
      simp

/-- A chain between brackets is read by itself. -/
theorem close_pass_empty (chain : Chain) : (empty.pass chain).close chain.last = chain.tree := by
  rw [empty, pass_of_no_parts]
  rfl

theorem alternatives_pass_ne_nil {level : Level} {chain : Chain}
    (h : level.alternatives ≠ [] ∨ chain.closed ≠ []) :
    (level.pass chain).alternatives ≠ [] := by
  unfold pass
  generalize chain.closed = closed at h
  induction closed generalizing level with
  | nil => simpa using h
  | cons operand rest ih =>
      rw [List.foldl_cons]
      exact ih (.inl (by simp [bar]))

/-- An open bar makes a union of what should be an intersection. -/
theorem two_le_closeAll {level : Level} (flatLevel : level.IsFlat) {chain : Chain}
    {rest : List Chain} (flat : ∀ next ∈ chain :: rest, next.IsFlat)
    (h : level.alternatives ≠ [] ∨ ∃ next ∈ chain :: rest, next.closed ≠ []) :
    2 ≤ (level.closeAll chain rest).alternatives.length := by
  induction rest generalizing level chain with
  | nil =>
      have passed : (level.pass chain).alternatives ≠ [] := by
        apply alternatives_pass_ne_nil
        simpa using h
      have flat' := (flatLevel.pass (flat chain (by simp))).bar (flat chain (by simp)).last
      obtain ⟨first, others, same⟩ := List.exists_cons_of_ne_nil passed
      obtain ⟨second, more, all⟩ : ∃ second more,
          ((level.pass chain).bar chain.last).alternatives = first :: second :: more := by
        cases others with
        | nil => exact ⟨_, [], by simp [bar, same]; rfl⟩
        | cons second more => exact ⟨second, _, by simp [bar, same]; rfl⟩
      rw [closeAll, close_eq, all]
      exact two_le_alternatives_unite (by rw [← all]; exact flat'.alternatives)
  | cons next rest ih =>
      refine ih ((flatLevel.pass (flat chain (by simp))).ampersand (flat chain (by simp)).last)
        (fun other member => flat other (by simp [member])) ?_
      by_cases here : level.alternatives ≠ [] ∨ chain.closed ≠ []
      · exact .inl (alternatives_pass_ne_nil here)
      · rw [not_or] at here
        rcases h with h | ⟨torn, member, bar⟩
        · exact (here.1 h).elim
        · rcases List.mem_cons.mp member with rfl | member
          · exact (here.2 bar).elim
          · exact .inr ⟨torn, member, bar⟩

end Level

end TypeTree

end ApiBinding
