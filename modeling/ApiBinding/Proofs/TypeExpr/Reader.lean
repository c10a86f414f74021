import ApiBinding.Proofs.TypeExpr.Grouping

/-! A reader of type texts, one token at a time. It keeps the open brackets with what stands
outside them. -/

namespace ApiBinding

namespace TypeText

open TypeTree

/-! ## States -/

/-- An open bracket with what was read inside it before the current element or member. -/
inductive Bracket where
  | round
  | square (elements : List TypeTree)
  | curly (members : List (String × Bool × TypeTree))
  /-- The type of a member in a curly bracket. -/
  | member (before : List (String × Bool × TypeTree)) (name : String) (required : Bool)

/-- What is due. -/
inductive Place where
  | operand
  /-- A mark behind an operand. -/
  | behind (operand : TypeTree)
  /-- The end of an array suffix. -/
  | suffix (operand : TypeTree)
  /-- A member name or the end of the members. -/
  | memberName
  /-- The marks between a member name and its type. -/
  | colon (name : String) (required : Bool)

/-- The place of a reader, what it read since the innermost open bracket, and the open brackets,
each with what was read outside it. -/
structure State where
  place : Place
  level : Level
  brackets : List (Bracket × Level)

namespace State

def start : State := ⟨.operand, .empty, []⟩

/-- Opens a bracket. -/
def enter (state : State) (bracket : Bracket) (place : Place) : State :=
  ⟨place, .empty, (bracket, state.level) :: state.brackets⟩

/-- A mark where an operand is due. An empty pair of square brackets is a tuple. -/
def opening (state : State) : Char → Option State
  | '(' => some (state.enter .round .operand)
  | '[' => some (state.enter (.square []) .operand)
  | '\x7b' => some (state.enter (.curly []) .memberName)
  | ']' =>
    match state.level, state.brackets with
    | ⟨[], []⟩, (.square [], outer) :: brackets => some ⟨.behind (.tuple []), outer, brackets⟩
    | _, _ => none
  | _ => none

/-- A mark behind an operand. -/
def closing (state : State) (operand : TypeTree) : Char → Option State
  | '|' => some { state with place := .operand, level := state.level.bar operand }
  | '&' => some { state with place := .operand, level := state.level.ampersand operand }
  | '[' => some { state with place := .suffix operand }
  | ')' =>
    match state.brackets with
    | (.round, outer) :: brackets =>
      some ⟨.behind (state.level.close operand), outer, brackets⟩
    | _ => none
  | ',' =>
    match state.brackets with
    | (.square elements, outer) :: brackets =>
      some ⟨.operand, .empty,
        (.square (elements ++ [state.level.close operand]), outer) :: brackets⟩
    | _ => none
  | ']' =>
    match state.brackets with
    | (.square elements, outer) :: brackets =>
      some ⟨.behind (.tuple (elements ++ [state.level.close operand])), outer, brackets⟩
    | _ => none
  | ';' =>
    match state.brackets with
    | (.member before name required, outer) :: brackets =>
      some ⟨.memberName, .empty,
        (.curly (before ++ [(name, required, state.level.close operand)]), outer) :: brackets⟩
    | _ => none
  | _ => none

def step (state : State) (token : Token) : Option State :=
  match state.place, token with
  | .operand, .atom text => some { state with place := .behind (.atom text) }
  | .operand, .mark c => state.opening c
  | .behind operand, .mark c => state.closing operand c
  | .suffix operand, .mark ']' => some { state with place := .behind (.array operand) }
  | .memberName, .name name => some { state with place := .colon name true }
  | .memberName, .mark '\x7d' =>
    match state.brackets with
    | (.curly members, outer) :: brackets => some ⟨.behind (.object members), outer, brackets⟩
    | _ => none
  | .colon name true, .mark '?' => some { state with place := .colon name false }
  | .colon name required, .mark ':' =>
    match state.brackets with
    | (.curly members, outer) :: brackets =>
      some ⟨.operand, .empty, (.member members name required, outer) :: brackets⟩
    | _ => none
  | _, _ => none

def run (state : State) (tokens : List Token) : Option State :=
  tokens.foldlM step state

/-- The tree of a text that ends here. -/
def finish (state : State) : Option TypeTree :=
  match state.place, state.brackets with
  | .behind operand, [] => some (state.level.close operand)
  | _, _ => none

theorem run_cons {state next : State} {token : Token} (h : state.step token = some next)
    (rest : List Token) : state.run (token :: rest) = next.run rest := by
  simp [run, h]

end State

/-- The tree of a type text, if it is one. -/
def read (text : String) : Option TypeTree := do
  let tokens ← lex text.toList
  let state ← State.start.run tokens
  state.finish

/-! ## Tokens in sequence -/

/-- Pieces with a mark between them. -/
def between (c : Char) (pieces : List (List Token)) : List Token :=
  [Token.mark c].intercalate pieces

theorem between_cons_cons (c : Char) (piece next : List Token) (rest : List (List Token)) :
    between c (piece :: next :: rest) = piece ++ .mark c :: between c (next :: rest) := by
  simp [between, List.intercalate_cons_cons]

theorem between_singleton (c : Char) (piece : List Token) : between c [piece] = piece := by
  simp [between]

/-- Tokens that are read as a chain wherever an operand is due. -/
def ReadsTo (tokens : List Token) (chain : Chain) : Prop :=
  ∀ level brackets rest,
    State.run ⟨.operand, level, brackets⟩ (tokens ++ rest) =
      State.run ⟨.behind chain.last, level.pass chain, brackets⟩ rest

theorem readsTo_atom (text : String) : ReadsTo [.atom text] (.single (.atom text)) :=
  fun _ _ rest => State.run_cons rfl rest

theorem ReadsTo.bar {tokens more : List Token} {chain next : Chain} (h : ReadsTo tokens chain)
    (h' : ReadsTo more next) : ReadsTo (tokens ++ .mark '|' :: more) (chain.append next) := by
  intro level brackets rest
  have bar : State.step ⟨.behind chain.last, level.pass chain, brackets⟩ (.mark '|') =
      some ⟨.operand, (level.pass chain).bar chain.last, brackets⟩ := rfl
  rw [List.append_assoc, h, List.cons_append, State.run_cons bar, h']
  simp [Level.pass, Chain.append]

theorem ReadsTo.array {tokens : List Token} {chain : Chain} (h : ReadsTo tokens chain) :
    ReadsTo (tokens ++ [.mark '[', .mark ']']) ⟨chain.closed, .array chain.last⟩ := by
  intro level brackets rest
  rw [List.append_assoc, h, List.cons_append, State.run_cons rfl, List.cons_append,
    State.run_cons rfl]
  rfl

theorem ReadsTo.round {tokens : List Token} {chain : Chain} (h : ReadsTo tokens chain) :
    ReadsTo (.mark '(' :: (tokens ++ [.mark ')'])) (.single chain.tree) := by
  intro level brackets rest
  rw [List.cons_append, State.run_cons rfl, List.append_assoc]
  simp only [State.enter]
  rw [h, List.singleton_append, State.run_cons rfl, Level.close_pass_empty]
  rfl

section sequence

variable {α : Type} {tokens : α → List Token} {chain : α → Chain}

/-- Bars between chains join them. -/
theorem readsTo_bars {item : α} {rest : List α}
    (h : ∀ next ∈ item :: rest, ReadsTo (tokens next) (chain next)) :
    ReadsTo (between '|' ((item :: rest).map tokens)) ((chain item).join (rest.map chain)) := by
  induction rest generalizing item with
  | nil =>
      rw [List.map_singleton, between_singleton]
      exact h item (by simp)
  | cons next rest ih =>
      rw [List.map_cons, List.map_cons, between_cons_cons]
      exact (h item (by simp)).bar (ih fun other member => h other (List.mem_cons_of_mem _ member))

/-- Ampersands between chains inside parentheses. -/
theorem run_ampersands {item : α} {rest : List α}
    (h : ∀ next ∈ item :: rest, ReadsTo (tokens next) (chain next)) (level outer : Level)
    (brackets : List (Bracket × Level)) (after : List Token) :
    State.run ⟨.operand, level, (.round, outer) :: brackets⟩
        (between '&' ((item :: rest).map tokens) ++ .mark ')' :: after) =
      State.run ⟨.behind (level.closeAll (chain item) (rest.map chain)), outer, brackets⟩
        after := by
  induction rest generalizing item level with
  | nil =>
      rw [List.map_singleton, between_singleton, h item (by simp), State.run_cons rfl]
      rfl
  | cons next rest ih =>
      rw [List.map_cons, List.map_cons, between_cons_cons, List.append_assoc, h item (by simp),
        List.cons_append, State.run_cons rfl]
      exact ih (fun other member => h other (List.mem_cons_of_mem _ member)) _

theorem readsTo_ampersands {item : α} {rest : List α}
    (h : ∀ next ∈ item :: rest, ReadsTo (tokens next) (chain next)) :
    ReadsTo (.mark '(' :: (between '&' ((item :: rest).map tokens) ++ [.mark ')']))
      (.single (Level.empty.closeAll (chain item) (rest.map chain))) := by
  intro level brackets after
  rw [List.cons_append, State.run_cons rfl, List.append_assoc]
  exact run_ampersands h .empty level brackets after

/-- Commas between the elements of a tuple. -/
theorem run_commas {item : α} {rest : List α}
    (h : ∀ next ∈ item :: rest, ReadsTo (tokens next) (chain next)) (before : List TypeTree)
    (outer : Level) (brackets : List (Bracket × Level)) (after : List Token) :
    State.run ⟨.operand, .empty, (.square before, outer) :: brackets⟩
        (between ',' ((item :: rest).map tokens) ++ .mark ']' :: after) =
      State.run ⟨.behind (.tuple (before ++ (item :: rest).map fun next => (chain next).tree)),
        outer, brackets⟩ after := by
  induction rest generalizing item before with
  | nil =>
      rw [List.map_singleton, between_singleton, h item (by simp), State.run_cons rfl]
      simp [Level.close_pass_empty]
  | cons next rest ih =>
      rw [List.map_cons, List.map_cons, between_cons_cons, List.append_assoc, h item (by simp),
        List.cons_append, State.run_cons rfl]
      simp only [Level.close_pass_empty]
      rw [← List.map_cons, ih fun other member => h other (List.mem_cons_of_mem _ member)]
      simp

theorem readsTo_commas {items : List α} (h : ∀ item ∈ items, ReadsTo (tokens item) (chain item)) :
    ReadsTo (.mark '[' :: (between ',' (items.map tokens) ++ [.mark ']']))
      (.single (.tuple (items.map fun item => (chain item).tree))) := by
  intro level brackets after
  rw [List.cons_append, State.run_cons rfl, List.append_assoc]
  cases items with
  | nil => exact State.run_cons rfl after
  | cons item rest => exact run_commas h [] level brackets after

/-- The tokens of a member whose type has these tokens. -/
def memberTokens (name : String) (required : Bool) (type : List Token) : List Token :=
  .name name :: ((if required then [] else [.mark '?']) ++ .mark ':' :: (type ++ [.mark ';']))

theorem run_member {type : List Token} {chain : Chain} (h : ReadsTo type chain) (name : String)
    (required : Bool) (before : List (String × Bool × TypeTree)) (level outer : Level)
    (brackets : List (Bracket × Level)) (after : List Token) :
    State.run ⟨.memberName, level, (.curly before, outer) :: brackets⟩
        (memberTokens name required type ++ after) =
      State.run ⟨.memberName, .empty,
        (.curly (before ++ [(name, required, chain.tree)]), outer) :: brackets⟩ after := by
  have named : State.run ⟨.memberName, level, (.curly before, outer) :: brackets⟩
        (memberTokens name required type ++ after) =
      State.run ⟨.operand, .empty, (.member before name required, outer) :: brackets⟩
        (type ++ .mark ';' :: after) := by
    unfold memberTokens
    cases required with
    | false =>
        simp only [Bool.false_eq_true, if_false, List.cons_append, List.nil_append,
          List.append_assoc]
        rw [State.run_cons rfl, State.run_cons rfl, State.run_cons rfl]
    | true =>
        simp only [if_true, List.cons_append, List.nil_append, List.append_assoc]
        rw [State.run_cons rfl, State.run_cons rfl]
  rw [named, h, State.run_cons rfl]
  simp only [Level.close_pass_empty]

theorem run_members {name : α → String} {required : α → Bool} {items : List α}
    (h : ∀ item ∈ items, ReadsTo (tokens item) (chain item))
    (before : List (String × Bool × TypeTree)) (level outer : Level)
    (brackets : List (Bracket × Level)) (after : List Token) :
    State.run ⟨.memberName, level, (.curly before, outer) :: brackets⟩
        (items.flatMap (fun item => memberTokens (name item) (required item) (tokens item)) ++
          .mark '\x7d' :: after) =
      State.run ⟨.behind (.object (before ++
        items.map fun item => (name item, required item, (chain item).tree))), outer, brackets⟩
        after := by
  induction items generalizing before level with
  | nil =>
      rw [List.flatMap_nil, List.nil_append, State.run_cons rfl]
      simp
  | cons item rest ih =>
      rw [List.flatMap_cons, List.append_assoc, run_member (h item (by simp)),
        ih fun other member => h other (by simp [member])]
      simp

theorem readsTo_members {name : α → String} {required : α → Bool} {items : List α}
    (h : ∀ item ∈ items, ReadsTo (tokens item) (chain item)) :
    ReadsTo (.mark '\x7b' ::
        (items.flatMap (fun item => memberTokens (name item) (required item) (tokens item)) ++
          [.mark '\x7d']))
      (.single (.object
        (items.map fun item => (name item, required item, (chain item).tree)))) := by
  intro level brackets after
  rw [List.cons_append, State.run_cons rfl, List.append_assoc]
  exact run_members h [] .empty level brackets after

end sequence

end TypeText

namespace TypeExpr

open TypeText

/-! ## The tokens of an expression -/

mutual

def tokens : TypeExpr → List Token
  | .primitive name => [.atom name]
  | .reference name => [.atom name]
  | .verbatim text => [.atom text]
  | .array element =>
    if element.isOpenUnion then
      .mark '(' :: (tokens element ++ [.mark ')']) ++ [.mark '[', .mark ']']
    else tokens element ++ [.mark '[', .mark ']']
  | .tuple elements => .mark '[' :: (between ',' (tokensOfAll elements) ++ [.mark ']'])
  | .union members => between '|' (tokensOfAll members)
  | .intersection members => .mark '(' :: (between '&' (tokensOfAll members) ++ [.mark ')'])
  | .literals texts => between '|' (texts.map fun text => [.atom text])
  | .struct members => .mark '\x7b' :: (tokensOfMembers members ++ [.mark '\x7d'])

def tokensOfAll : List TypeExpr → List (List Token)
  | [] => []
  | expr :: rest => tokens expr :: tokensOfAll rest

def tokensOfMembers : List (Member TypeExpr) → List Token
  | [] => []
  | ⟨name, required, type, _⟩ :: rest =>
    memberTokens name.display required (tokens type) ++ tokensOfMembers rest

end

theorem tokensOfAll_eq (exprs : List TypeExpr) : tokensOfAll exprs = exprs.map tokens := by
  induction exprs with
  | nil => rfl
  | cons expr rest ih => simp [tokensOfAll, ih]

theorem tokensOfMembers_eq (members : List (Member TypeExpr)) :
    tokensOfMembers members = members.flatMap fun member =>
      memberTokens member.name.display member.required member.type.tokens := by
  induction members with
  | nil => rfl
  | cons member rest ih => simp [tokensOfMembers, ih]

theorem readsTo_array {element : TypeExpr} (h : ReadsTo element.tokens element.chain) :
    ReadsTo (TypeExpr.array element).tokens (TypeExpr.array element).chain := by
  by_cases parenthesized : element.isOpenUnion = true
  · simp only [tokens, chain, parenthesized, if_true]
    exact h.round.array
  · simp only [tokens, chain, parenthesized, Bool.false_eq_true, if_false]
    exact h.array

/-- The tokens of an expression are read as its chain. -/
theorem Buildable.readsTo {expr : TypeExpr} (h : expr.Buildable) :
    ReadsTo expr.tokens expr.chain := by
  induction h with
  | @primitive name _ =>
      rw [tokens, chain]
      exact readsTo_atom name
  | @reference name _ =>
      rw [tokens, chain]
      exact readsTo_atom name
  | @verbatim text _ =>
      rw [tokens, chain]
      exact readsTo_atom text
  | array _ ih =>
      exact readsTo_array ih
  | tuple _ ih =>
      rw [tokens, tokensOfAll_eq, chain, chains_eq, List.map_map]
      exact readsTo_commas ih
  | union nonempty _ ih =>
      obtain ⟨first, rest, rfl⟩ := List.exists_cons_of_ne_nil nonempty
      rw [tokens, tokensOfAll_eq, chain, chains_eq]
      exact readsTo_bars ih
  | intersection nonempty _ ih =>
      obtain ⟨first, rest, rfl⟩ := List.exists_cons_of_ne_nil nonempty
      rw [tokens, tokensOfAll_eq, chain, chains_eq]
      exact readsTo_ampersands ih
  | literals nonempty _ =>
      obtain ⟨first, rest, rfl⟩ := List.exists_cons_of_ne_nil nonempty
      rw [tokens, chain]
      exact readsTo_bars fun text _ => readsTo_atom text
  | struct _ ih =>
      rw [tokens, tokensOfMembers_eq, chain, memberReadings_eq]
      exact readsTo_members ih

end TypeExpr

end ApiBinding
