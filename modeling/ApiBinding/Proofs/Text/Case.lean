import ApiBinding.Text.Case
import Mathlib.Data.List.Basic
import Mathlib.Data.Nat.Bitwise

/-! Upper case is final: a character that comes out of raising another one is not raised any
further, and is no mark that separates words. The case tables are compared as sets of codes. -/

namespace ApiBinding.Text

/-! ## Sets of codes -/

/-- A block of codes as one number, whose bits at the codes are set. -/
def blockSet (block : List Nat) : Nat :=
  block.foldr (fun code set => 1 <<< code ||| set) 0

/-- The codes of all blocks as one number. Blocks keep the computation shallow. -/
def codeSet (blocks : List (List Nat)) : Nat :=
  blocks.foldr (fun block set => blockSet block ||| set) 0

theorem testBit_blockSet (block : List Nat) (code : Nat) :
    (blockSet block).testBit code = decide (code ∈ block) := by
  induction block with
  | nil => simp [blockSet]
  | cons first block ih =>
      have step : blockSet (first :: block) = 1 <<< first ||| blockSet block := rfl
      rw [step, Nat.testBit_or, ih, Nat.one_shiftLeft, Nat.testBit_two_pow]
      simp [eq_comm]

theorem testBit_codeSet (blocks : List (List Nat)) (code : Nat) :
    (codeSet blocks).testBit code = decide (code ∈ blocks.flatten) := by
  induction blocks with
  | nil => simp [codeSet]
  | cons block blocks ih =>
      have step : codeSet (block :: blocks) = blockSet block ||| codeSet blocks := rfl
      rw [step, Nat.testBit_or, ih, testBit_blockSet, List.flatten_cons]
      simp

/-- Sets of codes without a common bit have no common code. -/
theorem not_mem_of_codeSet {first second : List (List Nat)}
    (h : codeSet first &&& codeSet second = 0) {code : Nat} (member : code ∈ first.flatten) :
    code ∉ second.flatten := by
  intro other
  have both : (codeSet first &&& codeSet second).testBit code = true := by
    rw [Nat.testBit_and, testBit_codeSet, testBit_codeSet, decide_eq_true member,
      decide_eq_true other]
    rfl
  simp [h] at both

/-! ## What a change of case does -/

variable {runs : List CaseRun} {sequences : List (Nat × List Nat)}

/-- The code points of a run. -/
def runCodes (run : CaseRun) : List Nat :=
  let (first, last, step, _) := run
  List.range' first ((last - first) / step + 1) step

/-- The code points that have another case. -/
def changedBlocks (runs : List CaseRun) (sequences : List (Nat × List Nat)) : List (List Nat) :=
  sequences.map Prod.fst :: runs.map runCodes

/-- The code points of other cases. -/
def resultBlocks (runs : List CaseRun) (sequences : List (Nat × List Nat)) : List (List Nat) :=
  sequences.map Prod.snd ++
    runs.map fun run => (runCodes run).map fun (code : Nat) => Int.toNat (code + run.2.2.2)

theorem mem_of_otherCase? {code other : Nat} (h : otherCase? code runs = some other) :
    ∃ run ∈ runs, code ∈ runCodes run ∧ other = Int.toNat (code + run.2.2.2) := by
  induction runs with
  | nil => simp [otherCase?] at h
  | cons run runs ih =>
      obtain ⟨first, last, step, distance⟩ := run
      rw [otherCase?] at h
      split at h
      · rename_i inside
        simp only [Bool.and_eq_true, decide_eq_true_eq, beq_iff_eq] at inside
        obtain ⟨⟨above, below⟩, aligned⟩ := inside
        refine ⟨_, List.mem_cons_self, ?_, (Option.some.inj h).symm⟩
        rw [runCodes, List.mem_range']
        refine ⟨(code - first) / step, ?_, ?_⟩
        · exact Nat.lt_succ_of_le (Nat.div_le_div_right (by omega))
        · have whole := Nat.div_add_mod (code - first) step
          omega
      · obtain ⟨run, member, found⟩ := ih h
        exact ⟨run, List.mem_cons_of_mem _ member, found⟩

/-- A character has no other case, or it is one of those that change and becomes results. -/
theorem changeCase_cases (c : Char) :
    changeCase runs sequences c = [c] ∨
      c.toNat ∈ (changedBlocks runs sequences).flatten ∧
        ∀ d ∈ changeCase runs sequences c, ∃ code ∈ (resultBlocks runs sequences).flatten,
          d = Char.ofNat code := by
  unfold changeCase
  split
  · rename_i codes found
    obtain ⟨before, after, same, -⟩ := List.lookup_eq_some_iff.mp found
    have entry : (c.toNat, codes) ∈ sequences := by simp [same]
    have changed : c.toNat ∈ sequences.map Prod.fst := List.mem_map.mpr ⟨_, entry, rfl⟩
    have block : codes ∈ sequences.map Prod.snd := List.mem_map.mpr ⟨_, entry, rfl⟩
    refine .inr ⟨List.mem_flatten.mpr ⟨_, List.mem_cons_self, changed⟩, fun d member => ?_⟩
    obtain ⟨code, inside, rfl⟩ := List.mem_map.mp member
    exact ⟨code, List.mem_flatten.mpr ⟨codes, List.mem_append_left _ block, inside⟩, rfl⟩
  · split
    · rename_i code found
      obtain ⟨run, member, inside, rfl⟩ := mem_of_otherCase? found
      have changed : runCodes run ∈ runs.map runCodes := List.mem_map_of_mem member
      have result := List.mem_map_of_mem (f := fun (code : Nat) => Int.toNat (code + run.2.2.2))
        inside
      refine .inr ⟨List.mem_flatten.mpr ⟨_, List.mem_cons_of_mem _ changed, inside⟩, ?_⟩
      intro d own
      refine ⟨_, List.mem_flatten.mpr ⟨_, List.mem_append_right _ ?_, result⟩,
        List.mem_singleton.mp own⟩
      exact List.mem_map.mpr ⟨run, member, rfl⟩
    · exact .inl rfl

/-! ## Upper case -/

/-- The marks that separate words: the dash, the low line, the space and the dot. -/
def separatorCodes : List Nat := [0x2d, 0x5f, 0x20, 0x2e]

/-- A code that is no character stands for the character zero. -/
theorem toNat_ofNat (code : Nat) :
    (Char.ofNat code).toNat = code ∨ (Char.ofNat code).toNat = 0 := by
  by_cases valid : code.isValidChar
  · rw [Char.ofNat, dif_pos valid]
    exact .inl rfl
  · rw [Char.ofNat, dif_neg valid]
    exact .inr rfl

/-- The results of raising are neither raised nor separate words. -/
theorem upper_final :
    codeSet ([0] :: resultBlocks upperRuns upperSequences) &&&
      codeSet (separatorCodes :: changedBlocks upperRuns upperSequences) = 0 := by
  decide +kernel

/-- A character is raised to itself, or to characters that are final. -/
theorem upperChar_cases (c : Char) :
    upperChar c = [c] ∨
      ∀ d ∈ upperChar c, upperChar d = [d] ∧ d.toNat ∉ separatorCodes := by
  have change (c : Char) :
      upperChar c = [c] ∨ c.toNat ∈ (changedBlocks upperRuns upperSequences).flatten ∧
        ∀ d ∈ upperChar c, ∃ code ∈ (resultBlocks upperRuns upperSequences).flatten,
          d = Char.ofNat code :=
    changeCase_cases c
  rcases change c with own | ⟨-, results⟩
  · exact .inl own
  · refine .inr fun d member => ?_
    obtain ⟨code, result, rfl⟩ := results d member
    -- the table has codes, and one that is no character would stand for zero
    have known : (Char.ofNat code).toNat ∈
        ([0] :: resultBlocks upperRuns upperSequences).flatten := by
      rw [List.flatten_cons, List.singleton_append]
      rcases toNat_ofNat code with valid | zero
      · rw [valid]
        exact List.mem_cons_of_mem _ result
      · rw [zero]
        exact List.mem_cons_self
    have apart := not_mem_of_codeSet upper_final known
    rw [List.flatten_cons, List.mem_append, not_or] at apart
    rcases change (Char.ofNat code) with own | ⟨changed, -⟩
    · exact ⟨own, apart.1⟩
    · exact absurd changed apart.2

/-- What is raised stays as it is. -/
theorem upper_upperChar (c : Char) : (upperChar c).flatMap upperChar = upperChar c := by
  rcases upperChar_cases c with own | final
  · rw [own, List.flatMap_singleton, own]
  · calc (upperChar c).flatMap upperChar
        = (upperChar c).flatMap fun d => [d] :=
          List.flatMap_congr fun d member => (final d member).1
      _ = upperChar c := List.flatMap_singleton' _

/-- Raising makes no separator of another character. -/
theorem eq_of_mem_upperChar {c mark : Char} (separates : mark.toNat ∈ separatorCodes)
    (h : mark ∈ upperChar c) : mark = c := by
  rcases upperChar_cases c with own | final
  · simpa [own] using h
  · exact absurd separates (final mark h).2

end ApiBinding.Text
