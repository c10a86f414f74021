import ApiBinding.Name.CamelCase
import ApiBinding.Proofs.Text.Case
import Mathlib.Data.List.Chain
import Mathlib.Data.List.TakeWhile

/-! Camel case leaves no boundary: no separator stands right before a word character, so that it
changes nothing the second time, and apart from the separators no character is lost or moved. It is
the substitution of the separators before a word character. The low line is a separator and a word
character: of a run that no other word character follows, it may be what is kept. -/

namespace ApiBinding.Name

/-! ## Boundaries -/

/-- No separator stands right before a word character. The low line is both, so it follows no
separator either. -/
def NoBoundary (text : List Char) : Prop :=
  text.IsChain fun a b => isSeparator a = true → Text.isWord b = false

/-- Of the separators the low line alone is a word character. -/
theorem isWord_iff_of_isSeparator {c : Char} (separator : isSeparator c = true) :
    Text.isWord c = true ↔ c = '_' := by
  simp only [isSeparator, Bool.or_eq_true, beq_iff_eq] at separator
  rcases separator with ((rfl | rfl) | rfl) | rfl <;> decide +kernel

/-- A character that is no separator may stand before anything. -/
theorem noBoundary_cons {c : Char} {rest : List Char} (other : isSeparator c = false)
    (later : NoBoundary rest) : NoBoundary (c :: rest) := by
  refine List.isChain_cons.mpr ⟨fun next _ separator => ?_, later⟩
  simp [other] at separator

theorem noBoundary_append {start rest : List Char} (others : ∀ c ∈ start, isSeparator c = false)
    (later : NoBoundary rest) : NoBoundary (start ++ rest) := by
  induction start with
  | nil => exact later
  | cons c start ih =>
      obtain ⟨here, others⟩ := List.forall_mem_cons.mp others
      exact noBoundary_cons here (ih others)

/-- A run of separators makes a boundary where a low line stands behind the first one. -/
theorem noBoundary_iff_of_separators {run : List Char}
    (separators : ∀ s ∈ run, isSeparator s = true) : NoBoundary run ↔ '_' ∉ run.tail := by
  induction run with
  | nil => simp [NoBoundary]
  | cons first run ih =>
      obtain ⟨separator, later⟩ := List.forall_mem_cons.mp separators
      cases run with
      | nil => simp [NoBoundary]
      | cons next rest =>
          have step : NoBoundary (first :: next :: rest) ↔
              ¬ Text.isWord next = true ∧ NoBoundary (next :: rest) := by
            simp [NoBoundary, separator]
          rw [step, ih later, isWord_iff_of_isSeparator (later next List.mem_cons_self)]
          simp [eq_comm]

/-- Behind separators that make no boundary stands no word character. -/
theorem not_isWord_of_noBoundary {run rest : List Char} {c : Char} (nonempty : run ≠ [])
    (separators : ∀ s ∈ run, isSeparator s = true) (h : NoBoundary (run ++ c :: rest)) :
    Text.isWord c = false := by
  obtain ⟨-, -, junction⟩ := List.isChain_append.mp h
  obtain ⟨last, hlast⟩ := Option.ne_none_iff_exists'.mp (mt List.getLast?_eq_none_iff.mp nonempty)
  exact junction last hlast c rfl (separators last (List.mem_of_getLast? hlast))

/-! ## Runs that no word character follows -/

theorem mem_of_mem_afterLast {mark c : Char} {text : List Char}
    (h : c ∈ Text.afterLast mark text) : c ∈ text ∧ c ≠ mark := by
  have inside := List.mem_reverse.mp h
  exact ⟨List.mem_reverse.mp (List.takeWhile_subset _ inside),
    by simpa using List.mem_takeWhile_imp inside⟩

theorem exists_append_afterLast {mark : Char} {text : List Char} (h : mark ∈ text) :
    ∃ front, text = front ++ mark :: Text.afterLast mark text := by
  obtain ⟨last, front, reversed, apart⟩ := List.eq_append_cons_of_mem (List.mem_reverse.mpr h)
  have later : Text.afterLast mark text = last.reverse := by
    have all : ∀ c ∈ last, (c != mark) = true := fun c member => by
      rw [bne_iff_ne]
      rintro rfl
      exact apart member
    rw [Text.afterLast, reversed, List.takeWhile_append_of_pos all]
    simp
  refine ⟨front.reverse, ?_⟩
  rw [later, ← List.reverse_reverse text, reversed]
  simp

theorem mem_of_mem_settleRun {run : List Char} {c : Char} (h : c ∈ settleRun run) : c ∈ run := by
  cases run with
  | nil => exact h
  | cons first others =>
      rw [settleRun] at h
      split at h
      · rename_i member
        rcases List.mem_cons.mp h with rfl | later
        · exact List.mem_cons_of_mem _ (by simpa using member)
        · exact List.mem_cons_of_mem _ (mem_of_mem_afterLast later).1
      · exact h

theorem lowLine_not_mem_tail_settleRun (run : List Char) : '_' ∉ (settleRun run).tail := by
  cases run with
  | nil => simp [settleRun]
  | cons first others =>
      rw [settleRun]
      split
      · exact fun member => (mem_of_mem_afterLast member).2 rfl
      · rename_i none
        simpa using none

theorem settleRun_eq_self {run : List Char} (others : '_' ∉ run.tail) : settleRun run = run := by
  cases run with
  | nil => rfl
  | cons first rest =>
      have none : ¬ rest.contains '_' = true := by simpa using others
      exact if_neg none

/-! ## Raising -/

/-- What is asked of a way to raise characters: what is raised stays as it is, a word character
becomes no separator, and only the low line is raised to a low line. -/
structure Raises (upper : Char → List Char) : Prop where
  stays : ∀ c, (upper c).flatMap upper = upper c
  joins : ∀ c, Text.isWord c = true → '-' ∉ upper c ∧ ' ' ∉ upper c ∧ '.' ∉ upper c
  lowLine : ∀ c, '_' ∈ upper c → c = '_'

variable {upper : Char → List Char}

theorem Raises.not_isSeparator (raises : Raises upper) {c : Char} (word : Text.isWord c = true)
    (other : isSeparator c = false) : ∀ d ∈ upper c, isSeparator d = false := by
  intro d member
  obtain ⟨dash, space, dot⟩ := raises.joins c word
  by_contra separator
  simp only [Bool.not_eq_false, isSeparator, Bool.or_eq_true, beq_iff_eq] at separator
  rcases separator with ((rfl | rfl) | rfl) | rfl
  · exact dash member
  · rw [raises.lowLine c member] at other
    exact absurd other (by decide)
  · exact space member
  · exact dot member

/-- The run stays one of separators when a separator is read. -/
theorem separators_concat {run : List Char} {c : Char}
    (separators : ∀ s ∈ run, isSeparator s = true) (separator : isSeparator c = true) :
    ∀ s ∈ run ++ [c], isSeparator s = true := by
  simpa [or_imp, forall_and] using ⟨separators, separator⟩

/-- The induction is on the text, with the run of separators that stands before it. -/
theorem noBoundary_joinWords (raises : Raises upper) {run text : List Char}
    (separators : ∀ s ∈ run, isSeparator s = true) : NoBoundary (joinWords upper run text) := by
  have settled {run : List Char} (separators : ∀ s ∈ run, isSeparator s = true) :
      NoBoundary (settleRun run) :=
    (noBoundary_iff_of_separators fun s member => separators s (mem_of_mem_settleRun member)).mpr
      (lowLine_not_mem_tail_settleRun run)
  fun_induction joinWords upper run text with
  | case1 run => exact settled separators
  | case2 run c rest separator ih => exact ih (separators_concat separators separator)
  | case3 run c rest other joined ih =>
      have word := (Bool.and_eq_true_iff.mp joined).2
      exact noBoundary_append (raises.not_isSeparator word (by simpa using other)) (ih (by simp))
  | case4 run c rest other apart ih =>
      have later : NoBoundary (c :: joinWords upper [] rest) :=
        noBoundary_cons (by simpa using other) (ih (by simp))
      -- where the run meets the character there is no run, or the character is no word character
      refine List.isChain_append.mpr ⟨settled separators, later, ?_⟩
      intro last hlast next head _
      obtain rfl : c = next := by simpa using head
      have nonempty : run ≠ [] := by
        rintro rfl
        simp [settleRun] at hlast
      simpa [nonempty] using apart

/-- Where there is no boundary, camel case changes nothing. -/
theorem joinWords_of_noBoundary {run text : List Char}
    (separators : ∀ s ∈ run, isSeparator s = true) (h : NoBoundary (run ++ text)) :
    joinWords upper run text = run ++ text := by
  have settled {run rest : List Char} (separators : ∀ s ∈ run, isSeparator s = true)
      (h : NoBoundary (run ++ rest)) : settleRun run = run :=
    settleRun_eq_self ((noBoundary_iff_of_separators separators).mp (List.isChain_append.mp h).1)
  fun_induction joinWords upper run text with
  | case1 run => rw [settled separators h, List.append_nil]
  | case2 run c rest separator ih =>
      rw [ih (separators_concat separators separator) (by simpa using h)]
      simp
  | case3 run c rest other joined ih =>
      obtain ⟨nonempty, word⟩ := Bool.and_eq_true_iff.mp joined
      have apart := not_isWord_of_noBoundary (by simpa using nonempty) separators h
      simp [apart] at word
  | case4 run c rest other apart ih =>
      have later := (List.isChain_append.mp h).2.1
      rw [settled separators h, ih (by simp) (List.isChain_cons.mp later).2]
      simp

/-- What is left of a text without its separators. -/
def letters (text : List Char) : List Char :=
  text.filter fun c => !isSeparator c

theorem letters_append (start rest : List Char) :
    letters (start ++ rest) = letters start ++ letters rest :=
  List.filter_append ..

theorem letters_eq_nil {run : List Char} (separators : ∀ s ∈ run, isSeparator s = true) :
    letters run = [] := by
  simpa [letters] using separators

theorem letters_eq_self {text : List Char} (others : ∀ c ∈ text, isSeparator c = false) :
    letters text = text := by
  simpa [letters] using others

/-- Raised, the letters of a text are the same before and after. -/
theorem letters_joinWords (raises : Raises upper) {run text : List Char}
    (separators : ∀ s ∈ run, isSeparator s = true) :
    (letters (joinWords upper run text)).flatMap upper = (letters text).flatMap upper := by
  have settled {run : List Char} (separators : ∀ s ∈ run, isSeparator s = true) :
      letters (settleRun run) = [] :=
    letters_eq_nil fun s member => separators s (mem_of_mem_settleRun member)
  fun_induction joinWords upper run text with
  | case1 run => rw [settled separators]; rfl
  | case2 run c rest separator ih =>
      rw [ih (separators_concat separators separator)]
      simp [letters, separator]
  | case3 run c rest other joined ih =>
      have word := (Bool.and_eq_true_iff.mp joined).2
      -- what was raised here is raised once more with the rest, which leaves it as it is
      have kept := letters_eq_self (raises.not_isSeparator word (by simpa using other))
      rw [letters_append, kept, List.flatMap_append, raises.stays, ih (by simp)]
      simp [letters, other]
  | case4 run c rest other apart ih =>
      rw [letters_append, settled separators, List.nil_append, ← List.singleton_append,
        letters_append, List.flatMap_append, ih (by simp), ← List.flatMap_append, ← letters_append]
      rfl

/-! ## Camel case as a substitution -/

/-- A text begins with some separators and a word character after them. The low line is both, so
that one text can begin so in several ways. -/
structure JoinsAt (text run : List Char) (c : Char) (rest : List Char) : Prop where
  split : text = run ++ c :: rest
  nonempty : run ≠ []
  separators : ∀ s ∈ run, isSeparator s = true
  word : Text.isWord c = true

/-- From the left, as many separators as can have a word character after them give way to that
character, raised. Where there are none, a character is kept. -/
inductive Replaced (upper : Char → List Char) : List Char → List Char → Prop where
  | nil : Replaced upper [] []
  | join {text run c rest result} : JoinsAt text run c rest →
      (∀ run' c' rest', JoinsAt text run' c' rest' → run'.length ≤ run.length) →
      Replaced upper rest result → Replaced upper text (upper c ++ result)
  | keep {c rest result} : (∀ run c' rest', ¬ JoinsAt (c :: rest) run c' rest') →
      Replaced upper rest result → Replaced upper (c :: rest) (c :: result)

/-- The substitution has one result. -/
theorem Replaced.unique {text result other : List Char} (h : Replaced upper text result)
    (h' : Replaced upper text other) : other = result := by
  induction h generalizing other with
  | nil =>
      cases h' with
      | nil => rfl
      | join joins _ _ => exact absurd joins.split.symm (by simp)
  | @join text run c rest result joins longest _ ih =>
      cases h' with
      | nil => exact absurd joins.split.symm (by simp)
      | @join _ run' c' rest' result' joins' longest' later =>
          have size : run'.length = run.length :=
            Nat.le_antisymm (longest _ _ _ joins') (longest' _ _ _ joins)
          obtain ⟨rfl, same⟩ := List.append_inj (joins'.split.symm.trans joins.split) size
          obtain ⟨rfl, rfl⟩ := List.cons.inj same
          rw [ih later]
      | keep none _ => exact absurd joins (none _ _ _)
  | keep none _ ih =>
      cases h' with
      | join joins _ _ => exact absurd joins (none _ _ _)
      | keep _ later => rw [ih later]

/-- No separators are joined beyond a character that is none. -/
theorem JoinsAt.length_le {run start rest rest' : List Char} {c d : Char}
    (other : isSeparator c = false) (joins : JoinsAt (run ++ c :: rest) start d rest') :
    start.length ≤ run.length := by
  rcases List.append_eq_append_iff.mp joins.split with ⟨more, rfl, later⟩ | ⟨more, rfl, -⟩
  · cases more with
    | nil => simp
    | cons e more =>
        obtain ⟨rfl, -⟩ := List.cons.inj later
        simp [joins.separators c (by simp)] at other
  · simp

/-- What stands behind a run of separators that has come to its end without being joined. -/
def EndsRun (tail : List Char) : Prop :=
  ∀ c ∈ tail.head?, isSeparator c = false ∧ Text.isWord c = false

/-- Before such an end, the word character is one of the run: a low line. -/
theorem JoinsAt.lowLine {run tail start : List Char} {c : Char} {rest : List Char}
    (ends : EndsRun tail) (separators : ∀ s ∈ run, isSeparator s = true)
    (joins : JoinsAt (run ++ tail) start c rest) :
    c = '_' ∧ ∃ behind, run = start ++ '_' :: behind := by
  have outside {front : List Char} (sep : ∀ s ∈ front, isSeparator s = true)
      (same : tail = front ++ c :: rest) : False := by
    cases front with
    | nil =>
        obtain ⟨-, none⟩ := ends c (by simp [same])
        simp [joins.word] at none
    | cons s front =>
        obtain ⟨none, -⟩ := ends s (by simp [same])
        simp [sep s (by simp)] at none
  rcases List.append_eq_append_iff.mp joins.split with ⟨front, same, other⟩ | ⟨front, same, other⟩
  · refine (outside (fun s member => joins.separators s ?_) other).elim
    simp [same, member]
  · cases front with
    | nil => exact (outside (List.forall_mem_nil _) other.symm).elim
    | cons d behind =>
        obtain ⟨rfl, -⟩ := List.cons.inj other
        have lowLine := (isWord_iff_of_isSeparator (separators c (by simp [same]))).mp joins.word
        exact ⟨lowLine, behind, lowLine ▸ same⟩

/-- A run without a low line behind its first separator is kept before such an end. -/
theorem Replaced.append {run tail result : List Char} (ends : EndsRun tail)
    (separators : ∀ s ∈ run, isSeparator s = true) (others : '_' ∉ run.tail)
    (later : Replaced upper tail result) : Replaced upper (run ++ tail) (run ++ result) := by
  induction run with
  | nil => exact later
  | cons first run ih =>
      refine .keep (fun start c rest joins => ?_) (ih ?_ ?_)
      · have joins : JoinsAt ((first :: run) ++ tail) start c rest := joins
        obtain ⟨-, behind, same⟩ := joins.lowLine ends separators
        cases start with
        | nil => exact joins.nonempty rfl
        | cons s start =>
            obtain ⟨-, rfl⟩ := List.cons.inj same
            exact others (by simp)
      · exact fun s member => separators s (List.mem_cons_of_mem _ member)
      · exact fun member => others (List.mem_of_mem_tail member)

/-- Nothing longer than the part before the last occurrence of a mark ends before the mark. -/
theorem length_le_of_last {α : Type} {mark : α} {front behind start more : List α}
    (last : mark ∉ behind) (same : front ++ mark :: behind = start ++ mark :: more) :
    start.length ≤ front.length := by
  rcases List.append_eq_append_iff.mp same with ⟨between, rfl, later⟩ | ⟨between, rfl, -⟩
  · cases between with
    | nil => simp
    | cons d between =>
        obtain ⟨-, rfl⟩ := List.cons.inj later
        exact absurd (by simp) last
  · simp

/-- What is left of a run is what the substitution makes of it before such an end. Up to its last
low line it is joined to that low line, which raising leaves as it is. -/
theorem replaced_settleRun (lowLine : upper '_' = ['_']) {run tail result : List Char}
    (ends : EndsRun tail) (separators : ∀ s ∈ run, isSeparator s = true)
    (later : Replaced upper tail result) :
    Replaced upper (run ++ tail) (settleRun run ++ result) := by
  cases run with
  | nil => exact later
  | cons first others =>
      rw [settleRun]
      split
      · rename_i member
        obtain ⟨front, same⟩ := exists_append_afterLast (List.contains_iff_mem.mp member)
        have last : '_' ∉ Text.afterLast '_' others := fun inside =>
          (mem_of_mem_afterLast inside).2 rfl
        generalize Text.afterLast '_' others = behind at same last
        subst same
        -- up to its last low line the run is joined, and the separators behind that are kept
        have whole : ∀ s ∈ (first :: front) ++ '_' :: behind, isSeparator s = true := separators
        obtain ⟨before, after⟩ := List.forall_mem_append.mp whole
        have kept : Replaced upper (behind ++ tail) (behind ++ result) :=
          .append ends (List.forall_mem_cons.mp after).2
            (fun inside => last (List.mem_of_mem_tail inside)) later
        have joins : JoinsAt (first :: (front ++ '_' :: behind) ++ tail) (first :: front) '_'
            (behind ++ tail) :=
          ⟨by simp, by simp, before, by decide +kernel⟩
        have longest (start c rest)
            (other : JoinsAt (first :: (front ++ '_' :: behind) ++ tail) start c rest) :
            start.length ≤ (first :: front).length := by
          obtain ⟨-, more, same⟩ := other.lowLine ends separators
          exact length_le_of_last last same
        simpa [lowLine] using Replaced.join joins longest kept
      · rename_i none
        exact .append ends separators (by simpa using none) later

/-- Camel case is the substitution. A run is joined to the word character at its end; one that
comes to its end without being joined is settled. -/
theorem replaced_joinWords (lowLine : upper '_' = ['_']) {run text : List Char}
    (separators : ∀ s ∈ run, isSeparator s = true) :
    Replaced upper (run ++ text) (joinWords upper run text) := by
  fun_induction joinWords upper run text with
  | case1 run =>
      have ends : EndsRun [] := by simp [EndsRun]
      simpa using replaced_settleRun lowLine ends separators .nil
  | case2 run c rest separator ih =>
      simpa using ih (separators_concat separators separator)
  | case3 run c rest other joined ih =>
      obtain ⟨nonempty, word⟩ := Bool.and_eq_true_iff.mp joined
      -- nothing longer than the whole run is joined, as the character is no separator
      have joins : JoinsAt (run ++ c :: rest) run c rest :=
        ⟨rfl, by simpa using nonempty, separators, word⟩
      have longest (start d rest') (joins : JoinsAt (run ++ c :: rest) start d rest') :
          start.length ≤ run.length := joins.length_le (by simpa using other)
      exact .join joins longest (by simpa using ih (by simp))
  | case4 run c rest other apart ih =>
      have none (start d rest') : ¬ JoinsAt (c :: rest) start d rest' := by
        intro joins
        have short : start.length ≤ ([] : List Char).length :=
          JoinsAt.length_le (by simpa using other) joins
        exact joins.nonempty (List.eq_nil_of_length_eq_zero (Nat.le_zero.mp short))
      have later : Replaced upper (c :: rest) (c :: joinWords upper [] rest) :=
        .keep none (by simpa using ih (by simp))
      cases run with
      | nil => exact later
      | cons first others =>
          refine replaced_settleRun lowLine ?_ separators later
          simpa [EndsRun] using And.intro other apart

/-! ## Camel case of any text -/

theorem raises_upperChar : Raises Text.upperChar where
  stays := Text.upper_upperChar
  joins c word := by
    have apart {mark : Char} (separates : mark.toNat ∈ Text.separatorCodes)
        (other : Text.isWord mark = false) : mark ∉ Text.upperChar c := by
      intro member
      rw [Text.eq_of_mem_upperChar separates member, word] at other
      exact Bool.noConfusion other
    exact ⟨apart (by decide) (by decide +kernel), apart (by decide) (by decide +kernel),
      apart (by decide) (by decide +kernel)⟩
  lowLine c member := (Text.eq_of_mem_upperChar (by decide) member).symm

/-- The camel case of a text has no boundary, so that it is its own camel case, and its letters are
those of the text in the same order, once all are raised. -/
structure Settles (upper : Char → List Char) (text result : List Char) : Prop where
  noBoundary : NoBoundary result
  again : joinWords upper [] result = result
  letters : (letters result).flatMap upper = (letters text).flatMap upper

theorem settles_joinWords (raises : Raises upper) (text : List Char) :
    Settles upper text (joinWords upper [] text) where
  noBoundary := noBoundary_joinWords raises (by simp)
  again := joinWords_of_noBoundary (by simp) (noBoundary_joinWords raises (by simp))
  letters := letters_joinWords raises (by simp)

/-- Camel case settles every text, with any way of raising that raises as it should, as that of the
alphabets of all scripts does. It is the substitution of separators and the word character behind
them. -/
theorem camelCase_settles :
    (∀ upper, Raises upper → ∀ text, Settles upper text (joinWords upper [] text)) ∧
    ∀ text, Settles Text.upperChar text (camelCase text) ∧
      ∀ result, Replaced Text.upperChar text result ↔ result = camelCase text := by
  refine ⟨fun upper raises text => settles_joinWords raises text, fun text => ?_⟩
  have replaced : Replaced Text.upperChar text (camelCase text) :=
    replaced_joinWords (by decide +kernel) (List.forall_mem_nil _)
  refine ⟨settles_joinWords raises_upperChar text, fun result => ⟨replaced.unique, ?_⟩⟩
  rintro rfl
  exact replaced

/-- A letter that is raised to two, and runs of separators that no word character follows. -/
theorem camelCase_settles_sharp :
    camelCase "-ßeta__-!x.y_".toList = "SSeta_-!xY_".toList ∧
      camelCase "SSeta_-!xY_".toList = "SSeta_-!xY_".toList := by
  have joined : camelCase "-ßeta__-!x.y_".toList = "SSeta_-!xY_".toList := by decide +kernel
  have settled := camelCase_settles.1 Text.upperChar raises_upperChar "-ßeta__-!x.y_".toList
  refine ⟨joined, ?_⟩
  rw [← joined]
  exact settled.again

end ApiBinding.Name
