import ApiBinding.Proofs.Operation.Run
import ApiBinding.Proofs.Operation.Status
import ApiBinding.Proofs.Operation.Thinned

/-! The response that is typed is that of the first listed status code with a usable entry. A code
has its entry under its text or, if there is none and it is made of digits, under its number. -/

namespace ApiBinding

/-- Among the first 128 characters there are no other digits than the ten plain ones. -/
theorem Text.isDigit_of_ascii {c : Char} (ascii : c.toNat < 128) : Text.isDigit c = c.isDigit := by
  have plain : ∀ code < 128, inRanges code digitRanges = (48 ≤ code && code ≤ 57 : Bool) := by
    decide +kernel
  rw [Text.isDigit, plain _ ascii]
  simp [Char.isDigit, UInt32.le_iff_toNat_le]

namespace Operation

open Synthesis

/-! ## Entries of status codes -/

/-- The number that a code of digits is. -/
def statusNumber? (code : String) : Option Int :=
  if code ≠ "" ∧ code.toList.all Char.isDigit = true then
    some (Integer.positional (Integer.plainDigits code.toList))
  else none

/-- The keys under which the entry of a status code may stand. -/
def statusKeys (code : String) : List Key :=
  .text code :: ((statusNumber? code).map Key.int).toList

/-- The entry of a status code: what stands under its text or, if that is missing or null, under its
number; null without either. -/
def statusEntry (responses : Mapping) (code : String) : Value :=
  match responses.field code with
  | .null => ((statusNumber? code).bind fun number => responses.get? (.int number)).getD .null
  | entry => entry

/-- The first usable entry among those of the status codes. -/
def firstUsable (responses : Mapping) (codes : List String) : Option Value :=
  (codes.map (statusEntry responses)).find? Value.isTruthy

/-- A status code that is looked up, as those before it have no usable entries. -/
def LookedUp (responses : Mapping) (codes : List String) (code : String) : Prop :=
  ∃ before after, codes = before ++ code :: after ∧
    ∀ other ∈ before, (statusEntry responses other).isTruthy = false

/-- A status code that has not too many digits, if it is looked up as a number. -/
def ReadableCode (responses : Mapping) (code : String) : Prop :=
  responses.field code = .null → (statusNumber? code).isSome = true →
    code.length ≤ Integer.digitLimit

/-- The characters of the code are among the first 128. -/
def IsAscii (code : String) : Prop :=
  ∀ c ∈ code.toList, c.toNat < 128

instance (code : String) : Decidable (IsAscii code) :=
  List.decidableBAll _ _

variable {responses : Mapping} {code : String} {codes : List String}

theorem isDigits_iff (ascii : IsAscii code) :
    isDigits code = true ↔ (statusNumber? code).isSome = true := by
  have digits : code.toList.all Text.isDigit = true ↔ code.toList.all Char.isDigit = true := by
    rw [List.all_eq_true, List.all_eq_true]
    exact forall₂_congr fun c member => by rw [Text.isDigit_of_ascii (ascii c member)]
  simp [isDigits, statusNumber?, digits]

theorem read?_of_statusNumber? {number : Int} (found : statusNumber? code = some number) :
    Integer.read? code.toList =
      if code.length > Integer.digitLimit then none else some number := by
  unfold statusNumber? at found
  split at found
  · rename_i digits
    obtain rfl := Option.some.inj found
    have nonempty : code.toList ≠ [] := by simpa using digits.1
    rw [Integer.read?_of_mapM nonempty (Integer.mapM_plainDigits (List.all_eq_true.mp digits.2))]
    simp [Integer.plainDigits, String.length_toList]
  · simp at found

theorem statusEntry_of_null (absent : responses.field code = .null) :
    statusEntry responses code =
      ((statusNumber? code).bind fun number => responses.get? (.int number)).getD .null := by
  simp [statusEntry, absent]

theorem statusEntry_of_ne_null (present : responses.field code ≠ .null) :
    statusEntry responses code = responses.field code := by
  unfold statusEntry
  split
  · rename_i absent
    exact absurd absent present
  · rfl

/-- The entry of a code is found, unless the code has too many digits. -/
theorem responseEntry_eq (ascii : IsAscii code) (readable : ReadableCode responses code) :
    responseEntry responses code = .ok (statusEntry responses code) := by
  unfold responseEntry
  split
  · rename_i absent
    rw [statusEntry_of_null absent]
    split
    · rename_i digits
      obtain ⟨number, found⟩ := Option.isSome_iff_exists.mp ((isDigits_iff ascii).mp digits)
      have short := readable absent (by simp [found])
      rw [read?_of_statusNumber? found, if_neg (Nat.not_lt.mpr short)]
      simp [found]
    · rename_i other
      have none : statusNumber? code = none := by
        rw [← Option.not_isSome_iff_eq_none, ← isDigits_iff ascii]
        exact other
      simp [none]
  · rename_i present
    rw [statusEntry_of_ne_null fun absent => present absent]

theorem responseEntry_of_unreadable (ascii : IsAscii code)
    (unreadable : ¬ ReadableCode responses code) :
    responseEntry responses code = .error (.defect .statusNotDecimal) := by
  simp only [ReadableCode, not_forall, Nat.not_le] at unreadable
  obtain ⟨absent, digits, long⟩ := unreadable
  obtain ⟨number, found⟩ := Option.isSome_iff_exists.mp digits
  simp [responseEntry, absent, (isDigits_iff ascii).mpr digits, read?_of_statusNumber? found, long]

/-- What is found for a code is its entry, if something is found. -/
theorem eq_statusEntry_of_ok {entry : Value} (ascii : IsAscii code)
    (found : responseEntry responses code = .ok entry) : entry = statusEntry responses code := by
  by_cases readable : ReadableCode responses code
  · exact Except.ok.inj (found.symm.trans (responseEntry_eq ascii readable))
  · simp [responseEntry_of_unreadable ascii readable] at found

/-- The selected entry is that of a listed code. -/
theorem mem_of_selectResponse_ascii {entry : Value} (ascii : ∀ code ∈ codes, IsAscii code)
    (selected : selectResponse responses codes = .ok (some entry)) :
    entry ∈ codes.map (statusEntry responses) := by
  induction codes with
  | nil => simp [selectResponse] at selected
  | cons code rest ih =>
      obtain ⟨own, later⟩ := List.forall_mem_cons.mp ascii
      obtain ⟨first, found, selected⟩ := bind_eq_ok_iff.mp selected
      split at selected
      · obtain rfl := Option.some.inj (Except.ok.inj selected)
        rw [eq_statusEntry_of_ok own found]
        exact List.mem_cons_self
      · exact List.mem_cons_of_mem _ (ih later selected)

/-- The induction is on the codes; those that are left are looked up if the first one has no usable
entry. -/
theorem selectResponse_eq (ascii : ∀ code ∈ codes, IsAscii code)
    (readable : ∀ code, LookedUp responses codes code → ReadableCode responses code) :
    selectResponse responses codes = .ok (firstUsable responses codes) := by
  induction codes with
  | nil => rfl
  | cons code rest ih =>
      obtain ⟨first, others⟩ := List.forall_mem_cons.mp ascii
      have own : ReadableCode responses code := readable code ⟨[], rest, rfl, by simp⟩
      rw [selectResponse, responseEntry_eq first own]
      cases usable : (statusEntry responses code).isTruthy with
      | true => simp [firstUsable, usable, bind, Except.bind]
      | false =>
          have later : ∀ other, LookedUp responses rest other → ReadableCode responses other := by
            rintro other ⟨before, after, rfl, unusable⟩
            exact readable other ⟨code :: before, after, rfl,
              List.forall_mem_cons.mpr ⟨usable, unusable⟩⟩
          simpa [firstUsable, usable, bind, Except.bind] using ih others later

/-- Mappings that have the same under the keys of a code have the same entry for it. -/
theorem responseEntry_congr {others : Mapping} (ascii : IsAscii code)
    (agree : ∀ key ∈ statusKeys code, others.get? key = responses.get? key) :
    responseEntry others code = responseEntry responses code := by
  obtain ⟨text, number⟩ := List.forall_mem_cons.mp agree
  have field : others.field code = responses.field code :=
    congrArg (Option.getD · Value.null) text
  unfold responseEntry
  rw [field]
  split
  · split
    · rename_i digits
      obtain ⟨status, found⟩ := Option.isSome_iff_exists.mp ((isDigits_iff ascii).mp digits)
      have same : others.get? (.int status) = responses.get? (.int status) := by
        simpa [found] using number
      rw [read?_of_statusNumber? found]
      split
      · rename_i own read
        split at read
        · simp at read
        · obtain rfl := Option.some.inj read
          rw [same]
      · rfl
    · rfl
  · rfl

/-- Mappings that have the same under the keys of all codes select the same entry. -/
theorem selectResponse_congr {others : Mapping} (ascii : ∀ code ∈ codes, IsAscii code)
    (agree : ∀ code ∈ codes, ∀ key ∈ statusKeys code, others.get? key = responses.get? key) :
    selectResponse others codes = selectResponse responses codes := by
  induction codes with
  | nil => rfl
  | cons code rest ih =>
      obtain ⟨first, later⟩ := List.forall_mem_cons.mp ascii
      obtain ⟨own, left⟩ := List.forall_mem_cons.mp agree
      rw [selectResponse, selectResponse, responseEntry_congr first own, ih later left]

/-! ## Typed entries -/

/-- The schema of a response entry, with references followed. -/
def entrySchema (dialect : Dialect) (document : Mapping) :
    Option Value → Except Failure (Option Value)
  | none => .ok none
  | some entry => do
    match ← Pointer.follow (.object document) entry with
    | .object response => .ok (dialect.responseSchema? response)
    | _ => .ok none

theorem selectedSchema_eq (dialect : Dialect) {options : Options} (document : Mapping)
    {operation : Mapping} {chosen : Option Value}
    (declared : operation.field "responses" = .object responses)
    (selected : selectResponse responses options.responseCodes = .ok chosen) :
    selectedSchema dialect options document operation = entrySchema dialect document chosen := by
  unfold selectedSchema
  rw [declared]
  dsimp only
  rw [selected]
  cases chosen <;> rfl

end Operation

open Operation

/-- Types the response of an entry, if there is one. -/
def Site.typedEntry (site : Site) (entry : Option Value) : Synthesis (Option TypeExpr) := do
  let schema ← Synthesis.lift (entrySchema site.dialect site.document entry)
  typedResponse (site.scope (some .response)) site.stem schema

/-- The response that is typed is the first usable one. -/
theorem Site.responseStep_eq {site : Site} {responses : Mapping}
    (declared : site.operation.field "responses" = .object responses)
    (ascii : ∀ code ∈ site.options.responseCodes, IsAscii code)
    (readable : ∀ code, LookedUp responses site.options.responseCodes code →
      ReadableCode responses code) :
    site.responseStep = site.typedEntry (firstUsable responses site.options.responseCodes) := by
  have selected := selectResponse_eq ascii readable
  unfold Site.responseStep Site.typedEntry
  rw [responseType_eq, ← selectedSchema_eq site.dialect site.document declared selected]
  rfl

end ApiBinding
