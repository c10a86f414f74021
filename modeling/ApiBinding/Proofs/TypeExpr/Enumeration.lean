import ApiBinding.Proofs.Json.Scalar
import ApiBinding.Proofs.Text.Repeats

/-! Unions of enumeration values: the literals are the JSON texts of the values, each once and in
the order of first occurrence. Plain values of different kinds or contents never share a literal.
There is no union if the text of one of the values cannot be written. -/

namespace ApiBinding.TypeExpr

/-- The literals of a list of values. -/
structure LiteralsOf (values : List Value) (texts : List String) : Prop where
  distinct : texts.Nodup
  mem_iff : ∀ text, text ∈ texts ↔ ∃ value ∈ values, Json.write value = .ok text
  ordered : texts.Pairwise fun a b =>
    (values.map Json.render).idxOf a < (values.map Json.render).idxOf b
  /-- Values whose literals are there already add nothing. -/
  stable : ∀ more : List Value,
    (∀ value ∈ more, ∃ text ∈ texts, Json.write value = .ok text) →
    ofLiterals (values ++ more) = .ok (.literals texts)
  /-- Two plain values share a literal only if they are one value. -/
  apart : ∀ a b text, Json.IsPlain a → Json.IsPlain b → Json.write a = .ok text →
    (Json.write b = .ok text ↔ a = b)
  /-- The literal of a plain value is read back as this value. -/
  reads : ∀ value text, Json.IsPlain value → Json.write value = .ok text → ∀ room,
    Json.read room text = .ok (some value)

variable {values : List Value}

theorem mem_literals_iff (short : ∀ value ∈ values, value.isWritable = true) (text : String) :
    text ∈ (values.map Json.render).eraseDups ↔ ∃ value ∈ values, Json.write value = .ok text := by
  rw [List.mem_eraseDups, List.mem_map]
  refine exists_congr fun value => and_congr_right fun member => ?_
  rw [Json.write_eq_ok_iff]
  exact (and_iff_right (short value member)).symm

theorem ofLiterals_append (short : ∀ value ∈ values, value.isWritable = true) {more : List Value}
    (known : ∀ value ∈ more, ∃ text ∈ (values.map Json.render).eraseDups,
      Json.write value = .ok text) :
    ofLiterals (values ++ more) = .ok (.literals (values.map Json.render).eraseDups) := by
  rw [ofLiterals_eq_ok_iff]
  constructor
  · intro value member
    rcases List.mem_append.mp member with own | added
    · exact short value own
    · obtain ⟨text, -, written⟩ := known value added
      exact (Json.write_eq_ok_iff.mp written).1
  · rw [List.map_append]
    refine congrArg TypeExpr.literals (eraseDups_append_of_subset ?_).symm
    intro text member
    obtain ⟨value, inside, rfl⟩ := List.mem_map.mp member
    obtain ⟨text, among, written⟩ := known value inside
    rw [(Json.write_eq_ok_iff.mp written).2]
    exact List.mem_eraseDups.mp among

/-- The union of a list of values has exactly their literals, unless there is an integer with too
many digits inside one of the values. With such an integer there is no union. -/
theorem ofLiterals_exact (values : List Value) :
    ((∀ value ∈ values, ¬ value.HasLongInteger) →
      ∃ texts, ofLiterals values = .ok (.literals texts) ∧ LiteralsOf values texts) ∧
    ((∃ value ∈ values, value.HasLongInteger) →
      ofLiterals values = .error (.defect .integerTooLong)) := by
  constructor
  · intro noLong
    have short : ∀ value ∈ values, value.isWritable = true := by
      intro value member
      rw [← Bool.not_eq_false, Value.not_isWritable_iff]
      exact noLong value member
    refine ⟨_, ofLiterals_eq_ok_iff.mpr ⟨short, rfl⟩, ?_⟩
    exact {
      distinct := nodup_eraseDups _
      mem_iff := mem_literals_iff short
      ordered := pairwise_eraseDups _
      stable := fun _ known => ofLiterals_append short known
      apart := fun _ _ _ plain plain' written =>
        ⟨Json.eq_of_write_eq plain plain' written, fun same => same ▸ written⟩
      reads := fun _ _ plain written => Json.read_write plain written }
  · exact fun long => ofLiterals_eq_error_iff.mpr ⟨rfl, long⟩

/-- Values that other languages take for equal, or whose contents are spelled alike. -/
def lookalikeValues : List Value :=
  [.int 1, .bool true, .text "1", .null, .bool true, .text "null", .text "true", .int 1]

theorem ofLiterals_lookalikeValues :
    ofLiterals lookalikeValues =
        .ok (.literals ["1", "true", "\"1\"", "null", "\"null\"", "\"true\""]) ∧
      ofLiterals (lookalikeValues ++ [.null, .text "1"]) = ofLiterals lookalikeValues ∧
      Json.write (.bool true) ≠ .ok "1" ∧
      Json.read 0 "\"null\"" = .ok (some (.text "null")) ∧
      ofLiterals [.text "one", .list [.int (-10 ^ Integer.digitLimit)]] =
        .error (.defect .integerTooLong) := by
  have short : ∀ value ∈ lookalikeValues, value.isWritable = true :=
    List.all_eq_true.mp (by decide +kernel)
  have noLong : ∀ value ∈ lookalikeValues, ¬ value.HasLongInteger := by
    intro value member
    rw [← Value.not_isWritable_iff, Bool.not_eq_false]
    exact short value member
  obtain ⟨texts, made, exact⟩ := (ofLiterals_exact lookalikeValues).1 noLong
  have computed : (lookalikeValues.map Json.render).eraseDups =
      ["1", "true", "\"1\"", "null", "\"null\"", "\"true\""] := by decide +kernel
  obtain rfl := TypeExpr.literals.inj (ofLiterals_eq_ok_iff.mp made).2
  rw [computed] at made exact
  refine ⟨made, ?_, ?_, ?_, ?_⟩
  · rw [made]
    refine exact.stable _ fun value member => ?_
    simp only [List.mem_cons, List.not_mem_nil, or_false] at member
    rcases member with rfl | rfl
    · exact ⟨"null", by simp, by decide +kernel⟩
    · exact ⟨"\"1\"", by simp, by decide +kernel⟩
  · intro same
    have written : Json.write (.int 1) = .ok "1" := by decide +kernel
    have equal := (exact.apart (.int 1) (.bool true) "1" trivial trivial written).mp same
    simp at equal
  · exact exact.reads (.text "null") _ trivial (by decide +kernel) 0
  · have long : Value.HasLongInteger (.list [.int (-10 ^ Integer.digitLimit)]) :=
      ⟨-10 ^ Integer.digitLimit, by simp [Value.integers, Value.listIntegers], by simp⟩
    exact (ofLiterals_exact _).2 ⟨_, by simp, long⟩

/-- Two values without a text in JSON. An integer with one digit more than is written has no
literal, and the literal of an infinite number begins as no text in JSON does. -/
theorem ofLiterals_unwritableValues :
    ofLiterals [.int (10 ^ Integer.digitLimit)] = .error (.defect .integerTooLong) ∧
      ofLiterals [.float (.infinity false)] = .ok (.literals ["Infinity"]) ∧
      ∀ c ∈ "Infinity".toList.head?,
        c.isDigit = false ∧ c ∉ ['-', '"', '[', '\x7b', 'n', 't', 'f'] := by
  refine ⟨?_, ofLiterals_eq_ok_iff.mpr ⟨by decide +kernel, ?_⟩, ?_⟩
  · have long : Value.HasLongInteger (.int (10 ^ Integer.digitLimit)) :=
      ⟨10 ^ Integer.digitLimit, by simp [Value.integers], by simp⟩
    exact ofLiterals_eq_error_iff.mpr ⟨rfl, _, List.mem_singleton_self _, long⟩
  · exact congrArg TypeExpr.literals (by decide +kernel)
  · intro c first
    obtain rfl : 'I' = c := by simpa using first
    decide

end ApiBinding.TypeExpr
