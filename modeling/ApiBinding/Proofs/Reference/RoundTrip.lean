import ApiBinding.Proofs.Operation.Extension
import ApiBinding.Proofs.Outcome
import ApiBinding.Proofs.Value.Moved
import ApiBinding.Validation.Writer

/-! Pointers written from keys lead back along those keys, and references into the definition table
lead to the same schemas as pointers into the document. -/

namespace ApiBinding

namespace Pointer

/-! ## Escapes -/

/-- Puts a character in the place of each pair of two others, from the left. -/
def substitute (first second replacement : Char) : List Char → List Char
  | c :: next :: rest =>
    if c = first ∧ next = second then replacement :: substitute first second replacement rest
    else c :: substitute first second replacement (next :: rest)
  | short => short

variable {first second replacement : Char}

theorem substitute_pair (rest : List Char) :
    substitute first second replacement (first :: second :: rest) =
      replacement :: substitute first second replacement rest := by
  rw [substitute, if_pos ⟨rfl, rfl⟩]

theorem substitute_cons {c : Char} {rest : List Char}
    (apart : ∀ later, c = first → rest ≠ second :: later) :
    substitute first second replacement (c :: rest) =
      c :: substitute first second replacement rest := by
  cases rest with
  | nil => rfl
  | cons next rest =>
      rw [substitute, if_neg]
      rintro ⟨rfl, rfl⟩
      exact apart rest rfl rfl

/-- What is put in stands at the start only if a pair or the character itself stood there. -/
theorem head?_substitute {text : List Char} {c : Char} (other : c ≠ replacement)
    (head : (substitute first second replacement text).head? = some c) : text.head? = some c := by
  unfold substitute at head
  split at head
  · split at head
    · exact absurd (Option.some.inj head).symm other
    · exact head
  · exact head

/-- Unescaping in one pass is replacing the escapes of the slash everywhere, then those of the
tilde. The first pass leaves no new escape of a tilde behind, since it writes slashes only. -/
theorem unescape_eq_substitute (text : List Char) :
    unescape text = substitute '~' '0' '~' (substitute '~' '1' '/' text) := by
  induction text using unescape.induct with
  | case1 rest ih =>
      rw [unescape, substitute_pair, substitute_cons (by simp), ih]
  | case2 rest ih =>
      have kept : substitute '~' '1' '/' ('~' :: '0' :: rest) =
          '~' :: '0' :: substitute '~' '1' '/' rest := by
        rw [substitute_cons (by simp), substitute_cons (by simp)]
      rw [unescape, kept, substitute_pair, ih]
  | case3 c rest noSlash noTilde ih =>
      have none : ∀ later, c = '~' → substitute '~' '1' '/' rest ≠ '0' :: later := by
        intro later tilde starts
        have head := head?_substitute (by decide) (congrArg List.head? starts)
        obtain ⟨later, rfl⟩ := List.head?_eq_some_iff.mp head
        exact noTilde later tilde rfl
      rw [unescape.eq_3 _ _ noSlash noTilde, substitute_cons noSlash, substitute_cons none, ih]
  | case4 => rfl

/-! ## Pointers from keys -/

/-- A path of keys that leads through nested mappings to a value. -/
inductive KeyPath : Value → List String → Value → Prop where
  | here (value) : KeyPath value [] value
  | under {entries : Mapping} {name inner path value} : entries.find? name = some inner →
      KeyPath inner path value → KeyPath (.object entries) (name :: path) value

theorem KeyPath.walked {document value : Value} {path : List String}
    (leads : KeyPath document path value) : path.foldlM enter document = .ok value := by
  induction leads with
  | here value => rfl
  | under found _ ih => simpa [enter, found, bind, Except.bind] using ih

theorem no_slash {text : List Char} (h : '/' ∉ text) : ∀ c ∈ text, (c == '/') = false := by
  intro c member
  rw [beq_eq_false_iff_ne]
  rintro rfl
  exact h member

/-- A slash ends the first segment. -/
theorem segments_append_cons {text : List Char} (h : '/' ∉ text) (rest : List Char) :
    segments (text ++ '/' :: rest) = String.ofList (unescape text) :: segments rest := by
  rw [segments, Text.pieces_append_cons (no_slash h) rfl]
  rfl

theorem segments_eq_singleton {text : List Char} (h : '/' ∉ text) :
    segments text = [String.ofList (unescape text)] := by
  rw [segments, Text.pieces_eq_self (no_slash h)]
  rfl

/-- The segments of joined keys are the keys. The induction is on the keys after the first one. -/
theorem segments_escape (name : String) (path : List String) :
    segments (escape name.toList ++ path.flatMap fun key => '/' :: escape key.toList) =
      name :: path := by
  induction path generalizing name with
  | nil => simp [segments_eq_singleton (slash_not_mem_escape _)]
  | cons next path ih =>
      rw [List.flatMap_cons, List.cons_append, segments_append_cons (slash_not_mem_escape _), ih]
      simp

theorem pathOf?_ofPath {path : List String} (nonempty : path ≠ []) :
    pathOf? (ofPath path) = some path := by
  obtain ⟨name, path, rfl⟩ := List.exists_cons_of_ne_nil nonempty
  have start : Text.dropStart? ['#', '/'] (ofPath (name :: path)).toList =
      some (escape name.toList ++ path.flatMap fun key => '/' :: escape key.toList) := by
    rw [Text.dropStart?_eq_some_iff]
    simp [ofPath]
  rw [pathOf?, start, Option.map_some, segments_escape]

theorem lookup_ofPath {document value : Value} {path : List String}
    (leads : KeyPath document path value) (nonempty : path ≠ []) (present : value ≠ .null) :
    lookup document (.text (ofPath path)) = .ok value :=
  lookup_text_eq_ok_iff.mpr
    ⟨path, pathOf?_ofPath nonempty, walk_eq_ok_iff.mpr ⟨leads.walked, present⟩⟩

end Pointer

/-! ## Definitions -/

namespace Table

theorem resolve_root_append {root : String} {definitions : Mapping} {text : List Char}
    {schema : Mapping} : resolve ⟨root, definitions⟩ (root ++ String.ofList text) = .ok schema ↔
      definitions.find? (String.ofList (Pointer.unescape text)) = some (.object schema) := by
  have key : keyOf ⟨root, definitions⟩ (root ++ String.ofList text) =
      .ok (String.ofList (Pointer.unescape text)) := by
    rw [keyOf, Pointer.dropStart?_root_append]
  rw [resolve, key]
  simp only [bind, Except.bind]
  split <;> simp_all

end Table

namespace Pointer

/-- Nothing stands inside a value that counts as absent. -/
theorem enter_of_not_isTruthy {current : Value} (absent : ¬ current.isTruthy = true)
    (segment : String) (value : Value) : enter current segment ≠ .ok value := by
  cases current with
  | object entries =>
      obtain rfl : entries = [] := by simpa [Value.isTruthy] using absent
      simp [enter]
  | list items =>
      obtain rfl : items = [] := by simpa [Value.isTruthy] using absent
      cases read : Integer.read? segment.toList <;> simp [enter, read, itemAt?]
  | _ => simp [enter]

/-- A table has the entries that a walk finds in its place. -/
theorem enter_enter_iff {parent entries : Mapping} {key : String} {name : TableName}
    (table : Dialect.tableIn parent key name = .ok entries) (segment : String) (value : Value) :
    (enter (.object parent) key >>= (enter · segment)) = .ok value ↔
      entries.find? segment = some value := by
  unfold Dialect.tableIn at table
  split at table
  · rename_i own declared
    obtain rfl := Except.ok.inj table
    have found := Mapping.find?_of_field declared (by simp)
    rw [enter_object_eq_ok_iff.mpr found]
    exact enter_object_eq_ok_iff
  · split at table
    · simp at table
    · rename_i absent
      obtain rfl := Except.ok.inj table
      simp only [Mapping.find?_nil, reduceCtorEq, iff_false]
      intro walked
      obtain ⟨current, entered, inner⟩ := bind_eq_ok_iff.mp walked
      have stored := enter_object_eq_ok_iff.mp entered
      exact enter_of_not_isTruthy (by simpa [Mapping.field, stored] using absent) _ _ inner

end Pointer

namespace Dialect

open Pointer

variable {dialect : Dialect} {document definitions : Mapping}

/-- The definitions are what a walk finds in the place of the table. -/
theorem walk_tablePath (table : dialect.definitions document = .ok definitions) (key : String)
    (value : Value) :
    (dialect.tablePath ++ [key]).foldlM enter (.object document) = .ok value ↔
      definitions.find? key = some value := by
  cases dialect with
  | swagger2 => simpa [tablePath] using enter_enter_iff table key value
  | openApi3 =>
      obtain ⟨components, outer, inner⟩ := bind_eq_ok_iff.mp table
      have atSchemas := enter_enter_iff outer "schemas"
      have below := enter_enter_iff inner key value
      have steps : (tablePath .openApi3 ++ [key]).foldlM enter (.object document) =
          (enter (.object document) "components" >>= (enter · "schemas")) >>= (enter · key) := by
        simp [tablePath]
      rw [← below, steps, bind_eq_ok_iff, bind_eq_ok_iff]
      simp only [atSchemas, enter_object_eq_ok_iff]

theorem pathOf?_root_append (dialect : Dialect) {text : List Char} (h : '/' ∉ text) :
    pathOf? (dialect.root ++ String.ofList text) =
      some (dialect.tablePath ++ [String.ofList (unescape text)]) := by
  cases dialect with
  | swagger2 =>
      have start : Text.dropStart? ['#', '/'] (swagger2.root ++ String.ofList text).toList =
          some ("definitions".toList ++ '/' :: text) := by
        rw [Text.dropStart?_eq_some_iff]
        simp [root]
      rw [pathOf?, start, Option.map_some, segments_append_cons (by decide),
        segments_eq_singleton h]
      rfl
  | openApi3 =>
      have start : Text.dropStart? ['#', '/'] (openApi3.root ++ String.ofList text).toList =
          some ("components".toList ++ '/' :: ("schemas".toList ++ '/' :: text)) := by
        rw [Text.dropStart?_eq_some_iff]
        simp [root]
      rw [pathOf?, start, Option.map_some, segments_append_cons (by decide),
        segments_append_cons (by decide), segments_eq_singleton h]
      rfl

/-- A reference to a definition, and the same text as a pointer, lead to one schema. -/
theorem resolve_iff_lookup (table : dialect.definitions document = .ok definitions)
    {text : List Char} (h : '/' ∉ text) (schema : Mapping) :
    Table.resolve ⟨dialect.root, definitions⟩ (dialect.root ++ String.ofList text) = .ok schema ↔
      lookup (.object document) (.text (dialect.root ++ String.ofList text)) =
        .ok (.object schema) := by
  have found := walk_tablePath table (String.ofList (unescape text)) (.object schema)
  rw [Table.resolve_root_append, lookup_text_eq_ok_iff, pathOf?_root_append dialect h, ← found]
  simp [walk_eq_ok_iff]

end Dialect

namespace Pointer

/-- Pointers written from keys lead back along them: a path of keys through nested mappings to a
value that is not null, written with its keys escaped, is looked up to that value. Of the table of
a document in either dialect, every schema is found under its escaped key; and a reference to a
definition and the same text as a pointer lead to the same schema, if one of them leads to any. -/
theorem references_round_trip :
    (∀ (document : Value) (path : List String) (value : Value), KeyPath document path value →
      path ≠ [] → value ≠ .null → lookup document (.text (ofPath path)) = .ok value) ∧
    ∀ (dialect : Dialect) (document definitions : Mapping),
      dialect.definitions document = .ok definitions →
      (∀ key schema, definitions.find? key = some (.object schema) →
        Table.resolve ⟨dialect.root, definitions⟩
          (dialect.root ++ String.ofList (escape key.toList)) = .ok schema) ∧
      ∀ (text : String) (schema : Mapping), '/' ∉ text.toList →
        (Table.resolve ⟨dialect.root, definitions⟩ (dialect.root ++ text) = .ok schema ↔
          lookup (.object document) (.text (dialect.root ++ text)) = .ok (.object schema)) := by
  refine ⟨fun document path value leads nonempty present => lookup_ofPath leads nonempty present,
    fun dialect document definitions table => ⟨fun key schema found => ?_,
      fun text schema plain => ?_⟩⟩
  · rw [Table.resolve_root_append, unescape_escape, String.ofList_toList, found]
  · simpa using Dialect.resolve_iff_lookup table plain schema

/-- Keys with both special characters, an escape as it stands and no character at all. -/
def tildeDocument : Mapping := [(.text "definitions", .ofFields [
  ("~01/x", .ofFields [("", .text "slot")]), ("~1", .bool true)])]

theorem references_round_trip_tildeDocument :
    ofPath ["definitions", "~01/x", ""] = "#/definitions/~001~1x/" ∧
    lookup (.object tildeDocument) (.text "#/definitions/~001~1x/") = .ok (.text "slot") ∧
    Table.resolve ⟨"#/definitions/", [(.text "~01/x", .ofFields [("", .text "slot")]),
      (.text "~1", .bool true)]⟩ "#/definitions/~001~1x" = .ok [(.text "", .text "slot")] ∧
    lookup (.object tildeDocument) (.text "#/definitions/~001~1x") =
      .ok (.object [(.text "", .text "slot")]) := by
  obtain ⟨byPath, byTable⟩ := references_round_trip
  obtain ⟨byKey, agree⟩ := byTable .swagger2 tildeDocument _ rfl
  have leads : KeyPath (.object tildeDocument) ["definitions", "~01/x", ""] (.text "slot") :=
    .under rfl (.under rfl (.under rfl (.here _)))
  have resolved := byKey "~01/x" [(.text "", .text "slot")] rfl
  exact ⟨rfl, byPath _ _ _ leads (by simp) (by simp), resolved,
    (agree "~001~1x" _ (by decide)).mp resolved⟩

end Pointer

end ApiBinding
