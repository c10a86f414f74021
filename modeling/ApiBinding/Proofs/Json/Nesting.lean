import ApiBinding.Proofs.Json.Notation

/-! Nesting. Only a text with more opening brackets than there is room for is refused for its
nesting, and brackets that open one after the other are refused if there are too many of them. -/

namespace ApiBinding.Json

/-- The number of brackets that open a collection. A text in quotes may have some of them, too. -/
def openings (text : List Char) : Nat :=
  text.countP fun c => c == '[' || c == '\x7b'

variable {text rest : List Char} {room fuel : Nat}

/-! ## What is not refused for its nesting -/

theorem openings_le_append (front : List Char) : openings rest ≤ openings (front ++ rest) := by
  rw [openings, openings, List.countP_append]
  omega

theorem openings_skipGap_le (text : List Char) : openings (skipGap text) ≤ openings text := by
  obtain ⟨gap, front, -⟩ := exists_gap text
  have le : openings (skipGap text) ≤ openings (gap ++ skipGap text) := openings_le_append gap
  rwa [← front] at le

theorem readUnits_not_deep (text : List Char) : readUnits text ≠ .error .nestedTooDeep := by
  fun_induction readUnits text <;> simp_all [bind_eq_error_iff]

theorem readText_not_deep (text : List Char) : readText text ≠ .error .nestedTooDeep := by
  simp [readText, bind_eq_error_iff, readUnits_not_deep]

theorem readMagnitude_not_deep (negative : Bool) (text : List Char) :
    readMagnitude negative text ≠ .error .nestedTooDeep := by
  unfold readMagnitude
  dsimp only
  split
  · simp
  · split
    · simp
    · split
      · split <;> simp
      · simp

theorem readWord_not_deep (text : List Char) : readWord text ≠ .error .nestedTooDeep := by
  unfold readWord
  dsimp only
  split
  · simp
  · split <;> exact readMagnitude_not_deep _ _

theorem readKey_not_deep (text : List Char) : readKey text ≠ .error .nestedTooDeep := by
  unfold readKey
  split
  · rw [Ne, bind_eq_error_iff, not_or]
    refine ⟨readText_not_deep _, ?_⟩
    rintro ⟨⟨name, after⟩, -, failed⟩
    dsimp only at failed
    split at failed <;> simp at failed
  · simp

/-! ## What is refused for its nesting -/

/-- Each reader refuses only a text for its nesting in which more collections are opened than there
is room for. -/
structure RefusesDeep (fuel : Nat) : Prop where
  value : ∀ {room text}, readValue fuel room text = .error .nestedTooDeep → room < openings text
  items : ∀ {room text}, readItems fuel room text = .error .nestedTooDeep → room < openings text
  entries : ∀ {room text}, readEntries fuel room text = .error .nestedTooDeep → room < openings text

/-- A bracket uses up one level of the room. -/
theorem room_lt_of_enter {mark : Char} (opens : mark = '[' ∨ mark = '\x7b') {α : Type}
    {next : Nat → Reading α}
    (inner : ∀ inside, next inside = .error .nestedTooDeep → inside < openings text)
    (failed : enter room >>= next = .error .nestedTooDeep) : room < openings (mark :: text) := by
  have counted : openings (mark :: text) = openings text + 1 := by
    rw [openings, List.countP_cons_of_pos (by rcases opens with rfl | rfl <;> rfl), ← openings]
  rcases bind_eq_error_iff.mp failed with full | ⟨inside, entered, failed⟩
  · cases room with
    | zero => omega
    | succ room => simp [enter] at full
  · have := inner inside failed
    have := enter_eq_ok_iff.mp entered
    omega

theorem RefusesDeep.readValue (h : RefusesDeep fuel)
    (failed : readValue (fuel + 1) room text = .error .nestedTooDeep) : room < openings text := by
  rw [Json.readValue.eq_def] at failed
  dsimp only at failed
  split at failed
  · rcases bind_eq_error_iff.mp failed with failed | ⟨_, -, failed⟩
    · exact absurd failed (readText_not_deep _)
    · simp at failed
  · refine room_lt_of_enter (.inl rfl) (fun inside failed => ?_) failed
    split at failed
    · simp at failed
    · rcases bind_eq_error_iff.mp failed with failed | ⟨_, -, failed⟩
      · exact Nat.lt_of_lt_of_le (h.items failed) (openings_skipGap_le _)
      · simp at failed
  · refine room_lt_of_enter (.inr rfl) (fun inside failed => ?_) failed
    split at failed
    · simp at failed
    · rcases bind_eq_error_iff.mp failed with failed | ⟨_, -, failed⟩
      · exact Nat.lt_of_lt_of_le (h.entries failed) (openings_skipGap_le _)
      · simp at failed
  · rcases bind_eq_error_iff.mp failed with failed | ⟨_, -, failed⟩
    · exact absurd failed (readWord_not_deep _)
    · simp at failed

/-- What is left of a text opens no more collections than the text does. -/
theorem room_lt_of_left {left : List Char} (own : List Char)
    (inner : room < openings (skipGap left)) : room < openings (own ++ left) :=
  Nat.lt_of_lt_of_le inner
    (Nat.le_trans (openings_skipGap_le left) (openings_le_append own))

theorem RefusesDeep.readItems (h : RefusesDeep fuel)
    (failed : readItems (fuel + 1) room text = .error .nestedTooDeep) : room < openings text := by
  rw [Json.readItems.eq_def] at failed
  rcases bind_eq_error_iff.mp failed with failed | ⟨⟨value, after⟩, first, later⟩
  · exact h.value failed
  · obtain ⟨own, rfl, -⟩ := (readsDenoted fuel).value first
    refine room_lt_of_left own ?_
    dsimp only at later
    split at later
    · rename_i behind comma
      rw [comma]
      rcases bind_eq_error_iff.mp later with failed | ⟨_, -, failed⟩
      · exact room_lt_of_left [','] (h.items failed)
      · simp at failed
    · simp at later
    · simp at later

theorem RefusesDeep.readEntries (h : RefusesDeep fuel)
    (failed : readEntries (fuel + 1) room text = .error .nestedTooDeep) : room < openings text := by
  rw [Json.readEntries.eq_def] at failed
  rcases bind_eq_error_iff.mp failed with failed | ⟨⟨name, behind⟩, keyed, valued⟩
  · exact absurd failed (readKey_not_deep _)
  · obtain ⟨key, rfl, -⟩ := exists_keyText keyed
    refine Nat.lt_of_lt_of_le ?_ (openings_le_append key)
    rcases bind_eq_error_iff.mp valued with failed | ⟨⟨value, after⟩, first, later⟩
    · exact h.value failed
    · obtain ⟨own, same, -⟩ := (readsDenoted fuel).value first
      obtain rfl : behind = own ++ after := same
      refine room_lt_of_left own ?_
      dsimp only at later
      split at later
      · rename_i behind comma
        rw [comma]
        rcases bind_eq_error_iff.mp later with failed | ⟨_, -, failed⟩
        · exact room_lt_of_left [','] (h.entries failed)
        · simp at failed
      · simp at later
      · simp at later

theorem refusesDeep (fuel : Nat) : RefusesDeep fuel := by
  induction fuel with
  | zero => exact ⟨by simp [readValue], by simp [readItems], by simp [readEntries]⟩
  | succ fuel ih => exact ⟨ih.readValue, ih.readItems, ih.readEntries⟩

/-- A text is refused for its nesting only if more collections are opened in it than there is room
for. -/
theorem room_lt_openings {text : String} (failed : read room text = .error .nestedTooDeep) :
    room < openings text.toList := by
  unfold read at failed
  rcases bind_eq_error_iff.mp failed with failed | ⟨⟨value, after⟩, -, failed⟩
  · exact Nat.lt_of_lt_of_le ((refusesDeep _).value failed) (openings_skipGap_le _)
  · dsimp only at failed
    split at failed <;> simp at failed

/-! ## More room -/

/-- What a reader does with less room it does with more, unless the nesting stopped it. -/
structure StableRoom (fuel : Nat) : Prop where
  value : ∀ {room text}, readValue fuel room text ≠ .error .nestedTooDeep →
    readValue fuel (room + 1) text = readValue fuel room text
  items : ∀ {room text}, readItems fuel room text ≠ .error .nestedTooDeep →
    readItems fuel (room + 1) text = readItems fuel room text
  entries : ∀ {room text}, readEntries fuel room text ≠ .error .nestedTooDeep →
    readEntries fuel (room + 1) text = readEntries fuel room text

/-- A sequence that is not stopped by the nesting is stable if its parts are. -/
theorem bind_stable {α β : Type} {reading reading' : Reading α} {next next' : α → Reading β}
    (first : reading ≠ .error .nestedTooDeep → reading' = reading)
    (second : ∀ value, next value ≠ .error .nestedTooDeep → next' value = next value)
    (reached : reading >>= next ≠ .error .nestedTooDeep) :
    reading' >>= next' = reading >>= next := by
  cases reading with
  | error error =>
      rw [first (by simpa [bind, Except.bind] using reached)]
      rfl
  | ok value =>
      rw [first (by simp)]
      exact second value reached

theorem enter_stable {α : Type} {next : Nat → Reading α}
    (inner : ∀ inside, next inside ≠ .error .nestedTooDeep → next (inside + 1) = next inside)
    (reached : enter room >>= next ≠ .error .nestedTooDeep) :
    enter (room + 1) >>= next = enter room >>= next := by
  cases room with
  | zero => exact absurd rfl reached
  | succ room => exact inner room reached

theorem StableRoom.readValue (h : StableRoom fuel)
    (reached : readValue (fuel + 1) room text ≠ .error .nestedTooDeep) :
    readValue (fuel + 1) (room + 1) text = readValue (fuel + 1) room text := by
  rw [Json.readValue.eq_def (fuel + 1) room] at reached ⊢
  rw [Json.readValue.eq_def]
  dsimp only at reached ⊢
  revert reached
  split
  · exact fun _ => rfl
  · refine enter_stable fun inside => ?_
    split
    · exact fun _ => rfl
    · exact bind_stable h.items fun _ _ => rfl
  · refine enter_stable fun inside => ?_
    split
    · exact fun _ => rfl
    · exact bind_stable h.entries fun _ _ => rfl
  · exact fun _ => rfl

theorem StableRoom.readItems (h : StableRoom fuel)
    (reached : readItems (fuel + 1) room text ≠ .error .nestedTooDeep) :
    readItems (fuel + 1) (room + 1) text = readItems (fuel + 1) room text := by
  rw [Json.readItems.eq_def (fuel + 1) room] at reached ⊢
  rw [Json.readItems.eq_def]
  refine bind_stable h.value (fun result reached => ?_) reached
  dsimp only at reached ⊢
  revert reached
  split
  · exact bind_stable h.items fun _ _ => rfl
  · exact fun _ => rfl
  · exact fun _ => rfl

theorem StableRoom.readEntries (h : StableRoom fuel)
    (reached : readEntries (fuel + 1) room text ≠ .error .nestedTooDeep) :
    readEntries (fuel + 1) (room + 1) text = readEntries (fuel + 1) room text := by
  rw [Json.readEntries.eq_def (fuel + 1) room] at reached ⊢
  rw [Json.readEntries.eq_def]
  refine bind_stable (fun _ => rfl) (fun keyed reached => ?_) reached
  refine bind_stable h.value (fun result reached => ?_) reached
  dsimp only at reached ⊢
  revert reached
  split
  · exact bind_stable h.entries fun _ _ => rfl
  · exact fun _ => rfl
  · exact fun _ => rfl

theorem stableRoom (fuel : Nat) : StableRoom fuel := by
  induction fuel with
  | zero => exact ⟨fun _ => rfl, fun _ => rfl, fun _ => rfl⟩
  | succ fuel ih => exact ⟨ih.readValue, ih.readItems, ih.readEntries⟩

/-- A text that is not refused for its nesting comes to the same with any more room. -/
theorem read_stable {room' : Nat} (le : room ≤ room') {text : String}
    (reached : read room text ≠ .error .nestedTooDeep) : read room' text = read room text := by
  induction room', le using Nat.le_induction with
  | base => rfl
  | succ room' le ih =>
      rw [← ih]
      unfold read
      refine bind_stable (stableRoom _).value (fun _ _ => rfl) ?_
      rw [← ih] at reached
      exact reached

/-- A text that is refused for anything else stands for nothing, however much room there is. -/
theorem not_standsFor {text : String} {error : ReadError} (failed : read room text = .error error)
    (shallow : error ≠ .nestedTooDeep) (room' : Nat) (value? : Option Value) :
    ¬ StandsFor room' text value? := by
  intro denotes
  have found := read_eq_ok_iff.mpr denotes
  rcases Nat.le_total room room' with le | le
  · rw [read_stable le (by simpa [failed] using shallow), failed] at found
    simp at found
  · rw [read_stable le (by simp [found]), found] at failed
    simp at failed

/-! ## Brackets in a row -/

theorem skipGap_brackets (depth : Nat) (rest : List Char) :
    skipGap (List.replicate (depth + 1) '[' ++ rest) = List.replicate (depth + 1) '[' ++ rest :=
  @skipGap_append _ [] (by simp [IsGap]) (by simp [isGap])

/-- More brackets one after the other than there is room for are refused, whatever follows. -/
theorem readValue_brackets {depth : Nat} (deep : room < depth) (enough : 2 * depth ≤ fuel)
    (rest : List Char) :
    readValue fuel room (List.replicate depth '[' ++ rest) = .error .nestedTooDeep := by
  obtain ⟨depth, rfl⟩ := Nat.exists_eq_add_one.mpr (Nat.zero_lt_of_lt deep)
  induction room generalizing depth fuel with
  | zero =>
      obtain ⟨fuel, rfl⟩ := Nat.exists_eq_add_one.mpr (show 0 < fuel by omega)
      simp [List.replicate_succ, readValue, enter, bind, Except.bind]
  | succ room ih =>
      obtain ⟨fuel, rfl⟩ := Nat.exists_eq_add_of_le' (show 2 ≤ fuel by omega)
      obtain ⟨depth, rfl⟩ := Nat.exists_eq_add_one.mpr (show 0 < depth by omega)
      have items : readItems (fuel + 1) room (List.replicate (depth + 1) '[' ++ rest) =
          .error .nestedTooDeep := by
        rw [readItems, @ih fuel depth (by omega) (by omega)]
        rfl
      have front := skipGap_brackets depth rest
      rw [List.replicate_succ, List.cons_append] at items front ⊢
      rw [List.replicate_succ (n := depth), List.cons_append, readValue]
      simp only [enter, bind, Except.bind, front]
      split
      · rename_i same
        simp at same
      · rw [items]

theorem read_brackets {depth : Nat} (deep : room < depth) (rest : List Char) :
    read room (String.ofList (List.replicate depth '[' ++ rest)) = .error .nestedTooDeep := by
  obtain ⟨depth, rfl⟩ := Nat.exists_eq_add_one.mpr (Nat.zero_lt_of_lt deep)
  unfold read
  dsimp only
  rw [String.toList_ofList, skipGap_brackets, readValue_brackets deep]
  · rfl
  · simp only [List.length_append, List.length_replicate]
    omega

end ApiBinding.Json
