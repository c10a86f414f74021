import ApiBinding.Proofs.TypeExpr.RoundTrip
import Mathlib.Data.List.Forall2

/-! The text of an object type that is written in place, as a reader of its lines takes it: each
key is a string in single quotes with escapes, and each comment reaches to the end of its line. -/

namespace ApiBinding.ObjectText

open TypeText (isLineEnd isWordChar)

/-! ## The reader -/

/-- What a line says: a key, whether it must be present, a type of one word and the words of the
comment. -/
structure Line where
  name : String
  required : Bool
  type : String
  words : List String
deriving DecidableEq

/-- Where the reader stands, with what it has read of the line. -/
inductive Place where
  | outside
  | between
  | name (text : List Char) (escaped : Bool)
  | mark (key : String) (required : Bool)
  | type (key : String) (required : Bool) (text : List Char)
  | behind (line : Line)
  | slash (line : Line)
  | comment (line : Line) (text : List Char)
  | closed
deriving DecidableEq

/-- The words of a comment, cut at plain spaces only. -/
def commentWords (text : List Char) : List String :=
  ((Text.pieces (· == ' ') text).filter (!·.isEmpty)).map String.ofList

/-- A character, the line that it ends, and where the reader stands after it. -/
def Place.next (c : Char) : Place → Option (List Line × Place)
  | .outside => if c == '\x7b' then some ([], .between) else none
  | .between =>
    if c == '\'' then some ([], .name [] false)
    else if c == '\x7d' then some ([], .closed)
    else if Text.isBlank c then some ([], .between)
    else none
  | .name text true => some ([], .name (text ++ [c]) false)
  | .name text false =>
    if c == '\'' then some ([], .mark (String.ofList text) true)
    else if c == '\\' then some ([], .name text true)
    else some ([], .name (text ++ [c]) false)
  | .mark key required =>
    if c == ':' then some ([], .type key required [])
    else if c == '?' && required then some ([], .mark key false)
    else none
  | .type key required text =>
    if isWordChar c then some ([], .type key required (text ++ [c]))
    else if Text.isBlank c && text.isEmpty then some ([], .type key required [])
    else if c == ';' && !text.isEmpty then
      some ([], .behind ⟨key, required, String.ofList text, []⟩)
    else none
  | .behind line =>
    if isLineEnd c then some ([line], .between)
    else if Text.isBlank c then some ([], .behind line)
    else if c == '/' then some ([], .slash line)
    else none
  | .slash line => if c == '/' then some ([], .comment line []) else none
  | .comment line text =>
    if isLineEnd c then some ([{ line with words := commentWords text }], .between)
    else some ([], .comment line (text ++ [c]))
  | .closed => none

/-- The lines that end in a text, and where the reader stands behind it. -/
def walk (place : Place) : List Char → Option (List Line × Place)
  | [] => some ([], place)
  | c :: rest => do
    let (found, after) ← place.next c
    let (others, last) ← walk after rest
    some (found ++ others, last)

/-- The lines of an object text. -/
def read (text : String) : Option (List Line) :=
  match walk .outside text.toList with
  | some (lines, .closed) => some lines
  | _ => none

/-! ## Passing over a text -/

/-- The reader goes from one place over a text to another and finds these lines on its way. -/
def Passes (place : Place) (text : List Char) (lines : List Line) (after : Place) : Prop :=
  walk place text = some (lines, after)

section passing

variable {place middle after : Place} {text rest : List Char} {lines others : List Line}

theorem Passes.nil (place : Place) : Passes place [] [] place := rfl

theorem Passes.cons {c : Char} (next : place.next c = some (lines, middle))
    (h : Passes middle rest others after) : Passes place (c :: rest) (lines ++ others) after := by
  unfold Passes at h ⊢
  simp [walk, next, h]

/-- A character that ends no line. -/
theorem Passes.step {c : Char} (next : place.next c = some ([], middle))
    (h : Passes middle rest lines after) : Passes place (c :: rest) lines after :=
  .cons next h

theorem Passes.line {c : Char} {line : Line} (next : place.next c = some ([line], middle))
    (h : Passes middle rest lines after) : Passes place (c :: rest) (line :: lines) after :=
  .cons next h

theorem Passes.append (first : Passes place text lines middle)
    (second : Passes middle rest others after) :
    Passes place (text ++ rest) (lines ++ others) after := by
  induction text generalizing place lines with
  | nil =>
      obtain ⟨rfl, rfl⟩ : [] = lines ∧ place = middle := by simpa [Passes, walk] using first
      exact second
  | cons c text ih =>
      unfold Passes at first
      simp only [walk, Option.bind_eq_bind] at first
      cases next : place.next c with
      | none => simp [next] at first
      | some step =>
          cases walks : walk step.2 text with
          | none => simp [next, walks] at first
          | some walked =>
              obtain ⟨rfl, rfl⟩ : step.1 ++ walked.1 = lines ∧ walked.2 = middle := by
                simpa [next, walks] using first
              rw [List.append_assoc]
              exact .cons next (ih walks)

/-- A place that collects each character of a text has collected the text behind it. -/
theorem passes_collecting {collecting : List Char → Place} {text : List Char}
    (h : ∀ c ∈ text, ∀ before, (collecting before).next c = some ([], collecting (before ++ [c])))
    (before : List Char) :
    Passes (collecting before) text [] (collecting (before ++ text)) := by
  induction text generalizing before with
  | nil => simpa using Passes.nil (collecting before)
  | cons c text ih =>
      have others := ih (fun other member => h other (List.mem_cons_of_mem _ member))
        (before ++ [c])
      rw [List.append_assoc, List.singleton_append] at others
      exact .step (h c List.mem_cons_self before) others

end passing

/-! ## Keys -/

/-- A character of a key is read as itself. -/
theorem passes_escapeNameChar (c : Char) (before : List Char) :
    Passes (.name before false) (TypeExpr.escapeNameChar c) [] (.name (before ++ [c]) false) := by
  unfold TypeExpr.escapeNameChar
  split
  · exact .step rfl (.step rfl (.nil _))
  · rename_i plain
    simp only [Bool.or_eq_true, beq_iff_eq, not_or] at plain
    exact .step (by simp [Place.next, plain]) (.nil _)

theorem passes_nameChars (content before : List Char) :
    Passes (.name before false) (content.flatMap TypeExpr.escapeNameChar) []
      (.name (before ++ content) false) := by
  induction content generalizing before with
  | nil => simpa using Passes.nil (.name before false)
  | cons c content ih =>
      rw [List.flatMap_cons]
      simpa using (passes_escapeNameChar c before).append (ih (before ++ [c]))

/-- The reader is behind a key when it has read its last quote. -/
theorem passes_quoteName (name : String) :
    Passes .between (TypeExpr.quoteName name).toList [] (.mark name true) := by
  have content := passes_nameChars name.toList []
  have closes : Passes (.name name.toList false) ['\''] [] (.mark name true) :=
    .step (by simp [Place.next]) (.nil _)
  rw [TypeExpr.quoteName, String.toList_ofList]
  exact .step rfl (content.append closes)

/-- A part of a character of a key is inside the key. -/
theorem inside_escapeNameChar {c : Char} {part : List Char}
    (h : part <+: TypeExpr.escapeNameChar c) (before : List Char) :
    ∃ text escaped, Passes (.name before false) part [] (.name text escaped) := by
  have whole := passes_escapeNameChar c before
  unfold TypeExpr.escapeNameChar at h whole
  split at h
  · rename_i marked
    rw [if_pos marked] at whole
    obtain rfl | ⟨rest, rfl, h⟩ := List.prefix_cons_iff.mp h
    · exact ⟨before, false, .nil _⟩
    obtain rfl | rfl : rest = [] ∨ rest = [c] := by
      simpa [List.prefix_cons_iff] using h
    · exact ⟨before, true, .step rfl (.nil _)⟩
    · exact ⟨_, _, whole⟩
  · rename_i plain
    rw [if_neg plain] at whole
    obtain rfl | rfl : part = [] ∨ part = [c] := by
      simpa [List.prefix_cons_iff] using h
    · exact ⟨before, false, .nil _⟩
    · exact ⟨_, _, whole⟩

theorem inside_nameChars {content part : List Char}
    (h : part <+: content.flatMap TypeExpr.escapeNameChar) (before : List Char) :
    ∃ text escaped, Passes (.name before false) part [] (.name text escaped) := by
  induction content generalizing part before with
  | nil =>
      obtain rfl : part = [] := by simpa using h
      exact ⟨before, false, .nil _⟩
  | cons c content ih =>
      rw [List.flatMap_cons] at h
      have head := List.prefix_append (TypeExpr.escapeNameChar c)
        (content.flatMap TypeExpr.escapeNameChar)
      rcases List.prefix_or_prefix_of_prefix h head with short | ⟨others, rfl⟩
      · exact inside_escapeNameChar short before
      · obtain ⟨text, escaped, inside⟩ :=
          ih ((List.prefix_append_right_inj _).mp h) (before ++ [c])
        exact ⟨text, escaped, (passes_escapeNameChar c before).append inside⟩

/-- No key ends before its last quote. -/
theorem inside_quoteName {name : String} {first last : List Char}
    (parts : (TypeExpr.quoteName name).toList = first ++ last) (begun : first ≠ [])
    (unfinished : last ≠ []) :
    ∃ text escaped, Passes .between first [] (.name text escaped) := by
  obtain ⟨c, part, rfl⟩ := List.exists_cons_of_ne_nil begun
  obtain ⟨front, quote, rfl⟩ := (List.eq_nil_or_concat last).resolve_left unfinished
  rw [TypeExpr.quoteName, String.toList_ofList, List.concat_eq_append, List.cons_append,
    List.cons_append, ← List.append_assoc] at parts
  obtain ⟨rfl, behind⟩ := List.cons_eq_cons.mp parts
  obtain ⟨content, -⟩ := List.append_inj' behind rfl
  obtain ⟨text, escaped, inside⟩ := inside_nameChars ⟨front, content.symm⟩ []
  exact ⟨text, escaped, .step rfl inside⟩

/-! ## Marks and types -/

theorem passes_mark (key : String) (required : Bool) :
    Passes (.mark key true) (if required then ": " else "?: ").toList []
      (.type key required []) := by
  have colon (required : Bool) :
      Passes (.mark key required) [':', ' '] [] (.type key required []) :=
    .step rfl (.step rfl (.nil _))
  cases required with
  | true => exact colon true
  | false => exact .step rfl (colon false)

/-- A type of one word, with the mark behind it. -/
theorem passes_type {type : String} (h : TypeText.IsWord type) (key : String) (required : Bool) :
    Passes (.type key required []) (type ++ ";").toList [] (.behind ⟨key, required, type, []⟩) := by
  obtain ⟨nonempty, chars⟩ := h
  have word : Passes (.type key required []) type.toList [] (.type key required type.toList) :=
    passes_collecting (fun c member before => by simp [Place.next, chars c member]) []
  have marked : Passes (.type key required type.toList) [';'] []
      (.behind ⟨key, required, type, []⟩) := by
    have next : (Place.type key required type.toList).next ';' =
        some ([], .behind ⟨key, required, type, []⟩) := by
      have ends : isWordChar ';' = false := by decide
      have visible : Text.isBlank ';' = false := by decide
      simp [Place.next, ends, visible, nonempty]
    exact .step next (.nil _)
  rw [String.toList_append]
  exact word.append marked

/-! ## Lines -/

/-- The words of a description, none without one. -/
def descriptionWords (description : Option String) : List String :=
  (Text.words (description.getD "").toList).map String.ofList

/-- The words of a comment are the words of the description: single plain spaces stand between
them, and no plain space inside. -/
theorem commentWords_commentText (description : String) :
    commentWords (' ' :: (TypeExpr.commentText description).toList) =
      descriptionWords (some description) := by
  have text : (TypeExpr.commentText description).toList =
      [' '].intercalate (Text.words description.toList) := by
    rw [TypeExpr.commentText, String.toList_intercalate, List.map_map]
    simp [Function.comp_def]
  have filled : ∀ word ∈ Text.words description.toList, (!word.isEmpty) = true :=
    fun word member => (List.mem_filter.mp member).2
  have pieces : (Text.pieces (· == ' ') (' ' :: (TypeExpr.commentText description).toList)).filter
      (!·.isEmpty) = Text.words description.toList := by
    rw [Text.pieces, if_pos (by decide), List.filter_cons_of_neg (by simp), text]
    by_cases none : Text.words description.toList = []
    · rw [none]
      rfl
    · have whole : ∀ word ∈ Text.words description.toList, ' ' ∉ word := by
        intro word member blank
        have visible := Text.not_isBlank_of_mem_words member ' ' blank
        exact absurd visible (by decide)
      rw [Text.pieces_intercalate whole none, List.filter_eq_self.mpr filled]
  rw [commentWords, pieces]
  rfl

/-- A description behind a line is read as its words, up to the end of the line. -/
theorem passes_comment (line : Line) (description : String) :
    Passes (.behind line) (" // " ++ TypeExpr.commentText description ++ "\n").toList
      [{ line with words := descriptionWords (some description) }] .between := by
  have blank : isLineEnd ' ' = false := by decide
  have content : ∀ c ∈ ' ' :: (TypeExpr.commentText description).toList, isLineEnd c = false := by
    simpa [blank] using TypeText.not_isLineEnd_commentText description
  have ends : Passes (.comment line (' ' :: (TypeExpr.commentText description).toList)) ['\n']
      [{ line with words := descriptionWords (some description) }] .between := by
    rw [← commentWords_commentText]
    exact .line rfl (.nil _)
  have opened : Passes (.behind line) [' ', '/', '/'] [] (.comment line []) :=
    .step rfl (.step rfl (.step rfl (.nil _)))
  -- The comment begins with the space behind its slashes.
  have inside : Passes (.comment line []) (' ' :: (TypeExpr.commentText description).toList) []
      (.comment line (' ' :: (TypeExpr.commentText description).toList)) :=
    passes_collecting (fun c member before => by simp [Place.next, content c member]) []
  have passes := (opened.append inside).append ends
  simpa [String.toList_append] using passes

/-- The line of a member is read as what the member says. -/
theorem passes_memberLine {type : String} (h : TypeText.IsWord type) (name : String)
    (required : Bool) (description : Option String) :
    Passes .between (TypeExpr.memberLine (.text name) required type description ++ "\n").toList
      [⟨name, required, type, descriptionWords description⟩] .between := by
  have front := ((passes_quoteName name).append (passes_mark name required)).append
    (passes_type h name required)
  simp only [← String.toList_append, List.append_nil, ← String.append_assoc] at front
  have bare (line : Line) : Passes (.behind line) "\n".toList [line] .between :=
    .line rfl (.nil _)
  unfold TypeExpr.memberLine
  dsimp only [Key.display]
  cases description with
  | none =>
      rw [String.toList_append]
      exact front.append (bare _)
  | some text =>
      dsimp only
      split
      · rename_i empty
        obtain rfl : text = "" := by simpa using empty
        rw [String.toList_append]
        exact front.append (bare _)
      · have behind := passes_comment ⟨name, required, type, []⟩ text
        rw [String.append_assoc, String.append_assoc, String.toList_append,
          ← String.append_assoc]
        exact front.append behind

/-- Lines with an end between them and behind the last one. -/
theorem passes_lines {α : Type} {items : List α} {text : α → String} {line : α → Line}
    (h : ∀ item ∈ items, Passes .between (text item ++ "\n").toList [line item] .between) :
    Passes .between (String.intercalate "\n" (items.map text) ++ "\n").toList
      (items.map line) .between := by
  induction items with
  | nil =>
      have blank : Passes .between ['\n'] [] .between := .step rfl (.nil _)
      simpa using blank
  | cons item others ih =>
      have here := h item (by simp)
      have after := ih fun other inside => h other (List.mem_cons_of_mem _ inside)
      cases others with
      | nil => simpa using here
      | cons next others =>
          have both := here.append after
          simpa [String.toList_append, String.toList_intercalate] using both

/-! ## Reading back -/

/-- A member with a text as its name and a built-in keyword as its type. -/
structure IsPlain (member : Member TypeExpr) : Prop where
  name : ∃ name, member.name = .text name
  type : member.type ∈
    [TypeExpr.object, .string, .number, .boolean, .date, .file]

/-- A line says what a member says. -/
structure Tells (line : Line) (member : Member TypeExpr) : Prop where
  name : member.name = .text line.name
  required : member.required = line.required
  type : member.type = .primitive line.type
  words : line.words = descriptionWords member.description

/-- The key of a member reaches to its last quote and no further, and its comment has no end of a
line. -/
structure Contained (member : Member TypeExpr) : Prop where
  key_ends : Passes .between (TypeExpr.quoteName member.name.display).toList []
    (.mark member.name.display true)
  key_open : ∀ first last, (TypeExpr.quoteName member.name.display).toList = first ++ last →
    first ≠ [] → last ≠ [] → ∃ text escaped, Passes .between first [] (.name text escaped)
  comment_whole : ∀ description ∈ member.description,
    ∀ c ∈ (TypeExpr.commentText description).toList, c ∉ ['\n', '\r', '\u2028', '\u2029']

theorem contained (member : Member TypeExpr) : Contained member where
  key_ends := passes_quoteName _
  key_open _ _ := inside_quoteName
  comment_whole description _ c inside ends := by
    have whole := TypeText.not_isLineEnd_commentText description c inside
    rw [isLineEnd, List.contains_iff_mem.mpr ends] at whole
    cases whole

/-- What the line of a member says. -/
def lineOf (member : Member TypeExpr) : Line :=
  ⟨member.name.display, member.required, member.type.render, descriptionWords member.description⟩

theorem IsPlain.type_eq {member : Member TypeExpr} (h : IsPlain member) :
    member.type = .primitive member.type.render ∧ TypeText.IsWord member.type.render := by
  have keyword := h.type
  simp only [List.mem_cons, List.not_mem_nil, or_false] at keyword
  rcases keyword with h | h | h | h | h | h <;> rw [h] <;> exact ⟨rfl, by decide⟩

theorem IsPlain.tells {member : Member TypeExpr} (h : IsPlain member) :
    Tells (lineOf member) member := by
  obtain ⟨name, hname⟩ := h.name
  exact ⟨by simp [lineOf, hname, Key.display], rfl, h.type_eq.1, rfl⟩

/-- Only one line says what a member says. -/
theorem Tells.eq_lineOf {line : Line} {member : Member TypeExpr} (h : Tells line member) :
    line = lineOf member := by
  obtain ⟨name, required, type, words⟩ := line
  obtain ⟨hname, hrequired, htype, hwords⟩ := h
  simp_all [lineOf, Key.display, TypeExpr.render]

theorem IsPlain.passes {member : Member TypeExpr} (h : IsPlain member) :
    Passes .between (TypeExpr.memberLine member.name member.required member.type.render
      member.description ++ "\n").toList [lineOf member] .between := by
  obtain ⟨name, hname⟩ := h.name
  have line := passes_memberLine h.type_eq.2 name member.required member.description
  simpa [lineOf, hname, Key.display] using line

/-- The text of an object type is read as its members, in order. -/
theorem read_render_struct {members : List (Member TypeExpr)}
    (h : ∀ member ∈ members, IsPlain member) :
    ∃ lines, read (TypeExpr.struct members).render = some lines ∧
      List.Forall₂ Tells lines members ∧ ∀ member ∈ members, Contained member := by
  have lines := passes_lines fun member inside => (h member inside).passes
  have opened : Passes .outside "\x7b\n".toList [] .between := .step rfl (.step rfl (.nil _))
  have closed : Passes .between "\x7d".toList [] .closed := .step rfl (.nil _)
  have whole : Passes .outside (TypeExpr.struct members).render.toList (members.map lineOf)
      .closed := by
    have passes := (opened.append lines).append closed
    rw [TypeExpr.render, TypeExpr.renderMembers_eq]
    simpa [String.toList_append] using passes
  unfold Passes at whole
  refine ⟨members.map lineOf, by rw [read, whole], ?_, fun member _ => contained member⟩
  exact List.forall₂_map_left_iff.mpr
    (List.forall₂_same.mpr fun member inside => (h member inside).tells)

/-- Two members that try to end early: a key with marks of its own and a line break, and a
description over several lines. -/
def hostileMembers : List (Member TypeExpr) :=
  [⟨.text "it's \\'; //\n'b", true, .string, some " first\nsecond \u2028 '\x7d// third\r"⟩,
    ⟨.text "", false, .date, none⟩]

theorem read_render_struct_hostile :
    (∀ member ∈ hostileMembers, IsPlain member) ∧
      read (TypeExpr.struct hostileMembers).render =
        some [⟨"it's \\'; //\n'b", true, "string", ["first", "second", "'\x7d//", "third"]⟩,
          ⟨"", false, "Date", []⟩] := by
  have plain : ∀ member ∈ hostileMembers, IsPlain member := by
    simp only [hostileMembers, List.forall_mem_cons]
    exact ⟨⟨⟨_, rfl⟩, by simp⟩, ⟨⟨_, rfl⟩, by simp⟩, by simp⟩
  refine ⟨plain, ?_⟩
  obtain ⟨lines, reads, tells, -⟩ := read_render_struct plain
  obtain ⟨first, _, here, others, rfl⟩ := List.forall₂_cons_right_iff.mp tells
  obtain ⟨second, _, there, none, rfl⟩ := List.forall₂_cons_right_iff.mp others
  obtain rfl := List.forall₂_nil_right_iff.mp none
  rw [reads, here.eq_lineOf, there.eq_lineOf]
  decide

end ApiBinding.ObjectText
