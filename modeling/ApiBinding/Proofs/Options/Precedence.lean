import ApiBinding.Options.Source
import ApiBinding.Proofs.Json.Nesting
import ApiBinding.Proofs.Validation.Accepted
import Mathlib

/-! Where options come from. The first source that is configured decides, whatever stands in those
behind it: its file overrides the defaults field by field, or it cannot be used, which is a failure
and no reason to go on to the next source. The failure is one of the configuration, unless the file
nests collections deeper than the stack of the reader has room for, or one of its texts has half a
character in it, of which nothing is said. -/

namespace ApiBinding.Options

open Validated

variable {scalars : Scalars} {room : Nat}

/-! ## The content of a file -/

/-- Options with the fields that a mapping has, and the defaults for those it lacks. The mapping has
no other keys. -/
structure OverriddenBy (data : Mapping) (options : Options) : Prop where
  known : ∀ key ∈ data.keys, ∃ name ∈ fieldNames, key = .text name
  reservedPrefix : FieldValue data "reserved_prefix" ({} : Options).reservedPrefix
    (· = .text ·) options.reservedPrefix
  numericPrefix : FieldValue data "numeric_prefix" ({} : Options).numericPrefix
    (· = .text ·) options.numericPrefix
  responseCodes : FieldValue data "response_codes" ({} : Options).responseCodes
    (fun given codes => given = .list (codes.map .text)) options.responseCodes
  defaultPathType : FieldValue data "default_path_param_type" ({} : Options).defaultPathType
    (· = .text ·) options.defaultPathType
  promoteInlineResponse : FieldValue data "promote_inline_response"
    ({} : Options).promoteInlineResponse FlagForm options.promoteInlineResponse

theorem read_eq_accepted_iff (documented : scalars.Documented) {data : Value} {options : Options} :
    Options.read scalars data = .accepted options ↔
      ∃ entries, data = .object entries ∧ OverriddenBy entries options := by
  cases data with
  | object entries =>
      simp only [Options.read, fields, andIssues_eq_accepted_iff, seq_eq_accepted_iff,
        map_eq_accepted_iff, withDefault_eq_accepted_iff documented.text,
        withDefault_eq_accepted_iff documented.listOfTexts_iff,
        withDefault_eq_accepted_iff documented.flag, strangerIssues_eq_nil_iff]
      constructor
      · rintro ⟨⟨_, flag, ⟨_, path, ⟨_, codes, ⟨_, numeric, ⟨reserved, first, rfl⟩, second, rfl⟩,
          third, rfl⟩, fourth, rfl⟩, fifth, rfl⟩, known⟩
        exact ⟨entries, rfl, known, first, second, third, fourth, fifth⟩
      · rintro ⟨_, same, known, first, second, third, fourth, fifth⟩
        obtain rfl := Value.object.inj same
        exact ⟨⟨_, _, ⟨_, _, ⟨_, _, ⟨_, _, ⟨_, first, rfl⟩, second, rfl⟩, third, rfl⟩, fourth, rfl⟩,
          fifth, rfl⟩, known⟩
  | _ => simp [Options.read, fields]

theorem fromUTF8?_eq_some_iff {bytes : ByteArray} {text : String} :
    String.fromUTF8? bytes = some text ↔ text.toUTF8 = bytes := by
  unfold String.fromUTF8?
  constructor
  · intro found
    split at found
    · obtain rfl := Option.some.inj found
      rfl
    · simp at found
  · rintro rfl
    exact dif_pos text.isValidUTF8

/-- A text is decoded from its own bytes. -/
theorem fromUTF8?_toUTF8 (text : String) : String.fromUTF8? text.toUTF8 = some text :=
  fromUTF8?_eq_some_iff.mpr rfl

/-- What comes of an option file if there is room for so many collections inside each other: a
failure of the configuration if the file is not there, is no text, stands for no data or has fields
that are refused, and otherwise the defaults overridden by its fields. The stack overflows only on a
file that opens more collections than there is room for, and the outcome is left open only for one
that has half a character in a text that counts. -/
inductive Loaded (room : Nat) : FileState → Except LoadError Options → Prop where
  | missing : Loaded room .missing (.error (.config .notFound))
  | directory : Loaded room .directory (.error (.config .notFound))
  | notText {bytes} : (∀ text : String, text.toUTF8 ≠ bytes) →
      Loaded room (.content bytes) (.error (.config (.invalid .notText)))
  | notJson {text : String} {error} : (∀ room' data?, ¬ Json.StandsFor room' text data?) →
      Loaded room (.content text.toUTF8) (.error (.config (.invalid (.notJson error))))
  | tooDeep {text : String} : room < Json.openings text.toList →
      (∀ data?, ¬ Json.StandsFor room text data?) →
      Loaded room (.content text.toUTF8) (.error .stackOverflow)
  | halfCharacter {text : String} : Json.StandsFor room text none →
      Loaded room (.content text.toUTF8) (.error .halfCharacter)
  | refused {text : String} {data issues} : Json.StandsFor room text (some data) →
      (∀ entries options, data = .object entries → ¬ OverriddenBy entries options) →
      Loaded room (.content text.toUTF8) (.error (.config (.invalid (.refused issues))))
  | accepted {text : String} {entries options} :
      Json.StandsFor room text (some (.object entries)) → OverriddenBy entries options →
      Loaded room (.content text.toUTF8) (.ok options)

theorem loaded_content (documented : scalars.Documented) (room : Nat) (text : String) :
    Loaded room (.content text.toUTF8) (load scalars room (.content text.toUTF8)) := by
  simp only [load, ofBytes, fromUTF8?_toUTF8]
  cases parsed : Json.read room text with
  | error error =>
      by_cases deep : error = .nestedTooDeep
      · subst deep
        refine .tooDeep (Json.room_lt_openings parsed) fun data? denotes => ?_
        simp [Json.read_eq_ok_iff.mpr denotes] at parsed
      · have unreadable := Json.not_standsFor parsed deep
        cases error
        case nestedTooDeep => exact absurd rfl deep
        all_goals exact .notJson unreadable
  | ok data? =>
      have denotes := Json.read_eq_ok_iff.mp parsed
      cases data? with
      | none => exact .halfCharacter denotes
      | some data =>
          dsimp only
          cases validated : Options.read scalars data with
          | accepted options =>
              obtain ⟨entries, rfl, overridden⟩ := (read_eq_accepted_iff documented).mp validated
              exact .accepted denotes overridden
          | rejected issues =>
              refine .refused denotes fun entries options same overridden => ?_
              have accepted := (read_eq_accepted_iff documented).mpr ⟨entries, same, overridden⟩
              simp [validated] at accepted

theorem loaded_load (documented : scalars.Documented) (room : Nat) (file : FileState) :
    Loaded room file (load scalars room file) := by
  cases file with
  | missing => exact .missing
  | directory => exact .directory
  | content bytes =>
      cases decoded : String.fromUTF8? bytes with
      | none =>
          simp only [load, ofBytes, decoded]
          refine .notText fun text same => ?_
          simp [fromUTF8?_eq_some_iff.mpr same] at decoded
      | some text =>
          obtain rfl := fromUTF8?_eq_some_iff.mp decoded
          exact loaded_content documented room text

/-- The text of a file opens no more collections than there is room for, and no half of a character
stands alone in it. -/
def Manageable (room : Nat) (file : FileState) : Prop :=
  ∀ text : String, file = .content text.toUTF8 →
    Json.openings text.toList ≤ room ∧ ¬ Json.StandsFor room text none

/-- What goes wrong with a manageable file is a failure of the configuration. -/
theorem Loaded.config {file : FileState} {error : LoadError} (h : Loaded room file (.error error))
    (manageable : Manageable room file) : ∃ reason, error = .config reason := by
  cases h with
  | tooDeep deep _ => exact absurd (manageable _ rfl).1 (Nat.not_le.mpr deep)
  | halfCharacter half => exact absurd half (manageable _ rfl).2
  | _ => exact ⟨_, rfl⟩

/-! ## The source that decides -/

/-- The file of the first configured source, nothing if the defaults are left: a file that the
caller names comes first, then one that the environment names, and then the file of the project if
there is one. What stands behind the first configured source is not asked for. -/
inductive Sources.Decided (sources : Sources) : Option FileState → Prop where
  | explicit {file} : sources.explicit = some file → Sources.Decided sources (some file)
  | environment {file} : sources.explicit = none → sources.environment = .path file →
      Sources.Decided sources (some file)
  | project {bytes} : sources.explicit = none → (∀ file, sources.environment ≠ .path file) →
      sources.project = .content bytes → Sources.Decided sources (some (.content bytes))
  | defaults : sources.explicit = none → (∀ file, sources.environment ≠ .path file) →
      (∀ bytes, sources.project ≠ .content bytes) → Sources.Decided sources none

theorem exists_decided (sources : Sources) : ∃ decided, sources.Decided decided := by
  cases named : sources.explicit with
  | some file => exact ⟨_, .explicit named⟩
  | none =>
      by_cases environment : ∃ file, sources.environment = .path file
      · obtain ⟨file, environment⟩ := environment
        exact ⟨_, .environment named environment⟩
      · have unnamed := not_exists.mp environment
        by_cases project : ∃ bytes, sources.project = .content bytes
        · obtain ⟨bytes, project⟩ := project
          exact ⟨_, .project named unnamed project⟩
        · exact ⟨_, .defaults named unnamed (not_exists.mp project)⟩

/-- The options of a decided file, or the defaults. -/
def ofDecided (scalars : Scalars) (room : Nat) (decided : Option FileState) :
    Except LoadError Options :=
  decided.elim (.ok {}) (load scalars room)

/-- The decision settles the outcome. -/
theorem resolve_eq_ofDecided (scalars : Scalars) (room : Nat) {sources : Sources}
    {decided : Option FileState} (h : sources.Decided decided) :
    resolve scalars room sources = ofDecided scalars room decided := by
  obtain ⟨explicit, environment, project⟩ := sources
  cases h with
  | explicit named =>
      obtain rfl : explicit = some _ := named
      rfl
  | environment none named =>
      obtain rfl : explicit = .none := none
      obtain rfl : environment = .path _ := named
      rfl
  | project none unnamed found =>
      obtain rfl : explicit = .none := none
      obtain rfl : project = .content _ := found
      cases environment with
      | path file => exact absurd rfl (unnamed file)
      | _ => rfl
  | defaults none unnamed absent =>
      obtain rfl : explicit = .none := none
      cases environment with
      | path file => exact absurd rfl (unnamed file)
      | _ =>
          cases project with
          | content bytes => exact absurd rfl (absent bytes)
          | _ => rfl

/-- There is one decision. -/
theorem Sources.Decided.unique {sources : Sources} {decided other : Option FileState}
    (h : sources.Decided decided) (h' : sources.Decided other) : other = decided := by
  cases h <;> cases h' <;> simp_all

/-- The outcome is that of the first configured source alone. What the caller names leaves no say to
the environment and to the project, and what the environment names leaves none to the project. The
file of the deciding source overrides the defaults, or its failure is that of the whole, which is
one of the configuration if the file is manageable. -/
theorem resolve_of_first_configured (documented : scalars.Documented) (room : Nat)
    (sources : Sources) :
    (∃ decided, sources.Decided decided ∧ (∀ other, sources.Decided other → other = decided) ∧
      (decided = none → resolve scalars room sources = .ok {}) ∧
      (∀ file, decided = some file → Loaded room file (resolve scalars room sources)) ∧
      ∀ error, resolve scalars room sources = .error error →
        (∀ file, decided = some file → Manageable room file) → ∃ reason, error = .config reason) ∧
    (∀ file, sources.explicit = some file → ∀ environment project,
      resolve scalars room { sources with environment := environment, project := project } =
        resolve scalars room sources) ∧
    ∀ file, sources.environment = .path file → ∀ project,
      resolve scalars room { sources with project := project } = resolve scalars room sources := by
  have settled := @resolve_eq_ofDecided scalars room
  refine ⟨?_, ?_, ?_⟩
  · obtain ⟨decided, h⟩ := exists_decided sources
    refine ⟨decided, h, fun other h' => h.unique h', ?_, ?_, ?_⟩
    · rintro rfl
      exact settled h
    · rintro file rfl
      rw [settled h]
      exact loaded_load documented room file
    · intro error failed manageable
      rw [settled h] at failed
      cases decided with
      | none => simp [ofDecided] at failed
      | some file =>
          have loaded := loaded_load documented room file
          rw [show load scalars room file = .error error from failed] at loaded
          exact loaded.config (manageable file rfl)
  · intro file named environment project
    have decided : sources.Decided (some file) := .explicit named
    rw [settled decided]
    exact settled (.explicit named)
  · intro file named project
    cases explicit : sources.explicit with
    | some own =>
        have decided : sources.Decided (some own) := .explicit explicit
        rw [settled decided]
        exact settled (.explicit rfl)
    | none =>
        have decided : sources.Decided (some file) := .environment explicit named
        rw [settled decided]
        exact settled (.environment rfl named)

/-- A file in which one name is given twice. -/
def overridingText : String :=
  "\x7b\"numeric_prefix\": 1, \"response_codes\": [\"201\"], \"numeric_prefix\": \"\\u00c9_\"\x7d"

def overridingOptions : Options where
  numericPrefix := "É_"
  responseCodes := ["201"]

/-- The environment names a file. That of the project is no text. -/
def overridingSources : Sources where
  explicit := none
  environment := .path (.content overridingText.toUTF8)
  project := .content ⟨#[0xff]⟩

theorem load_overridingText :
    load .standard 2 (.content overridingText.toUTF8) = .ok overridingOptions := by
  have parsed : Json.read 2 overridingText = .ok (some (.object [
      (.text "numeric_prefix", .text "É_"), (.text "response_codes", .list [.text "201"])])) := by
    cbv
  simp only [load, ofBytes, fromUTF8?_toUTF8, parsed]
  rfl

theorem resolve_of_first_configured_overridingSources :
    Scalars.standard.Documented ∧
      Loaded 2 (.content overridingText.toUTF8) (.ok overridingOptions) ∧
      (∀ project, resolve .standard 2 { overridingSources with project := project } =
        .ok overridingOptions) ∧
      (∀ environment project, resolve .standard 2
        { explicit := some .missing, environment := environment, project := project } =
          .error (.config .notFound)) ∧
      resolve .standard 2 { overridingSources with environment := .unset } =
        .error (.config (.invalid .notText)) := by
  have environment := resolve_of_first_configured standard_documented 2 overridingSources
  have outcome : resolve .standard 2 overridingSources = .ok overridingOptions :=
    load_overridingText
  refine ⟨standard_documented, ?_, ?_, ?_, ?_⟩
  · obtain ⟨decided, -, only, -, loaded, -⟩ := environment.1
    have own := loaded _ (only _ (.environment rfl rfl)).symm
    rwa [outcome] at own
  · intro project
    rw [environment.2.2 _ rfl project, outcome]
  · intro environment project
    have explicit := resolve_of_first_configured standard_documented 2
      { explicit := some .missing, environment := .unset, project := .missing }
    exact explicit.2.1 _ rfl environment project
  · have noText : String.fromUTF8? ⟨#[0xff]⟩ = none := by decide +kernel
    simp [resolve, overridingSources, load, ofBytes, noText]

/-- Lists inside each other, the innermost of them empty. -/
def nestedLists (depth : Nat) : String :=
  String.ofList (List.replicate depth '[' ++ List.replicate depth ']')

theorem load_nestedLists {depth : Nat} (deep : room < depth) :
    load scalars room (.content (nestedLists depth).toUTF8) = .error .stackOverflow := by
  have refused : Json.read room (nestedLists depth) = .error .nestedTooDeep :=
    Json.read_brackets deep _
  simp only [load, ofBytes, fromUTF8?_toUTF8, refused]

/-- A file that overflows the stack, which is not reported as a failure of the configuration. -/
theorem resolve_of_nestedLists :
    resolve .standard 1000
        { explicit := some (.content (nestedLists 1001).toUTF8)
          environment := .unset
          project := .missing } = .error .stackOverflow := by
  rw [resolve]
  exact load_nestedLists (Nat.lt_succ_self 1000)

end ApiBinding.Options
