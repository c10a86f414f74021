import ApiBinding.Validation.Issue
import ApiBinding.Value.Display

/-! Reading data values as values of given types. All issues are gathered, each with the path to
its place. -/

namespace ApiBinding

/-- The issue seen from one step further out. -/
def Issue.within (issue : Issue) (place : Place) : Issue :=
  { issue with place := place :: issue.place }

inductive Validated (α : Type) where
  | accepted (value : α)
  | rejected (issues : List Issue)

namespace Validated

def map {α β : Type} (f : α → β) : Validated α → Validated β
  | .accepted value => .accepted (f value)
  | .rejected issues => .rejected issues

/-- Applies a function; the issues of both sides are kept, those of the function first. -/
def apply {α β : Type} : Validated (α → β) → Validated α → Validated β
  | .accepted f, .accepted value => .accepted (f value)
  | .accepted _, .rejected issues => .rejected issues
  | .rejected issues, .accepted _ => .rejected issues
  | .rejected first, .rejected second => .rejected (first ++ second)

instance : Applicative Validated where
  pure := .accepted
  map := map
  seq f value := apply f (value ())

/-- Rejects with a single issue at the place itself. -/
def issue {α : Type} (kind : IssueKind) : Validated α :=
  .rejected [⟨[], kind⟩]

/-- Moves a result one step further out. -/
def within {α : Type} (place : Place) : Validated α → Validated α
  | .accepted value => .accepted value
  | .rejected issues => .rejected (issues.map (·.within place))

/-- A way to read a data value. -/
abbrev Reader (α : Type) := Value → Validated α

/-! ## Scalars -/

def text : Reader String
  | .text content => .accepted content
  | _ => issue .textExpected

/-- The words for a truth value, in any case of their letters. -/
def flagOfWord? (word : String) : Option Bool :=
  let lowered := String.ofList (word.toList.map Char.toLower)
  if ["0", "off", "f", "false", "n", "no"].contains lowered then some false
  else if ["1", "on", "t", "true", "y", "yes"].contains lowered then some true
  else none

/-- The least number of 64 bits with a sign. -/
def minWord64 : Int := -9223372036854775808

/-- Whether a number fits into 64 bits with a sign. -/
def isWord64 (number : Int) : Bool :=
  minWord64 ≤ number && number < -minWord64

def flagOfInt (number : Int) : Validated Bool :=
  if !isWord64 number then issue .flagExpected
  else if number == 0 then .accepted false
  else if number == 1 then .accepted true
  else issue .flagUnreadable

/-- Truth values, the numbers zero and one, and certain words. -/
def flag : Reader Bool
  | .bool value => .accepted value
  | .int number => flagOfInt number
  | .float number =>
    match number.toInt? with
    | some whole => if whole == minWord64 then issue .flagExpected else flagOfInt whole
    | none => issue .flagExpected
  | .text word =>
    match flagOfWord? word with
    | some value => .accepted value
    | none => issue .flagUnreadable
  | _ => issue .flagExpected

/-- One of a set of words. -/
def choice {α : Type} (ofValue? : Value → Option α) : Reader α := fun value =>
  match ofValue? value with
  | some chosen => .accepted chosen
  | none => issue .choiceExpected

/-! ## Collections -/

/-- Null, or what `read` accepts. -/
def optional {α : Type} (read : Reader α) : Reader (Option α)
  | .null => .accepted none
  | value => (read value).map some

def itemsFrom {α : Type} (read : Reader α) (position : Nat) :
    List Value → Validated (List α)
  | [] => .accepted []
  | item :: rest =>
    List.cons <$> (read item).within (.index position) <*> itemsFrom read (position + 1) rest

def list {α : Type} (read : Reader α) : Reader (List α)
  | .list items => itemsFrom read 0 items
  | _ => issue .listExpected

/-- The step to a key that is no text: its number, or else its display form. -/
def keyPlace (key : Key) : Place :=
  match key with
  | .int number => if isWord64 number then .index number else .field key.display
  | .bool value => .index (if value then 1 else 0)
  | other => .field other.display

/-- One issue for each key that is no text. -/
def keyIssues (m : Mapping) : List Issue :=
  m.keys.filterMap fun key =>
    match key with
    | .text _ => none
    | other => some ⟨[keyPlace other, .field "[key]"], .textExpected⟩

/-- A mapping whose keys are texts. -/
def mapping : Reader Mapping
  | .object entries =>
    match keyIssues entries with
    | [] => .accepted entries
    | issues => .rejected issues
  | _ => issue .mappingExpected

/-! ## Readers of single values -/

/-- How single values and free mappings are read. Readers of records are built on these. -/
structure Scalars where
  text : Reader String
  flag : Reader Bool
  mapping : Reader Mapping

def Scalars.standard : Scalars where
  text := Validated.text
  flag := Validated.flag
  mapping := Validated.mapping

/-! ## Fields of a mapping -/

/-- The names of a field: the one it is published under, and the one it goes by inside. -/
structure FieldKey where
  published : String
  internal : String

/-- A field that has one name. -/
def FieldKey.plain (name : String) : FieldKey := ⟨name, name⟩

/-- The name a field has in the data: the published one, unless only the internal one is
present. -/
def FieldKey.nameIn (key : FieldKey) (data : Mapping) : String :=
  if (data.find? key.published).isNone && (data.find? key.internal).isSome then key.internal
  else key.published

/-- Reads a field, or takes `absent` if the data has it under neither name. An issue stands at the
name that the data uses; a field that the data lacks goes by its published name. -/
def fieldOr {α : Type} (absent : Validated α) (key : FieldKey) (read : Reader α)
    (data : Mapping) : Validated α :=
  let name := key.nameIn data
  ((data.find? name).elim absent read).within (.field name)

/-- A field that must be present. -/
def required {α : Type} : FieldKey → Reader α → Mapping → Validated α :=
  fieldOr (issue .missing)

/-- A field that has a default. -/
def withDefault {α : Type} (key : FieldKey) (default : α) : Reader α → Mapping → Validated α :=
  fieldOr (.accepted default) key

/-- The fields of a mapping. -/
def fields {α : Type} (read : Mapping → Validated α) : Reader α
  | .object entries => read entries
  | _ => issue .modelExpected

/-- One issue for each key that is no field name. -/
def strangerIssues (known : List String) (data : Mapping) : List Issue :=
  data.keys.filterMap fun key =>
    match key with
    | .text name => if known.contains name then none else some ⟨[.field name], .unknownKey⟩
    | other => some ⟨[keyPlace other], .invalidKey⟩

/-- Adds issues to a result. -/
def andIssues {α : Type} (result : Validated α) (more : List Issue) : Validated α :=
  match result, more with
  | .accepted value, [] => .accepted value
  | .accepted _, issues => .rejected issues
  | .rejected issues, more => .rejected (issues ++ more)

end Validated

end ApiBinding
