import ApiBinding.Json.Reader
import ApiBinding.Options.Data

/-! Where options come from: a file named by the caller, a file named by the environment, the
file of the project, or the defaults. The first source that is configured decides alone. -/

namespace ApiBinding.Options

/-- What is found at a path. -/
inductive FileState where
  | missing
  | directory
  | content (bytes : ByteArray)

/-- What the environment says about an option file. -/
inductive Variable where
  | unset
  | blank
  | path (file : FileState)

structure Sources where
  explicit : Option FileState
  environment : Variable
  project : FileState

/-- Why the content of an option file is no options. -/
inductive Unusable where
  | notText
  | notJson (error : Json.ReadError)
  | refused (issues : List Issue)

/-- What is wrong with the configuration. -/
inductive SourceError where
  | notFound
  | invalid (reason : Unusable)

def SourceError.message : SourceError → String
  | .notFound => "Options file not found"
  | .invalid _ => "Invalid options"

/-- Why there are no options: an error of the configuration, or a file that overflows the stack of
the reader, which is not reported as one. What comes of a file with half a character in one of its
texts is left open, since no text is like that. -/
inductive LoadError where
  | config (error : SourceError)
  | stackOverflow
  | halfCharacter

/-- Reads the content of an option file. -/
def ofBytes (scalars : Validated.Scalars) (room : Nat) (bytes : ByteArray) :
    Except LoadError Options :=
  let invalid (reason : Unusable) := .error (.config (.invalid reason))
  match String.fromUTF8? bytes with
  | none => invalid .notText
  | some content =>
    match Json.read room content with
    | .error .nestedTooDeep => .error .stackOverflow
    | .error error => invalid (.notJson error)
    | .ok none => .error .halfCharacter
    | .ok (some data) =>
      match Options.read scalars data with
      | .accepted options => .ok options
      | .rejected issues => invalid (.refused issues)

/-- Reads an option file, which must be there. -/
def load (scalars : Validated.Scalars) (room : Nat) (file : FileState) :
    Except LoadError Options :=
  match file with
  | .content bytes => ofBytes scalars room bytes
  | _ => .error (.config .notFound)

/-- The options of the first configured source. A project file that is not there is no source. -/
def resolve (scalars : Validated.Scalars) (room : Nat) (sources : Sources) :
    Except LoadError Options :=
  match sources.explicit, sources.environment, sources.project with
  | some file, _, _ => load scalars room file
  | none, .path file, _ => load scalars room file
  | none, _, .content bytes => load scalars room (.content bytes)
  | none, _, _ => .ok {}

end ApiBinding.Options
