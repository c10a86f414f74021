import ApiBinding.Name.Identifier
import ApiBinding.Record.Catalog
import ApiBinding.Schema.Composition

/-! What a run reads, what it changes, and the steps that change it. The changes stay when a
step fails. -/

namespace ApiBinding

/-- Something left out of the result because no type could be given to it. -/
inductive Warning where
  | untypedMember (name : Key)
  | untypedField (name : Key) (owner : String)
  | untypedParameter (name owner : String)
deriving DecidableEq, Repr

def Warning.message : Warning → String
  | .untypedMember name =>
    "Skipping inline field '" ++ name.display ++ "': schema has no type or $ref"
  | .untypedField name owner =>
    "Skipping field '" ++ name.display ++ "' of '" ++ owner ++ "': schema has no type or $ref"
  | .untypedParameter name owner =>
    "Skipping parameter '" ++ name ++ "' of '" ++ owner ++ "': no type or schema"

/-- What a run reads. -/
structure Scope where
  table : Table
  options : Options
  lexicon : Name.Lexicon
  /-- The placement of the records found from now on. -/
  placement : Option Placement

/-- What a run changes. -/
structure Session where
  /-- The record name of each reference whose target became a record. -/
  names : List (String × String)
  /-- The references whose targets are being written in place. -/
  inlining : List String
  catalog : Catalog
  /-- Warnings in the order in which they arose. -/
  warnings : List Warning

namespace Session

def empty : Session where
  names := []
  inlining := []
  catalog := .empty
  warnings := []

/-- The record name of a reference. -/
def nameOf? (session : Session) (ref : String) : Option String :=
  session.names.lookup ref

/-- Replaces the name under a reference, or adds one. -/
def assign (ref name : String) : List (String × String) → List (String × String)
  | [] => [(ref, name)]
  | entry :: rest => if entry.1 == ref then (ref, name) :: rest else entry :: assign ref name rest

/-- Names the record of a reference. -/
def register (session : Session) (ref name : String) : Session :=
  { session with names := assign ref name session.names }

/-- Starts to write the target of a reference in place, unless that is under way. -/
def beginInline (session : Session) (ref : String) : Bool × Session :=
  if session.inlining.contains ref then (false, session)
  else (true, { session with inlining := ref :: session.inlining })

def endInline (session : Session) (ref : String) : Session :=
  { session with inlining := session.inlining.filter (· != ref) }

def warn (session : Session) (warning : Warning) : Session :=
  { session with warnings := session.warnings ++ [warning] }

end Session

/-- A step of a run: it fails or returns a result, and leaves a session either way. -/
abbrev Synthesis := ExceptT Failure (StateM Session)

namespace Synthesis

/-- The result of a step in a session, and the session it leaves. -/
def outcome {α : Type} (step : Synthesis α) (session : Session) : Except Failure α × Session :=
  step session

def lift {α : Type} (result : Except Failure α) : Synthesis α :=
  fun session => (result, session)

def fail {α : Type} (failure : Failure) : Synthesis α :=
  lift (.error failure)

def warn (warning : Warning) : Synthesis Unit :=
  fun session => (.ok (), session.warn warning)

/-- Runs a step and then closes the inline writing of a reference, also after a failure. -/
def closing {α : Type} (ref : String) (step : Synthesis α) : Synthesis α :=
  fun session =>
    let (result, after) := step.outcome session
    (result, after.endInline ref)

end Synthesis

end ApiBinding
