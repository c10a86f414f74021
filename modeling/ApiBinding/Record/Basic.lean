import ApiBinding.TypeExpr.Basic

/-! Records: the named types of an operation. The type of a field is an expression while records
are made, and a text once they are published. -/

namespace ApiBinding

/-- The part of an operation in which a record was first needed. -/
inductive Placement where
  | path
  | body
  | response
deriving DecidableEq, Repr

namespace Placement

def all : List Placement := [.path, .body, .response]

def word : Placement → String
  | .path => "path"
  | .body => "body"
  | .response => "response"

def ofValue? (value : Value) : Option Placement :=
  value.text?.bind fun word => all.find? (·.word == word)

end Placement

structure Field (τ : Type) where
  name : String
  required : Bool
  type : τ
  description : Option String
  format : Option String

structure Record (τ : Type) where
  name : String
  description : Option String
  fields : List (Field τ)
  placement : Option Placement

/-- Replaces the type of a field. -/
def Field.mapType {σ τ : Type} (f : σ → τ) (field : Field σ) : Field τ where
  name := field.name
  required := field.required
  type := f field.type
  description := field.description
  format := field.format

/-- Replaces the types of all fields. -/
def Record.mapType {σ τ : Type} (f : σ → τ) (record : Record σ) : Record τ where
  name := record.name
  description := record.description
  fields := record.fields.map (Field.mapType f)
  placement := record.placement

end ApiBinding
