import ApiBinding.Validation.Reader

/-! Writing typed values as data values. -/

namespace ApiBinding

/-- Which of its names a field is written under. -/
inductive Naming where
  | published
  | internal
deriving DecidableEq, Repr

/-- The name of a field. -/
def Validated.FieldKey.under (key : Validated.FieldKey) : Naming → Key
  | .published => .text key.published
  | .internal => .text key.internal

namespace Value

/-- Null for a missing text. -/
def ofText? (text : Option String) : Value :=
  text.elim .null .text

/-- A mapping of text keys. -/
def ofFields (fields : List (String × Value)) : Value :=
  .object (fields.map fun (name, value) => (.text name, value))

end Value

end ApiBinding
