import ApiBinding.Number.Integer
import ApiBinding.Value.Basic

/-! The integers in a value. A value is written only if each of them is short enough. -/

namespace ApiBinding

def Key.integers : Key → List Int
  | .int number => [number]
  | _ => []

namespace Value

mutual

/-- The integers in a value, keys of mappings among them. -/
def integers : Value → List Int
  | .int number => [number]
  | .list items => listIntegers items
  | .object entries => mappingIntegers entries
  | _ => []

def listIntegers : List Value → List Int
  | [] => []
  | item :: rest => item.integers ++ listIntegers rest

def mappingIntegers : List (Key × Value) → List Int
  | [] => []
  | (key, value) :: rest => key.integers ++ value.integers ++ mappingIntegers rest

end

def isWritable (value : Value) : Bool :=
  value.integers.all Integer.isWritable

end Value

end ApiBinding
