import ApiBinding.Json.Writer
import ApiBinding.TypeExpr.Basic

/-! Unions of literal values. Two values are one literal exactly if they have one text. -/

namespace ApiBinding.TypeExpr

/-- The texts of values in order of first occurrence, each once. -/
def literalTexts (values : List Value) : Except Failure (List String) := do
  .ok (← values.mapM Json.write).eraseDups

def ofLiterals (values : List Value) : Except Failure TypeExpr := do
  .ok (.literals (← literalTexts values))

end ApiBinding.TypeExpr
