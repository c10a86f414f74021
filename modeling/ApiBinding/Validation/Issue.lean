/-! What is wrong with a data value that should have a given shape, and where. -/

namespace ApiBinding

/-- One step to the place of an issue. -/
inductive Place where
  | field (name : String)
  | index (position : Int)
deriving DecidableEq, Repr

inductive IssueKind where
  | missing
  | textExpected
  | flagExpected
  | flagUnreadable
  | listExpected
  | mappingExpected
  | choiceExpected
  | modelExpected
  | unknownKey
  | invalidKey
deriving DecidableEq, Repr

/-- The word under which an issue is reported. -/
def IssueKind.code : IssueKind → String
  | .missing => "missing"
  | .textExpected => "string_type"
  | .flagExpected => "bool_type"
  | .flagUnreadable => "bool_parsing"
  | .listExpected => "list_type"
  | .mappingExpected => "dict_type"
  | .choiceExpected => "enum"
  | .modelExpected => "model_type"
  | .unknownKey => "extra_forbidden"
  | .invalidKey => "invalid_key"

structure Issue where
  place : List Place
  kind : IssueKind
deriving DecidableEq, Repr

end ApiBinding
