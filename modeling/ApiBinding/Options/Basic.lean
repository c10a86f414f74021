/-! The conventions of one run: how names are guarded, which responses are looked at, and how
undeclared path segments are typed. -/

namespace ApiBinding

structure Options where
  /-- Put before a type name that is a reserved word. -/
  reservedPrefix : String := "__openAPI__"
  /-- Put before a name that is empty, a lone low line, or begins with a digit. -/
  numericPrefix : String := "Pinyin_"
  /-- Status codes whose response is typed, in the order in which they are tried. -/
  responseCodes : List String := ["default", "200", "201"]
  /-- The schema type of a path segment that no parameter declares. -/
  defaultPathType : String := "string"
  /-- Whether a response schema written in place becomes a record of its own. -/
  promoteInlineResponse : Bool := true
deriving DecidableEq, Repr

end ApiBinding
