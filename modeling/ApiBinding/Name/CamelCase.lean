import ApiBinding.Text.Case
import ApiBinding.Text.Class

/-! Camel case: separators vanish and the character after them is raised. A low line is both a
separator and a word character, so a run of separators that no word character follows may
still end in one. -/

namespace ApiBinding.Name

def isSeparator (c : Char) : Bool :=
  c == '-' || c == '_' || c == ' ' || c == '.'

/-- A run of separators without a word character after it. Up to its last low line it shrinks
to that low line, unless the low line is the first of the run. -/
def settleRun : List Char → List Char
  | [] => []
  | first :: others =>
    if others.contains '_' then '_' :: Text.afterLast '_' others else first :: others

/-- Camel case of a text before which the separators in `run` have been read. -/
def joinWords (upper : Char → List Char) (run : List Char) : List Char → List Char
  | [] => settleRun run
  | c :: rest =>
    if isSeparator c then joinWords upper (run ++ [c]) rest
    else if !run.isEmpty && Text.isWord c then upper c ++ joinWords upper [] rest
    else settleRun run ++ c :: joinWords upper [] rest

def camelCase (text : List Char) : List Char :=
  joinWords Text.upperChar [] text

end ApiBinding.Name
