import ApiBinding.Failure
import ApiBinding.Number.Shortest
import ApiBinding.Value.Writable

/-! JSON text of a value, on one line, with a blank after each comma and colon. Only what the
format requires is escaped. -/

namespace ApiBinding.Json

/-- Numbers without digits. -/
def numberNames : Binary64.SpecialNames where
  nan := "NaN"
  infinity := "Infinity"

/-- A character inside quotes. -/
def escapeChar (c : Char) : List Char :=
  if c == '"' then ['\\', '"']
  else if c == '\\' then ['\\', '\\']
  else if c == '\n' then ['\\', 'n']
  else if c == '\r' then ['\\', 'r']
  else if c == '\t' then ['\\', 't']
  else if c == '\x0c' then ['\\', 'f']
  else if c == '\x08' then ['\\', 'b']
  else if c.toNat < 0x20 then
    ['\\', 'u', '0', '0', Nat.digitChar (c.toNat / 16), Nat.digitChar (c.toNat % 16)]
  else [c]

def quote (text : String) : String :=
  String.ofList ('"' :: text.toList.flatMap escapeChar ++ ['"'])

/-- Keys that are no texts are quoted too. -/
def keyText : Key → String
  | .text name => quote name
  | .int number => quote (toString number)
  | .float number => quote (number.text numberNames)
  | .bool flag => quote (toString flag)
  | .null => quote "null"

mutual

/-- A date has no form of its own and is quoted. -/
def render : Value → String
  | .null => "null"
  | .bool flag => toString flag
  | .int number => toString number
  | .float number => number.text numberNames
  | .date day => quote day
  | .text content => quote content
  | .list items => "[" ++ String.intercalate ", " (renderItems items) ++ "]"
  | .object entries => "\x7b" ++ String.intercalate ", " (renderEntries entries) ++ "\x7d"

def renderItems : List Value → List String
  | [] => []
  | item :: rest => render item :: renderItems rest

def renderEntries : List (Key × Value) → List String
  | [] => []
  | (key, value) :: rest => (keyText key ++ ": " ++ render value) :: renderEntries rest

end

/-- Writes a value, which fails if an integer in it is too long. -/
def write (value : Value) : Except Failure String :=
  if value.isWritable then .ok (render value) else .error (.defect .integerTooLong)

end ApiBinding.Json
