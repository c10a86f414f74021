import ApiBinding.Failure
import ApiBinding.Number.Shortest
import ApiBinding.Value.Writable

/-! The display form of a value, which messages quote and unknown types are copied as: a text
stands for itself, and inside a collection it is quoted. -/

namespace ApiBinding.Value

/-- Numbers without digits in the display form. -/
def displayNumbers : Binary64.SpecialNames where
  nan := "nan"
  infinity := "inf"

/-- The lowest digits of a number to base sixteen, `width` of them. -/
def hexDigits (width code : Nat) : List Char :=
  (List.range width).reverse.map fun place => Nat.digitChar (code / Nat.pow 16 place % 16)

/-- A quoted character. The quote and the backslash are escaped, and so is what does not print,
by the shortest of three fixed widths. -/
def quoteChar (quote c : Char) : List Char :=
  if c == quote || c == '\\' then ['\\', c]
  else if c == '\n' then ['\\', 'n']
  else if c == '\r' then ['\\', 'r']
  else if c == '\t' then ['\\', 't']
  else if Text.isPrintable c then [c]
  else if c.toNat < 0x100 then '\\' :: 'x' :: hexDigits 2 c.toNat
  else if c.toNat < 0x10000 then '\\' :: 'u' :: hexDigits 4 c.toNat
  else '\\' :: 'U' :: hexDigits 8 c.toNat

/-- A text in single quotes, or in double quotes if it holds single ones only. -/
def quoted (text : String) : String :=
  let quote := if text.toList.contains '\'' && !text.toList.contains '"' then '"' else '\''
  String.ofList (quote :: text.toList.flatMap (quoteChar quote) ++ [quote])

/-- A number of a date without the zeros that pad it. -/
def plainNumber (digits : String) : String :=
  match digits.toList.dropWhile (· == '0') with
  | [] => "0"
  | rest => String.ofList rest

/-- A date inside a collection names its kind and lists year, month and day. -/
def quotedDate (text : String) : String :=
  let numbers := (Text.pieces (· == '-') text.toList).map fun digits =>
    plainNumber (String.ofList digits)
  "datetime.date(" ++ String.intercalate ", " numbers ++ ")"

def displayBool (flag : Bool) : String :=
  if flag then "True" else "False"

end ApiBinding.Value

namespace ApiBinding.Key

/-- The form of a key on its own. -/
def display : Key → String
  | .text name => name
  | .int number => toString number
  | .float number => number.text Value.displayNumbers
  | .bool flag => Value.displayBool flag
  | .null => "None"

/-- The form of a key inside a mapping. -/
def displayNested : Key → String
  | .text name => Value.quoted name
  | key => key.display

end ApiBinding.Key

namespace ApiBinding.Value

mutual

/-- The form of a value inside a collection. -/
def displayNested : Value → String
  | .null => "None"
  | .bool flag => displayBool flag
  | .int number => toString number
  | .float number => number.text displayNumbers
  | .date day => quotedDate day
  | .text content => quoted content
  | .list items => "[" ++ String.intercalate ", " (displayItems items) ++ "]"
  | .object entries => "\x7b" ++ String.intercalate ", " (displayEntries entries) ++ "\x7d"

def displayItems : List Value → List String
  | [] => []
  | item :: rest => displayNested item :: displayItems rest

def displayEntries : List (Key × Value) → List String
  | [] => []
  | (key, value) :: rest =>
    (key.displayNested ++ ": " ++ displayNested value) :: displayEntries rest

end

/-- The form of a value on its own. -/
def display : Value → String
  | .text content => content
  | .date day => day
  | value => value.displayNested

/-- The form of a value on its own, which no value has with an integer inside that is too long. -/
def shown (value : Value) : Except Failure String :=
  if value.isWritable then .ok value.display else .error (.defect .integerTooLong)

end ApiBinding.Value
