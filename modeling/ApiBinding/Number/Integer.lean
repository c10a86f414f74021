import ApiBinding.Text.Class

/-! Integers as people write them: blanks around, a sign, decimal digits of any script, and a
low line between two digits. -/

namespace ApiBinding.Integer

open ApiBinding.Text

/-- Longer digit strings are neither read nor written. -/
def digitLimit : Nat := 4300

/-- Whether an integer has few enough digits to be written. Its sign does not count. -/
def isWritable (number : Int) : Bool :=
  (Nat.toDigits 10 number.natAbs).length ≤ digitLimit

/-- Reads groups of digits that low lines separate. -/
def readMagnitude? (text : List Char) : Option Nat :=
  let groups := pieces (· == '_') text
  if groups.any (·.isEmpty) then none
  else
    match groups.flatten.mapM decimalValue? with
    | some digits =>
      if digits.length > digitLimit then none
      else some (digits.foldl (fun value digit => 10 * value + digit) 0)
    | none => none

/-- Removes the blanks that may surround a number. -/
def trim (text : List Char) : List Char :=
  let isSpace (c : Char) := isLayoutBlank c || isWideBlank c
  ((text.dropWhile isSpace).reverse.dropWhile isSpace).reverse

def read? (text : List Char) : Option Int :=
  match trim text with
  | '-' :: rest => (readMagnitude? rest).map fun value => -(value : Int)
  | '+' :: rest => (readMagnitude? rest).map Int.ofNat
  | digits => (readMagnitude? digits).map Int.ofNat

end ApiBinding.Integer
