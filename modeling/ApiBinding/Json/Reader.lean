import ApiBinding.Number.Integer
import ApiBinding.Value.Basic

/-! A strict JSON reader. It keeps the order of keys and tells whole numbers from fractions;
of two entries with one key the place of the first and the value of the second remain. It also
takes the words for not-a-number and the infinities. Collections are read as deep as its stack has
room. -/

namespace ApiBinding.Json

inductive ReadError where
  | malformed
  | integerTooLong
  /-- Collections inside collections, more of them than the stack has room for. -/
  | nestedTooDeep
deriving DecidableEq, Repr

/-- A reading step returns its result and the text after it. -/
abbrev Reading := Except ReadError

def isGap (c : Char) : Bool :=
  c == ' ' || c == '\t' || c == '\n' || c == '\r'

def skipGap (text : List Char) : List Char :=
  text.dropWhile isGap

/-! ## Texts -/

def hexValue? (c : Char) : Option Nat :=
  if '0' ≤ c && c ≤ '9' then some (c.toNat - 48)
  else if 'a' ≤ c && c ≤ 'f' then some (c.toNat - 87)
  else if 'A' ≤ c && c ≤ 'F' then some (c.toNat - 55)
  else none

/-- The character a backslash and a letter stand for. -/
def escaped? (c : Char) : Option Char :=
  match c with
  | '"' => some '"'
  | '\\' => some '\\'
  | '/' => some '/'
  | 'b' => some '\x08'
  | 'f' => some '\x0c'
  | 'n' => some '\n'
  | 'r' => some '\r'
  | 't' => some '\t'
  | _ => none

/-- Reads up to the closing quote. Code units written by number stay apart here. -/
def readUnits : List Char → Reading (List Nat × List Char)
  | '"' :: rest => .ok ([], rest)
  | '\\' :: 'u' :: a :: b :: c :: d :: rest =>
    match [a, b, c, d].mapM hexValue? with
    | some digits => do
      let (units, after) ← readUnits rest
      .ok (digits.foldl (fun code digit => 16 * code + digit) 0 :: units, after)
    | none => .error .malformed
  | '\\' :: c :: rest =>
    match escaped? c with
    | some plain => do
      let (units, after) ← readUnits rest
      .ok (plain.toNat :: units, after)
    | none => .error .malformed
  | c :: rest =>
    if c.toNat < 0x20 then .error .malformed
    else do
      let (units, after) ← readUnits rest
      .ok (c.toNat :: units, after)
  | [] => .error .malformed

def isHighHalf (unit : Nat) : Bool :=
  0xd800 ≤ unit && unit ≤ 0xdbff

def isLowHalf (unit : Nat) : Bool :=
  0xdc00 ≤ unit && unit ≤ 0xdfff

/-- Joins the two halves of characters written as pairs of code units. There is no text if a half
stands alone. -/
def joinUnits : List Nat → Option (List Char)
  | [] => some []
  | unit :: rest =>
    if isHighHalf unit then
      match rest with
      | low :: after =>
        if isLowHalf low then
          let code := 0x10000 + (unit - 0xd800) * 0x400 + (low - 0xdc00)
          (joinUnits after).map (Char.ofNat code :: ·)
        else none
      | [] => none
    else if isLowHalf unit then none
    else (joinUnits rest).map (Char.ofNat unit :: ·)

def readText (text : List Char) : Reading (Option String × List Char) := do
  let (units, rest) ← readUnits text
  .ok ((joinUnits units).map String.ofList, rest)

/-! ## Numbers -/

def digitsValue (digits : List Char) : Nat :=
  digits.foldl (fun value c => 10 * value + (c.toNat - 48)) 0

/-- The digits of a fraction and what follows; a point without digits is no fraction. -/
def splitFraction (text : List Char) : List Char × List Char :=
  match text with
  | '.' :: rest =>
    match rest.takeWhile Char.isDigit with
    | [] => ([], text)
    | digits => (digits, rest.dropWhile Char.isDigit)
  | _ => ([], text)

/-- The value of the digits of an exponent and what follows, if there are digits. -/
def readPower? (negative : Bool) (text : List Char) : Option (Int × List Char) :=
  match text.takeWhile Char.isDigit with
  | [] => none
  | digits =>
    let size : Int := digitsValue digits
    some (if negative then -size else size, text.dropWhile Char.isDigit)

/-- The value of an exponent and what follows; a mark without digits is no exponent. -/
def splitExponent? (text : List Char) : Option (Int × List Char) :=
  match text with
  | [] => none
  | mark :: signed =>
    if mark == 'e' || mark == 'E' then
      match signed with
      | '-' :: rest => readPower? true rest
      | '+' :: rest => readPower? false rest
      | rest => readPower? false rest
    else none

/-- The digits of a whole number: a zero in front stands alone. -/
def wholeDigits (text : List Char) : List Char :=
  match text with
  | '0' :: _ => ['0']
  | _ => text.takeWhile Char.isDigit

/-- Reads a number after its sign. -/
def readMagnitude (negative : Bool) (text : List Char) : Reading (Value × List Char) :=
  let whole := wholeDigits text
  if whole.isEmpty then .error .malformed
  else
    let (fraction, afterFraction) := splitFraction (text.drop whole.length)
    let digits := digitsValue (whole ++ fraction)
    let places : Int := fraction.length
    match splitExponent? afterFraction with
    | some (exponent, rest) =>
      .ok (.float (Binary64.ofDecimal negative digits (exponent - places)), rest)
    | none =>
      if fraction.isEmpty then
        if whole.length > Integer.digitLimit then .error .integerTooLong
        else .ok (.int (if negative then -(digits : Int) else digits), afterFraction)
      else .ok (.float (Binary64.ofDecimal negative digits (-places)), afterFraction)

/-! ## Values -/

/-- The values that have words. -/
def words : List (String × Value) := [
  ("null", .null), ("true", .bool true), ("false", .bool false), ("NaN", .float .nan),
  ("Infinity", .float (.infinity false)), ("-Infinity", .float (.infinity true))]

/-- Reads a word or a number. -/
def readWord (text : List Char) : Reading (Value × List Char) :=
  let found := words.findSome? fun (word, value) =>
    (Text.dropStart? word.toList text).map ((value, ·))
  match found with
  | some result => .ok result
  | none =>
    match text with
    | '-' :: rest => readMagnitude true rest
    | _ => readMagnitude false text

/-- The start of an entry: a quoted key and a colon. -/
def readKey (text : List Char) : Reading (Option String × List Char) :=
  match text with
  | '"' :: rest => do
    let (name, after) ← readText rest
    match skipGap after with
    | ':' :: value => .ok (name, skipGap value)
    | _ => .error .malformed
  | _ => .error .malformed

/-- A list of the items, if each of them is a value. -/
def ofItems (items : List (Option Value)) : Option Value :=
  (items.mapM id).map .list

/-- Puts a value under a name: in the place of the entry that has the name, or at the end. -/
def put (entries : List (String × Option Value)) (name : String) (value : Option Value) :
    List (String × Option Value) :=
  match entries with
  | [] => [(name, value)]
  | (other, old) :: rest =>
    if other == name then (other, value) :: rest else (other, old) :: put rest name value

/-- The entry of a mapping, if its value is one. -/
def ofEntry (entry : String × Option Value) : Option (Key × Value) :=
  entry.2.map (.text entry.1, ·)

/-- A mapping with the entries put into it one after the other, if each name is a text and each
value that remains in the end is one. -/
def ofEntries (entries : List (Option String × Option Value)) : Option Value := do
  let named ← entries.mapM fun entry => entry.1.map (·, entry.2)
  let remaining := named.foldl (fun all entry => put all entry.1 entry.2) []
  (remaining.mapM ofEntry).map .object

/-- Enters a collection, which takes one level of the room for nesting. -/
def enter (room : Nat) : Reading Nat :=
  match room with
  | 0 => .error .nestedTooDeep
  | room + 1 => .ok room

mutual

/-- Reads one value. There is none if half a character stands alone in a text of it, which does not
keep the reader from going on. Each value and each item takes one unit of `fuel`, of which a whole
text is given enough. -/
def readValue (fuel room : Nat) (text : List Char) : Reading (Option Value × List Char) :=
  match fuel with
  | 0 => .error .malformed
  | fuel + 1 =>
    match text with
    | '"' :: rest => do
      let (content, after) ← readText rest
      .ok (content.map .text, after)
    | '[' :: rest => do
      let inside ← enter room
      match skipGap rest with
      | ']' :: after => .ok (some (.list []), after)
      | items => do
        let (values, after) ← readItems fuel inside items
        .ok (ofItems values, after)
    | '\x7b' :: rest => do
      let inside ← enter room
      match skipGap rest with
      | '\x7d' :: after => .ok (some (.object []), after)
      | text => do
        let (entries, after) ← readEntries fuel inside text
        .ok (ofEntries entries, after)
    | _ => do
      let (value, after) ← readWord text
      .ok (some value, after)

/-- Reads items up to the closing bracket. -/
def readItems (fuel room : Nat) (text : List Char) : Reading (List (Option Value) × List Char) :=
  match fuel with
  | 0 => .error .malformed
  | fuel + 1 => do
    let (value, after) ← readValue fuel room text
    match skipGap after with
    | ',' :: rest =>
      let (values, last) ← readItems fuel room (skipGap rest)
      .ok (value :: values, last)
    | ']' :: rest => .ok ([value], rest)
    | _ => .error .malformed

/-- Reads entries up to the closing brace. -/
def readEntries (fuel room : Nat) (text : List Char) :
    Reading (List (Option String × Option Value) × List Char) :=
  match fuel with
  | 0 => .error .malformed
  | fuel + 1 => do
    let (name, valueText) ← readKey text
    let (value, after) ← readValue fuel room valueText
    match skipGap after with
    | ',' :: rest =>
      let (entries, last) ← readEntries fuel room (skipGap rest)
      .ok ((name, value) :: entries, last)
    | '\x7d' :: rest => .ok ([(name, value)], rest)
    | _ => .error .malformed

end

/-- Reads a whole text. The stack has room for `room` collections inside each other. -/
def read (room : Nat) (text : String) : Except ReadError (Option Value) := do
  let chars := text.toList
  let (value?, rest) ← readValue (2 * chars.length + 2) room (skipGap chars)
  if (skipGap rest).isEmpty then .ok value? else .error .malformed

end ApiBinding.Json
