import ApiBinding.Text.WordRanges
import ApiBinding.Text.PrintableRanges
import ApiBinding.Text.DigitRanges

/-! Character classes over all of Unicode, and texts cut by them. -/

namespace ApiBinding.Text

/-- A letter or number of any script, or the low line. -/
def isWord (c : Char) : Bool :=
  inRanges c.toNat wordRanges

/-- A character with a visible form, or the plain space. -/
def isPrintable (c : Char) : Bool :=
  inRanges c.toNat printableRanges

/-- A character with a digit value, superscripts and circled digits included. -/
def isDigit (c : Char) : Bool :=
  inRanges c.toNat digitRanges

/-- The value of a decimal digit of any script. -/
def decimalValue? (c : Char) : Option Nat :=
  (decimalZeros.find? fun first => first ≤ c.toNat && c.toNat < first + 10).map (c.toNat - ·)

/-- The blanks among the control characters that move the print position. -/
def isLayoutBlank (c : Char) : Bool :=
  c == ' ' || (9 ≤ c.toNat && c.toNat ≤ 13)

/-- The blanks beyond the first 128 characters: spaces of all widths and line marks. -/
def isWideBlank (c : Char) : Bool :=
  [0x85, 0xa0, 0x1680, 0x2028, 0x2029, 0x202f, 0x205f, 0x3000].contains c.toNat ||
    (0x2000 ≤ c.toNat && c.toNat ≤ 0x200a)

/-- A blank: it separates words. The four information separators count as blanks too. -/
def isBlank (c : Char) : Bool :=
  isLayoutBlank c || (0x1c ≤ c.toNat && c.toNat ≤ 0x1f) || isWideBlank c

/-! ## Cutting texts -/

/-- The pieces of a text between the characters that satisfy `cut`, empty pieces included. -/
def pieces (cut : Char → Bool) : List Char → List (List Char)
  | [] => [[]]
  | c :: rest =>
    if cut c then [] :: pieces cut rest else (pieces cut rest).modifyHead (c :: ·)

/-- The maximal runs of characters that are no blanks. -/
def words (text : List Char) : List (List Char) :=
  (pieces isBlank text).filter (!·.isEmpty)

/-- What follows the last occurrence of a character, or the whole text without one. -/
def afterLast (mark : Char) (text : List Char) : List Char :=
  (text.reverse.takeWhile (· != mark)).reverse

/-- What follows `start` in a text that begins with it. -/
def dropStart? : List Char → List Char → Option (List Char)
  | [], text => some text
  | s :: start, c :: rest => if s == c then dropStart? start rest else none
  | _ :: _, [] => none

theorem dropStart?_eq_some_iff {start text rest : List Char} :
    dropStart? start text = some rest ↔ text = start ++ rest := by
  induction start generalizing text with
  | nil => simp [dropStart?, eq_comm]
  | cons s start ih =>
    cases text with
    | nil => simp [dropStart?]
    | cons c text =>
      by_cases h : s = c
      · simp [dropStart?, h, ih]
      · have h' : c ≠ s := Ne.symm h
        simp [dropStart?, h, h']

/-- Whether `part` occurs in the text as a block of neighbours. -/
def occursIn (part : List Char) : List Char → Bool
  | [] => part.isEmpty
  | c :: rest => part.isPrefixOf (c :: rest) || occursIn part rest

end ApiBinding.Text
