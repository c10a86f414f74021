import ApiBinding.Text.CaseRuns
import ApiBinding.Text.CasedRanges

/-! Upper and lower case over all of Unicode. A letter may have several letters as its other
case, and a capital sigma takes the final form at the end of a word. -/

namespace ApiBinding.Text

/-- The other case of a character, from its runs and sequences; itself if it has none. -/
def changeCase (runs : List CaseRun) (sequences : List (Nat × List Nat)) (c : Char) : List Char :=
  match sequences.lookup c.toNat with
  | some codes => codes.map Char.ofNat
  | none =>
    match otherCase? c.toNat runs with
    | some code => [Char.ofNat code]
    | none => [c]

/-- The upper case of one character. -/
def upperChar (c : Char) : List Char :=
  changeCase upperRuns upperSequences c

def upper (text : List Char) : List Char :=
  text.flatMap upperChar

/-- Upper-cases the first character only. -/
def upperFirst : List Char → List Char
  | [] => []
  | c :: rest => upperChar c ++ rest

/-! ## Lower case -/

/-- Whether the first character that counts in the text is a cased letter. -/
def startsCased (text : List Char) : Bool :=
  match text.dropWhile fun c => inRanges c.toNat caseIgnorableRanges with
  | [] => false
  | c :: _ => inRanges c.toNat casedRanges

/-- Lower-cases a text of which `before`, last character first, has been read. -/
def lowerAfter (before : List Char) : List Char → List Char
  | [] => []
  | c :: rest =>
    let lowered :=
      if c == 'Σ' then
        if startsCased before && !startsCased rest then ['ς'] else ['σ']
      else changeCase lowerRuns lowerSequences c
    lowered ++ lowerAfter (c :: before) rest

def lower (text : List Char) : List Char :=
  lowerAfter [] text

end ApiBinding.Text
