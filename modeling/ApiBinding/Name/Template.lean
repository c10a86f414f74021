import ApiBinding.Text.Class

/-! Path templates: a name in braces stands for a segment that the caller fills in. -/

namespace ApiBinding.Name.Template

/-- The braced names of a text; `opened` holds what was read, last character first, since an
opening brace. Empty braces hold no name. -/
def placeholdersFrom : Option (List Char) → List Char → List String
  | _, [] => []
  | none, c :: rest =>
    if c == '\x7b' then placeholdersFrom (some []) rest else placeholdersFrom none rest
  | some read, c :: rest =>
    if c == '\x7d' then
      if read.isEmpty then placeholdersFrom none rest
      else String.ofList read.reverse :: placeholdersFrom none rest
    else placeholdersFrom (some (c :: read)) rest

/-- The placeholders of a path template, in order and with repeats. -/
def placeholders (path : String) : List String :=
  placeholdersFrom none path.toList

/-- Removes pairs of braces; a brace that nothing closes stays. -/
def unbraceFrom : Option (List Char) → List Char → List Char
  | none, [] => []
  | some read, [] => '\x7b' :: read.reverse
  | none, c :: rest =>
    if c == '\x7b' then unbraceFrom (some []) rest else c :: unbraceFrom none rest
  | some read, c :: rest =>
    if c == '\x7d' then read.reverse ++ unbraceFrom none rest
    else unbraceFrom (some (c :: read)) rest

def unbrace (text : List Char) : List Char :=
  unbraceFrom none text

/-- The segments of a path without their braces; empty segments do not count. -/
def segments (path : String) : List (List Char) :=
  ((Text.pieces (· == '/') path.toList).filter (!·.isEmpty)).map unbrace

end ApiBinding.Name.Template
