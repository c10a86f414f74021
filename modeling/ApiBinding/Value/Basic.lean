import ApiBinding.Number.Binary64

/-! Document values: what a parsed API document, an option file or a schema is made of.
Mappings keep the order in which their keys were written. -/

namespace ApiBinding

/-- A mapping key. Documents written in richer formats than plain object notation have keys
that are no texts, such as numeric status codes. -/
inductive Key where
  | text (name : String)
  | int (number : Int)
  | float (number : Binary64)
  | bool (flag : Bool)
  | null
deriving DecidableEq, Repr

inductive Value where
  | null
  | bool (flag : Bool)
  | int (number : Int)
  | float (number : Binary64)
  | date (text : String)
  | text (content : String)
  | list (items : List Value)
  | object (entries : List (Key × Value))
deriving Repr

/-- An ordered mapping from keys to values. -/
abbrev Mapping := List (Key × Value)

instance : Inhabited Value := ⟨.null⟩

namespace Key

/-- A number written as a whole number where it is one, truth values as one and zero. Keys of
one canonical form are the same key. -/
def canonical : Key → Key
  | .bool flag => .int (if flag then 1 else 0)
  | .float number =>
    match number.toInt? with
    | some whole => .int whole
    | none => .float number
  | key => key

/-- Whether two keys denote the same entry. -/
def same (a b : Key) : Bool :=
  a.canonical == b.canonical

/-- The key with the content of a scalar value. -/
def ofValue? : Value → Option Key
  | .null => some .null
  | .bool flag => some (.bool flag)
  | .int number => some (.int number)
  | .float number => some (.float number)
  | .text content => some (.text content)
  | .date _ | .list _ | .object _ => none

def toValue : Key → Value
  | .text name => .text name
  | .int number => .int number
  | .float number => .float number
  | .bool flag => .bool flag
  | .null => .null

end Key

namespace Mapping

/-- The value under a key. -/
def get? (m : Mapping) (key : Key) : Option Value :=
  match m with
  | [] => none
  | (k, v) :: rest => if k.same key then some v else get? rest key

/-- The value under a text key. -/
def find? (m : Mapping) (name : String) : Option Value :=
  get? m (.text name)

/-- The value under a text key, null where there is none. -/
def field (m : Mapping) (name : String) : Value :=
  (find? m name).getD .null

def has (m : Mapping) (name : String) : Bool :=
  (find? m name).isSome

/-- Puts a value under a key: in the place of the entry that has the key, or at the end. -/
def insert (m : Mapping) (key : Key) (value : Value) : Mapping :=
  match m with
  | [] => [(key, value)]
  | (k, v) :: rest => if k.same key then (k, value) :: rest else (k, v) :: insert rest key value

/-- Adds an entry at the end unless the key has one. -/
def insertNew (m : Mapping) (key : Key) (value : Value) : Mapping :=
  if (get? m key).isSome then m else m ++ [(key, value)]

/-- Adds the entries of a second mapping whose keys the first one lacks. -/
def extend (m added : Mapping) : Mapping :=
  added.foldl (fun all entry => insertNew all entry.1 entry.2) m

def keys (m : Mapping) : List Key :=
  m.map Prod.fst

end Mapping

namespace Value

/-- Whether a value counts as present: nulls, zeros, and empty texts and collections do not. -/
def isTruthy : Value → Bool
  | .null => false
  | .bool flag => flag
  | .int number => number != 0
  | .float number => !number.isZero
  | .date _ => true
  | .text content => content != ""
  | .list items => !items.isEmpty
  | .object entries => !entries.isEmpty

def text? : Value → Option String
  | .text content => some content
  | _ => none

def list? : Value → Option (List Value)
  | .list items => some items
  | _ => none

def object? : Value → Option Mapping
  | .object entries => some entries
  | _ => none

/-- The text of a value that is a text with at least one character. -/
def nonemptyText? (value : Value) : Option String :=
  value.text?.filter (· != "")

/-- The name of the kind of a value, as messages give it. -/
def kindName : Value → String
  | .null => "NoneType"
  | .bool _ => "bool"
  | .int _ => "int"
  | .float _ => "float"
  | .date _ => "date"
  | .text _ => "str"
  | .list _ => "list"
  | .object _ => "dict"

/-! ## Size -/

mutual

/-- The number of nodes of a value. -/
def size : Value → Nat
  | .list items => listSize items + 1
  | .object entries => mappingSize entries + 1
  | _ => 1

def listSize : List Value → Nat
  | [] => 0
  | item :: rest => item.size + listSize rest

def mappingSize : List (Key × Value) → Nat
  | [] => 0
  | (_, value) :: rest => value.size + mappingSize rest

end

end Value

end ApiBinding
