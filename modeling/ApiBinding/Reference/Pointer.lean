import ApiBinding.Number.Integer
import ApiBinding.Value.Display

/-! Pointers into a document: segments after a number sign, each a key or an item index.
Inside a segment a tilde with a digit stands for a slash or a tilde. -/

namespace ApiBinding.Pointer

/-! ## Segments -/

def unescape : List Char → List Char
  | '~' :: '1' :: rest => '/' :: unescape rest
  | '~' :: '0' :: rest => '~' :: unescape rest
  | c :: rest => c :: unescape rest
  | [] => []

def escape : List Char → List Char
  | [] => []
  | c :: rest =>
    if c == '~' then '~' :: '0' :: escape rest
    else if c == '/' then '~' :: '1' :: escape rest
    else c :: escape rest

/-- The unescaped segments of a pointer text after its start. -/
def segments (text : List Char) : List String :=
  (Text.pieces (· == '/') text).map fun segment => String.ofList (unescape segment)

/-- The pointer to the place that a path of keys leads to. -/
def ofPath (path : List String) : String :=
  String.ofList ('#' :: path.flatMap fun key => '/' :: escape key.toList)

/-! ## Lookup -/

/-- The item at an index; a negative index counts from the end. -/
def itemAt? (items : List Value) (index : Int) : Option Value :=
  if 0 ≤ index then items[index.toNat]?
  else if -index ≤ items.length then items[(items.length + index).toNat]?
  else none

/-- One step of a walk: to the entry of a mapping or the item of a list. -/
def enter (current : Value) (segment : String) : Except Unresolved Value :=
  match current with
  | .object entries =>
    match Mapping.find? entries segment with
    | some value => .ok value
    | none => .error (.missingKey segment)
  | .list items =>
    match (Integer.read? segment.toList).bind (itemAt? items) with
    | some value => .ok value
    | none => .error (.invalidIndex segment)
  | other => .error (.notCollection other.kindName)

/-- The value that a walk along segments ends at, which must not be null. -/
def walk (document : Value) (path : List String) : Except Unresolved Value := do
  match ← path.foldlM enter document with
  | .null => .error .emptyTarget
  | value => .ok value

/-- Refuses a reference that is no pointer into the document, with its display form. -/
def refuse {α : Type} (target : Value) : Except Failure α := do
  .error (.fault (.externalReference (← target.shown)))

/-- The value a reference points at. Only pointers into the document itself are followed. -/
def lookup (document target : Value) : Except Failure Value :=
  let inside :=
    target.text?.bind fun ref => (Text.dropStart? ['#', '/'] ref.toList).map ((ref, ·))
  match inside with
  | some (ref, path) =>
    (walk document (segments path)).mapError fun cause => .fault (.unresolved ref cause)
  | none => refuse target

/-! ## Chains of references -/

/-- Follows references until a value that is none; `seen` holds those followed so far. -/
def followWithin (document : Value) : Nat → List String → Value → Except Failure Value
  | 0, _, _ => .error (.defect .depthExhausted)
  | depth + 1, seen, node =>
    match node.object?.bind (Mapping.find? · "$ref") with
    | none => .ok node
    | some (.list _) => .error (.defect .collectionReference)
    | some (.object _) => .error (.defect .collectionReference)
    | some (.text ref) =>
      if seen.contains ref then .error (.fault (.circularReference ref))
      else do
        let next ← lookup document (.text ref)
        followWithin document depth (ref :: seen) next
    | some target => lookup document target

/-- The value at the end of a chain of references. The document holds fewer references than it
has nodes, so the bound on the steps is never reached. -/
def follow (document node : Value) : Except Failure Value :=
  followWithin document (document.size + 3) [] node

end ApiBinding.Pointer
