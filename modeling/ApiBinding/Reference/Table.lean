import ApiBinding.Reference.Pointer

/-! The definition table of a document: named schemas, and the references that lead to them. -/

namespace ApiBinding

structure Table where
  /-- The text with which references to definitions start. -/
  root : String
  definitions : Mapping

namespace Table

/-- The key of the definition that a reference designates. -/
def keyOf (table : Table) (ref : String) : Except Failure String :=
  match Text.dropStart? table.root.toList ref.toList with
  | some rest => .ok (String.ofList (Pointer.unescape rest))
  | none => .error (.fault (.unresolved ref (.outsideTable table.root)))

/-- The schema that a reference points at. -/
def resolve (table : Table) (ref : String) : Except Failure Mapping := do
  let key ← table.keyOf ref
  match table.definitions.find? key with
  | some (.object schema) => .ok schema
  | _ => .error (.fault (.unresolved ref (.undefined key)))

end Table

end ApiBinding
