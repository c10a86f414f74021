import ApiBinding.Record.Basic

/-! The records found so far, at most one per name. A name can be reserved before its record
exists, so the order is that of first mention although inner records are finished first. -/

namespace ApiBinding

structure Catalog where
  /-- Every mentioned name in order of first mention, with its record once that is stored. -/
  slots : List (String × Option (Record TypeExpr))

namespace Catalog

def empty : Catalog := ⟨[]⟩

/-- Whether a name is reserved or stored. -/
def mentions (catalog : Catalog) (name : String) : Bool :=
  catalog.slots.any (·.1 == name)

/-- The record stored under a name. -/
def find? (catalog : Catalog) (name : String) : Option (Record TypeExpr) :=
  (catalog.slots.lookup name).join

/-- The stored records in order of first mention. -/
def records (catalog : Catalog) : List (Record TypeExpr) :=
  catalog.slots.filterMap (·.2)

/-- Reserves a name and tells whether it was free. -/
def reserve (catalog : Catalog) (name : String) : Bool × Catalog :=
  if catalog.mentions name then (false, catalog)
  else (true, ⟨catalog.slots ++ [(name, none)]⟩)

/-- Fills the slot of a record's name, or opens one at the end. -/
def fill (record : Record TypeExpr) :
    List (String × Option (Record TypeExpr)) → List (String × Option (Record TypeExpr))
  | [] => [(record.name, some record)]
  | slot :: rest =>
    if slot.1 == record.name then (record.name, some record) :: rest
    else slot :: fill record rest

/-- Stores a record unless its name has one, and tells whether it was stored. -/
def add (catalog : Catalog) (record : Record TypeExpr) : Bool × Catalog :=
  if (catalog.find? record.name).isSome then (false, catalog)
  else (true, ⟨fill record catalog.slots⟩)

end Catalog

end ApiBinding
