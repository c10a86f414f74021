import ApiBinding.Schema.Basic

/-! File fields of a form: how they are found and how their schemas are marked. -/

namespace ApiBinding

/-- A field of a form that takes one file or several. -/
structure FileField where
  name : String
  multiple : Bool
deriving DecidableEq, Repr

namespace FileField

open ApiBinding.Schema

def fileFormats : List String := ["binary", "base64"]

/-- Whether a schema is that of a file, by its type or by its format. -/
def isFile (schema : Mapping) : Bool :=
  (typeWord? schema).any fileTypes.contains ||
    (format? (.object schema)).any fileFormats.contains

/-- Whether a property takes several files (`some true`), one (`some false`) or none. -/
def multiplicity? (property : Value) : Option Bool :=
  match property with
  | .object schema =>
    if isFile schema then some false
    else
      match Mapping.field schema "items" with
      | .object items =>
        if typeWord? schema == some "array" && isFile items then some true else none
      | _ => none
  | _ => none

/-- The file field of a property. -/
def ofProperty? (name : Key) (property : Value) : Except Failure (Option FileField) :=
  match multiplicity? property, name with
  | none, _ => .ok none
  | some multiple, .text text => .ok (some ⟨text, multiple⟩)
  | some _, _ => .error (.defect (.invalid [⟨[.field "name"], .textExpected⟩]))

/-- A schema with the type of a file. -/
def withFileType (schema : Mapping) : Mapping :=
  schema.insert (.text "type") (.text "file")

/-- Gives a schema, or the items of a list of files, the type of a file. -/
def mark (schema : Mapping) (multiple : Bool) : Except Failure Mapping :=
  if multiple then
    match schema.find? "items" with
    | none => .error (.defect .itemsMissing)
    | some (.object items) =>
      .ok (schema.insert (.text "items") (.object (withFileType items)))
    | some _ => .error (.defect .itemsNotMapping)
  else .ok (withFileType schema)

/-- Marks the file fields among the properties of an object. -/
def markAll (properties : Mapping) (files : List FileField) : Except Failure Mapping :=
  files.foldlM
    (fun marked file =>
      match marked.find? file.name with
      | some (.object property) => do
        let property ← mark property file.multiple
        .ok (marked.insert (.text file.name) (.object property))
      | _ => .ok marked)
    properties

end FileField

end ApiBinding
