import ApiBinding.Record.Basic
import ApiBinding.Validation.Writer

/-! The data form of published records and their fields. -/

namespace ApiBinding

namespace Field

def read (scalars : Validated.Scalars) : Validated.Reader (Field String) :=
  Validated.fields fun data => Field.mk
    <$> Validated.required (.plain "name") scalars.text data
    <*> Validated.withDefault (.plain "required") false scalars.flag data
    <*> Validated.required (.plain "type") scalars.text data
    <*> Validated.withDefault (.plain "description") none (Validated.optional scalars.text) data
    <*> Validated.withDefault (.plain "format") none (Validated.optional scalars.text) data

def toValue (field : Field String) : Value :=
  .ofFields [
    ("name", .text field.name),
    ("required", .bool field.required),
    ("type", .text field.type),
    ("description", .ofText? field.description),
    ("format", .ofText? field.format)]

end Field

def Placement.read : Validated.Reader Placement :=
  Validated.choice Placement.ofValue?

namespace Record

def read (scalars : Validated.Scalars) : Validated.Reader (Record String) :=
  Validated.fields fun data => Record.mk
    <$> Validated.required (.plain "name") scalars.text data
    <*> Validated.withDefault (.plain "description") none (Validated.optional scalars.text) data
    <*> Validated.withDefault (.plain "fields") [] (Validated.list (Field.read scalars)) data
    <*> Validated.withDefault (.plain "placement") none (Validated.optional Placement.read) data

def toValue (record : Record String) : Value :=
  .ofFields [
    ("name", .text record.name),
    ("description", .ofText? record.description),
    ("fields", .list (record.fields.map Field.toValue)),
    ("placement", .ofText? (record.placement.map Placement.word))]

end Record

end ApiBinding
