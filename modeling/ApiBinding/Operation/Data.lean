import ApiBinding.Operation.Binding
import ApiBinding.Record.Data

/-! The data form of parameters, files and bindings. Some fields are published under a name of
their own; they are read under either name. -/

namespace ApiBinding

open ApiBinding.Validated (FieldKey)

namespace FileField

def read (scalars : Validated.Scalars) : Validated.Reader FileField :=
  Validated.fields fun data => FileField.mk
    <$> Validated.required (.plain "name") scalars.text data
    <*> Validated.withDefault (.plain "multiple") false scalars.flag data

def toValue (file : FileField) : Value :=
  .ofFields [("name", .text file.name), ("multiple", .bool file.multiple)]

end FileField

namespace Parameter

def schemaKey : FieldKey := ⟨"schema", "schema_"⟩

def read (scalars : Validated.Scalars) : Validated.Reader Parameter :=
  Validated.fields fun data => Parameter.mk
    <$> Validated.required (.plain "name") scalars.text data
    <*> Validated.required (.plain "location") (Validated.choice Location.ofValue?) data
    <*> Validated.withDefault (.plain "required") false scalars.flag data
    <*> Validated.withDefault (.plain "description") none (Validated.optional scalars.text) data
    <*> Validated.withDefault schemaKey none (Validated.optional scalars.mapping) data

def toValue (naming : Naming) (parameter : Parameter) : Value :=
  .object [
    (.text "name", .text parameter.name),
    (.text "location", .text parameter.location.word),
    (.text "required", .bool parameter.required),
    (.text "description", .ofText? parameter.description),
    (schemaKey.under naming, parameter.schema.elim .null .object)]

end Parameter

namespace Binding

def formKey : FieldKey := ⟨"isFormData", "is_form_data"⟩

def pathKey : FieldKey := ⟨"pathVar", "path_var"⟩

def read (scalars : Validated.Scalars) : Validated.Reader (Binding String) :=
  Validated.fields fun data => Binding.mk
    <$> Validated.required (.plain "name") scalars.text data
    <*> Validated.withDefault (.plain "comment") "" scalars.text data
    <*> Validated.withDefault (.plain "interfaces") [] (Validated.list (Record.read scalars)) data
    <*> Validated.withDefault (.plain "body") none (Validated.optional scalars.text) data
    <*> Validated.withDefault formKey false scalars.flag data
    <*> Validated.withDefault pathKey none (Validated.optional scalars.text) data
    <*> Validated.withDefault (.plain "query") none (Validated.optional scalars.text) data
    <*> Validated.withDefault (.plain "res") none (Validated.optional scalars.text) data
    <*> Validated.withDefault (.plain "files") [] (Validated.list (FileField.read scalars)) data

def toValue (naming : Naming) (binding : Binding String) : Value :=
  .object [
    (.text "name", .text binding.name),
    (.text "comment", .text binding.comment),
    (.text "interfaces", .list (binding.records.map Record.toValue)),
    (.text "body", .ofText? binding.body),
    (formKey.under naming, .bool binding.isFormData),
    (pathKey.under naming, .ofText? binding.pathRecord),
    (.text "query", .ofText? binding.queryRecord),
    (.text "res", .ofText? binding.response),
    (.text "files", .list (binding.files.map FileField.toValue))]

end Binding

end ApiBinding
