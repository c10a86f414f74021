import ApiBinding.Options.Basic
import ApiBinding.Validation.Writer

/-! The data form of options. A key that is no option is refused, so that a slip of the pen does
not pass unnoticed. -/

namespace ApiBinding.Options

open ApiBinding.Validated (FieldKey)

def fieldNames : List String := [
  "reserved_prefix", "numeric_prefix", "response_codes", "default_path_param_type",
  "promote_inline_response"]

/-- Reads options; what is not given keeps its default. -/
def read (scalars : Validated.Scalars) : Validated.Reader Options :=
  Validated.fields fun data =>
    let initial : Options := {}
    let options := Options.mk
      <$> Validated.withDefault (.plain "reserved_prefix") initial.reservedPrefix
        scalars.text data
      <*> Validated.withDefault (.plain "numeric_prefix") initial.numericPrefix
        scalars.text data
      <*> Validated.withDefault (.plain "response_codes") initial.responseCodes
        (Validated.list scalars.text) data
      <*> Validated.withDefault (.plain "default_path_param_type") initial.defaultPathType
        scalars.text data
      <*> Validated.withDefault (.plain "promote_inline_response")
        initial.promoteInlineResponse scalars.flag data
    options.andIssues (Validated.strangerIssues fieldNames data)

def toValue (options : Options) : Value :=
  .ofFields [
    ("reserved_prefix", .text options.reservedPrefix),
    ("numeric_prefix", .text options.numericPrefix),
    ("response_codes", .list (options.responseCodes.map .text)),
    ("default_path_param_type", .text options.defaultPathType),
    ("promote_inline_response", .bool options.promoteInlineResponse)]

end ApiBinding.Options
