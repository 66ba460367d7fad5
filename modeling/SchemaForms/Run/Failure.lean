import SchemaForms.Config
import SchemaForms.Document.Path
import SchemaForms.Json.Fault
import SchemaForms.Schema.Verified
import SchemaForms.Text.Utf8
import SchemaForms.Validation.Walk
import SchemaForms.Yaml.Fault

/-!
# Why a run fails

A `Failure` is one of the causes that keep a run from its result: a document that cannot be had or
read, a schema that cannot be used, settings that are refused, a validation that was aborted.
-/

namespace SchemaForms

/-- Why a run has no result. -/
inductive Failure where
  | notFound (path : Path)
  /-- The path of a document was left blank. -/
  | blankPath
  | undecodable (fault : Text.Utf8Fault)
  | json (error : Json.Error)
  /-- An error in a YAML text; some messages show a part of the text. -/
  | yaml (text : String) (error : Yaml.Error)
  | schema (error : SchemaError)
  | config (fault : ConfigFault)
  | aborted (cause : Abort)

namespace Failure

/-- The wording of a failure. -/
def wording : Failure → String
  | notFound path => "document not found: " ++ path.toString
  | blankPath => "expected str, bytes or os.PathLike object, not list"
  | undecodable fault => fault.wording
  | json error => error.wording
  | yaml text error => error.wording text.toList
  | schema error => error.wording
  | config fault => fault.wording
  | aborted cause => cause.wording

end Failure

end SchemaForms
