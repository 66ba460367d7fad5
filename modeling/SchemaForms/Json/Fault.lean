import SchemaForms.Number.Reading
import SchemaForms.Text.Position

/-!
# What can be wrong with a JSON text

A `SyntaxFault` is a cause; a `Json.Error` is a cause with its place in the text, or an integer with
too many digits.
-/

namespace SchemaForms.Json

/-- Why a text is not JSON. -/
inductive SyntaxFault where
  | expectingValue
  | expectingPropertyName
  | expectingColon
  | expectingComma
  | unterminatedString
  | invalidControlCharacter
  | invalidEscape
  | invalidUnicodeEscape
  | extraData
  | byteOrderMark
  deriving DecidableEq, Repr

/-- The wording of a cause. -/
def SyntaxFault.wording : SyntaxFault → String
  | expectingValue => "Expecting value"
  | expectingPropertyName => "Expecting property name enclosed in double quotes"
  | expectingColon => "Expecting ':' delimiter"
  | expectingComma => "Expecting ',' delimiter"
  | unterminatedString => "Unterminated string starting at"
  | invalidControlCharacter => "Invalid control character at"
  | invalidEscape => "Invalid \\escape"
  | invalidUnicodeEscape => "Invalid \\uXXXX escape"
  | extraData => "Extra data"
  | byteOrderMark => "Unexpected UTF-8 BOM (decode using utf-8-sig)"

/-- Why a text could not be read. -/
inductive Error where
  /-- A cause at an offset, with the line and the column of that offset. -/
  | malformed (fault : SyntaxFault) (offset line column : Nat)
  /-- An integer with more digits than numbers may have. -/
  | integerTooLong (digits : Nat)
  deriving DecidableEq, Repr

/-- The wording of an error. -/
def Error.wording : Error → String
  | malformed fault offset line column =>
    fault.wording ++ ": line " ++ toString line ++ " column " ++ toString column ++ " (char " ++
      toString offset ++ ")"
  | integerTooLong digits => Number.tooManyDigits digits

end SchemaForms.Json
