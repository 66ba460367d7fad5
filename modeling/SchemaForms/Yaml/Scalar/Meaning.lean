import SchemaForms.Text.Base64
import SchemaForms.Text.LowerCase
import SchemaForms.Value.Basic
import SchemaForms.Yaml.Moment
import SchemaForms.Yaml.PlainTag

/-!
# What a scalar says under its tag

A tag promises a truth value, a number, octets, or a date; the text of the scalar has to keep the
promise. A tag may stand in front of any text, so the readers here take more spellings than a plain
scalar without a tag has, and refuse the rest with the part that they could not read.
-/

namespace SchemaForms.Yaml.Meaning

open SchemaForms.Number (Double readInteger readDouble? takeSign)

/-- The truth value that a text says, in any mix of cases. -/
def truth (text : String) : Except Error Bool :=
  let word := String.ofList (Text.lowerCase text.toList)
  match Plain.booleans.lookup word with
  | some b => .ok b
  | none => .error (.notABoolean word)

/-- An integer in a base. -/
def inBase (base : Nat) (cs : List Char) : Except Error Int :=
  match readInteger base cs with
  | .ok n => .ok n
  | .error .malformed => .error (.notAnInteger base (String.ofList cs))
  | .error (.tooLong digits) => .error (.integerTooLong digits)

/-- A number written by digits of base sixty, the highest first. -/
def sexagesimal (digits : List Int) : Int := digits.foldl (fun n digit => 60 * n + digit) 0

/-- The parts of a text between colons. -/
def colonParts (cs : List Char) : List (List Char) :=
  cs.foldr (fun c parts =>
    if c = ':' then [] :: parts
    else match parts with
      | part :: rest => (c :: part) :: rest
      | [] => [[c]]) [[]]

/-- A text without underscores and without its sign, and whether that was a minus; a text without
anything else is no number. -/
def unsigned (text : List Char) : Except Error (Bool × List Char) :=
  match text.filter (· ≠ '_') with
  | [] => .error .emptyNumber
  | body => .ok (takeSign body)

/-- The integer without a sign that a text says: after `0b` in base two, after `0x` in base sixteen,
after another `0` in base eight, with colons in base sixty. -/
def magnitude (cs : List Char) : Except Error Int :=
  match cs with
  | [] => .error .emptyNumber
  | ['0'] => .ok 0
  | '0' :: 'b' :: digits => inBase 2 digits
  | '0' :: 'x' :: digits => inBase 16 digits
  | '0' :: _ => inBase 8 cs
  | _ =>
    if cs.contains ':' then do
      let digits ← (colonParts cs).mapM (inBase 10)
      .ok (sexagesimal digits)
    else inBase 10 cs

/-- The integer that a text says. -/
def integer (text : String) : Except Error Int := do
  let (negative, body) ← unsigned text.toList
  let n ← magnitude body
  .ok (if negative then -n else n)

/-- A double in the usual spelling. -/
def decimal (cs : List Char) : Except Error Double :=
  match readDouble? cs with
  | some x => .ok x
  | none => .error (.notADouble (String.ofList cs))

/-- The sum of parts of base sixty, the lowest first, each as many times as `worth` says, which is a
double only if it is not too large. Each part is scaled and added in turn, and each step rounds. -/
def addSexagesimal (sum : Double) (worth : Int) : List Double → Except Error Double
  | [] => .ok sum
  | part :: rest =>
    if (Double.ofInt worth).isFinite then
      addSexagesimal (sum.add (part.mul (Double.ofInt worth))) (worth * 60) rest
    else .error .tooManyParts

/-- The double written by parts of base sixty, the highest first. -/
def sexagesimalDouble (parts : List Double) : Except Error Double :=
  addSexagesimal (Double.zero false) 1 parts.reverse

/-- The double that a text says. -/
def double (text : String) : Except Error Double := do
  let (negative, body) ← unsigned text.toList
  let body := Text.lowerCase body
  let x ←
    if body = ".inf".toList then .ok (Double.infinite false)
    else if body = ".nan".toList then .ok Double.nan
    else if body.contains ':' then do
      let parts ← (colonParts body).mapM decimal
      sexagesimalDouble parts
    else decimal body
  .ok (if negative then x.neg else x)

/-- The octets that a text says in base 64, as a leaf. -/
def octets (text : String) (place : Mark) : Except Error Foreign :=
  let cs := text.toList
  let isAscii (c : Char) : Bool := c.toNat < 0x80
  let offending := (cs.dropWhile isAscii).takeWhile (!isAscii ·)
  let fault (f : NodeFault) : Except Error Foreign := .error (.node f place place)
  if offending ≠ [] then fault (.base64NotAscii offending (cs.takeWhile isAscii).length)
  else match Text.base64Decode cs with
    | .ok bytes => .ok (.leaf "bytes" (Text.quotedOctets bytes) true)
    | .error .padding => fault .base64Padding
    | .error (.length characters) => fault (.base64Length characters)

end SchemaForms.Yaml.Meaning
