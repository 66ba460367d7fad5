import SchemaForms.Number.Reading

/-!
# What a plain scalar stands for

A plain scalar without a tag is given one by its text alone: a truth value, a number in one of the
spellings of YAML 1.1, the merge of another mapping, nothing, or a string. Dates are strings.
-/

namespace SchemaForms.Yaml

/-- The full name of one of the tags that YAML itself defines. -/
def coreTag (name : String) : String := "tag:yaml.org,2002:" ++ name

namespace Plain

open SchemaForms.Number (takeSign)

/-- The spellings of the truth values, in lower case. -/
def booleans : List (String × Bool) :=
  [("yes", true), ("no", false), ("true", true), ("false", false), ("on", true), ("off", false)]

/-- A word with its first letter in upper case. -/
def capitalized : List Char → List Char
  | [] => []
  | c :: rest => c.toUpper :: rest

/-- Whether a text is a word in lower case, capitalized, or in upper case. -/
def isWord (cs : List Char) (word : String) : Bool :=
  cs = word.toList || cs = capitalized word.toList || cs = word.toList.map Char.toUpper

/-- Whether `c` is a digit of ASCII. -/
def isDigit (c : Char) : Bool := '0' ≤ c && c ≤ '9'

/-- Whether `c` is a digit or an underscore. -/
def isSpacedDigit (c : Char) : Bool := isDigit c || c = '_'

/-- What follows a colon and one or two digits that write a number below sixty. -/
def dropSixty? : List Char → Option (List Char)
  | [':', a] => if isDigit a then some [] else none
  | ':' :: a :: b :: rest =>
    if !isDigit a then none
    else if a ≤ '5' && isDigit b then some rest
    else some (b :: rest)
  | _ => none

/-- What follows as many such groups as there are; `none` without a group. -/
def dropSixties? : (fuel : Nat) → List Char → Option (List Char)
  | 0, _ => none
  | fuel + 1, cs => (dropSixty? cs).map fun rest => (dropSixties? fuel rest).getD rest

/-- What follows a digit and more digits or underscores. -/
def dropDigits? : List Char → Option (List Char)
  | c :: rest => if isDigit c then some (rest.dropWhile isSpacedDigit) else none
  | [] => none

/-- Whether an exponent with a sign, or nothing, stands here. -/
def isExponent : List Char → Bool
  | [] => true
  | mark :: sign :: digits =>
    (mark = 'e' || mark = 'E') && (sign = '+' || sign = '-') && !digits.isEmpty &&
      digits.all isDigit
  | _ => false

/-- Whether digits behind a point, and then an exponent or nothing, stand here. -/
def isFraction (cs : List Char) : Bool := isExponent (cs.dropWhile isSpacedDigit)

/-- Whether a text spells an integer: binary, octal, decimal, hexadecimal or in base sixty. -/
def isInteger (cs : List Char) : Bool :=
  let body := (takeSign cs).2
  match body with
  | '0' :: 'b' :: digits => !digits.isEmpty && digits.all fun c => c = '0' || c = '1' || c = '_'
  | '0' :: 'x' :: digits =>
    !digits.isEmpty && digits.all fun c => isSpacedDigit c || ('a' ≤ c.toLower && c.toLower ≤ 'f')
  | '0' :: digits => digits.all fun c => ('0' ≤ c && c ≤ '7') || c = '_'
  | c :: rest =>
    isDigit c &&
      (let rest := rest.dropWhile isSpacedDigit
       rest.isEmpty || dropSixties? rest.length rest == some [])
  | [] => false

/-- Whether a text spells a double: with a point, in base sixty with a point, or as a word. -/
def isDouble (cs : List Char) : Bool :=
  let body := (takeSign cs).2
  (match dropDigits? body with
    | some ('.' :: rest) => isFraction rest
    | some rest =>
      match dropSixties? rest.length rest with
      | some ('.' :: places) => places.all isSpacedDigit
      | _ => false
    | none => false) ||
  (match cs with
    | '.' :: c :: rest => isDigit c && isFraction rest
    | _ => false) ||
  (match body with
    | '.' :: word => isWord word "inf"
    | _ => false) ||
  (match cs with
    | '.' :: word => word = "nan".toList || word = "NaN".toList || word = "NAN".toList
    | _ => false)

/-- A text without one line feed at its end. -/
def dropFinalBreak (cs : List Char) : List Char :=
  if cs.getLast? = some '\n' then cs.dropLast else cs

/-- The tag that the text of a plain scalar gives it. A line feed at its end does not count. -/
def tag (text : String) : String :=
  let cs := dropFinalBreak text.toList
  if text = "" then coreTag "null"
  else if booleans.any fun (word, _) => isWord cs word then coreTag "bool"
  else if isDouble cs then coreTag "float"
  else if isInteger cs then coreTag "int"
  else if cs = "<<".toList then coreTag "merge"
  else if cs = ['~'] || isWord cs "null" then coreTag "null"
  else if cs = ['='] then coreTag "value"
  else if cs = ['!'] || cs = ['&'] || cs = ['*'] then coreTag "yaml"
  else coreTag "str"

end Plain

end SchemaForms.Yaml
