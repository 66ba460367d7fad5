import SchemaForms.Text.Digit

/-!
# Words of a command line

A command line is a list of words. A word with a dash in front may be an option: one of the known
names, an unambiguous beginning of a long name, a letter with others attached to it, or a name with
a value behind an equals sign. Negative numbers, words with a space, and whatever
follows a word of two dashes are no options.

`Word.ofTexts` sorts the words of a command line by a set of `OptionRule`s.
-/

namespace SchemaForms.Command

open SchemaForms.Text (digitValue?)

/-- An option that a command knows: what it is for, its names, and whether it has a value, which
only options with long names alone do. -/
structure OptionRule (ι : Type) where
  id : ι
  names : List String
  takesValue : Bool

/-- The names of an option in messages. -/
def OptionRule.title {ι : Type} (rule : OptionRule ι) : String := "/".intercalate rule.names

/-- An option that a word stands for, by one of its names. -/
structure Hit (ι : Type) where
  rule : OptionRule ι
  name : String
  /-- The text behind an equals sign, or behind a dash and a letter. -/
  attached : Option String

/-- Whether an option is named by a single letter. -/
def Hit.isLetter {ι : Type} (hit : Hit ι) : Bool :=
  match hit.name.toList with
  | ['-', letter] => letter ≠ '-'
  | _ => false

/-- A word of a command line. -/
inductive Word (ι : Type) where
  | plain (text : String)
  /-- The two dashes that end the options. -/
  | separator
  /-- A word in the form of an option; what it stands for, if that is known. -/
  | option (text : String) (hit : Option (Hit ι))

namespace Word

variable {ι : Type}

/-- The text of a word. -/
def text : Word ι → String
  | plain text => text
  | separator => "--"
  | option text _ => text

/-- Whether a word is in the form of an option. -/
def isOption : Word ι → Bool
  | option _ _ => true
  | _ => false

/-- All names of some options, each with its option. -/
def namesOf (rules : List (OptionRule ι)) : List (String × OptionRule ι) :=
  rules.flatMap fun rule => rule.names.map fun name => (name, rule)

/-- The option of a name. -/
def ruleOf? (rules : List (OptionRule ι)) (name : String) : Option (OptionRule ι) :=
  (namesOf rules).lookup name

/-- A text in front of its first equals sign, and the text behind it if there is one. -/
def splitEquals (cs : List Char) : String × Option String :=
  match cs.dropWhile (· ≠ '=') with
  | [] => (String.ofList cs, none)
  | _ :: value => (String.ofList (cs.takeWhile (· ≠ '=')), some (String.ofList value))

/-- Whether a text begins with another. -/
def beginsWith (text start : String) : Bool := start.toList.isPrefixOf text.toList

/-- What a word that is no full name may stand for. A word with two dashes may be the beginning of a
name; one with a single dash may be a letter with a value attached. -/
def hits (rules : List (OptionRule ι)) (text : String) : List (Hit ι) :=
  match text.toList with
  | '-' :: '-' :: _ =>
    let (start, attached) := splitEquals text.toList
    (namesOf rules).filterMap fun (name, rule) =>
      if beginsWith name start then some ⟨rule, name, attached⟩ else none
  | dash :: letter :: rest =>
    (namesOf rules).filterMap fun (name, rule) =>
      if name = String.ofList [dash, letter] then some ⟨rule, name, some (String.ofList rest)⟩
      else if beginsWith name text then some ⟨rule, name, none⟩
      else none
  | _ => []

/-- Whether a text is a dash with a decimal number behind it. A line feed at its end does not
count. -/
def isNegativeNumber (cs : List Char) : Bool :=
  let isDigit (c : Char) : Bool := (digitValue? c).isSome
  let cs := if cs.getLast? = some '\n' then cs.dropLast else cs
  match cs with
  | '-' :: number =>
    match number.dropWhile isDigit with
    | [] => !number.isEmpty
    | '.' :: places => !places.isEmpty && places.all isDigit
    | _ => false
  | _ => false

/-- The word of a text in front of which no separator stands; the names it could stand for, if there
are several. -/
def ofText (rules : List (OptionRule ι)) (text : String) : Except (List String) (Word ι) :=
  let cs := text.toList
  match cs with
  | '-' :: _ :: _ =>
    let (name, attached) := splitEquals cs
    match ruleOf? rules text, ruleOf? rules name with
    | some rule, _ => .ok (option text (some ⟨rule, text, none⟩))
    | none, some rule => .ok (option text (some ⟨rule, name, attached⟩))
    | none, none =>
      match hits rules text with
      | [hit] => .ok (option text (some hit))
      | [] =>
        if isNegativeNumber cs || cs.contains ' ' then .ok (plain text)
        else .ok (option text none)
      | several => .error (several.map (·.name))
  | _ => .ok (plain text)

/-- The words of a command line; the first text that could stand for several options is refused,
with their names. -/
def ofTexts (rules : List (OptionRule ι)) :
    List String → Except (String × List String) (List (Word ι))
  | [] => .ok []
  | "--" :: rest => .ok (separator :: rest.map plain)
  | text :: rest => do
    let word ← (ofText rules text).mapError fun names => (text, names)
    let words ← ofTexts rules rest
    .ok (word :: words)

end Word

end SchemaForms.Command
