import SchemaForms.Command.Word
import SchemaForms.Text.Quoted

/-!
# Reading the arguments of a command

A command has options, which may stand anywhere, and operands, which stand in a fixed order. An
operand takes one word, and the separator around it; the last one of a command may take all words
that follow it, options included. What no operand takes is left over.

`Arguments.read` goes through the words from left to right and lists what it finds. A fault ends it,
and what was found before the fault is kept, because an option such as the one for help is heeded
before a fault behind it.
-/

namespace SchemaForms.Command

open SchemaForms.Text (quoted)

/-- What is wrong with the arguments of a command. -/
inductive Misuse where
  | ambiguous (word : String) (names : List String)
  | valueExpected (option : String)
  | valueIgnored (option value : String)
  | notAnInteger (option value : String)
  | unknownChoice (operand choice : String) (choices : List String)
  | missing (operands : List String)
  | leftOver (words : List String)
  deriving DecidableEq, Repr

/-- The wording of a misuse. -/
def Misuse.wording : Misuse → String
  | ambiguous word names =>
    "ambiguous option: " ++ word ++ " could match " ++ ", ".intercalate names
  | valueExpected option => "argument " ++ option ++ ": expected one argument"
  | valueIgnored option value =>
    "argument " ++ option ++ ": ignored explicit argument " ++ quoted value
  | notAnInteger option value =>
    "argument " ++ option ++ ": invalid int value: " ++ quoted value
  | unknownChoice operand choice choices =>
    "argument " ++ operand ++ ": invalid choice: " ++ quoted choice ++ " (choose from " ++
      ", ".intercalate (choices.map quoted) ++ ")"
  | missing operands => "the following arguments are required: " ++ ", ".intercalate operands
  | leftOver words => "unrecognized arguments: " ++ " ".intercalate words

/-- An operand that a command asks for. -/
structure Operand where
  name : String
  /-- Whether it takes all the words that follow as well. -/
  takesRest : Bool

/-- Something found among the arguments, with the words that belong to it. -/
inductive Finding (ι : Type) where
  | option (id : ι) (values : List String)
  | operand (name : String) (values : List String)

/-- What reading arguments found. -/
structure Arguments (ι : Type) where
  findings : List (Finding ι)
  /-- The operands that were not found. -/
  missing : List String
  leftOver : List String
  /-- The fault that ended it. -/
  fault : Option Misuse

namespace Arguments

variable {ι : Type}

/-- The arguments with findings in front. -/
def after (a : Arguments ι) (found : List (Finding ι)) : Arguments ι :=
  { a with findings := found ++ a.findings }

/-- The arguments with words left over in front. -/
def leaving (a : Arguments ι) (words : List String) : Arguments ι :=
  { a with leftOver := words ++ a.leftOver }

/-- The words that belong to an operand at the front, and the words behind them: one plain word with
the separator around it. Of the words that belong to it one separator is dropped, except by an
operand that takes the rest. -/
def takeOperand (operand : Operand) (words : List (Word ι)) :
    Option (List String × List (Word ι)) :=
  let isSeparator : Word ι → Bool
    | .separator => true
    | _ => false
  let lead := words.takeWhile isSeparator
  match words.dropWhile isSeparator with
  | .plain text :: rest =>
    if operand.takesRest then some ((lead ++ .plain text :: rest).map Word.text, [])
    else
      let trail := rest.takeWhile isSeparator
      some (((lead ++ .plain text :: trail).map Word.text).erase "--", rest.dropWhile isSeparator)
  | _ => none

/-- As many operands as stand at the front, the operands that do not, and the words behind. -/
def takeOperands : List Operand → List (Word ι) →
    List (Finding ι) × List Operand × List (Word ι)
  | [], words => ([], [], words)
  | operand :: operands, words =>
    match takeOperand operand words with
    | none => ([], operand :: operands, words)
    | some (values, rest) =>
      let (found, left, rest) := takeOperands operands rest
      (.operand operand.name values :: found, left, rest)

/-- The options of letters in one word: that of `rule`, and those of the letters attached to it. A
letter that is no option attaches the rest of the word to an option that has no value. -/
def letters (rules : List (OptionRule ι)) (rule : OptionRule ι) :
    (attached : List Char) → Except Misuse (List (Finding ι))
  | [] => .ok [.option rule.id []]
  | letter :: rest =>
    match Word.ruleOf? rules (String.ofList ['-', letter]) with
    | none => .error (.valueIgnored rule.title (String.ofList (letter :: rest)))
    | some next => do
      let found ← letters rules next rest
      .ok (.option rule.id [] :: found)

/-- What an option comes to, with the words behind it and its value, and the words behind that. A
separator in place of a value leaves the value blank. A single letter takes what is attached to it
as more letters, with or without an equals sign. -/
def takeOption (rules : List (OptionRule ι)) (hit : Hit ι) (rest : List (Word ι)) :
    Except Misuse (List (Finding ι) × List (Word ι)) :=
  let rule := hit.rule
  match rule.takesValue, hit.attached with
  | true, some text => .ok ([.option rule.id ([text].erase "--")], rest)
  | true, none =>
    match rest with
    | .plain value :: rest => .ok ([.option rule.id [value]], rest)
    | _ => .error (.valueExpected rule.title)
  | false, none => .ok ([.option rule.id []], rest)
  | false, some text =>
    if hit.isLetter && text ≠ "" then do
      let found ← letters rules rule text.toList
      .ok (found, rest)
    else .error (.valueIgnored rule.title text)

/-- What stands in words. Operands are taken as far as they stand together; where none can be taken,
the words up to the next option are left over. -/
def ofWords (rules : List (OptionRule ι)) :
    (fuel : Nat) → List Operand → List (Word ι) → Arguments ι
  | 0, operands, words => ⟨[], operands.map (·.name), words.map Word.text, none⟩
  | fuel + 1, operands, words =>
    match words with
    | .option text none :: rest => (ofWords rules fuel operands rest).leaving [text]
    | .option _ (some hit) :: rest =>
      match takeOption rules hit rest with
      | .error fault => ⟨[], [], [], some fault⟩
      | .ok (found, rest) => (ofWords rules fuel operands rest).after found
    | words =>
      match takeOperands operands words with
      | ([], operands, _) =>
        let skipped := (words.takeWhile (!·.isOption)).map Word.text
        let rest := words.dropWhile (!·.isOption)
        if rest.isEmpty then ⟨[], operands.map (·.name), skipped, none⟩
        else (ofWords rules fuel operands rest).leaving skipped
      | (found, operands, rest) => (ofWords rules fuel operands rest).after found

/-- Reads the arguments of a command. -/
def read (rules : List (OptionRule ι)) (operands : List Operand) (texts : List String) :
    Arguments ι :=
  match Word.ofTexts rules texts with
  | .error (word, names) => ⟨[], [], [], some (.ambiguous word names)⟩
  | .ok words => ofWords rules (words.length + 1) operands words

/-- What is wrong with the arguments as a whole: a fault, or an operand that is missing. -/
def misuse? (a : Arguments ι) : Option Misuse :=
  a.fault.or (if a.missing.isEmpty then none else some (.missing a.missing))

end Arguments

end SchemaForms.Command
