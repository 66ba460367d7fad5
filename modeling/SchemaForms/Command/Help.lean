import SchemaForms.Command.Output

/-!
# Pages on how the program is used

`Page.text` writes the pages of `Page` from the options and operands that the program and its verbs
know.
-/

namespace SchemaForms.Command

/-- What a verb does, in a line. -/
def Verb.summary : Verb → String
  | verify => "Check that a schema is correct."
  | validate => "Validate an instance against a schema."
  | form => "Print the form of a schema."

/-- What an option does, in a line. -/
def Setting.summary : Setting → String
  | help => "Show this page."
  | version => "Show the version."
  | verbose => "Show every event."
  | maxErrors => "Stop after N errors (0 = report all)."
  | maxDepth => "Abort when ref nesting reaches N frames, root included (0 = unbounded)."
  | strict => "Reject unknown properties."
  | json => "Write the result as JSON."
  | sort => "Sort errors by schema path, then instance path."

/-- An option in a usage line. -/
def OptionRule.usage (rule : OptionRule Setting) : String :=
  "[" ++ rule.names.headD "" ++ (if rule.takesValue then " N" else "") ++ "]"

/-- The options of the program or of a verb. -/
def rulesOf : Option Verb → List (OptionRule Setting)
  | none => programRules
  | some verb => verb.rules

/-- The operands of the program or of a verb, in a usage line. -/
def operandsOf : Option Verb → List String
  | none => ["\x7b" ++ ",".intercalate (Verb.all.map Verb.name) ++ "\x7d ..."]
  | some verb => verb.operands.map (·.name)

/-- The usage line. -/
def usageLine (prog : String) (verb : Option Verb) : String :=
  let options := (rulesOf verb).map OptionRule.usage
  " ".intercalate (["usage:", prog] ++ options ++ operandsOf verb) ++ "\n"

/-- A name with what it stands for. -/
def entryLine (name summary : String) : String :=
  let space := String.ofList (List.replicate (max 2 (20 - name.length)) ' ')
  "  " ++ name ++ space ++ summary ++ "\n"

/-- The help page. -/
def helpText (prog : String) (verb : Option Verb) : String :=
  let verbs := match verb with
    | none => String.join (Verb.all.map fun v => entryLine v.name v.summary) ++ "\n"
    | some verb => verb.summary ++ "\n\n"
  let options := String.join ((rulesOf verb).map fun r => entryLine r.title r.id.summary)
  usageLine prog verb ++ "\n" ++ verbs ++ options

/-- A page as text, for a program of a name. -/
def Page.text (prog : Option Verb → String) : Page → String
  | help verb => helpText (prog verb) verb
  | usage verb => usageLine (prog verb) verb

end SchemaForms.Command
