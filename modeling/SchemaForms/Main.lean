import SchemaForms.Command.Help
import SchemaForms.Command.Perform

/-!
# The program

`program` reads the files and variables that a command line needs, and writes what `perform` says.
-/

namespace SchemaForms.Command

/-- The content of the file at a path, if there is one. -/
def contentAt (path : Path) : IO (Option Content) := do
  try
    let bytes ← IO.FS.readBinFile path.toString
    return some (.octets bytes.toList)
  catch _ => return none

/-- The files that a command line asks for. -/
def filesFor (arguments : List String) : IO Files := do
  let paths := match Invocation.read arguments with
    | .ok ⟨_, some task⟩ => Task.paths task
    | _ => []
  let contents ← paths.mapM fun path => return (path, ← contentAt path)
  return { find? path := (contents.lookup path).join }

/-- The variables of the environment that matter. -/
def environment : IO (List (String × String)) := do
  let names := ["JSL_MAX_ERRORS", "JSL_MAX_DEPTH", "JSL_STRICT"]
  let found ← names.mapM fun name => return (name, ← IO.getEnv name)
  return found.filterMap fun (name, value) => value.map fun v => (name, v)

/-- Does what a command line asks for and returns the exit code. -/
def program (arguments : List String) : IO UInt32 := do
  let start ← IO.monoMsNow
  let files ← filesFor arguments
  let env ← environment
  let transcript := perform files env arguments
  let elapsed := (← IO.monoMsNow) - start
  let presentation : Presentation := ⟨Page.text programName, toString elapsed ++ " ms", ""⟩
  (← IO.getStderr).putStr (renderPieces presentation transcript.stderr)
  (← IO.getStdout).putStr (renderPieces presentation transcript.stdout)
  match transcript.conclusion with
  | .exit code => return UInt32.ofNat code.number
  | .crash failure =>
    (← IO.getStderr).putStrLn failure.wording
    return 1

end SchemaForms.Command

def main (arguments : List String) : IO UInt32 := SchemaForms.Command.program arguments
