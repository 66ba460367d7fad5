import SchemaForms.Command.Invocation
import SchemaForms.ExitCode
import SchemaForms.Run.Basic

/-!
# What a command writes

A command writes `Piece`s to its two streams: text, a page that tells how the program is used, and
events. How pages, the time of an event and the trail of a failure look is left to a `Presentation`.
-/

namespace SchemaForms.Command

/-- A page on how the program, or one of its verbs, is used. -/
inductive Page where
  /-- All that there is to know. -/
  | help (verb : Option Verb)
  /-- The form of a command line. -/
  | usage (verb : Option Verb)
  deriving DecidableEq, Repr

/-- A piece of what is written. -/
inductive Piece where
  | text (s : String)
  | page (p : Page)
  | event (e : Event)
  deriving DecidableEq, Repr

/-- How the pieces that are not settled here look. -/
structure Presentation where
  page : Page → String
  /-- The time of an event. -/
  time : String
  /-- The trail of a failure. -/
  trail : String

/-- The line of an event, and the trail if it tells of a failure. -/
def Presentation.event (p : Presentation) (e : Event) : String :=
  let line := " - ".intercalate [p.time, e.source, e.level.name, e.wording] ++ "\n"
  match e with
  | .failed _ => line ++ p.trail
  | _ => line

/-- A piece as text. -/
def Piece.render (p : Presentation) : Piece → String
  | text s => s
  | page content => p.page content
  | event e => p.event e

/-- How a command ends: with an exit code, or by a failure that it has no message for. -/
inductive Conclusion where
  | exit (code : ExitCode)
  | crash (failure : Failure)

/-- What a command writes, and how it ends. -/
structure Transcript where
  stdout : List Piece
  stderr : List Piece
  conclusion : Conclusion

/-- The text of pieces. -/
def renderPieces (p : Presentation) (pieces : List Piece) : String :=
  String.join (pieces.map (Piece.render p))

end SchemaForms.Command
