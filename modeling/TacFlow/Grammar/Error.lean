import TacFlow.Text.Lines
import TacFlow.Text.Quoted

/-!
# Syntax errors

A syntax error points at a position of a text: its report names the line and the column, quotes the
line and puts a caret under the column.
-/

namespace TacFlow

/-- A message about a position of a text. The position is negative where there is none. -/
structure SyntaxError where
  message : String
  text : List Char
  position : Int
  source : Option String

namespace SyntaxError

/-- Whether the error points into a text. -/
def hasPlace (e : SyntaxError) : Bool :=
  0 ≤ e.position && !e.text.isEmpty

/-- The line of the error, from one; minus one if it has no place. -/
def line (e : SyntaxError) : Int :=
  if e.hasPlace then Text.lineAt e.text e.position.toNat else -1

/-- The column of the error, from one; minus one if it has no place. -/
def column (e : SyntaxError) : Int :=
  if e.hasPlace then Text.columnAt e.text e.position.toNat else -1

/-- How a source is called that has no name or an empty one. -/
def sourceName (source : Option String) : String :=
  match source with
  | some name => if name.isEmpty then "<string>" else name
  | none => "<string>"

/-- The line that the report quotes: of the lines of the text, the one with the number of the
error's line, or nothing behind the last. -/
def quotedLine (e : SyntaxError) : List Char :=
  (Text.splitLines e.text)[Text.lineAt e.text e.position.toNat - 1]?.getD []

/-- The full report, or the bare message if the error has no place. -/
def report (e : SyntaxError) : String :=
  if e.hasPlace then
    sourceName e.source ++ ":" ++ toString e.line ++ ":" ++ toString e.column ++ ": " ++
      e.message ++ "\n  " ++ String.ofList e.quotedLine ++ "\n  " ++
      String.ofList (List.replicate (e.column.toNat - 1) ' ') ++ "^"
  else e.message

/-- The most characters of the text that the message of a failed reading shows. -/
def snippetLength : Nat := 20

/-- The error of a text that the grammar cannot read beyond a position: its message shows what
stands there, up to the end of the line. -/
def unreadable (text : List Char) (source : Option String) (pos : Nat) : SyntaxError :=
  let snippet := ((text.drop pos).take snippetLength).takeWhile (· != '\n')
  ⟨"syntax error at " ++ Text.quoted (String.ofList snippet), text, pos, source⟩

end SyntaxError

end TacFlow
