import Offside.Diagnostic
import Offside.Text.Blank
import Offside.Text.Lines

namespace Offside.Diagnostic

def padLeft (fill : Char) (width : Nat) (text : String) : String :=
  String.ofList (List.replicate (width - text.length) fill) ++ text

def heading (d : Diagnostic) : String :=
  match d.cause.tip? with
  | none => d.cause.name
  | some tip => d.cause.name ++ " (" ++ tip ++ ")"

/-- Five lines: heading, file, margin, source line, caret. -/
def report (d : Diagnostic) (source file : String) : String :=
  let place := Text.place source.toList d.span.start.toNat
  let number := toString place.number
  let margin := padLeft ' ' (number.length + 2) "|"
  let lead := place.line.takeWhile fun c => c == ' ' || c == '\t'
  let shownLine := String.ofList (Text.trimEnd (place.line.drop lead.length))
  let caret := padLeft '-' (place.column - lead.length + 1) "^"
  "Error: " ++ d.heading ++ "\n" ++
  "-> " ++ file ++ "\n" ++
  margin ++ "\n" ++
  number ++ " | " ++ shownLine ++ "\n" ++
  margin ++ " " ++ caret ++ "\n"

end Offside.Diagnostic
