import Offside.Grammar.Stmt
import Offside.Scan
import Offside.Tree.Spans

namespace Offside

open Layout (LineState)

structure Part where
  body : List Stmt := []
  diagnostics : List Diagnostic := []
  comments : List Token := []
  lineStates : List LineState := []
  deriving Inhabited

instance : Append Part where
  append a b :=
    { body := a.body ++ b.body
      diagnostics := a.diagnostics ++ b.diagnostics
      comments := a.comments ++ b.comments
      lineStates := a.lineStates ++ b.lineStates }

namespace Part

/-- What a scan and the parse of its tokens contribute; the faults of both are in order of
position, those of the scan first where the positions are equal. -/
def ofScan (scan : Scan.Result) (parsed : Grammar.Parsed) : Part :=
  { body := parsed.body
    diagnostics := Diagnostic.sort (scan.diagnostics ++ parsed.diagnostics)
    comments := scan.comments
    lineStates := scan.lineStates }

end Part

structure Document extends Part where
  span : Span
  /-- The parse was stopped while tokens were left. -/
  cancelled : Bool
  deriving Inhabited

namespace Document

def ofPart (source : String) (part : Part) (cancelled : Bool) : Document :=
  ⟨part, Span.ofNat 0 (Text.byteSize source.toList), cancelled⟩

def parse (cfg : Config) (source : String) : Document :=
  let scan := Scan.scan cfg source
  let parsed := Grammar.parse cfg scan.tokens
  ofPart source (.ofScan scan parsed) parsed.cancelled

end Document

end Offside
