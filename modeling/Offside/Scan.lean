import Offside.Config
import Offside.Diagnostic
import Offside.Layout.Levels
import Offside.Lexeme
import Offside.Text.Bytes
import Offside.Token

namespace Offside.Scan

open Layout (LineState Snapshot LongQuote)

/-- What a stretch of scanning puts out. -/
structure Emission where
  tokens : List Token := []
  comments : List Token := []
  diagnostics : List Diagnostic := []
  lineStates : List LineState := []
  deriving DecidableEq, Inhabited

namespace Emission

instance : Append Emission where
  append a b :=
    { tokens := a.tokens ++ b.tokens
      comments := a.comments ++ b.comments
      diagnostics := a.diagnostics ++ b.diagnostics
      lineStates := a.lineStates ++ b.lineStates }

@[simp]
theorem append_tokens (a b : Emission) : (a ++ b).tokens = a.tokens ++ b.tokens := rfl

@[simp]
theorem append_comments (a b : Emission) : (a ++ b).comments = a.comments ++ b.comments := rfl

@[simp]
theorem append_diagnostics (a b : Emission) :
    (a ++ b).diagnostics = a.diagnostics ++ b.diagnostics := rfl

@[simp]
theorem append_lineStates (a b : Emission) :
    (a ++ b).lineStates = a.lineStates ++ b.lineStates := rfl

end Emission

structure Result extends Emission where
  stoppedAt : Option Offset := none
  deriving DecidableEq, Inhabited

def Result.after (r : Result) (e : Emission) : Result := ⟨e ++ r.toEmission, r.stoppedAt⟩

structure Opener where
  text : String
  span : Span
  deriving DecidableEq, Inhabited

structure State where
  /-- Byte offset of the rest. -/
  pos : Nat
  rest : List Char
  /-- Open indentation levels, innermost first. -/
  levels : List Nat := [0]
  /-- Open brackets, innermost first. -/
  openers : List Opener := []
  /-- The next step looks at the indentation of a line. -/
  atLineStart : Bool := true
  /-- The current logical line has a token. -/
  hasContent : Bool := false
  /-- Since a dedent that matched no level, until a blank line or a width that is a level. -/
  resyncing : Bool := false
  deriving DecidableEq, Inhabited

namespace State

def start (source : String) : State := { pos := 0, rest := source.toList }

def snapshot (s : State) (string : Option LongQuote) : Snapshot :=
  { levels := s.levels, depth := s.openers.length, string := string }

def lineState (s : State) (offset : Nat) (string : Option LongQuote) : LineState :=
  ⟨UInt32.ofNat offset, s.snapshot string⟩

/-- The state once a token is put out: a token with text is content of its line. -/
def noting (s : State) (kind : Kind) : State :=
  { s with hasContent := s.hasContent || !kind.isLayout }

def skip (s : State) (n : Nat) : State :=
  { s with pos := s.pos + Text.byteSize (s.rest.take n), rest := s.rest.drop n }

/-- Moves over the next `n` bytes, unless that ends inside a character or past the end. -/
def skipBytes? (s : State) (n : Nat) : Option State :=
  (Text.splitAtByte? n s.rest).map fun (_, after) => { s with pos := s.pos + n, rest := after }

/-- The state at a recorded line start, which must lie outside strings and on a character of the
text. Open brackets are known by number only. -/
def resume? (source : String) (offset : Nat) (snapshot : Snapshot) : Option State :=
  if snapshot.isResumable then
    (Text.splitAtByte? offset source.toList).map fun (before, after) =>
      { pos := offset
        rest := after
        levels := if snapshot.levels.isEmpty then [0] else snapshot.levels
        openers := List.replicate snapshot.depth ⟨"", Span.ofNat offset offset⟩
        atLineStart := snapshot.depth == 0 && (before.getLast?.getD '\n' == '\n') }
  else none

end State

/-- Enters an indentation: `lineStart` is where the line starts and `contentStart` where its
content does. While resynchronising, a width that is no open level is passed over. -/
def indentTo (width lineStart contentStart : Nat) (s : State) : Emission × State :=
  if s.resyncing && !s.levels.contains width then ({}, s)
  else
    let lead := Span.ofNat lineStart contentStart
    match Layout.enter width s.levels with
    | (.indent, levels) =>
      ({ tokens := [.layout .indent lead] }, { s with levels := levels, resyncing := false })
    | (.same, levels) => ({}, { s with levels := levels, resyncing := false })
    | (.dedent count matched, levels) =>
      let close := Token.layout .dedent (Span.ofNat contentStart contentStart)
      ({ tokens := List.replicate count close
         diagnostics := if matched then [] else [⟨.inconsistentDedent width, lead⟩] },
       { s with levels := levels, resyncing := !matched })

inductive Step where
  | next (emission : Emission) (state : State)
  | done (result : Result)

def endMark (pos : Nat) : Emission := { tokens := [.layout .eof (Span.ofNat pos pos)] }

/-- Looks at the indentation of the line that starts here. A blank line ends resynchronising, a
comment line changes nothing, and a stop point counts at width zero only. -/
def lineStart (cfg : Config) (stops : List Offset) (s : State) : Step :=
  let here : Emission := { lineStates := [s.lineState s.pos none] }
  let indent := Layout.indentation cfg.tabWidth s.rest
  let content := s.rest.drop indent.length
  let s := { s with atLineStart := false }
  if Layout.startsBlankLine content then .next here { s with resyncing := false }
  else if Layout.startsCommentLine content then .next here s
  else
    let contentStart := s.pos + indent.length
    if indent.width = 0 ∧ UInt32.ofNat s.pos ∈ stops then
      .done ⟨here ++ (indentTo 0 s.pos contentStart s).1 ++ endMark s.pos,
        some (UInt32.ofNat s.pos)⟩
    else
      let mixed : Emission :=
        if indent.mixed then
          { diagnostics := [⟨.mixedIndentation, Span.ofNat s.pos contentStart⟩] }
        else {}
      let (layout, s) := indentTo indent.width s.pos contentStart s
      .next (here ++ mixed ++ layout) { s with pos := contentStart, rest := content }

/-- Reads a line feed: the end of a logical line, or, inside brackets, of a physical one only. -/
def lineFeed (s : State) : Emission × State :=
  let after := s.skip 1
  if s.openers.isEmpty then
    ({ tokens :=
        if s.hasContent then [.layout .newline (Span.ofNat s.pos (s.pos + 1))] else [] },
     { after with hasContent := false, atLineStart := true })
  else ({ lineStates := [s.lineState after.pos none] }, after)

def lineStartsIn (pos : Nat) : List Char → List Nat
  | [] => []
  | c :: cs =>
    let after := pos + c.utf8Size
    if c = '\n' then after :: lineStartsIn after cs else lineStartsIn after cs

def accept (lexeme : Lexeme) (n : Nat) (s : State) : Emission × State :=
  let chars := s.rest.take n
  let text := String.ofList chars
  let after := s.skip n
  let span := Span.ofNat s.pos after.pos
  let unclosed (terminated : Bool) : List Diagnostic :=
    if terminated then [] else [⟨.unterminatedString, span⟩]
  match lexeme with
  | .token kind => ({ tokens := [⟨kind, text, span⟩] }, after.noting kind)
  | .opener kind =>
    ({ tokens := [⟨kind, text, span⟩] },
     { after.noting kind with openers := ⟨text, span⟩ :: s.openers })
  | .closer kind =>
    ({ tokens := [⟨kind, text, span⟩] },
     { after.noting kind with openers := s.openers.tail })
  | .string terminated =>
    ({ tokens := [⟨.string, text, span⟩], diagnostics := unclosed terminated },
     after.noting .string)
  | .longString quote terminated =>
    ({ tokens := [⟨.string, text, span⟩]
       diagnostics := unclosed terminated
       lineStates := (lineStartsIn s.pos chars).map fun o => s.lineState o (some quote) },
     after.noting .string)
  | .comment => ({ comments := [⟨.comment, text, span⟩] }, after)
  | .space => ({}, after)
  | .continuation => ({ lineStates := [s.lineState after.pos none] }, after)
  | .unknown => ({ diagnostics := [⟨.unrecognisedToken text, span⟩] }, after)

/-- The end of the text: the outermost open bracket is reported, the last line is ended and the
open blocks are closed. -/
def finish (s : State) : Emission :=
  let here := Span.ofNat s.pos s.pos
  { tokens :=
      (if s.hasContent then [Token.layout .newline here] else []) ++
        List.replicate (s.levels.length - 1) (.layout .dedent here)
    diagnostics := (s.openers.getLast?.map fun o => ⟨.unclosedBracket o.text, o.span⟩).toList }

def step (cfg : Config) (stops : List Offset) (s : State) : Step :=
  match s.rest with
  | [] => .done ⟨finish s ++ endMark s.pos, none⟩
  | c :: cs =>
    if s.atLineStart then lineStart cfg stops s
    else if c = '\n' then
      let (emission, next) := lineFeed s
      .next emission next
    else
      let (lexeme, further) := Lexeme.recognise c cs
      let (emission, next) := accept lexeme (further + 1) s
      .next emission next

/-- What bounds a scan: each step leaves less text, or the same text and no line start. -/
def State.measure (s : State) : Nat := 2 * s.rest.length + s.atLineStart.toNat

theorem indentTo_atLineStart (width a b : Nat) (s : State) :
    (indentTo width a b s).2.atLineStart = s.atLineStart := by
  unfold indentTo
  split
  · rfl
  · dsimp only
    split <;> rfl

theorem measure_accept (lexeme : Lexeme) (n : Nat) (s : State) {c : Char} {cs : List Char}
    (h : s.rest = c :: cs) : (accept lexeme (n + 1) s).2.measure < s.measure := by
  have hlen : (accept lexeme (n + 1) s).2.rest = cs.drop n := by
    cases lexeme <;> simp [accept, State.noting, State.skip, h]
  have hflag : (accept lexeme (n + 1) s).2.atLineStart = s.atLineStart := by
    cases lexeme <;> simp [accept, State.noting, State.skip]
  simp only [State.measure, hlen, hflag, h, List.length_drop, List.length_cons]
  omega

theorem measure_lineFeed (s : State) {c : Char} {cs : List Char} (h : s.rest = c :: cs) :
    (lineFeed s).2.measure < s.measure := by
  unfold lineFeed
  dsimp only
  split
  · simp only [State.measure, State.skip, h, List.drop_succ_cons, List.drop_zero,
      List.length_cons, Bool.toNat_true]
    omega
  · simp only [State.measure, State.skip, h, List.drop_succ_cons, List.drop_zero,
      List.length_cons]
    omega

theorem measure_lineStart {cfg : Config} {stops : List Offset} {s t : State} {e : Emission}
    (hs : s.atLineStart = true) (h : lineStart cfg stops s = .next e t) :
    t.measure < s.measure := by
  have hlen : ∀ n, (s.rest.drop n).length ≤ s.rest.length := by
    intro n; simp
  unfold lineStart at h
  dsimp only at h
  split at h
  · cases h; simp [State.measure, hs]
  split at h
  · cases h; simp [State.measure, hs]
  split at h
  · cases h
  · cases h
    have := hlen (Layout.indentation cfg.tabWidth s.rest).length
    simp only [State.measure, hs, indentTo_atLineStart, Bool.toNat_true, Bool.toNat_false]
    omega

/-- Every step that goes on makes the measure smaller. -/
theorem measure_step {cfg : Config} {stops : List Offset} {s t : State} {e : Emission}
    (h : step cfg stops s = .next e t) : t.measure < s.measure := by
  unfold step at h
  split at h
  · cases h
  · next c cs hrest =>
    split at h
    · next hs => exact measure_lineStart hs h
    split at h
    · cases h; exact measure_lineFeed s hrest
    · cases h; exact measure_accept _ _ s hrest

/-- Scans from a state to the end of the text or to the first stop point that counts. -/
def run (cfg : Config) (stops : List Offset) (s : State) : Result :=
  match _h : step cfg stops s with
  | .done result => result
  | .next emission next => (run cfg stops next).after emission
termination_by s.measure
decreasing_by exact measure_step (by assumption)

theorem run_of_done {cfg : Config} {stops : List Offset} {s : State} {r : Result}
    (h : step cfg stops s = .done r) : run cfg stops s = r := by
  rw [run]
  split <;> simp_all

theorem run_of_next {cfg : Config} {stops : List Offset} {s t : State} {e : Emission}
    (h : step cfg stops s = .next e t) : run cfg stops s = (run cfg stops t).after e := by
  rw [run]
  split <;> simp_all

def scan (cfg : Config) (source : String) : Result := run cfg [] (.start source)

end Offside.Scan
