import Offside.Diagnostic
import Offside.Token

namespace Offside

structure Cursor where
  /-- The token consumed last. -/
  previous : Option Token
  /-- The tokens to come, without the end mark. -/
  rest : List Token
  /-- The end mark. -/
  last : Token
  deriving DecidableEq, Inhabited

namespace Cursor

/-- The cursor before the first token. Without an end mark of its own, a stream has one just after
its last token. -/
def ofTokens (tokens : List Token) : Cursor :=
  match tokens.getLast? with
  | none => ⟨none, [], .layout .eof (.point 0)⟩
  | some t =>
    if t.kind = .eof then ⟨none, tokens.dropLast, t⟩
    else ⟨none, tokens, .layout .eof (.point t.span.stop)⟩

def remaining (c : Cursor) : Nat := c.rest.length

def current (c : Cursor) : Token := c.rest.headD c.last

def kind (c : Cursor) : Kind := c.current.kind

def peek (c : Cursor) (n : Nat) : Kind := (c.rest[n]?.map Token.kind).getD .eof

def previousKind? (c : Cursor) : Option Kind := c.previous.map Token.kind

/-- Where the consumed tokens end; before the first, where the current one starts. -/
def previousEnd (c : Cursor) : Offset :=
  match c.previous with
  | some t => t.span.stop
  | none => c.current.span.start

/-- Moves over the current token, unless it is of kind `eof`. -/
def advance (c : Cursor) : Cursor :=
  match c.rest with
  | [] => c
  | t :: ts => if t.kind = .eof then c else { c with previous := some t, rest := ts }

def skip : Nat → Cursor → Cursor
  | 0, c => c
  | n + 1, c => skip n c.advance

def hasTokens (c : Cursor) : Bool := c.kind != .eof

def unexpected (c : Cursor) : Diagnostic := ⟨.unexpectedToken c.current.shown, c.current.span⟩

def unexpectedDetailed (c : Cursor) (message : String) : Diagnostic :=
  ⟨.unexpectedTokenDetailed c.current.shown message, c.current.span⟩

theorem remaining_advance_le (c : Cursor) : c.advance.remaining ≤ c.remaining := by
  unfold advance remaining
  split
  · exact Nat.le_refl _
  · split
    · exact Nat.le_refl _
    · simp [*]

end Cursor

end Offside
