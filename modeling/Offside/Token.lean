import Offside.Span
import Offside.Token.Kind

namespace Offside

structure Token where
  kind : Kind
  text : String
  span : Span
  deriving DecidableEq, Inhabited

namespace Token

def layout (kind : Kind) (span : Span) : Token := ⟨kind, "", span⟩

/-- How messages show a token: its text, or the name of its kind when it has none. -/
def shown (t : Token) : String := if t.text.isEmpty then t.kind.name else t.text

def shift (t : Token) (delta : Int) : Token := { t with span := t.span.shift delta }

end Token

end Offside
