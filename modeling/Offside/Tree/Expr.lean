import Offside.Literal.Binary64
import Offside.Span

namespace Offside

inductive UnaryOp where
  | plus | minus | invert | not
  deriving DecidableEq, Inhabited

inductive BinaryOp where
  | or | and | bitOr | bitXor | bitAnd | shiftLeft | shiftRight
  | add | subtract | multiply | divide | floorDivide | modulo | power
  deriving DecidableEq, Inhabited

inductive ComparisonOp where
  | equal | notEqual | less | lessEqual | greater | greaterEqual | is | isNot | within | notWithin
  deriving DecidableEq, Inhabited

mutual

inductive Expr where
  /-- The text as written, and its value where it fits in 64 bits. -/
  | integer (span : Span) (text : String) (value : Option UInt64)
  | float (span : Span) (value : Literal.Binary64)
  /-- The contents; adjacent literals are one string. -/
  | string (span : Span) (value : String)
  | boolean (span : Span) (value : Bool)
  | noneLiteral (span : Span)
  | symbol (span : Span) (name : String)
  | list (span : Span) (elements : List Expr)
  | tuple (span : Span) (elements : List Expr)
  | set (span : Span) (elements : List Expr)
  | dict (span : Span) (entries : List (Expr × Expr))
  | parenthesized (span : Span) (inner : Expr)
  | call (span : Span) (callee : Expr) (arguments : List Argument)
  /-- A call with type arguments: `f[T](x)`. -/
  | genericCall (span : Span) (callee : Expr) (typeArguments arguments : List Argument)
  | member (span : Span) (object : Expr) (name : String)
  | subscript (span : Span) (object : Expr) (indices : List Expr)
  /-- Written `lower:upper:step`, only as an index of a subscript. -/
  | slice (span : Span) (lower upper step : Option Expr)
  /-- Written `value^`; it gives up the value. -/
  | transfer (span : Span) (value : Expr)
  | unary (span : Span) (operator : UnaryOp) (operand : Expr)
  | binary (span : Span) (operator : BinaryOp) (left right : Expr)
  /-- A whole chain: `a < b <= c` is `a` with the links `< b` and `<= c`. -/
  | comparison (span : Span) (first : Expr) (links : List (ComparisonOp × Expr))
  /-- Written `thenValue if condition else elseValue`. -/
  | conditional (span : Span) (thenValue condition elseValue : Expr)

inductive Argument where
  | positional (value : Expr)
  | keyword (span : Span) (name : String) (value : Expr)

end

instance : Inhabited Expr := ⟨.noneLiteral default⟩

instance : Inhabited Argument := ⟨.positional default⟩

namespace Expr

def span : Expr → Span
  | integer s _ _ | float s _ | string s _ | boolean s _ | noneLiteral s | symbol s _ | list s _
  | tuple s _ | set s _ | dict s _ | parenthesized s _ | call s _ _ | genericCall s _ _ _
  | member s _ _ | subscript s _ _ | slice s _ _ _ | transfer s _ | unary s _ _
  | binary s _ _ _ | comparison s _ _ | conditional s _ _ _ => s

def isSlice : Expr → Bool
  | slice .. => true
  | _ => false

/-- An operation on two operands, which spans from the one to the other. -/
def operation (op : BinaryOp) (left right : Expr) : Expr :=
  .binary (left.span.through right.span) op left right

end Expr

namespace Argument

def span : Argument → Span
  | positional value => value.span
  | keyword s _ _ => s

def value : Argument → Expr
  | positional value => value
  | keyword _ _ value => value

end Argument

end Offside
