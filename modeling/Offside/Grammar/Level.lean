import Offside.Cursor

namespace Offside

inductive Level where
  | lowest | conditional | or | and | not | comparison | bitOr | bitAnd | bitXor | shift
  | additive | multiplicative | unary | power | trailer | primary
  deriving DecidableEq, Inhabited

namespace Level

def rank : Level → Nat
  | lowest => 0
  | conditional => 1
  | or => 2
  | and => 3
  | not => 4
  | comparison => 5
  | bitOr => 6
  | bitAnd => 7
  | bitXor => 8
  | shift => 9
  | additive => 10
  | multiplicative => 11
  | unary => 12
  | power => 13
  | trailer => 14
  | primary => 15

instance : LT Level := ⟨fun a b => a.rank < b.rank⟩

instance : LE Level := ⟨fun a b => a.rank ≤ b.rank⟩

instance (a b : Level) : Decidable (a < b) := inferInstanceAs (Decidable (a.rank < b.rank))

instance (a b : Level) : Decidable (a ≤ b) := inferInstanceAs (Decidable (a.rank ≤ b.rank))

/-- The level at which a kind of token extends an operand; the lowest for those that do not. -/
def ofKind : Kind → Level
  | .kwIf => conditional
  | .kwOr => or
  | .kwAnd => and
  | .less | .lessEquals | .greater | .greaterEquals | .equals | .notEquals | .kwIs | .kwIn
  | .kwNot => comparison
  | .pipe => bitOr
  | .ampersand => bitAnd
  | .caret => bitXor
  | .shiftLeft | .shiftRight => shift
  | .plus | .dash => additive
  | .star | .slash | .slashSlash | .percent => multiplicative
  | .starStar => power
  | .openParen | .openBracket | .dot => trailer
  | _ => lowest

end Level

/-- The level of the current token. A caret that no operand can follow is a trailer, and `not`
extends an operand only in `not in`. -/
def Cursor.level (c : Cursor) : Level :=
  match c.kind with
  | .caret => if (c.peek 1).startsOperand then .bitXor else .trailer
  | .kwNot => if c.peek 1 = .kwIn then .comparison else .lowest
  | k => .ofKind k

end Offside
