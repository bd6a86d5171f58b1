import Offside.Lexeme.Number

namespace Offside.Literal

def digitValue? (c : Char) : Option Nat :=
  if c.isDigit then some (c.toNat - '0'.toNat)
  else if 'a' ≤ c ∧ c ≤ 'f' then some (c.toNat - 'a'.toNat + 10)
  else if 'A' ≤ c ∧ c ≤ 'F' then some (c.toNat - 'A'.toNat + 10)
  else none

def radixDigitValue? (radix : Nat) (c : Char) : Option Nat :=
  (digitValue? c).filter (· < radix)

def digitsValue? (radix : Nat) : Nat → List Char → Option Nat
  | value, [] => some value
  | value, c :: cs =>
    match radixDigitValue? radix c with
    | some d => digitsValue? radix (radix * value + d) cs
    | none => none

/-- At least one digit, after an optional plus sign. -/
def unsigned? (radix : Nat) (cs : List Char) : Option Nat :=
  let digits := match cs with
    | '+' :: rest => rest
    | _ => cs
  if digits.isEmpty then none else digitsValue? radix 0 digits

def splitRadix : List Char → Nat × List Char
  | '0' :: mark :: cs =>
    if mark = 'x' ∨ mark = 'X' then (16, cs)
    else if mark = 'o' ∨ mark = 'O' then (8, cs)
    else if mark = 'b' ∨ mark = 'B' then (2, cs)
    else (10, '0' :: mark :: cs)
  | cs => (10, cs)

/-- The 64-bit value of an integer literal, if it has digits and fits. -/
def integer? (text : String) : Option UInt64 :=
  let (radix, digits) := splitRadix (text.toList.filter (· != '_'))
  ((unsigned? radix digits).filter (· < UInt64.size)).map UInt64.ofNat

end Offside.Literal
