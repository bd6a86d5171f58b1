import Offside.Literal.Integer

namespace Offside.Literal

/-- A double, by its sign, exponent and fraction bits. -/
structure Binary64 where
  bits : UInt64
  deriving DecidableEq, Inhabited

namespace Binary64

def infinity : Nat := 0x7FF0000000000000

def quietNaN : Nat := 0x7FF8000000000000

def roundDiv (num den : Nat) : Nat :=
  let q := num / den
  let r := 2 * (num % den)
  if den < r ∨ (r = den ∧ q % 2 = 1) then q + 1 else q

/-- The largest `e` for which two to the power `e` is at most `num / den`, for positive numbers. -/
def floorLog2 (num den : Nat) : Int :=
  let guess : Int := (num.log2 : Int) - den.log2
  -- the quotient of the leading powers is at most twice too large
  if num <<< (-guess).toNat < den <<< guess.toNat then guess - 1 else guess

/-- The bits of the double nearest to a positive quotient. The significand is scaled to 53 bits, or
fewer where the exponent would fall below the smallest; a carry out of it raises the exponent. -/
def ofRatio (num den : Nat) : Nat :=
  let scale := max (floorLog2 num den - 52) (-1074)
  let significand := roundDiv (num <<< (-scale).toNat) (den <<< scale.toNat)
  let biased := (scale + 1074).toNat
  min ((biased <<< 52) + significand) infinity

/-- The bits of the double nearest to `digits * 10 ^ exponent`. Beyond four hundred places the
result is infinite or zero, whatever the digits are. -/
def ofDecimal (digits : Nat) (exponent : Int) : Nat :=
  if digits = 0 then 0
  else
    let magnitude := exponent + (Nat.toDigits 10 digits).length
    if magnitude > 400 then infinity
    else if magnitude < -400 then 0
    else ofRatio (digits * Nat.pow 10 exponent.toNat) (Nat.pow 10 (-exponent).toNat)

def exponent? : List Char → Option Int
  | [] => some 0
  | e :: cs =>
    if e = 'e' ∨ e = 'E' then
      match cs with
      | '-' :: ds => if ds.isEmpty then none else (digitsValue? 10 0 ds).map fun n => -(n : Int)
      | '+' :: ds => if ds.isEmpty then none else (digitsValue? 10 0 ds).map fun n => (n : Int)
      | ds => if ds.isEmpty then none else (digitsValue? 10 0 ds).map fun n => (n : Int)
    else none

/-- The bits of an unsigned decimal: digits with at most one point and at least one digit, then an
optional exponent. -/
def decimal? (cs : List Char) : Option Nat :=
  let whole := cs.takeWhile Char.isDigit
  let rest := cs.drop whole.length
  let (fraction, rest) := match rest with
    | '.' :: rest =>
      let fraction := rest.takeWhile Char.isDigit
      (fraction, rest.drop fraction.length)
    | _ => ([], rest)
  if whole.isEmpty && fraction.isEmpty then none
  else
    match digitsValue? 10 0 (whole ++ fraction), exponent? rest with
    | some digits, some exponent => some (ofDecimal digits (exponent - fraction.length))
    | _, _ => none

/-- The bits of an unsigned float text: a word for infinity or for no number, in any case of
letters, or a decimal. -/
def unsigned? (cs : List Char) : Option Nat :=
  let word := String.ofList (cs.map Char.toLower)
  if word = "inf" ∨ word = "infinity" then some infinity
  else if word = "nan" then some quietNaN
  else decimal? cs

def negated (bits : Nat) : Nat := bits + 0x8000000000000000

end Binary64

def float? (text : String) : Option Binary64 :=
  let bits := match text.toList.filter (· != '_') with
    | '-' :: cs => (Binary64.unsigned? cs).map Binary64.negated
    | '+' :: cs => Binary64.unsigned? cs
    | cs => Binary64.unsigned? cs
  bits.map fun n => ⟨UInt64.ofNat n⟩

end Offside.Literal
