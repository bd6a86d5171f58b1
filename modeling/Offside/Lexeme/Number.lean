namespace Offside.Lexeme

def isDigitOrUnderscore (c : Char) : Bool := c.isDigit || c == '_'

def exponent? : List Char → Option Nat
  | [] => none
  | e :: cs =>
    if e = 'e' ∨ e = 'E' then
      let sign := match cs with
        | '+' :: _ | '-' :: _ => 1
        | _ => 0
      let digits := ((cs.drop sign).takeWhile Char.isDigit).length
      if digits = 0 then none else some (1 + sign + digits)
    else none

def fraction? : List Char → Option Nat
  | '.' :: d :: cs =>
    if d.isDigit then some (2 + (cs.takeWhile isDigitOrUnderscore).length) else none
  | _ => none

def floatTail? (cs : List Char) : Option Nat :=
  let whole := (cs.takeWhile isDigitOrUnderscore).length
  let rest := cs.drop whole
  match fraction? rest with
  | some n => some (whole + n + (exponent? (rest.drop n)).getD 0)
  | none => (exponent? rest).map (whole + ·)

def isHexDigit (c : Char) : Bool :=
  c.isDigit || ('a' ≤ c && c ≤ 'f') || ('A' ≤ c && c ≤ 'F')

def radixDigit? (mark : Char) : Option (Char → Bool) :=
  if mark = 'x' ∨ mark = 'X' then some isHexDigit
  else if mark = 'o' ∨ mark = 'O' then some fun c => '0' ≤ c && c ≤ '7'
  else if mark = 'b' ∨ mark = 'B' then some fun c => c == '0' || c == '1'
  else none

def radixTail? : List Char → Option Nat
  | [] => none
  | mark :: cs =>
    match radixDigit? mark with
    | none => none
    | some isDigit =>
      let n := (cs.takeWhile fun c => isDigit c || c == '_').length
      if n = 0 then none else some (1 + n)

def integerTail (first : Char) (cs : List Char) : Nat :=
  let decimal := (cs.takeWhile isDigitOrUnderscore).length
  if first = '0' then (radixTail? cs).getD decimal else decimal

end Offside.Lexeme
