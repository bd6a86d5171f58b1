import Offside.Layout.Indentation
import Offside.Layout.Snapshot
import Offside.Lexeme.Number
import Offside.Lexeme.Quotation
import Offside.Token.Kind

namespace Offside

inductive Lexeme where
  | token (kind : Kind)
  | opener (kind : Kind)
  | closer (kind : Kind)
  | string (terminated : Bool)
  | longString (quote : Layout.LongQuote) (terminated : Bool)
  | comment
  | space
  /-- A backslash at the end of a line, with the line end. -/
  | continuation
  | unknown
  deriving DecidableEq, Inhabited

namespace Lexeme

def isWordStart (c : Char) : Bool := c.isAlpha || c == '_'

def isWordChar (c : Char) : Bool := c.isAlphanum || c == '_'

def word (c : Char) (cs : List Char) : Lexeme × Nat :=
  let tail := cs.takeWhile isWordChar
  (.token ((Kind.ofWord? (String.ofList (c :: tail))).getD .identifier), tail.length)

def number (c : Char) (cs : List Char) : Lexeme × Nat :=
  match floatTail? cs with
  | some n => (.token .float, n)
  | none => (.token .integer, integerTail c cs)

/-- A string, which is long when its quote stands three times. -/
def quotation (c : Char) (q : Layout.LongQuote) (cs : List Char) : Lexeme × Nat :=
  if [c, c].isPrefixOf cs then
    let (n, terminated) := longTail c (cs.drop 2)
    (.longString q terminated, n + 2)
  else
    let (n, terminated) := shortTail c cs
    (.string terminated, n)

def continuation? : List Char → Option Nat
  | '\n' :: _ => some 1
  | '\r' :: '\n' :: _ => some 2
  | _ => none

def bracket? : Char → Option Lexeme
  | '(' => some (.opener .openParen)
  | '[' => some (.opener .openBracket)
  | '\x7b' => some (.opener .openCurly)
  | ')' => some (.closer .closeParen)
  | ']' => some (.closer .closeBracket)
  | '\x7d' => some (.closer .closeCurly)
  | _ => none

def operator? (cs : List Char) : Option Kind :=
  Kind.operators.find? fun k => k.spelling.toList.isPrefixOf cs

def symbol (c : Char) (cs : List Char) : Lexeme × Nat :=
  match operator? (c :: cs) with
  | some k => (.token k, k.spelling.length - 1)
  | none => (.unknown, 0)

/-- The lexeme at a character that is not a line feed, with the number of further characters. -/
def recognise (c : Char) (cs : List Char) : Lexeme × Nat :=
  if isWordStart c then word c cs
  else if c.isDigit then number c cs
  else if Layout.isSpace c then (.space, (cs.takeWhile Layout.isSpace).length)
  else if c = '\\' then
    match continuation? cs with
    | some n => (.continuation, n)
    | none => (.unknown, 0)
  else if c = '#' then (.comment, (cs.takeWhile fun d => d != '\r' && d != '\n').length)
  else if c = '\x22' then quotation c .double cs
  else if c = '\x27' then quotation c .single cs
  else
    match bracket? c with
    | some lexeme => (lexeme, 0)
    | none => symbol c cs

end Lexeme

end Offside
