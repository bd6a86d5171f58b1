import Offside.Literal.Integer

namespace Offside.Literal

def escape? (c : Char) : Option (List Char) :=
  if c = 'n' then some ['\n']
  else if c = 't' then some ['\t']
  else if c = 'r' then some ['\r']
  else if c = '0' then some ['\x00']
  else if c = '\\' ∨ c = '\x22' ∨ c = '\x27' then some [c]
  else if c = '\n' then some []
  else none

/-- Resolves the escapes of a text. A hexadecimal escape takes one or two digits; a backslash that
starts no escape stands for itself. -/
def resolve : List Char → List Char
  | [] => []
  | '\\' :: 'x' :: a :: b :: cs =>
    match digitValue? a, digitValue? b with
    | some m, some n => Char.ofNat (16 * m + n) :: resolve cs
    | some m, none => Char.ofNat m :: resolve (b :: cs)
    | none, _ => '\\' :: 'x' :: resolve (a :: b :: cs)
  | ['\\', 'x', a] =>
    match digitValue? a with
    | some m => [Char.ofNat m]
    | none => '\\' :: 'x' :: resolve [a]
  | '\\' :: c :: cs =>
    match escape? c with
    | some text => text ++ resolve cs
    | none => '\\' :: resolve (c :: cs)
  | c :: cs => c :: resolve cs

def dropSuffix (tail cs : List Char) : List Char :=
  if tail.isSuffixOf cs then cs.take (cs.length - tail.length) else cs

/-- The delimiter that a literal opens with, and what follows it. The delimiter is three equal
quotes or the first character; there is none if that is not one byte long. -/
def openQuotes? : List Char → Option (List Char × List Char)
  | [] => none
  | c :: cs =>
    if (c = '\x22' ∨ c = '\x27') ∧ [c, c].isPrefixOf cs then some ([c, c, c], cs.drop 2)
    else if c.utf8Size = 1 then some ([c], cs)
    else none

/-- The contents of a string literal. The closing delimiter is left out where it stands; a literal
without it keeps all it has. -/
def contents (text : String) : String :=
  match openQuotes? text.toList with
  | none => ""
  | some (delimiter, body) => String.ofList (resolve (dropSuffix delimiter body))

end Offside.Literal
