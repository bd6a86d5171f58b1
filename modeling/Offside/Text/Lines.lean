import Offside.Text.Bytes

namespace Offside.Text

/-- The lines of a text, each with its line feed; the last may lack one. -/
def lines : List Char → List (List Char)
  | [] => []
  | c :: cs =>
    if c = '\n' then [c] :: lines cs
    else
      match lines cs with
      | [] => [[c]]
      | line :: rest => (c :: line) :: rest

structure Place where
  number : Nat
  line : List Char
  column : Nat
  deriving DecidableEq

def lastLine (cs : List Char) : List Char := (cs.reverse.takeWhile (· ≠ '\n')).reverse

/-- The place of the byte `offset` bytes into consecutive lines, the first of which has the given
number. Without such a byte, the number behind the last line. -/
def placeIn (number offset : Nat) : List (List Char) → Except Nat Place
  | [] => .error number
  | line :: rest =>
    if offset < byteSize line then .ok ⟨number, line, offset⟩
    else placeIn (number + 1) (offset - byteSize line) rest

def placeBehind (cs : List Char) (number : Nat) : Place :=
  if cs.getLast? = some '\n' then ⟨number, [], 0⟩
  else ⟨number - 1, lastLine cs, byteSize (lastLine cs)⟩

def placeFrom (number : Nat) (cs : List Char) (offset : Nat) : Place :=
  match placeIn number offset (lines cs) with
  | .ok p => p
  | .error behind => placeBehind cs behind

def place (cs : List Char) (offset : Nat) : Place := placeFrom 1 cs (min offset (byteSize cs))

end Offside.Text
