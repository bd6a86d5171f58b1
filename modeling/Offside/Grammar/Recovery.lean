import Offside.Cursor

namespace Offside.Grammar

def blockLength : Nat → List Token → Nat
  | _, [] => 0
  | depth, t :: ts =>
    match t.kind with
    | .eof => 0
    | .indent => blockLength (depth + 1) ts + 1
    | .dedent => if depth ≤ 1 then 1 else blockLength (depth - 1) ts + 1
    | _ => blockLength depth ts + 1

def leadingBlockLength : List Token → Nat
  | [] => 0
  | t :: ts => if t.kind = .indent then blockLength 0 (t :: ts) else 0

/-- How many tokens the rest of a broken statement takes, given the indents open in it. -/
def brokenLength : Nat → List Token → Nat
  | _, [] => 0
  | depth, t :: ts =>
    match t.kind with
    | .eof => 0
    | .indent => brokenLength (depth + 1) ts + 1
    | .dedent =>
      match depth with
      | 0 => 0
      | 1 => 1
      | outer + 2 => brokenLength (outer + 1) ts + 1
    | .newline =>
      if depth = 0 then leadingBlockLength ts + 1 else brokenLength depth ts + 1
    | _ => brokenLength depth ts + 1

/-- Moves to the next statement of the enclosing block. A statement that failed after consuming a
newline or a dedent has already come to its end. -/
def synchronize (progressed : Bool) (c : Cursor) : Cursor :=
  if progressed && (c.previousKind? == some .newline || c.previousKind? == some .dedent) then c
  else c.skip (brokenLength 0 c.rest)

end Offside.Grammar
