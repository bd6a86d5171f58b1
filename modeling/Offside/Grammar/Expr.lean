import Offside.Grammar.Extension

namespace Offside.Grammar

open Rule

/-- One step of climbing: extends `left` if the current token binds more tightly than `level`. -/
def extend? (sub : ExprRule) (level : Level) (left : Expr) : Rule (Option Expr) := fun c =>
  if level < c.level then (some <$> extension sub left c.level) c else .ok none c

def climb (sub : ExprRule) (level : Level) : Rule Expr := do
  let left ← operand sub
  iterate Cursor.remaining (extend? sub level) left

/-- An expression whose operators bind more tightly than a level. Its subexpressions start after
its first token, so they have fewer tokens before them. -/
def expr (level : Level) : Rule Expr := fun c =>
  climb (fun level' c' =>
    if c'.remaining < c.remaining then expr level' c' else .error c'.unexpected c') level c
termination_by c => c.remaining

def inner (n : Nat) : ExprRule := fun level c =>
  if c.remaining < n then expr level c else .error c.unexpected c

theorem expr_eq_climb (level : Level) (c : Cursor) : expr level c = climb (inner c.remaining) level c := by
  rw [expr]
  rfl

theorem inner_of_lt {n : Nat} {level : Level} {c : Cursor} (h : c.remaining < n) :
    inner n level c = expr level c :=
  if_pos h

/-- One expression, or several with commas as a tuple without parentheses. After a comma the list
goes on only if an operand can start. -/
def exprList : Rule Expr := do
  let first ← expr .lowest
  if (← kind) = .comma then
    let rest ← commaTail (fun k => !k.startsOperand) (expr .lowest)
    return .tuple ⟨first.span.start, ← previousEnd⟩ (first :: rest)
  else return first

end Offside.Grammar
