import Offside.Tree.Expr

namespace Offside

inductive Pattern where
  | symbol (span : Span) (name : String)
  | tuple (span : Span) (elements : List Pattern)
  | list (span : Span) (elements : List Pattern)
  | member (span : Span) (object : Expr) (name : String)
  | subscript (span : Span) (object : Expr) (indices : List Expr)

instance : Inhabited Pattern := ⟨.symbol default ""⟩

def Pattern.span : Pattern → Span
  | symbol s _ | tuple s _ | list s _ | member s _ _ | subscript s _ _ => s

mutual

/-- Reads an expression as a target; fails with the span of the first part that is none. -/
def Pattern.ofExpr : Expr → Except Span Pattern
  | .symbol span name => .ok (.symbol span name)
  | .member span object name => .ok (.member span object name)
  | .subscript span object indices => .ok (.subscript span object indices)
  | .parenthesized _ inner => Pattern.ofExpr inner
  | .tuple span elements =>
    match Pattern.ofExprs elements with
    | .ok targets => .ok (.tuple span targets)
    | .error fault => .error fault
  | .list span elements =>
    match Pattern.ofExprs elements with
    | .ok targets => .ok (.list span targets)
    | .error fault => .error fault
  | e => .error e.span

def Pattern.ofExprs : List Expr → Except Span (List Pattern)
  | [] => .ok []
  | e :: es =>
    match Pattern.ofExpr e with
    | .error fault => .error fault
    | .ok target =>
      match Pattern.ofExprs es with
      | .error fault => .error fault
      | .ok targets => .ok (target :: targets)

end

end Offside
