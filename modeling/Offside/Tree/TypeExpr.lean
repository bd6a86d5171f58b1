import Offside.Tree.Expr

namespace Offside

mutual

inductive TypeExpr where
  | symbol (span : Span) (name : String)
  /-- A member of a module or type: `base.member`. -/
  | qualified (span : Span) (base : TypeExpr) (member : String)
  | generic (span : Span) (base : TypeExpr) (arguments : List TypeArgument)

inductive TypeArgument where
  | type (type : TypeExpr)
  | value (value : Expr)
  | keyword (span : Span) (name : String) (argument : TypeArgument)

end

instance : Inhabited TypeExpr := ⟨.symbol default ""⟩

instance : Inhabited TypeArgument := ⟨.type default⟩

def TypeExpr.span : TypeExpr → Span
  | symbol s _ | qualified s _ _ | generic s _ _ => s

def TypeArgument.span : TypeArgument → Span
  | type t => t.span
  | value e => e.span
  | keyword s _ _ => s

mutual

def TypeExpr.ofExpr? : Expr → Option TypeExpr
  | .symbol span name => some (.symbol span name)
  | .noneLiteral span => some (.symbol span "None")
  | .member span object name => (TypeExpr.ofExpr? object).map fun base =>
      .qualified span base name
  | .subscript span object indices =>
    if indices.any Expr.isSlice then none
    else (TypeExpr.ofExpr? object).map fun base => .generic span base (TypeArgument.ofExprs indices)
  | _ => none

def TypeArgument.ofExprs : List Expr → List TypeArgument
  | [] => []
  | e :: es =>
    (match TypeExpr.ofExpr? e with
      | some t => .type t
      | none => .value e) :: TypeArgument.ofExprs es

end

/-- Reads an expression as a type argument: as a type where it can be. -/
def TypeArgument.ofExpr (e : Expr) : TypeArgument :=
  match TypeExpr.ofExpr? e with
  | some t => .type t
  | none => .value e

end Offside
