import Offside.Proofs.Writing.Enclosed
import Offside.Tree.Stmt

namespace Offside

mutual

def TypeExpr.plain : TypeExpr → TypeExpr
  | .symbol _ name => .symbol default name
  | .qualified _ base member => .qualified default base.plain member
  | .generic _ base arguments => .generic default base.plain (TypeArgument.plainAll arguments)

def TypeArgument.plain : TypeArgument → TypeArgument
  | .type t => .type t.plain
  | .value e => .value e.plain
  | .keyword _ name argument => .keyword default name argument.plain

def TypeArgument.plainAll : List TypeArgument → List TypeArgument
  | [] => []
  | a :: as => a.plain :: TypeArgument.plainAll as

end

mutual

def Pattern.plain : Pattern → Pattern
  | .symbol _ name => .symbol default name
  | .tuple _ elements => .tuple default (Pattern.plainAll elements)
  | .list _ elements => .list default (Pattern.plainAll elements)
  | .member _ object name => .member default object.plain name
  | .subscript _ object indices => .subscript default object.plain (indices.map Expr.plain)

def Pattern.plainAll : List Pattern → List Pattern
  | [] => []
  | p :: ps => p.plain :: Pattern.plainAll ps

end

def ImportName.plain (n : ImportName) : ImportName := { n with span := default }

def ImportTargets.plain : ImportTargets → ImportTargets
  | .wildcard => .wildcard
  | .listed names => .listed (names.map ImportName.plain)

def TypeParameter.plain : TypeParameter → TypeParameter
  | .named _ name declaredType value =>
    .named default name (declaredType.map TypeExpr.plain) (value.map Expr.plain)
  | .inferOnly _ => .inferOnly default

def Parameter.plain (p : Parameter) : Parameter :=
  { p with
    span := Inhabited.default
    declaredType := p.declaredType.map TypeExpr.plain
    default := p.default.map Expr.plain }

def FunctionHead.plain (h : FunctionHead) : FunctionHead :=
  { h with
    typeParameters := h.typeParameters.map TypeParameter.plain
    parameters := h.parameters.map Parameter.plain
    returnType := h.returnType.map TypeExpr.plain }

def TypeHead.plain (h : TypeHead) : TypeHead :=
  { h with
    typeParameters := h.typeParameters.map TypeParameter.plain
    bases := h.bases.map TypeExpr.plain }

def Decorator.plain (d : Decorator) : Decorator :=
  { d with
    span := default
    arguments := d.arguments.map (List.map Argument.plain) }

def AliasValue.plain : AliasValue → AliasValue
  | .type t => .type t.plain
  | .value e => .value e.plain

mutual

def Stmt.plain : Stmt → Stmt
  | .importModules _ names => .importModules default (names.map ImportName.plain)
  | .importFrom _ level path targets => .importFrom default level path targets.plain
  | .expression _ value => .expression default value.plain
  | .assignment _ isVar target declaredType value =>
    .assignment default isVar target.plain (declaredType.map TypeExpr.plain) value.plain
  | .augmented _ op target value => .augmented default op target.plain value.plain
  | .declaration _ isVar name declaredType =>
    .declaration default isVar name (declaredType.map TypeExpr.plain)
  | .aliasing _ name typeParameters value =>
    .aliasing default name (typeParameters.map TypeParameter.plain) value.plain
  | .leave _ word value => .leave default word (value.map Expr.plain)
  | .bare _ word => .bare default word
  | .function _ head body => .function default head.plain body.plain
  | .typeDecl _ head body => .typeDecl default head.plain body.plain
  | .conditional _ condition body elifs otherwise =>
    .conditional default condition.plain body.plain (ElifClause.plainAll elifs)
      (Block.plainOpt otherwise)
  | .forLoop _ target iterable body => .forLoop default target.plain iterable.plain body.plain
  | .whileLoop _ condition body => .whileLoop default condition.plain body.plain
  | .decorated _ decorators definition =>
    .decorated default (decorators.map Decorator.plain) definition.plain
  | .error _ => .error default

def Block.plain : Block → Block
  | .mk _ inline body => .mk default inline (Stmt.plainAll body)

def ElifClause.plain : ElifClause → ElifClause
  | .mk _ condition body => .mk default condition.plain body.plain

def Stmt.plainAll : List Stmt → List Stmt
  | [] => []
  | s :: ss => s.plain :: Stmt.plainAll ss

def ElifClause.plainAll : List ElifClause → List ElifClause
  | [] => []
  | c :: cs => c.plain :: ElifClause.plainAll cs

def Block.plainOpt : Option Block → Option Block
  | none => none
  | some b => some b.plain

end

theorem TypeArgument.plainAll_eq_map (as : List TypeArgument) :
    TypeArgument.plainAll as = as.map TypeArgument.plain := by
  induction as with
  | nil => rfl
  | cons a as ih => rw [TypeArgument.plainAll, ih, List.map_cons]

theorem Stmt.plainAll_eq_map (ss : List Stmt) : Stmt.plainAll ss = ss.map Stmt.plain := by
  induction ss with
  | nil => rfl
  | cons s ss ih => rw [Stmt.plainAll, ih, List.map_cons]

theorem ElifClause.plainAll_eq_map (cs : List ElifClause) :
    ElifClause.plainAll cs = cs.map ElifClause.plain := by
  induction cs with
  | nil => rfl
  | cons c cs ih => rw [ElifClause.plainAll, ih, List.map_cons]

theorem Block.plainOpt_eq_map (b : Option Block) : Block.plainOpt b = b.map Block.plain := by
  cases b <;> rfl

end Offside
