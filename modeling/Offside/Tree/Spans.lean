import Offside.Tree.Stmt

namespace Offside

mutual

def Expr.mapSpans (f : Span → Span) : Expr → Expr
  | .integer s text value => .integer (f s) text value
  | .float s value => .float (f s) value
  | .string s value => .string (f s) value
  | .boolean s value => .boolean (f s) value
  | .noneLiteral s => .noneLiteral (f s)
  | .symbol s name => .symbol (f s) name
  | .list s elements => .list (f s) (Expr.mapSpansAll f elements)
  | .tuple s elements => .tuple (f s) (Expr.mapSpansAll f elements)
  | .set s elements => .set (f s) (Expr.mapSpansAll f elements)
  | .dict s entries => .dict (f s) (Expr.mapSpansEntries f entries)
  | .parenthesized s inner => .parenthesized (f s) (inner.mapSpans f)
  | .call s callee arguments =>
    .call (f s) (callee.mapSpans f) (Argument.mapSpansAll f arguments)
  | .genericCall s callee typeArguments arguments =>
    .genericCall (f s) (callee.mapSpans f) (Argument.mapSpansAll f typeArguments)
      (Argument.mapSpansAll f arguments)
  | .member s object name => .member (f s) (object.mapSpans f) name
  | .subscript s object indices =>
    .subscript (f s) (object.mapSpans f) (Expr.mapSpansAll f indices)
  | .slice s lower upper step =>
    .slice (f s) (Expr.mapSpansOpt f lower) (Expr.mapSpansOpt f upper) (Expr.mapSpansOpt f step)
  | .transfer s value => .transfer (f s) (value.mapSpans f)
  | .unary s op operand => .unary (f s) op (operand.mapSpans f)
  | .binary s op left right => .binary (f s) op (left.mapSpans f) (right.mapSpans f)
  | .comparison s first links =>
    .comparison (f s) (first.mapSpans f) (Expr.mapSpansLinks f links)
  | .conditional s thenValue condition elseValue =>
    .conditional (f s) (thenValue.mapSpans f) (condition.mapSpans f) (elseValue.mapSpans f)

def Argument.mapSpans (f : Span → Span) : Argument → Argument
  | .positional value => .positional (value.mapSpans f)
  | .keyword s name value => .keyword (f s) name (value.mapSpans f)

def Expr.mapSpansAll (f : Span → Span) : List Expr → List Expr
  | [] => []
  | e :: es => e.mapSpans f :: Expr.mapSpansAll f es

def Expr.mapSpansEntries (f : Span → Span) : List (Expr × Expr) → List (Expr × Expr)
  | [] => []
  | (key, value) :: rest => (key.mapSpans f, value.mapSpans f) :: Expr.mapSpansEntries f rest

def Expr.mapSpansLinks (f : Span → Span) :
    List (ComparisonOp × Expr) → List (ComparisonOp × Expr)
  | [] => []
  | (op, operand) :: rest => (op, operand.mapSpans f) :: Expr.mapSpansLinks f rest

def Expr.mapSpansOpt (f : Span → Span) : Option Expr → Option Expr
  | none => none
  | some e => some (e.mapSpans f)

def Argument.mapSpansAll (f : Span → Span) : List Argument → List Argument
  | [] => []
  | a :: as => a.mapSpans f :: Argument.mapSpansAll f as

end

mutual

def TypeExpr.mapSpans (f : Span → Span) : TypeExpr → TypeExpr
  | .symbol s name => .symbol (f s) name
  | .qualified s base member => .qualified (f s) (base.mapSpans f) member
  | .generic s base arguments =>
    .generic (f s) (base.mapSpans f) (TypeArgument.mapSpansAll f arguments)

def TypeArgument.mapSpans (f : Span → Span) : TypeArgument → TypeArgument
  | .type t => .type (t.mapSpans f)
  | .value e => .value (e.mapSpans f)
  | .keyword s name argument => .keyword (f s) name (argument.mapSpans f)

def TypeArgument.mapSpansAll (f : Span → Span) : List TypeArgument → List TypeArgument
  | [] => []
  | a :: as => a.mapSpans f :: TypeArgument.mapSpansAll f as

end

mutual

def Pattern.mapSpans (f : Span → Span) : Pattern → Pattern
  | .symbol s name => .symbol (f s) name
  | .tuple s elements => .tuple (f s) (Pattern.mapSpansAll f elements)
  | .list s elements => .list (f s) (Pattern.mapSpansAll f elements)
  | .member s object name => .member (f s) (object.mapSpans f) name
  | .subscript s object indices =>
    .subscript (f s) (object.mapSpans f) (indices.map (Expr.mapSpans f))

def Pattern.mapSpansAll (f : Span → Span) : List Pattern → List Pattern
  | [] => []
  | p :: ps => p.mapSpans f :: Pattern.mapSpansAll f ps

end

def ImportName.mapSpans (f : Span → Span) (n : ImportName) : ImportName :=
  { n with span := f n.span }

def ImportTargets.mapSpans (f : Span → Span) : ImportTargets → ImportTargets
  | .wildcard => .wildcard
  | .listed names => .listed (names.map (ImportName.mapSpans f))

def TypeParameter.mapSpans (f : Span → Span) : TypeParameter → TypeParameter
  | .named s name declaredType default =>
    .named (f s) name (declaredType.map (TypeExpr.mapSpans f)) (default.map (Expr.mapSpans f))
  | .inferOnly s => .inferOnly (f s)

def Parameter.mapSpans (f : Span → Span) (p : Parameter) : Parameter :=
  { p with
    span := f p.span
    declaredType := p.declaredType.map (TypeExpr.mapSpans f)
    default := p.default.map (Expr.mapSpans f) }

def FunctionHead.mapSpans (f : Span → Span) (h : FunctionHead) : FunctionHead :=
  { h with
    typeParameters := h.typeParameters.map (TypeParameter.mapSpans f)
    parameters := h.parameters.map (Parameter.mapSpans f)
    returnType := h.returnType.map (TypeExpr.mapSpans f) }

def TypeHead.mapSpans (f : Span → Span) (h : TypeHead) : TypeHead :=
  { h with
    typeParameters := h.typeParameters.map (TypeParameter.mapSpans f)
    bases := h.bases.map (TypeExpr.mapSpans f) }

def Decorator.mapSpans (f : Span → Span) (d : Decorator) : Decorator :=
  { d with
    span := f d.span
    arguments := d.arguments.map (List.map (Argument.mapSpans f)) }

def AliasValue.mapSpans (f : Span → Span) : AliasValue → AliasValue
  | .type t => .type (t.mapSpans f)
  | .value e => .value (e.mapSpans f)

mutual

def Stmt.mapSpans (f : Span → Span) : Stmt → Stmt
  | .importModules s names => .importModules (f s) (names.map (ImportName.mapSpans f))
  | .importFrom s level path targets => .importFrom (f s) level path (targets.mapSpans f)
  | .expression s value => .expression (f s) (value.mapSpans f)
  | .assignment s isVar target declaredType value =>
    .assignment (f s) isVar (target.mapSpans f) (declaredType.map (TypeExpr.mapSpans f))
      (value.mapSpans f)
  | .augmented s op target value => .augmented (f s) op (target.mapSpans f) (value.mapSpans f)
  | .declaration s isVar name declaredType =>
    .declaration (f s) isVar name (declaredType.map (TypeExpr.mapSpans f))
  | .aliasing s name typeParameters value =>
    .aliasing (f s) name (typeParameters.map (TypeParameter.mapSpans f)) (value.mapSpans f)
  | .leave s word value => .leave (f s) word (value.map (Expr.mapSpans f))
  | .bare s word => .bare (f s) word
  | .function s head body => .function (f s) (head.mapSpans f) (body.mapSpans f)
  | .typeDecl s head body => .typeDecl (f s) (head.mapSpans f) (body.mapSpans f)
  | .conditional s condition body elifs otherwise =>
    .conditional (f s) (condition.mapSpans f) (body.mapSpans f) (ElifClause.mapSpansAll f elifs)
      (Block.mapSpansOpt f otherwise)
  | .forLoop s target iterable body =>
    .forLoop (f s) (target.mapSpans f) (iterable.mapSpans f) (body.mapSpans f)
  | .whileLoop s condition body => .whileLoop (f s) (condition.mapSpans f) (body.mapSpans f)
  | .decorated s decorators definition =>
    .decorated (f s) (decorators.map (Decorator.mapSpans f)) (definition.mapSpans f)
  | .error s => .error (f s)

def Block.mapSpans (f : Span → Span) : Block → Block
  | .mk s inline body => .mk (f s) inline (Stmt.mapSpansAll f body)

def ElifClause.mapSpans (f : Span → Span) : ElifClause → ElifClause
  | .mk s condition body => .mk (f s) (condition.mapSpans f) (body.mapSpans f)

def Stmt.mapSpansAll (f : Span → Span) : List Stmt → List Stmt
  | [] => []
  | s :: ss => s.mapSpans f :: Stmt.mapSpansAll f ss

def ElifClause.mapSpansAll (f : Span → Span) : List ElifClause → List ElifClause
  | [] => []
  | c :: cs => c.mapSpans f :: ElifClause.mapSpansAll f cs

def Block.mapSpansOpt (f : Span → Span) : Option Block → Option Block
  | none => none
  | some b => some (b.mapSpans f)

end

def Stmt.shift (s : Stmt) (delta : Int) : Stmt := s.mapSpans fun span => span.shift delta

end Offside
