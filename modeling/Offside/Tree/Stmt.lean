import Offside.Convention
import Offside.Tree.Pattern
import Offside.Tree.TypeExpr

namespace Offside

structure ImportName where
  span : Span
  path : List String
  asName : Option String
  deriving DecidableEq, Inhabited

inductive ImportTargets where
  | wildcard
  | listed (names : List ImportName)
  deriving DecidableEq, Inhabited

inductive TypeParameter where
  | named (span : Span) (name : String) (declaredType : Option TypeExpr) (default : Option Expr)
  /-- The `//` mark: the parameters before it are only ever inferred. -/
  | inferOnly (span : Span)
  deriving Inhabited

structure Parameter where
  span : Span
  convention : Option Convention
  name : String
  declaredType : Option TypeExpr
  default : Option Expr
  /-- Written with a star; has neither convention nor default. -/
  variadic : Bool
  deriving Inhabited

inductive FunctionWord where
  | kwDef | kwFn
  deriving DecidableEq, Inhabited

structure FunctionHead where
  word : FunctionWord
  name : String
  typeParameters : List TypeParameter
  parameters : List Parameter
  returnConvention : Option Convention
  returnType : Option TypeExpr
  raises : Bool
  deriving Inhabited

inductive TypeWord where
  | kwStruct | kwTrait
  deriving DecidableEq, Inhabited

structure TypeHead where
  word : TypeWord
  name : String
  typeParameters : List TypeParameter
  bases : List TypeExpr
  deriving Inhabited

structure Decorator where
  span : Span
  path : List String
  arguments : Option (List Argument)
  deriving Inhabited

inductive AliasValue where
  | type (type : TypeExpr)
  | value (value : Expr)
  deriving Inhabited

inductive BareWord where
  | kwPass | kwBreak | kwContinue
  deriving DecidableEq, Inhabited

inductive LeaveWord where
  | kwReturn | kwRaise
  deriving DecidableEq, Inhabited

mutual

inductive Stmt where
  | importModules (span : Span) (names : List ImportName)
  /-- The level counts the leading dots of a relative import. -/
  | importFrom (span : Span) (level : Nat) (path : List String) (targets : ImportTargets)
  | expression (span : Span) (value : Expr)
  | assignment (span : Span) (isVar : Bool) (target : Pattern) (declaredType : Option TypeExpr)
      (value : Expr)
  | augmented (span : Span) (operator : BinaryOp) (target : Pattern) (value : Expr)
  /-- A declaration without a value. -/
  | declaration (span : Span) (isVar : Bool) (name : String) (declaredType : Option TypeExpr)
  | aliasing (span : Span) (name : String) (typeParameters : List TypeParameter)
      (value : AliasValue)
  | leave (span : Span) (word : LeaveWord) (value : Option Expr)
  | bare (span : Span) (word : BareWord)
  | function (span : Span) (head : FunctionHead) (body : Block)
  | typeDecl (span : Span) (head : TypeHead) (body : Block)
  | conditional (span : Span) (condition : Expr) (body : Block) (elifs : List ElifClause)
      (otherwise : Option Block)
  | forLoop (span : Span) (target : Pattern) (iterable : Expr) (body : Block)
  | whileLoop (span : Span) (condition : Expr) (body : Block)
  | decorated (span : Span) (decorators : List Decorator) (definition : Stmt)
  /-- Source passed over because of a fault. -/
  | error (span : Span)

/-- The body of a compound statement; it is inline when it stands on the header's line. -/
inductive Block where
  | mk (span : Span) (inline : Bool) (body : List Stmt)

inductive ElifClause where
  | mk (span : Span) (condition : Expr) (body : Block)

end

instance : Inhabited Stmt := ⟨.error default⟩

instance : Inhabited Block := ⟨.mk default false []⟩

namespace Stmt

def span : Stmt → Span
  | importModules s _ | importFrom s _ _ _ | expression s _ | assignment s _ _ _ _
  | augmented s _ _ _ | declaration s _ _ _ | aliasing s _ _ _ | leave s _ _ | bare s _
  | function s _ _ | typeDecl s _ _ | conditional s _ _ _ _ | forLoop s _ _ _ | whileLoop s _ _
  | decorated s _ _ | error s => s

def isError : Stmt → Bool
  | error _ => true
  | _ => false

end Stmt

namespace Block

def span : Block → Span
  | mk s _ _ => s

def inline : Block → Bool
  | mk _ inline _ => inline

def body : Block → List Stmt
  | mk _ _ body => body

end Block

def ElifClause.span : ElifClause → Span
  | mk s _ _ => s

end Offside
