import Offside.Proofs.Writing.Target

namespace Offside

namespace Piece

def dotted : List String → List Piece
  | [] => []
  | first :: rest => .name first :: rest.flatMap fun part => [.fixed .dot, .name part]

def lines : List (List Piece) → List Piece
  | [] => []
  | [line] => line ++ [.fixed .newline]
  | line :: next :: rest => line ++ .fixed .semicolon :: lines (next :: rest)

def startsTarget : Piece → Bool
  | name _ | fixed .openParen => true
  | _ => false

def declared : Option TypeExpr → List Piece := introduced .colon TypeExpr.pieces

def defaulted : Option Expr → List Piece :=
  introduced .assignment fun e => (e.written .free).pieces

end Piece

def ImportName.pieces (n : ImportName) : List Piece :=
  Piece.dotted n.path ++ Piece.introduced .kwAs (fun name => [.name name]) n.asName

namespace ImportTargets

def pieces : ImportTargets → List Piece
  | wildcard => [.fixed .star]
  | listed names => Piece.separated (names.map ImportName.pieces)

def Proper : ImportTargets → Prop
  | wildcard => True
  | listed names => names ≠ [] ∧ ∀ n ∈ names, ∃ name, n.path = [name]

end ImportTargets

namespace TypeParameter

def pieces : TypeParameter → List Piece
  | named _ name declaredType value =>
    .name name :: (Piece.declared declaredType ++ Piece.defaulted value)
  | inferOnly _ => [.fixed .slashSlash]

def listed : List TypeParameter → List Piece
  | [] => []
  | ps => .fixed .openBracket :: (Piece.commaList (ps.map pieces) ++ [.fixed .closeBracket])

def Proper : TypeParameter → Prop
  | named _ _ declaredType value => (∀ t ∈ declaredType, t.Proper) ∧ ∀ e ∈ value, e.Proper
  | inferOnly _ => True

end TypeParameter

namespace AliasValue

/-- A type stands for itself where an expression is read. -/
def pieces : AliasValue → List Piece
  | type t => (t.expr.written .free).pieces
  | value e => (e.written .free).pieces

def Proper : AliasValue → Prop
  | type t => t.Nested
  | value e => e.Proper ∧ TypeExpr.ofExpr? e = none

end AliasValue

namespace Parameter

def pieces (p : Parameter) : List Piece :=
  (p.convention.map fun c => Piece.name c.word).toList ++ (if p.variadic then [.fixed .star] else []) ++
    .name p.name :: (Piece.declared p.declaredType ++ Piece.defaulted p.default)

structure Proper (allowed : ConventionSet) (p : Parameter) : Prop where
  accepted : ∀ c ∈ p.convention, allowed.accepts c = true
  declared : ∀ t ∈ p.declaredType, t.Proper
  default : ∀ e ∈ p.default, e.Proper
  variadic : p.variadic = true → p.convention = none ∧ p.default = none

end Parameter

namespace FunctionHead

def pieces (h : FunctionHead) : List Piece :=
  .fixed h.word.kind :: .name h.name :: (TypeParameter.listed h.typeParameters ++
    .fixed .openParen :: (Piece.commaList (h.parameters.map Parameter.pieces) ++ .fixed .closeParen ::
      ((if h.raises then [.name "raises"] else []) ++ Piece.introduced .arrow (fun t =>
        (h.returnConvention.map fun c => Piece.name c.word).toList ++ t.pieces) h.returnType)))

/-- A convention of the result stands only before a type that starts with a name. -/
structure Proper (allowed : ConventionSet) (h : FunctionHead) : Prop where
  typeParameters : ∀ p ∈ h.typeParameters, p.Proper
  parameters : ∀ p ∈ h.parameters, p.Proper allowed
  returnType : ∀ t ∈ h.returnType, t.Proper
  accepted : ∀ c ∈ h.returnConvention, allowed.accepts c = true
  named : h.returnConvention ≠ none → ∃ t ∈ h.returnType, ∃ name, .name name ∈ t.pieces.head?

end FunctionHead

namespace TypeHead

def basesPieces : List TypeExpr → List Piece
  | [] => []
  | bases => .fixed .openParen :: (Piece.commaList (bases.map TypeExpr.pieces) ++ [.fixed .closeParen])

def pieces (h : TypeHead) : List Piece :=
  .fixed h.word.kind :: .name h.name :: (TypeParameter.listed h.typeParameters ++ basesPieces h.bases)

structure Proper (h : TypeHead) : Prop where
  typeParameters : ∀ p ∈ h.typeParameters, p.Proper
  bases : ∀ t ∈ h.bases, t.Proper

end TypeHead

namespace Decorator

def argumentsPieces : Option (List Argument) → List Piece
  | none => []
  | some as => .fixed .openParen ::
      (Piece.commaList ((as.map (Argument.mapParts Place.enclose)).map Argument.pieces) ++
        [.fixed .closeParen])

def pieces (d : Decorator) : List Piece :=
  .fixed .atSign :: (Piece.dotted d.path ++ (argumentsPieces d.arguments ++ [.fixed .newline]))

structure Proper (d : Decorator) : Prop where
  path : d.path ≠ []
  arguments : ∀ as ∈ d.arguments, ∀ a ∈ as, a.value.Proper

end Decorator

def BinaryOp.augmentedKind : BinaryOp → Kind
  | add => .plusEquals
  | subtract => .minusEquals
  | multiply => .starEquals
  | divide => .slashEquals
  | floorDivide => .slashSlashEquals
  | modulo => .percentEquals
  | power => .starStarEquals
  | bitOr => .pipeEquals
  | bitXor => .caretEquals
  | bitAnd => .ampersandEquals
  | shiftLeft => .shiftLeftEquals
  | shiftRight => .shiftRightEquals
  -- there is none for these
  | or | and => .eof

def Pattern.isSequence : Pattern → Bool
  | tuple .. | list .. => true
  | _ => false

namespace Stmt

def isSimple : Stmt → Bool
  | importModules .. | importFrom .. | expression .. | assignment .. | augmented ..
  | declaration .. | aliasing .. | leave .. | bare .. => true
  | _ => false

def isDefinition : Stmt → Bool
  | function .. | typeDecl .. => true
  | _ => false

def line : Stmt → List Piece
  | importModules _ names => .fixed .kwImport :: Piece.separated (names.map ImportName.pieces)
  | importFrom _ level path targets =>
    .fixed .kwFrom :: (List.replicate level (.fixed .dot) ++
      (Piece.dotted path ++ .fixed .kwImport :: targets.pieces))
  | expression _ value => (value.written .free).pieces
  | assignment _ isVar target declaredType value =>
    (if isVar then [.fixed .kwVar] else []) ++ (target.pieces ++ (Piece.declared declaredType ++
      .fixed .assignment :: (value.written .free).pieces))
  | augmented _ op target value =>
    target.pieces ++ .fixed op.augmentedKind :: (value.written .free).pieces
  | declaration _ isVar name declaredType =>
    (if isVar then [.fixed .kwVar] else []) ++ .name name :: Piece.declared declaredType
  | aliasing _ name typeParameters value =>
    .fixed .kwAlias :: .name name :: (TypeParameter.listed typeParameters ++
      .fixed .assignment :: value.pieces)
  | leave _ word value =>
    .fixed word.kind :: (value.map fun e => (e.written .free).pieces).getD []
  | bare _ word => [.fixed word.kind]
  | _ => []

end Stmt

mutual

def Stmt.pieces : Stmt → List Piece
  | .function _ head body => head.pieces ++ body.pieces
  | .typeDecl _ head body => head.pieces ++ body.pieces
  | .conditional _ condition body elifs otherwise =>
    .fixed .kwIf :: ((condition.written .free).pieces ++
      (body.pieces ++ (ElifClause.piecesAll elifs ++ Block.elsePieces otherwise)))
  | .forLoop _ target iterable body =>
    .fixed .kwFor :: (target.pieces ++ .fixed .kwIn :: ((iterable.written .free).pieces ++ body.pieces))
  | .whileLoop _ condition body =>
    .fixed .kwWhile :: ((condition.written .free).pieces ++ body.pieces)
  | .decorated _ decorators definition => decorators.flatMap Decorator.pieces ++ definition.pieces
  | s => s.line ++ [.fixed .newline]

def Block.pieces : Block → List Piece
  | .mk _ inline body =>
    .fixed .colon :: (if inline then Piece.lines (body.map Stmt.line)
      else .fixed .newline :: .fixed .indent :: (Stmt.piecesAll body ++ [.fixed .dedent]))

def ElifClause.pieces : ElifClause → List Piece
  | .mk _ condition body => .fixed .kwElif :: ((condition.written .free).pieces ++ body.pieces)

def Stmt.piecesAll : List Stmt → List Piece
  | [] => []
  | s :: ss => s.pieces ++ Stmt.piecesAll ss

def ElifClause.piecesAll : List ElifClause → List Piece
  | [] => []
  | c :: cs => c.pieces ++ ElifClause.piecesAll cs

def Block.elsePieces : Option Block → List Piece
  | none => []
  | some b => .fixed .kwElse :: b.pieces

end

namespace ElifClause

def condition : ElifClause → Expr
  | mk _ condition _ => condition

def body : ElifClause → Block
  | mk _ _ body => body

end ElifClause

/-- A block with a statement in it, and with simple ones only if it stands on its header's line. -/
def Block.Filled (b : Block) : Prop :=
  b.body ≠ [] ∧ (b.inline = true → ∀ s ∈ b.body, s.isSimple = true)

/-- A statement that can be listed, given the conventions that may be written. -/
inductive Stmt.Proper (allowed : ConventionSet) : Stmt → Prop where
  | importModules {s names} (ne_nil : names ≠ []) (paths : ∀ n ∈ names, ImportName.path n ≠ []) :
      Proper allowed (.importModules s names)
  | importFrom {s level path targets} (origin : level = 0 → path ≠ [])
      (taken : ImportTargets.Proper targets) : Proper allowed (.importFrom s level path targets)
  | expression {s value} (proper : Expr.Proper value) : Proper allowed (.expression s value)
  | assignment {s isVar target declaredType value} (assigned : Pattern.Proper target)
      (start : isVar = true → ∃ p ∈ (Pattern.pieces target).head?, p.startsTarget = true)
      (declared : ∀ t ∈ declaredType, TypeExpr.Proper t) (proper : Expr.Proper value) :
      Proper allowed (.assignment s isVar target declaredType value)
  | augmented {s op target value} (written : BinaryOp.augmentedKind op ≠ .eof)
      (assigned : Pattern.Proper target) (single : Pattern.isSequence target = false)
      (proper : Expr.Proper value) : Proper allowed (.augmented s op target value)
  | declaration {s isVar name declaredType} (declared : ∀ t ∈ declaredType, TypeExpr.Proper t)
      (typed : isVar = false → declaredType ≠ none) :
      Proper allowed (.declaration s isVar name declaredType)
  | aliasing {s name typeParameters value} (parameters : ∀ p ∈ typeParameters, TypeParameter.Proper p)
      (proper : AliasValue.Proper value) : Proper allowed (.aliasing s name typeParameters value)
  | leave {s word value} (proper : ∀ e ∈ value, Expr.Proper e) : Proper allowed (.leave s word value)
  | bare {s word} : Proper allowed (.bare s word)
  | function {s head body} (header : FunctionHead.Proper allowed head) (filled : Block.Filled body)
      (inside : ∀ s ∈ Block.body body, Proper allowed s) : Proper allowed (.function s head body)
  | typeDecl {s head body} (header : TypeHead.Proper head) (filled : Block.Filled body)
      (inside : ∀ s ∈ Block.body body, Proper allowed s) : Proper allowed (.typeDecl s head body)
  | conditional {s condition body elifs otherwise} (decided : Expr.Proper condition)
      (filled : Block.Filled body) (inside : ∀ s ∈ Block.body body, Proper allowed s)
      (clauses : ∀ c ∈ elifs, (ElifClause.condition c).Proper ∧ c.body.Filled)
      (insideClauses : ∀ c ∈ elifs, ∀ s ∈ (ElifClause.body c).body, Proper allowed s)
      (last : ∀ b ∈ otherwise, Block.Filled b)
      (insideLast : ∀ b ∈ otherwise, ∀ s ∈ Block.body b, Proper allowed s) :
      Proper allowed (.conditional s condition body elifs otherwise)
  | forLoop {s target iterable body} (assigned : Pattern.Proper target)
      (iterated : Expr.Proper iterable) (filled : Block.Filled body)
      (inside : ∀ s ∈ Block.body body, Proper allowed s) :
      Proper allowed (.forLoop s target iterable body)
  | whileLoop {s condition body} (decided : Expr.Proper condition) (filled : Block.Filled body)
      (inside : ∀ s ∈ Block.body body, Proper allowed s) : Proper allowed (.whileLoop s condition body)
  | decorated {s decorators definition} (ne_nil : decorators ≠ [])
      (decorating : ∀ d ∈ decorators, Decorator.Proper d)
      (defines : Stmt.isDefinition definition = true) (proper : Proper allowed definition) :
      Proper allowed (.decorated s decorators definition)

end Offside
