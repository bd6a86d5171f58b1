import Offside.Grammar.TypeExpr

namespace Offside.Grammar

open Rule

/-- The end of a simple statement; a newline right after a semicolon belongs to it. -/
def endOfStatement : Rule Unit := do
  match ← kind with
  | .semicolon =>
    let _ ← advance
    let _ ← eat .newline
  | .newline => let _ ← advance
  | .eof => return
  | _ => unexpected

def ended {α : Type} (rule : Rule α) : Rule α := do
  let a ← rule
  endOfStatement
  return a

def target (e : Expr) : Rule Pattern :=
  match Pattern.ofExpr e with
  | .ok pattern => pure pattern
  | .error span => fail .invalidAssignmentTarget span

def declaredName : Expr → Rule String
  | .symbol _ name => pure name
  | e => fail .invalidAssignmentTarget e.span

def binding (start : Offset) (isVar : Bool) (left : Expr) (declaredType : Option TypeExpr) :
    Rule Stmt := do
  if ← eat .assignment then
    let value ← exprList
    let pattern ← target left
    return .assignment ⟨start, ← previousEnd⟩ isVar pattern declaredType value
  else
    let name ← declaredName left
    return .declaration ⟨start, ← previousEnd⟩ isVar name declaredType

def augmentedOp? : Kind → Option BinaryOp
  | .plusEquals => some .add
  | .minusEquals => some .subtract
  | .starEquals => some .multiply
  | .starStarEquals => some .power
  | .slashEquals => some .divide
  | .slashSlashEquals => some .floorDivide
  | .percentEquals => some .modulo
  | .pipeEquals => some .bitOr
  | .caretEquals => some .bitXor
  | .ampersandEquals => some .bitAnd
  | .shiftLeftEquals => some .shiftLeft
  | .shiftRightEquals => some .shiftRight
  | _ => none

/-- The value of an augmented assignment, whose target is neither a tuple nor a list. -/
def augmenting (start : Offset) (op : BinaryOp) : Pattern → Rule Stmt
  | .tuple span _ | .list span _ => fail .invalidAssignmentTarget span
  | pattern => do
    let value ← exprList
    return .augmented ⟨start, ← previousEnd⟩ op pattern value

def augmented (start : Offset) (left : Expr) (op : BinaryOp) : Rule Stmt := do
  let _ ← advance
  let pattern ← target left
  augmenting start op pattern

def afterExprList (start : Offset) (first : Expr) : Rule Stmt := do
  match ← kind with
  | .colon =>
    let _ ← advance
    let declaredType ← typeExpr .lowest
    binding start false first (some declaredType)
  | .assignment =>
    let _ ← advance
    let pattern ← target first
    let value ← exprList
    return .assignment ⟨start, ← previousEnd⟩ false pattern none value
  | k =>
    match augmentedOp? k with
    | some op => augmented start first op
    | none => return .expression first.span first

def expressionStmt : Rule Stmt := ended do
  let start ← here
  let first ← exprList
  afterExprList start first

def varBinding (start : Offset) : Rule Stmt := do
  let left ← exprList
  let declaredType ← declaredType?
  binding start true left declaredType

def varStmt : Rule Stmt := ended do
  let start := (← advance).span.start
  match ← kind with
  | .identifier | .openParen => varBinding start
  | _ => unexpectedDetailed "expected identifier during variable declaration"

def aliasStmt : Rule Stmt := ended do
  let start := (← advance).span.start
  let name ← expectDetailed .identifier "expected alias name"
  let parameters ← typeParameters?
  let _ ← expect .assignment
  let e ← expr .lowest
  let value := match TypeExpr.ofExpr? e with
    | some t => AliasValue.type t
    | none => .value e
  return .aliasing ⟨start, ← previousEnd⟩ name.text parameters value

def leaveValueAt : Kind → Rule (Option Expr)
  | .newline | .semicolon | .eof => pure none
  | _ => some <$> exprList

def leaving (start : Offset) (word : LeaveWord) (value : Option Expr) : Rule Stmt := do
  return .leave ⟨start, ← previousEnd⟩ word value

def leaveStmt (word : LeaveWord) : Rule Stmt := ended do
  let start := (← advance).span.start
  let value ← leaveValueAt (← kind)
  leaving start word value

def bareBy (t : Token) : Rule Stmt :=
  match t.kind with
  | .kwPass => pure (.bare t.span .kwPass)
  | .kwBreak => pure (.bare t.span .kwBreak)
  | .kwContinue => pure (.bare t.span .kwContinue)
  | _ => fail (.unexpectedToken t.shown) t.span

def bareStmt : Rule Stmt := ended do bareBy (← advance)

def dotName : Rule (Option String) := do
  let _ ← advance
  return some (← advance).text

def nameRound : Rule (Option String) := do
  if (← kind) = .dot && (← peek 1) = .identifier then dotName else return none

/-- Names joined by dots; a dot that no name follows is left alone. -/
def dottedName (expected : String) : Rule (List String) := do
  let first ← expectDetailed .identifier expected
  let rest ← repeated nameRound
  return first.text :: rest

def asName? : Rule (Option String) := introduced .kwAs do return (← expect .identifier).text

def importName : Rule ImportName := do
  let start ← here
  let path ← dottedName "expected module name"
  let asName ← asName?
  return ⟨⟨start, ← previousEnd⟩, path, asName⟩

def importStmt : Rule Stmt := ended do
  let start := (← advance).span.start
  let names ← commaList (fun _ => false) importName
  return .importModules ⟨start, ← previousEnd⟩ names

def importedName : Rule ImportName := do
  let name ← expect .identifier
  let asName ← asName?
  return ⟨⟨name.span.start, ← previousEnd⟩, [name.text], asName⟩

def importTargets : Rule ImportTargets := do
  if ← eat .star then return .wildcard
  else if ← eat .openParen then
    let names ← commaList (· == .closeParen) importedName
    let _ ← expect .closeParen
    return .listed names
  else return .listed (← commaList (fun _ => false) importedName)

def dotRound : Rule (Option Unit) := do if ← eat .dot then return some () else return none

def importingFrom (start : Offset) (level : Nat) (path : List String) : Rule Stmt := do
  let _ ← expect .kwImport
  let targets ← importTargets
  return .importFrom ⟨start, ← previousEnd⟩ level path targets

def importFromStmt : Rule Stmt := ended do
  let start := (← advance).span.start
  let dots ← repeated dotRound
  let path ← if (← kind) = .identifier || dots.isEmpty then dottedName "expected module name"
    else pure []
  importingFrom start dots.length path

def simpleStmt : Kind → Rule Stmt
  | .kwImport => importStmt
  | .kwFrom => importFromStmt
  | .kwVar => varStmt
  | .kwAlias => aliasStmt
  | .kwReturn => leaveStmt .kwReturn
  | .kwRaise => leaveStmt .kwRaise
  | .kwPass | .kwBreak | .kwContinue => bareStmt
  | _ => expressionStmt

end Offside.Grammar
