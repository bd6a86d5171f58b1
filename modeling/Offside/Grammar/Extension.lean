import Offside.Grammar.Operand

namespace Offside.Grammar

open Rule

def binaryOp? : Kind → Option BinaryOp
  | .kwOr => some .or
  | .kwAnd => some .and
  | .pipe => some .bitOr
  | .caret => some .bitXor
  | .ampersand => some .bitAnd
  | .shiftLeft => some .shiftLeft
  | .shiftRight => some .shiftRight
  | .plus => some .add
  | .dash => some .subtract
  | .star => some .multiply
  | .slash => some .divide
  | .slashSlash => some .floorDivide
  | .percent => some .modulo
  | .starStar => some .power
  | _ => none

def binaryBy (t : Token) (sub : ExprRule) (left : Expr) (level : Level) : Rule Expr :=
  match binaryOp? t.kind with
  | some op => return .operation op left (← sub level)
  | none => fail (.unexpectedToken t.shown) t.span

/-- An operator that groups to the left: its right operand stops at its own level. -/
def binary (sub : ExprRule) (left : Expr) (level : Level) : Rule Expr := do
  binaryBy (← advance) sub left level

/-- Powers group to the right, and the right operand may have a sign. -/
def power (sub : ExprRule) (left : Expr) : Rule Expr := do
  let _ ← advance
  return .operation .power left (← sub .unary)

/-- A caret gives up the value as a trailer and is exclusive or at any other level. -/
def caret (sub : ExprRule) (left : Expr) (level : Level) : Rule Expr := do
  if level = .trailer then
    let t ← advance
    return .transfer (left.span.through t.span) left
  else binary sub left level

def taking (op : ComparisonOp) : Rule (Option ComparisonOp) := do
  let _ ← advance
  return some op

def isOp : Rule (Option ComparisonOp) := do
  let _ ← advance
  return some (if ← eat .kwNot then .isNot else .is)

def notWithinOp : Rule (Option ComparisonOp) := do
  if (← peek 1) = .kwIn then
    let _ ← advance
    taking .notWithin
  else return none

def comparisonOpAt : Kind → Rule (Option ComparisonOp)
  | .equals => taking .equal
  | .notEquals => taking .notEqual
  | .less => taking .less
  | .lessEquals => taking .lessEqual
  | .greater => taking .greater
  | .greaterEquals => taking .greaterEqual
  | .kwIn => taking .within
  | .kwIs => isOp
  | .kwNot => notWithinOp
  | _ => pure none

def comparisonOp? : Rule (Option ComparisonOp) := do comparisonOpAt (← kind)

def linkRound (sub : ExprRule) : Rule (Option (ComparisonOp × Expr)) := do
  match ← comparisonOp? with
  | none => return none
  | some op => return some (op, ← sub .comparison)

def comparison (sub : ExprRule) (first : Expr) : Rule Expr := do
  let links ← repeated (linkRound sub)
  let final := (links.getLast?.map fun link => link.2).getD first
  return .comparison (first.span.through final.span) first links

def conditional (sub : ExprRule) (left : Expr) : Rule Expr := do
  let _ ← advance
  let condition ← sub .conditional
  let _ ← expect .kwElse
  let elseValue ← sub .lowest
  return .conditional (left.span.through elseValue.span) left condition elseValue

def member (left : Expr) : Rule Expr := do
  let _ ← advance
  let t ← expectDetailed .identifier "expected an attribute name"
  return .member (left.span.through t.span) left t.text

def argument (sub : ExprRule) (level : Level) : Rule Argument := do
  if ← atKeyword then
    let name ← advance
    let _ ← advance
    let value ← sub level
    return .keyword (name.span.through value.span) name.text value
  else return .positional (← sub level)

/-- Arguments in parentheses; a conditional among them needs its own. -/
def callArguments (sub : ExprRule) : Rule (List Argument) := do
  let _ ← expect .openParen
  let arguments ← listUpTo .closeParen (argument sub .conditional)
  let _ ← expect .closeParen
  return arguments

def call (sub : ExprRule) (left : Expr) : Rule Expr := do
  let arguments ← callArguments sub
  return .call ⟨left.span.start, ← previousEnd⟩ left arguments

def sliceBoundAt (k : Kind) (sub : ExprRule) : Rule (Option Expr) :=
  match k with
  | .colon | .comma | .closeBracket => pure none
  | _ => some <$> sub .lowest

def sliceBound (sub : ExprRule) : Rule (Option Expr) := do sliceBoundAt (← kind) sub

def sliced (start : Offset) (lower upper step : Option Expr) : Rule Argument := do
  return .positional (.slice ⟨start, ← previousEnd⟩ lower upper step)

def sliceTail (sub : ExprRule) (start : Offset) (lower : Option Expr) : Rule Argument := do
  let _ ← advance
  let upper ← sliceBound sub
  let step ← if ← eat .colon then sliceBound sub else pure none
  sliced start lower upper step

def bracketItem (sub : ExprRule) : Rule Argument := do
  if ← atKeyword then argument sub .lowest
  else
    let start ← here
    if (← kind) = .colon then sliceTail sub start none
    else
      let e ← sub .lowest
      if (← kind) = .colon then sliceTail sub start (some e) else return .positional e

def typeArgumentFault? (item : Argument) : Option Diagnostic :=
  match item.value with
  | .slice span .. =>
    some ⟨.unexpectedTokenDetailed ":" "a slice cannot be a type argument", span⟩
  | .conditional span .. =>
    some ⟨.unexpectedTokenDetailed "if"
      "conditional expressions must be parenthesized in type arguments", span⟩
  | _ => none

def indices : List Argument → Except Diagnostic (List Expr)
  | [] => .ok []
  | .keyword span name _ :: _ => .error ⟨.keywordArgumentOutsideCall name, span⟩
  | .positional e :: items =>
    match indices items with
    | .ok es => .ok (e :: es)
    | .error fault => .error fault

/-- What brackets with some entries become: the type arguments of a call or indices. -/
def bracketed (sub : ExprRule) (left : Expr) (items : List Argument) : Rule Expr := do
  if (← kind) = .openParen then
    match items.findSome? typeArgumentFault? with
    | some fault => throw fault
    | none =>
      let arguments ← callArguments sub
      return .genericCall ⟨left.span.start, ← previousEnd⟩ left items arguments
  else
    match indices items with
    | .error fault => throw fault
    | .ok es => return .subscript ⟨left.span.start, ← previousEnd⟩ left es

def bracket (sub : ExprRule) (left : Expr) : Rule Expr := do
  let _ ← advance
  if (← kind) = .closeBracket then unexpected
  else
    let items ← commaList (· == .closeBracket) (bracketItem sub)
    let _ ← expect .closeBracket
    bracketed sub left items

def extensionAt (k : Kind) (sub : ExprRule) (left : Expr) (level : Level) : Rule Expr :=
  match k with
  | .kwIf => conditional sub left
  | .less | .lessEquals | .greater | .greaterEquals | .equals | .notEquals | .kwIs | .kwIn
  | .kwNot => comparison sub left
  | .caret => caret sub left level
  | .starStar => power sub left
  | .openParen => call sub left
  | .openBracket => bracket sub left
  | .dot => member left
  | .kwOr | .kwAnd | .pipe | .ampersand | .shiftLeft | .shiftRight | .plus | .dash | .star
  | .slash | .slashSlash | .percent => binary sub left level
  | _ => unexpected

def extension (sub : ExprRule) (left : Expr) (level : Level) : Rule Expr := do
  extensionAt (← kind) sub left level

end Offside.Grammar
