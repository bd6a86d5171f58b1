import Offside.Grammar.Level
import Offside.Literal.Contents
import Offside.Rule
import Offside.Tree.Expr

namespace Offside.Grammar

open Rule

/-- A rule for expressions whose operators bind more tightly than a level. -/
abbrev ExprRule := Level → Rule Expr

def stringRound : Rule (Option Token) := do
  if (← kind) = .string then some <$> advance else return none

/-- A string and the strings that follow it directly, as one. -/
def adjacentStrings (first : Token) : Rule Expr := do
  let others ← repeated stringRound
  let value := String.join ((first :: others).map fun t => Literal.contents t.text)
  return .string (first.span.through ((first :: others).getLastD first).span) value

def floatLiteral (t : Token) : Rule Expr :=
  match Literal.float? t.text with
  | some value => pure (.float t.span value)
  | none => fail (.invalidNumber t.text) t.span

def atom (t : Token) : Rule Expr :=
  match t.kind with
  | .integer => pure (.integer t.span t.text (Literal.integer? t.text))
  | .float => floatLiteral t
  | .string => adjacentStrings t
  | .identifier => pure (.symbol t.span t.text)
  | .kwTrue => pure (.boolean t.span true)
  | .kwFalse => pure (.boolean t.span false)
  | .kwNone => pure (.noneLiteral t.span)
  | _ => fail (.unexpectedToken t.shown) t.span

def primary : Rule Expr := do atom (← advance)

def sign (sub : ExprRule) : Rule Expr := do
  let t ← advance
  let op := match t.kind with
    | .dash => UnaryOp.minus
    | .plus => .plus
    | _ => .invert
  let operand ← sub .unary
  return .unary (t.span.through operand.span) op operand

def negation (sub : ExprRule) : Rule Expr := do
  let t ← advance
  let operand ← sub .not
  return .unary (t.span.through operand.span) .not operand

def atKeyword : Rule Bool := return (← kind) = .identifier && (← peek 1) = .assignment

/-- An element of a bracketed collection, where `name=` has no place. -/
def element (sub : ExprRule) : Rule Expr := do
  if ← atKeyword then
    let t ← current
    fail (.keywordArgumentOutsideCall t.text) t.span
  else sub .lowest

def grouping (sub : ExprRule) : Rule Expr := do
  let opening ← advance
  if (← kind) = .closeParen then
    let closing ← advance
    return .tuple (opening.span.through closing.span) []
  else
    let first ← element sub
    if (← kind) = .comma then
      let rest ← commaTail (· == .closeParen) (element sub)
      let closing ← expect .closeParen
      return .tuple (opening.span.through closing.span) (first :: rest)
    else
      let closing ← expect .closeParen
      return .parenthesized (opening.span.through closing.span) first

def listDisplay (sub : ExprRule) : Rule Expr := do
  let opening ← advance
  let elements ← listUpTo .closeBracket (element sub)
  let closing ← expect .closeBracket
  return .list (opening.span.through closing.span) elements

def entry (sub : ExprRule) : Rule (Expr × Expr) := do
  let key ← element sub
  let _ ← expect .colon
  let value ← sub .lowest
  return (key, value)

/-- An operand in braces. With a colon after its first element, or with nothing in it, it is a
dictionary, and a set otherwise. -/
def dictOrSet (sub : ExprRule) : Rule Expr := do
  let opening ← advance
  if (← kind) = .closeCurly then
    let closing ← advance
    return .dict (opening.span.through closing.span) []
  else
    let first ← element sub
    if ← eat .colon then
      let value ← sub .lowest
      let rest ← commaTail (· == .closeCurly) (entry sub)
      let closing ← expect .closeCurly
      return .dict (opening.span.through closing.span) ((first, value) :: rest)
    else
      let rest ← commaTail (· == .closeCurly) (element sub)
      let closing ← expect .closeCurly
      return .set (opening.span.through closing.span) (first :: rest)

def operandAt (k : Kind) (sub : ExprRule) : Rule Expr :=
  match k with
  | .integer | .float | .string | .identifier | .kwTrue | .kwFalse | .kwNone => primary
  | .dash | .plus | .tilde => sign sub
  | .kwNot => negation sub
  | .openParen => grouping sub
  | .openBracket => listDisplay sub
  | .openCurly => dictOrSet sub
  | _ => unexpected

def operand (sub : ExprRule) : Rule Expr := do operandAt (← kind) sub

end Offside.Grammar
