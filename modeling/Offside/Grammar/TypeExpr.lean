import Offside.Grammar.Expr
import Offside.Tree.Stmt

namespace Offside.Grammar

open Rule

def symbolTypeBy (t : Token) : Rule TypeExpr :=
  match t.kind with
  | .identifier | .kwNone => pure (.symbol t.span t.text)
  | _ => fail (.unexpectedToken t.shown) t.span

def symbolType : Rule TypeExpr := do symbolTypeBy (← advance)

def qualifiedType (left : TypeExpr) : Rule TypeExpr := do
  let _ ← advance
  let t ← expect .identifier
  return .qualified (left.span.through t.span) left t.text

/-- A type, a value or `name=` and one of these; a conditional has to be parenthesized. -/
def typeArgument : Rule TypeArgument := do
  if ← atKeyword then
    let name ← advance
    let _ ← advance
    let value ← expr .conditional
    return .keyword (name.span.through value.span) name.text (.ofExpr value)
  else return .ofExpr (← expr .conditional)

def genericType (left : TypeExpr) : Rule TypeExpr := do
  let _ ← advance
  if (← kind) = .closeBracket then unexpectedDetailed "expected at least one type argument"
  else
    let arguments ← commaList (· == .closeBracket) typeArgument
    let closing ← expect .closeBracket
    return .generic (left.span.through closing.span) left arguments

def typeTrailerAt (k : Kind) (left : TypeExpr) : Rule (Option TypeExpr) :=
  match k with
  | .dot => some <$> qualifiedType left
  | .openBracket => some <$> genericType left
  | _ => pure none

def extendType? (level : Level) (left : TypeExpr) : Rule (Option TypeExpr) := do
  if level < .trailer then typeTrailerAt (← kind) left else return none

def typeExpr (level : Level) : Rule TypeExpr := do
  match ← kind with
  | .identifier | .kwNone =>
    let left ← symbolType
    iterate Cursor.remaining (extendType? level) left
  | _ => unexpectedDetailed "expected a type"

def declaredType? : Rule (Option TypeExpr) := introduced .colon (typeExpr .lowest)

def default? : Rule (Option Expr) := introduced .assignment (expr .lowest)

def typeParameter : Rule TypeParameter := do
  if (← kind) = .slashSlash then
    let mark ← advance
    return .inferOnly mark.span
  else
    let name ← expectDetailed .identifier "expected a parameter name"
    let declaredType ← declaredType?
    let default ← default?
    return .named ⟨name.span.start, ← previousEnd⟩ name.text declaredType default

/-- The bracketed list after a definition's name, which is never empty. -/
def typeParameters : Rule (List TypeParameter) := do
  let opening ← expect .openBracket
  if (← kind) = .closeBracket then
    let closing ← advance
    fail .emptyTypeParameterList (opening.span.through closing.span)
  else
    let parameters ← commaList (· == .closeBracket) typeParameter
    let _ ← expect .closeBracket
    return parameters

def typeParameters? : Rule (List TypeParameter) := do
  if (← kind) = .openBracket then typeParameters else return []

end Offside.Grammar
