import Offside.Config
import Offside.Grammar.Simple

namespace Offside.Grammar

open Rule

def raises? : Rule Bool := do
  let t ← current
  if t.kind = .identifier ∧ t.text = "raises" then
    let _ ← advance
    return true
  else return false

def conventionBy (allowed : ConventionSet) (t : Token) : Rule (Option Convention) :=
  match Convention.ofWord? t.text with
  | none => return none
  | some convention =>
    if allowed.accepts convention then do
      let _ ← advance
      return some convention
    else fail (.conventionNotEnabled convention.word) t.span

/-- A convention word. It counts as one only before a name or a star. -/
def convention? (allowed : ConventionSet) : Rule (Option Convention) := do
  let t ← current
  let next ← peek 1
  if t.kind = .identifier ∧ (next = .identifier ∨ next = .star) then conventionBy allowed t
  else return none

def variadicTail (start : Offset) (convention : Option Convention) : Rule Parameter := do
  let name ← expect .identifier
  if convention.isSome then
    fail (.invalidVariadicParameter "cannot take an argument convention")
      ⟨start, name.span.stop⟩
  else
    let declaredType ← declaredType?
    if (← kind) = .assignment then
      fail (.invalidVariadicParameter "cannot have a default value") (← current).span
    else return ⟨⟨start, ← previousEnd⟩, none, name.text, declaredType, none, true⟩

def parameter (allowed : ConventionSet) : Rule Parameter := do
  let start ← here
  let convention ← convention? allowed
  if ← eat .star then variadicTail start convention
  else
    let name ← expectDetailed .identifier "expected a parameter name"
    let declaredType ← declaredType?
    let default ← default?
    return ⟨⟨start, ← previousEnd⟩, convention, name.text, declaredType, default, false⟩

def parameters (allowed : ConventionSet) : Rule (List Parameter) := do
  let _ ← expect .openParen
  let items ← listUpTo .closeParen (parameter allowed)
  let _ ← expect .closeParen
  return items

def result? (allowed : ConventionSet) : Rule (Option Convention × Option TypeExpr) := do
  if ← eat .arrow then
    let convention ← convention? allowed
    let type ← typeExpr .lowest
    return (convention, some type)
  else return (none, none)

/-- A function up to its body. `raises` may stand on either side of the result. -/
def functionHead (allowed : ConventionSet) : Rule (Offset × FunctionHead) := do
  let t ← advance
  let name ← expectDetailed .identifier "expected function name"
  let typeParameters ← typeParameters?
  let parameters ← parameters allowed
  let early ← raises?
  let (returnConvention, returnType) ← result? allowed
  let late ← raises?
  return (t.span.start,
    { word := if t.kind = .kwDef then .kwDef else .kwFn
      name := name.text
      typeParameters := typeParameters
      parameters := parameters
      returnConvention := returnConvention
      returnType := returnType
      raises := early || late })

def bases? : Rule (List TypeExpr) := do
  if ← eat .openParen then
    let types ← listUpTo .closeParen (typeExpr .lowest)
    let _ ← expect .closeParen
    return types
  else return []

def typeHead (word : TypeWord) : Rule (Offset × TypeHead) := do
  let t ← advance
  let name ← expectDetailed .identifier "expected type name"
  let typeParameters ← typeParameters?
  let bases ← bases?
  return (t.span.start, ⟨word, name.text, typeParameters, bases⟩)

def decorating (start : Offset) (path : List String) (arguments : Option (List Argument)) :
    Rule (Option Decorator) := do
  let span : Span := ⟨start, ← previousEnd⟩
  let _ ← expect .newline
  return some ⟨span, path, arguments⟩

def decorator? : Rule (Option Decorator) := do
  if (← kind) = .atSign then
    let start := (← advance).span.start
    let path ← dottedName "expected decorator name"
    let arguments ← if (← kind) = .openParen then some <$> callArguments expr else pure none
    decorating start path arguments
  else return none

/-- The target of a loop. It stops before `in`, so its parts bind more tightly than a comparison. -/
def forTarget : Rule Pattern := do
  let first ← expr .comparison
  if (← kind) = .comma then
    let rest ← commaTail (· == .kwIn) (expr .comparison)
    target (.tuple ⟨first.span.start, ← previousEnd⟩ (first :: rest))
  else target first

def forHead : Rule (Offset × Pattern × Expr) := do
  let start := (← advance).span.start
  let pattern ← forTarget
  let _ ← expect .kwIn
  let iterable ← exprList
  return (start, pattern, iterable)

def conditionHead : Rule (Offset × Expr) := do
  let start := (← advance).span.start
  let condition ← expr .lowest
  return (start, condition)

end Offside.Grammar
