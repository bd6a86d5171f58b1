import Offside.Grammar.Definition
import Offside.Grammar.Recovery

namespace Offside.Grammar

/-- A cursor with the faults recorded so far. -/
structure Progress where
  cursor : Cursor
  diagnostics : List Diagnostic := []
  /-- How often the flag that cancels the parse has been looked at. -/
  polls : Nat := 0
  deriving DecidableEq, Inhabited

namespace Progress

def remaining (p : Progress) : Nat := p.cursor.remaining

def advance (p : Progress) : Progress := { p with cursor := p.cursor.advance }

def poll (cfg : Config) (p : Progress) : Progress :=
  if cfg.cancel then { p with polls := p.polls + 1 } else p

/-- The flag was found raised. A parse that has found it so goes on as if it stayed up. -/
def cancelled (cfg : Config) (p : Progress) : Bool := cfg.cancel && cfg.patience < p.polls

end Progress

abbrev StmtRule (α : Type) := EStateM Diagnostic Progress α

def lifted {α : Type} (rule : Rule α) : StmtRule α := fun p =>
  match rule p.cursor with
  | .ok a c => .ok a { p with cursor := c }
  | .error fault c => .error fault { p with cursor := c }

instance : MonadLift Rule StmtRule := ⟨lifted⟩

/-- A statement, or an error mark over what was passed over in its place. -/
def recovering (stmt : StmtRule Stmt) (p : Progress) : Stmt × Progress :=
  match stmt p with
  | .ok s q => (s, q)
  | .error fault q =>
    let c := synchronize (q.remaining < p.remaining) q.cursor
    let start := p.cursor.current.span.start
    let stop := if c.remaining < p.remaining then c.previousEnd else start
    (.error ⟨start, max stop start⟩, { q with cursor := c, diagnostics := q.diagnostics ++ [fault] })

/-- Statements up to a token that `stop` picks out, passing over those that `blank` does, or up to
where the parse is cancelled. -/
def statements (cfg : Config) (stop blank : Kind → Bool) (one : Progress → Stmt × Progress) (p : Progress) :
    List Stmt × Progress :=
  if stop p.cursor.kind then ([], p)
  else
    let q := p.poll cfg
    if q.cancelled cfg then ([], q)
    else if blank q.cursor.kind then
      if q.advance.remaining < p.remaining then statements cfg stop blank one q.advance
      else ([], q.advance)
    else
      let s := one q
      if s.2.remaining < p.remaining then
        let rest := statements cfg stop blank one s.2
        (s.1 :: rest.1, rest.2)
      else ([s.1], s.2)
termination_by p.remaining

/-- The dedent at the end of a block. A cancelled parse leaves it. -/
def closeBlock (cfg : Config) (p : Progress) : Progress :=
  let q := p.poll cfg
  if q.cancelled cfg then q
  else if q.cursor.kind = .dedent then q.advance
  else q

/-- The statements of an indented block and the dedent after them. -/
def blockBody (cfg : Config) (stmt : StmtRule Stmt) : StmtRule (List Stmt) := fun p =>
  let (body, q) := statements cfg (fun k => k == .dedent || k == .eof) (· == .newline)
    (recovering stmt) p
  .ok body (closeBlock cfg q)

/-- A block from its first statement to its last; without any, at the given offset. -/
def blockOf (inline : Bool) (origin : Offset) (body : List Stmt) : Block :=
  let start := (body.head?.map fun s => s.span.start).getD origin
  let stop := (body.getLast?.map fun s => s.span.stop).getD start
  .mk ⟨start, stop⟩ inline body

def startsCompound : Kind → Bool
  | .kwDef | .kwFn | .kwStruct | .kwTrait | .kwIf | .kwFor | .kwWhile | .atSign => true
  | _ => false

def inlineStmt (stmt : StmtRule Stmt) : StmtRule Stmt := do
  if startsCompound (← Rule.kind) then
    Rule.unexpectedDetailed "compound statements need an indented block"
  else stmt

/-- Whether an inline body ends here: behind a newline or at the end of the input. -/
def inlineEnds (c : Cursor) : Bool := c.previousKind? == some .newline || !c.hasTokens

def bodyRoundAt (c : Cursor) (stmt : StmtRule Stmt) : StmtRule (Option Stmt) :=
  if inlineEnds c then pure none else some <$> inlineStmt stmt

def bodyRound (stmt : StmtRule Stmt) : StmtRule (Option Stmt) := do bodyRoundAt (← get).cursor stmt

def inlineBody (stmt : StmtRule Stmt) : StmtRule Block := do
  let start ← Rule.here
  let first ← inlineStmt stmt
  let rest ← many Progress.remaining (bodyRound stmt)
  let body := first :: rest
  return .mk ⟨start, (body.getLastD first).span.stop⟩ true body

def suiteBody (cfg : Config) (stmt : StmtRule Stmt) : StmtRule Block := do
  if (← Rule.kind) = .newline then
    let newline ← Rule.advance
    if (← Rule.kind) = .indent then
      let indent ← Rule.advance
      return blockOf false indent.span.stop (← blockBody cfg stmt)
    else throw ⟨.expectedIndentedBlock, newline.span⟩
  else inlineBody stmt

def suite (cfg : Config) (stmt : StmtRule Stmt) : StmtRule Block := do
  let _ ← Rule.expect .colon
  suiteBody cfg stmt

def functionStmt (cfg : Config) (stmt : StmtRule Stmt) : StmtRule Stmt := do
  let (start, head) ← functionHead cfg.conventions
  let body ← suite cfg stmt
  return .function ⟨start, body.span.stop⟩ head body

def typeStmt (cfg : Config) (stmt : StmtRule Stmt) (word : TypeWord) : StmtRule Stmt := do
  let (start, head) ← typeHead word
  let body ← suite cfg stmt
  return .typeDecl ⟨start, body.span.stop⟩ head body

def elifClause? (cfg : Config) (stmt : StmtRule Stmt) : StmtRule (Option ElifClause) := do
  if (← Rule.kind) = .kwElif then
    let (start, condition) ← conditionHead
    let body ← suite cfg stmt
    return some (.mk ⟨start, body.span.stop⟩ condition body)
  else return none

def elseBody? (cfg : Config) (stmt : StmtRule Stmt) : StmtRule (Option Block) := do
  if ← Rule.eat .kwElse then some <$> suite cfg stmt else return none

def ifStmt (cfg : Config) (stmt : StmtRule Stmt) : StmtRule Stmt := do
  let (start, condition) ← conditionHead
  let body ← suite cfg stmt
  let elifs ← many Progress.remaining (elifClause? cfg stmt)
  let otherwise ← elseBody? cfg stmt
  let stop := match otherwise, elifs.getLast? with
    | some block, _ => block.span.stop
    | none, some clause => clause.span.stop
    | none, none => body.span.stop
  return .conditional ⟨start, stop⟩ condition body elifs otherwise

def forStmt (cfg : Config) (stmt : StmtRule Stmt) : StmtRule Stmt := do
  let (start, pattern, iterable) ← forHead
  let body ← suite cfg stmt
  return .forLoop ⟨start, body.span.stop⟩ pattern iterable body

def whileStmt (cfg : Config) (stmt : StmtRule Stmt) : StmtRule Stmt := do
  let (start, condition) ← conditionHead
  let body ← suite cfg stmt
  return .whileLoop ⟨start, body.span.stop⟩ condition body

def missingDefinition : StmtRule Stmt := do
  let t ← Rule.current
  throw ⟨.decoratorWithoutDefinition t.shown, t.span⟩

def definitionAt (k : Kind) (cfg : Config) (stmt : StmtRule Stmt) : StmtRule Stmt :=
  match k with
  | .kwDef | .kwFn => functionStmt cfg stmt
  | .kwStruct => typeStmt cfg stmt .kwStruct
  | .kwTrait => typeStmt cfg stmt .kwTrait
  | _ => missingDefinition

def definition (cfg : Config) (stmt : StmtRule Stmt) : StmtRule Stmt := do
  definitionAt (← Rule.kind) cfg stmt

def decoratedStmt (cfg : Config) (stmt : StmtRule Stmt) : StmtRule Stmt := do
  let start ← Rule.here
  let decorators ← Rule.repeated decorator?
  let inner ← definition cfg stmt
  return .decorated ⟨start, inner.span.stop⟩ decorators inner

def statementAt (k : Kind) (cfg : Config) (stmt : StmtRule Stmt) : StmtRule Stmt :=
  match k with
  | .indent => Rule.unexpectedDetailed "unexpected indentation"
  | .kwDef | .kwFn => functionStmt cfg stmt
  | .kwStruct => typeStmt cfg stmt .kwStruct
  | .kwTrait => typeStmt cfg stmt .kwTrait
  | .kwIf => ifStmt cfg stmt
  | .kwFor => forStmt cfg stmt
  | .kwWhile => whileStmt cfg stmt
  | .atSign => decoratedStmt cfg stmt
  | k => simpleStmt k

def statement (cfg : Config) (stmt : StmtRule Stmt) : StmtRule Stmt := do
  statementAt (← Rule.kind) cfg stmt

/-- A statement. The statements inside it start after its first token, so they have fewer tokens
before them. -/
def stmt (cfg : Config) : StmtRule Stmt := fun p =>
  statement cfg (fun q =>
    if q.remaining < p.remaining then stmt cfg q else .error q.cursor.unexpected q) p
termination_by p => p.remaining

structure Parsed where
  body : List Stmt
  diagnostics : List Diagnostic
  /-- The parse was stopped while tokens were left. -/
  cancelled : Bool
  deriving Inhabited

/-- The statements of a token stream. Newlines and dedents between them mean nothing. -/
def topLevel (cfg : Config) (tokens : List Token) : List Stmt × Progress :=
  statements cfg (· == .eof) (fun k => k == .newline || k == .dedent) (recovering (stmt cfg))
    { cursor := .ofTokens tokens }

def parse (cfg : Config) (tokens : List Token) : Parsed :=
  let (body, p) := topLevel cfg tokens
  ⟨body, p.diagnostics, p.cancelled cfg⟩

end Offside.Grammar
