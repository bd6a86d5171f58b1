import Offside.Grammar.Stmt

namespace Offside

namespace Kind

/-- Layout and the marks that end statements. -/
def isBoundary : Kind → Bool
  | .newline | .indent | .dedent | .semicolon | .eof => true
  | _ => false

theorem ne_of_inner {k l : Kind} (hk : k.isBoundary = false) (hl : l.isBoundary = true) : k ≠ l := by
  rintro rfl
  rw [hk] at hl
  contradiction

def isAtom : Kind → Bool
  | .integer | .float | .string | .identifier | .kwTrue | .kwFalse | .kwNone => true
  | _ => false

theorem isBoundary_of_isAtom {k : Kind} (h : k.isAtom = true) : k.isBoundary = false := by
  cases k <;> first | rfl | contradiction

theorem isBoundary_of_comparison {k : Kind} (h : Level.ofKind k = .comparison) : k.isBoundary = false := by
  cases k <;> first | rfl | contradiction

end Kind

namespace UnaryOp

def kind : UnaryOp → Kind
  | plus => .plus
  | minus => .dash
  | invert => .tilde
  | not => .kwNot

def level : UnaryOp → Level
  | not => .not
  | _ => .unary

@[simp]
theorem isBoundary_kind (op : UnaryOp) : op.kind.isBoundary = false := by cases op <;> rfl

end UnaryOp

namespace BinaryOp

def kind : BinaryOp → Kind
  | or => .kwOr
  | and => .kwAnd
  | bitOr => .pipe
  | bitXor => .caret
  | bitAnd => .ampersand
  | shiftLeft => .shiftLeft
  | shiftRight => .shiftRight
  | add => .plus
  | subtract => .dash
  | multiply => .star
  | divide => .slash
  | floorDivide => .slashSlash
  | modulo => .percent
  | power => .starStar

def level (op : BinaryOp) : Level := .ofKind op.kind

@[simp]
theorem isBoundary_kind (op : BinaryOp) : op.kind.isBoundary = false := by cases op <;> rfl

theorem kind_ne_not (op : BinaryOp) : op.kind ≠ .kwNot := by cases op <;> nofun

theorem kind_ne_caret {op : BinaryOp} (h : op ≠ .bitXor) : op.kind ≠ .caret := by
  cases op <;> first | exact absurd rfl h | exact nofun

theorem kind_ne_starStar {op : BinaryOp} (h : op ≠ .power) : op.kind ≠ .starStar := by
  cases op <;> first | exact absurd rfl h | exact nofun

end BinaryOp

namespace ComparisonOp

def kinds : ComparisonOp → List Kind
  | equal => [.equals]
  | notEqual => [.notEquals]
  | less => [.less]
  | lessEqual => [.lessEquals]
  | greater => [.greater]
  | greaterEqual => [.greaterEquals]
  | is => [.kwIs]
  | isNot => [.kwIs, .kwNot]
  | within => [.kwIn]
  | notWithin => [.kwNot, .kwIn]

theorem level_of_kinds {op : ComparisonOp} {k : Kind} (h : op.kinds = [k]) : Level.ofKind k = .comparison := by
  cases op <;> cases h <;> rfl

end ComparisonOp

def FunctionWord.kind : FunctionWord → Kind
  | kwDef => .kwDef
  | kwFn => .kwFn

def TypeWord.kind : TypeWord → Kind
  | kwStruct => .kwStruct
  | kwTrait => .kwTrait

def LeaveWord.kind : LeaveWord → Kind
  | kwReturn => .kwReturn
  | kwRaise => .kwRaise

def BareWord.kind : BareWord → Kind
  | kwPass => .kwPass
  | kwBreak => .kwBreak
  | kwContinue => .kwContinue

namespace Grammar

@[elab_as_elim]
theorem operand_cases {motive : Kind → (ExprRule → Rule Expr) → Prop}
    (primary : ∀ k, k.isAtom = true → motive k fun _ => primary)
    (sign : ∀ op : UnaryOp, op ≠ .not → motive op.kind sign)
    (negation : motive .kwNot negation)
    (grouping : motive .openParen grouping)
    (list : motive .openBracket listDisplay)
    (braces : motive .openCurly dictOrSet)
    (other : ∀ k, motive k fun _ => Rule.unexpected)
    (k : Kind) : motive k (operandAt k) := by
  cases k
  case integer | float | string | identifier | kwTrue | kwFalse | kwNone => exact primary _ rfl
  case plus => exact sign .plus nofun
  case dash => exact sign .minus nofun
  case tilde => exact sign .invert nofun
  case kwNot => exact negation
  case openParen => exact grouping
  case openBracket => exact list
  case openCurly => exact braces
  all_goals exact other _

theorem operandAt_atom {k : Kind} (h : k.isAtom = true) (sub : ExprRule) : operandAt k sub = primary := by
  cases k <;> first | rfl | contradiction

@[elab_as_elim]
theorem atom_cases {motive : Token → Rule Expr → Prop}
    (integer : ∀ t, t.kind = .integer →
      motive t (pure (.integer t.span t.text (Literal.integer? t.text))))
    (float : ∀ t, t.kind = .float → motive t (floatLiteral t))
    (string : ∀ t, t.kind = .string → motive t (adjacentStrings t))
    (symbol : ∀ t, t.kind = .identifier → motive t (pure (.symbol t.span t.text)))
    (boolean : ∀ t b, t.kind = (if b then .kwTrue else .kwFalse) → motive t (pure (.boolean t.span b)))
    (noneLiteral : ∀ t, t.kind = .kwNone → motive t (pure (.noneLiteral t.span)))
    (other : ∀ t, motive t (Rule.fail (.unexpectedToken t.shown) t.span))
    (t : Token) : motive t (atom t) := by
  unfold atom
  split
  · next h => exact integer t h
  · next h => exact float t h
  · next h => exact string t h
  · next h => exact symbol t h
  · next h => exact boolean t true h
  · next h => exact boolean t false h
  · next h => exact noneLiteral t h
  · exact other t

@[elab_as_elim]
theorem comparisonOp_cases {motive : Kind → Rule (Option ComparisonOp) → Prop}
    (taking : ∀ op k, op.kinds = [k] → motive k (taking op))
    (is : motive .kwIs isOp)
    (notWithin : motive .kwNot notWithinOp)
    (other : ∀ k, Level.ofKind k ≠ .comparison → motive k (pure none))
    (k : Kind) : motive k (comparisonOpAt k) := by
  cases k
  case equals => exact taking .equal _ rfl
  case notEquals => exact taking .notEqual _ rfl
  case less => exact taking .less _ rfl
  case lessEquals => exact taking .lessEqual _ rfl
  case greater => exact taking .greater _ rfl
  case greaterEquals => exact taking .greaterEqual _ rfl
  case kwIn => exact taking .within _ rfl
  case kwIs => exact is
  case kwNot => exact notWithin
  all_goals exact other _ nofun

@[elab_as_elim]
theorem extension_cases {motive : Kind → (ExprRule → Expr → Level → Rule Expr) → Prop}
    (conditional : motive .kwIf fun sub left _ => conditional sub left)
    (comparison : ∀ k, Level.ofKind k = .comparison → motive k fun sub left _ => comparison sub left)
    (caret : motive .caret caret)
    (power : motive .starStar fun sub left _ => power sub left)
    (call : motive .openParen fun sub left _ => call sub left)
    (bracket : motive .openBracket fun sub left _ => bracket sub left)
    (member : motive .dot fun _ left _ => member left)
    (binary : ∀ op : BinaryOp, op ≠ .bitXor → op ≠ .power → motive op.kind binary)
    (other : ∀ k, motive k fun _ _ _ => Rule.unexpected)
    (k : Kind) : motive k (extensionAt k) := by
  cases k
  case kwIf => exact conditional
  case less | lessEquals | greater | greaterEquals | equals | notEquals | kwIs | kwIn | kwNot =>
    exact comparison _ rfl
  case caret => exact caret
  case starStar => exact power
  case openParen => exact call
  case openBracket => exact bracket
  case dot => exact member
  case kwOr => exact binary .or nofun nofun
  case kwAnd => exact binary .and nofun nofun
  case pipe => exact binary .bitOr nofun nofun
  case ampersand => exact binary .bitAnd nofun nofun
  case shiftLeft => exact binary .shiftLeft nofun nofun
  case shiftRight => exact binary .shiftRight nofun nofun
  case plus => exact binary .add nofun nofun
  case dash => exact binary .subtract nofun nofun
  case star => exact binary .multiply nofun nofun
  case slash => exact binary .divide nofun nofun
  case slashSlash => exact binary .floorDivide nofun nofun
  case percent => exact binary .modulo nofun nofun
  all_goals exact other _

@[elab_as_elim]
theorem sliceBound_cases {motive : Kind → (ExprRule → Rule (Option Expr)) → Prop}
    (absent : ∀ k, motive k fun _ => pure none)
    (present : ∀ k, motive k fun sub => some <$> sub .lowest)
    (k : Kind) : motive k (sliceBoundAt k) := by
  cases k
  case colon | comma | closeBracket => exact absent _
  all_goals exact present _

@[elab_as_elim]
theorem leaveValue_cases {motive : Kind → Rule (Option Expr) → Prop}
    (absent : ∀ k, k.isBoundary = true → motive k (pure none))
    (present : ∀ k, motive k (some <$> exprList))
    (k : Kind) : motive k (leaveValueAt k) := by
  cases k
  case newline | semicolon | eof => exact absent _ rfl
  all_goals exact present _

@[elab_as_elim]
theorem bare_cases {motive : Token → Rule Stmt → Prop}
    (word : ∀ t (w : BareWord), t.kind = w.kind → motive t (pure (.bare t.span w)))
    (other : ∀ t, motive t (Rule.fail (.unexpectedToken t.shown) t.span))
    (t : Token) : motive t (bareBy t) := by
  unfold bareBy
  split
  · next h => exact word t .kwPass h
  · next h => exact word t .kwBreak h
  · next h => exact word t .kwContinue h
  · exact other t

@[elab_as_elim]
theorem simpleStmt_cases {motive : Kind → Rule Stmt → Prop}
    (modules : motive .kwImport importStmt)
    (names : motive .kwFrom importFromStmt)
    (var : motive .kwVar varStmt)
    (aliasing : motive .kwAlias aliasStmt)
    (leave : ∀ word : LeaveWord, motive word.kind (leaveStmt word))
    (bare : ∀ word : BareWord, motive word.kind bareStmt)
    (expression : ∀ k, motive k expressionStmt)
    (k : Kind) : motive k (simpleStmt k) := by
  cases k
  case kwImport => exact modules
  case kwFrom => exact names
  case kwVar => exact var
  case kwAlias => exact aliasing
  case kwReturn => exact leave .kwReturn
  case kwRaise => exact leave .kwRaise
  case kwPass => exact bare .kwPass
  case kwBreak => exact bare .kwBreak
  case kwContinue => exact bare .kwContinue
  all_goals exact expression _

@[elab_as_elim]
theorem definition_cases {motive : Kind → (Config → StmtRule Stmt → StmtRule Stmt) → Prop}
    (function : ∀ word : FunctionWord, motive word.kind functionStmt)
    (type : ∀ word : TypeWord, motive word.kind fun cfg stmt => typeStmt cfg stmt word)
    (other : ∀ k, motive k fun _ _ => missingDefinition)
    (k : Kind) : motive k (definitionAt k) := by
  cases k
  case kwDef => exact function .kwDef
  case kwFn => exact function .kwFn
  case kwStruct => exact type .kwStruct
  case kwTrait => exact type .kwTrait
  all_goals exact other _

@[elab_as_elim]
theorem statement_cases {motive : Kind → (Config → StmtRule Stmt → StmtRule Stmt) → Prop}
    (indent : motive .indent fun _ _ => Rule.unexpectedDetailed "unexpected indentation")
    (function : ∀ word : FunctionWord, motive word.kind functionStmt)
    (type : ∀ word : TypeWord, motive word.kind fun cfg stmt => typeStmt cfg stmt word)
    (conditional : motive .kwIf ifStmt)
    (forLoop : motive .kwFor forStmt)
    (whileLoop : motive .kwWhile whileStmt)
    (decorated : motive .atSign decoratedStmt)
    (simple : ∀ k, startsCompound k = false → motive k fun _ _ => simpleStmt k)
    (k : Kind) : motive k (statementAt k) := by
  cases k
  case indent => exact indent
  case kwDef => exact function .kwDef
  case kwFn => exact function .kwFn
  case kwStruct => exact type .kwStruct
  case kwTrait => exact type .kwTrait
  case kwIf => exact conditional
  case kwFor => exact forLoop
  case kwWhile => exact whileLoop
  case atSign => exact decorated
  all_goals exact simple _ rfl

end Grammar

end Offside
