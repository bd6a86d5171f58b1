import Offside.Proofs.Forward
import Offside.Proofs.Moves.Header

namespace Offside

open Grammar

/-- A rule that begins with a step and goes forward from there. -/
class Opens {α : Type} (x : Rule α) : Prop where
  opening : ∃ g : Token → Rule α, (∀ t, Forward (g t)) ∧ x = Rule.advance >>= g

section Opening

variable {α : Type} {x : Rule α} {g : Token → Rule α}

instance [hg : ∀ t, Forward (g t)] : Opens (Rule.advance >>= g) := ⟨⟨g, hg, rfl⟩⟩

instance : Opens Rule.advance := ⟨⟨pure, fun _ => inferInstance, rfl⟩⟩

instance [h : Opens x] : Forward x := by
  obtain ⟨g, hg, rfl⟩ := h.opening
  infer_instance

instance {β : Type} {φ : α → β} [h : Opens x] : Opens (φ <$> x) := by
  obtain ⟨g, hg, rfl⟩ := h.opening
  exact ⟨⟨fun t => φ <$> g t, fun t => inferInstance, map_bind φ Rule.advance g⟩⟩

/-- Where the stream does not end, such a rule consumes a token. -/
theorem Opens.lt [h : Opens x] {c d : Cursor} {a : α} (hl : c.last.kind = .eof) (hk : c.kind ≠ .eof)
    (hx : x c = .ok a d) : d.remaining < c.remaining := by
  obtain ⟨g, hg, rfl⟩ := h.opening
  have hrest := (Forward.of_ok (x := g c.current) (s := c.advance) hx).remaining_le
  have hstep := c.remaining_advance_lt hl hk
  change d.remaining ≤ c.advance.remaining at hrest
  omega

end Opening

namespace Grammar

section Operands

instance : Forward atKeyword := by unfold atKeyword; infer_instance

instance : Forward stringRound := by unfold stringRound; infer_instance

instance (t : Token) : Forward (adjacentStrings t) := by unfold adjacentStrings; infer_instance

instance (t : Token) : Forward (floatLiteral t) := by unfold floatLiteral; split <;> infer_instance

instance (t : Token) : Forward (atom t) := by unfold atom; split <;> infer_instance

instance : Opens primary := by unfold primary; infer_instance

variable (sub : ExprRule) [∀ level, Forward (sub level)]

instance : Opens (sign sub) := by unfold sign; infer_instance

instance : Opens (negation sub) := by unfold negation; infer_instance

instance : Forward (element sub) := by unfold element; infer_instance

instance : Opens (grouping sub) := by unfold grouping; infer_instance

instance : Opens (listDisplay sub) := by unfold listDisplay; infer_instance

instance : Forward (entry sub) := by unfold entry; infer_instance

instance : Opens (dictOrSet sub) := by unfold dictOrSet; infer_instance

instance (k : Kind) : Forward (operandAt k sub) := by unfold operandAt; split <;> infer_instance

instance : Forward (operand sub) := by unfold operand; infer_instance

end Operands

section Extensions

instance (op : ComparisonOp) : Opens (taking op) := by unfold taking; infer_instance

instance : Opens isOp := by unfold isOp; infer_instance

instance : Forward notWithinOp := by unfold notWithinOp; infer_instance

instance (k : Kind) : Forward (comparisonOpAt k) := by unfold comparisonOpAt; split <;> infer_instance

instance : Forward comparisonOp? := by unfold comparisonOp?; infer_instance

variable (sub : ExprRule) [∀ level, Forward (sub level)] (left : Expr)

instance (t : Token) (level : Level) : Forward (binaryBy t sub left level) := by
  unfold binaryBy; split <;> infer_instance

instance (level : Level) : Opens (binary sub left level) := by unfold binary; infer_instance

instance : Opens (power sub left) := by unfold power; infer_instance

instance (level : Level) : Opens (caret sub left level) := by unfold caret; split <;> infer_instance

instance : Forward (linkRound sub) := by
  refine .bind fun op => ?_
  cases op <;> infer_instance

instance : Forward (comparison sub left) := by unfold comparison; infer_instance

instance : Opens (conditional sub left) := by unfold conditional; infer_instance

instance : Opens (member left) := by unfold member; infer_instance

instance (level : Level) : Forward (argument sub level) := by unfold argument; infer_instance

instance : Forward (callArguments sub) := by unfold callArguments; infer_instance

instance : Forward (call sub left) := by unfold call; infer_instance

instance (k : Kind) : Forward (sliceBoundAt k sub) := by unfold sliceBoundAt; split <;> infer_instance

instance : Forward (sliceBound sub) := by unfold sliceBound; infer_instance

instance (start : Offset) (lower upper step : Option Expr) : Forward (sliced start lower upper step) := by
  unfold sliced; infer_instance

instance (start : Offset) (lower : Option Expr) : Opens (sliceTail sub start lower) := by
  unfold sliceTail; infer_instance

instance : Forward (bracketItem sub) := by unfold bracketItem; infer_instance

instance (items : List Argument) : Forward (bracketed sub left items) := by
  refine .bind fun k => ?_
  split <;> split <;> infer_instance

instance : Opens (bracket sub left) := by unfold bracket; infer_instance

instance (k : Kind) (level : Level) : Forward (extensionAt k sub left level) := by
  unfold extensionAt; split <;> infer_instance

instance (level : Level) : Forward (extension sub left level) := by unfold extension; infer_instance

instance (level : Level) : Forward (extend? sub level left) := by
  have hextension (c : Cursor) : Forward (some <$> extension sub left c.level) := inferInstance
  constructor
  intro c _
  unfold extend?
  split
  · exact (hextension c).moves c trivial
  · exact Std.Refl.refl c

end Extensions

instance (level : Level) : Forward (expr level) :=
  ⟨fun c _ => Cursor.Inward.forth (expr_inner (P := fun _ => True) level c trivial)⟩

instance : Forward exprList := by unfold exprList; infer_instance

section Types

instance (t : Token) : Forward (symbolTypeBy t) := by unfold symbolTypeBy; split <;> infer_instance

instance : Opens symbolType := by unfold symbolType; infer_instance

instance (left : TypeExpr) : Opens (qualifiedType left) := by unfold qualifiedType; infer_instance

instance : Forward typeArgument := by unfold typeArgument; infer_instance

instance (left : TypeExpr) : Opens (genericType left) := by unfold genericType; infer_instance

instance (k : Kind) (left : TypeExpr) : Forward (typeTrailerAt k left) := by
  unfold typeTrailerAt; split <;> infer_instance

instance (level : Level) (left : TypeExpr) : Forward (extendType? level left) := by
  unfold extendType?; infer_instance

instance (level : Level) : Forward (typeExpr level) := by
  refine .bind fun k => ?_
  split <;> infer_instance

instance : Forward declaredType? := by unfold declaredType?; infer_instance

instance : Forward default? := by unfold default?; infer_instance

instance : Forward typeParameter := by unfold typeParameter; infer_instance

instance : Forward typeParameters := by unfold typeParameters; infer_instance

instance : Forward typeParameters? := by unfold typeParameters?; infer_instance

end Types

section Simple

instance : Forward endOfStatement := by
  refine .bind fun k => ?_
  split <;> infer_instance

instance ended_forward {α : Type} {x : Rule α} [Forward x] : Forward (ended x) := by
  unfold ended; infer_instance

instance (e : Expr) : Forward (target e) := by unfold target; split <;> infer_instance

instance (e : Expr) : Forward (declaredName e) := by unfold declaredName; split <;> infer_instance

instance (start : Offset) (isVar : Bool) (left : Expr) (type : Option TypeExpr) :
    Forward (binding start isVar left type) := by
  unfold binding; infer_instance

instance (start : Offset) (op : BinaryOp) (p : Pattern) : Forward (augmenting start op p) := by
  unfold augmenting; split <;> infer_instance

instance (start : Offset) (left : Expr) (op : BinaryOp) : Opens (augmented start left op) := by
  unfold augmented; infer_instance

instance (start : Offset) (first : Expr) : Forward (afterExprList start first) := by
  refine .bind fun k => ?_
  split
  · infer_instance
  · infer_instance
  · split <;> infer_instance

instance : Forward expressionStmt := by unfold expressionStmt; infer_instance

instance (start : Offset) : Forward (varBinding start) := by unfold varBinding; infer_instance

instance : Forward varStmt := by
  refine @ended_forward _ _ (.bind fun t => .bind fun k => ?_)
  split <;> infer_instance

instance : Forward aliasStmt := by unfold aliasStmt; infer_instance

instance (k : Kind) : Forward (leaveValueAt k) := by unfold leaveValueAt; split <;> infer_instance

instance (start : Offset) (word : LeaveWord) (value : Option Expr) : Forward (leaving start word value) := by
  unfold leaving; infer_instance

instance (word : LeaveWord) : Forward (leaveStmt word) := by unfold leaveStmt; infer_instance

instance (t : Token) : Forward (bareBy t) := by unfold bareBy; split <;> infer_instance

instance : Forward bareStmt := by unfold bareStmt; infer_instance

instance : Opens dotName := by unfold dotName; infer_instance

instance : Forward nameRound := by unfold nameRound; infer_instance

instance : Forward dotRound := by unfold dotRound; infer_instance

instance (expected : String) : Forward (dottedName expected) := by unfold dottedName; infer_instance

instance : Forward asName? := by unfold asName?; infer_instance

instance : Forward importName := by unfold importName; infer_instance

instance : Forward importStmt := by unfold importStmt; infer_instance

instance : Forward importedName := by unfold importedName; infer_instance

instance : Forward importTargets := by unfold importTargets; infer_instance

instance (start : Offset) (level : Nat) (path : List String) : Forward (importingFrom start level path) := by
  unfold importingFrom; infer_instance

instance : Forward importFromStmt := by unfold importFromStmt; infer_instance

instance (k : Kind) : Forward (simpleStmt k) := by unfold simpleStmt; split <;> infer_instance

end Simple

section Headers

variable (allowed : ConventionSet)

instance : Forward raises? := by unfold raises?; infer_instance

instance (t : Token) : Forward (conventionBy allowed t) := by unfold conventionBy; split <;> infer_instance

instance : Forward (convention? allowed) := by unfold convention?; infer_instance

instance (start : Offset) (convention : Option Convention) : Forward (variadicTail start convention) := by
  unfold variadicTail; infer_instance

instance : Forward (parameter allowed) := by unfold parameter; infer_instance

instance : Forward (parameters allowed) := by unfold parameters; infer_instance

instance : Forward (result? allowed) := by unfold result?; infer_instance

instance : Opens (functionHead allowed) := by
  refine ⟨_, fun t => ?_, rfl⟩
  infer_instance

instance : Forward bases? := by unfold bases?; infer_instance

instance (word : TypeWord) : Opens (typeHead word) := by unfold typeHead; infer_instance

instance (start : Offset) (path : List String) (arguments : Option (List Argument)) :
    Forward (decorating start path arguments) := by
  unfold decorating; infer_instance

instance : Forward decorator? := by unfold decorator?; infer_instance

instance : Forward forTarget := by unfold forTarget; infer_instance

instance : Opens forHead := by unfold forHead; infer_instance

instance : Opens conditionHead := by unfold conditionHead; infer_instance

end Headers

end Grammar

end Offside
