import Offside.Proofs.Linewise
import Offside.Proofs.Termination

namespace Offside

open Grammar

namespace Rule

variable {α : Type} {item : Rule α} [Linewise 0 item]

instance (stop : Kind → Bool) [hs : Fact (stop .newline = stop .semicolon)] :
    Linewise 0 (commaRound stop item) := by
  have hitem : Linewise 0 (Rule.kind >>= fun k => if stop k = true then pure none else some <$> item) := by
    refine linewise_kind (if stop .newline = true then pure none else some <$> item) rfl ?_ inferInstance
    rw [hs.out]
  unfold commaRound
  infer_instance

instance (stop : Kind → Bool) [Fact (stop .newline = stop .semicolon)] :
    Linewise 0 (Rule.commaTail stop item) := by
  unfold Rule.commaTail; infer_instance

instance (stop : Kind → Bool) [Fact (stop .newline = stop .semicolon)] :
    Linewise 0 (Rule.commaList stop item) := by
  unfold Rule.commaList; infer_instance

instance (k : Kind) [hk : Fact (k.isBoundary = false)] :
    Fact ((Kind.newline == k) = (Kind.semicolon == k)) := by
  constructor
  have hne {l : Kind} (hl : l.isBoundary = true) : (l == k) = false := by
    rw [beq_eq_false_iff_ne]
    rintro rfl
    rw [hk.out] at hl
    contradiction
  rw [hne rfl, hne rfl]

instance (b : Bool) : Fact (b = b) := ⟨rfl⟩

instance (close : Kind) [Fact (close.isBoundary = false)] : Linewise 0 (Rule.listUpTo close item) := by
  unfold Rule.listUpTo; infer_instance

end Rule

namespace Grammar

section Operands

instance : Linewise 0 stringRound := by unfold stringRound; infer_instance

instance (t : Token) : Linewise 0 (adjacentStrings t) := by unfold adjacentStrings; infer_instance

instance (t : Token) : Linewise 0 (floatLiteral t) := by unfold floatLiteral; split <;> infer_instance

instance (t : Token) : Linewise 0 (atom t) := by unfold atom; split <;> infer_instance

instance : Linewise 1 primary := by unfold primary; infer_instance

variable (sub : ExprRule) [∀ level, Linewise 0 (sub level)]

instance : Linewise 1 (sign sub) := by unfold sign; infer_instance

instance : Linewise 1 (negation sub) := by unfold negation; infer_instance

/-- Where a keyword argument begins, two tokens of the line are ahead. -/
instance {α : Type} {x y : Rule α} [hx : Linewise 2 x] [hy : Linewise 0 y] :
    Linewise 0 (atKeyword >>= fun b => if b = true then x else y) :=
  Rule.linewise_two .identifier .assignment (fun b => if b = true then x else y) hx hy

instance : Linewise 0 (element sub) := by unfold element; infer_instance

instance : Linewise 1 (grouping sub) := by unfold grouping; infer_instance

instance : Linewise 1 (listDisplay sub) := by unfold listDisplay; infer_instance

instance : Linewise 0 (entry sub) := by unfold entry; infer_instance

instance : Linewise 1 (dictOrSet sub) := by unfold dictOrSet; infer_instance

instance (k : Kind) : Linewise 1 (operandAt k sub) := by unfold operandAt; split <;> infer_instance

instance : Linewise 0 (operand sub) := Rule.linewise_kind Rule.unexpected rfl rfl inferInstance

omit [∀ level, Linewise 0 (sub level)] in
instance : Stuck (operand sub) := by
  refine Rule.stuck_kind fun k hk => ?_
  revert hk
  cases k using operand_cases with
  | primary k h => simp [Kind.isBoundary_of_isAtom h]
  | other => exact fun _ => inferInstanceAs (Stuck Rule.unexpected)
  | sign => simp
  | _ => nofun

end Operands

section Extensions

instance (op : ComparisonOp) : Linewise 1 (taking op) := by unfold taking; infer_instance

instance : Linewise 1 isOp := by unfold isOp; infer_instance

instance : Linewise 1 notWithinOp := by unfold notWithinOp; infer_instance

instance (k : Kind) : Linewise 1 (comparisonOpAt k) := by unfold comparisonOpAt; split <;> infer_instance

instance : Linewise 0 comparisonOp? := Rule.linewise_kind (pure none) rfl rfl inferInstance

variable (sub : ExprRule) [∀ level, Linewise 0 (sub level)] (left : Expr)

instance (t : Token) (level : Level) : Linewise 0 (binaryBy t sub left level) := by
  unfold binaryBy; split <;> infer_instance

instance (level : Level) : Linewise 1 (binary sub left level) := by unfold binary; infer_instance

instance : Linewise 1 (power sub left) := by unfold power; infer_instance

instance (level : Level) : Linewise 1 (caret sub left level) := by unfold caret; infer_instance

instance : Linewise 0 (linkRound sub) := by
  refine .bind inferInstance fun op => ?_
  cases op <;> infer_instance

instance : Linewise 0 (comparison sub left) := by unfold comparison; infer_instance

instance : Linewise 1 (conditional sub left) := by unfold conditional; infer_instance

instance : Linewise 1 (member left) := by unfold member; infer_instance

instance (level : Level) : Linewise 0 (argument sub level) := by unfold argument; infer_instance

instance : Linewise 0 (callArguments sub) := by unfold callArguments; infer_instance

instance : Linewise 0 (call sub left) := by unfold call; infer_instance

instance (k : Kind) : Linewise 1 (sliceBoundAt k sub) := by unfold sliceBoundAt; split <;> infer_instance

instance : Linewise 0 (sliceBound sub) := Rule.linewise_kind (some <$> sub .lowest) rfl rfl inferInstance

instance (start : Offset) (lower upper step : Option Expr) : Linewise 0 (sliced start lower upper step) := by
  unfold sliced; infer_instance

instance (start : Offset) (lower : Option Expr) : Linewise 1 (sliceTail sub start lower) := by
  unfold sliceTail; infer_instance

variable [∀ level, Stuck (sub level)]

instance : Linewise 0 (bracketItem sub) := by unfold bracketItem; infer_instance

omit [∀ level, Stuck (sub level)] in
instance (items : List Argument) : Linewise 0 (bracketed sub left items) := by
  unfold bracketed; split <;> split <;> infer_instance

instance : Linewise 1 (bracket sub left) := by unfold bracket; infer_instance

instance (k : Kind) (level : Level) : Linewise 1 (extensionAt k sub left level) := by
  unfold extensionAt; split <;> infer_instance

instance (level : Level) : Linewise 0 (extension sub left level) :=
  Rule.linewise_kind Rule.unexpected rfl rfl inferInstance

instance (level : Level) : Linewise 0 (extend? sub level left) where
  run F t us a d hn h := by
    unfold extend? at h ⊢
    rw [F.level_eq]
    split at h
    · next hlevel =>
      rw [if_pos hlevel]
      have hextension : Linewise 0 (some <$> extension sub left (F.left t us).level) := inferInstance
      exact hextension.run F t us hn h
    · next hlevel =>
      rw [if_neg hlevel]
      cases h
      exact ⟨t, us, List.suffix_refl us, rfl, rfl⟩

instance (level : Level) : Linewise 0 (climb sub level) := by unfold climb; infer_instance

omit [∀ level, Linewise 0 (sub level)] [∀ level, Stuck (sub level)] in
instance (level : Level) : Stuck (climb sub level) := by unfold climb; infer_instance

end Extensions

/-- Unrolled, an expression is stuck where nothing is left to unroll. -/
theorem exprWithin_linewise (n : Nat) (level : Level) :
    Linewise 0 (exprWithin (fun _ => Rule.unexpected) n level) ∧
      Stuck (exprWithin (fun _ => Rule.unexpected) n level) := by
  induction n generalizing level with
  | zero => exact ⟨inferInstanceAs (Linewise 0 Rule.unexpected), inferInstanceAs (Stuck Rule.unexpected)⟩
  | succ n ih =>
    have hlinewise := fun level => (ih level).1
    have hstuck := fun level => (ih level).2
    rw [exprWithin]
    exact ⟨inferInstance, inferInstance⟩

instance (level : Level) : Linewise 0 (expr level) where
  run F t us a d hn h := by
    -- unrolled far enough for both sides
    let n := us.length + F.tail.length + F.tail'.length + 2
    have hleft : exprWithin (fun _ => Rule.unexpected) n level (F.left t us) = expr level (F.left t us) := by
      refine exprWithin_eq _ level F.last_kind ?_
      rw [F.left_remaining]
      omega
    have hright : exprWithin (fun _ => Rule.unexpected) n level (F.right t us) =
        expr level (F.right t us) := by
      refine exprWithin_eq _ level F.last_kind' ?_
      rw [F.right_remaining]
      omega
    rw [← hright]
    rw [← hleft] at h
    exact (exprWithin_linewise n level).1.run F t us hn h

instance (level : Level) : Stuck (expr level) where
  ne_ok {c d a} hc h := by
    rw [expr_eq_climb] at h
    have hstuck : Stuck (climb (inner c.remaining) level) := inferInstance
    exact hstuck.ne_ok hc h

instance : Fact ((!Kind.newline.startsOperand) = (!Kind.semicolon.startsOperand)) := ⟨rfl⟩

instance : Linewise 0 exprList := by unfold exprList; infer_instance

instance : Stuck exprList := by unfold exprList; infer_instance

section Types

instance (t : Token) : Linewise 0 (symbolTypeBy t) := by unfold symbolTypeBy; split <;> infer_instance

instance : Linewise 1 symbolType := by unfold symbolType; infer_instance

instance (left : TypeExpr) : Linewise 1 (qualifiedType left) := by unfold qualifiedType; infer_instance

instance : Linewise 0 typeArgument := by unfold typeArgument; infer_instance

instance (left : TypeExpr) : Linewise 1 (genericType left) := by unfold genericType; infer_instance

instance (k : Kind) (left : TypeExpr) : Linewise 1 (typeTrailerAt k left) := by
  unfold typeTrailerAt; split <;> infer_instance

instance (left : TypeExpr) : Linewise 0 (Rule.kind >>= fun k => typeTrailerAt k left) :=
  Rule.linewise_kind (pure none) rfl rfl inferInstance

instance (level : Level) (left : TypeExpr) : Linewise 0 (extendType? level left) := by
  unfold extendType?; infer_instance

instance (level : Level) : Linewise 0 (typeExpr level) := by
  refine Rule.linewise_kind (Rule.unexpectedDetailed "expected a type") rfl rfl fun k => ?_
  split <;> infer_instance

instance : Linewise 0 declaredType? := by unfold declaredType?; infer_instance

instance : Linewise 0 default? := by unfold default?; infer_instance

instance : Linewise 0 typeParameter := by unfold typeParameter; infer_instance

instance : Linewise 0 typeParameters := by unfold typeParameters; infer_instance

instance : Linewise 0 typeParameters? := by
  have htyped : Linewise 1 typeParameters := inferInstance
  unfold typeParameters?
  infer_instance

end Types

section Simple

instance (e : Expr) : Linewise 0 (target e) := by unfold target; split <;> infer_instance

instance (e : Expr) : Linewise 0 (declaredName e) := by unfold declaredName; split <;> infer_instance

instance (start : Offset) (isVar : Bool) (left : Expr) (type : Option TypeExpr) :
    Linewise 0 (binding start isVar left type) := by
  unfold binding; infer_instance

instance (start : Offset) (op : BinaryOp) (p : Pattern) : Linewise 0 (augmenting start op p) := by
  unfold augmenting; split <;> infer_instance

instance (start : Offset) (left : Expr) (op : BinaryOp) : Linewise 1 (augmented start left op) := by
  unfold augmented; infer_instance

instance (start : Offset) (first : Expr) : Linewise 0 (afterExprList start first) := by
  refine Rule.linewise_kind (pure (.expression first.span first)) rfl rfl fun k => ?_
  split
  · infer_instance
  · infer_instance
  · split <;> infer_instance

instance : Linewise 2 dotName := by unfold dotName; infer_instance

instance : Linewise 0 nameRound :=
  Rule.linewise_two .dot .identifier (fun b => if b = true then dotName else pure none)
    (inferInstanceAs (Linewise 2 dotName)) (inferInstanceAs (Linewise 0 (pure none)))

instance (expected : String) : Linewise 0 (dottedName expected) := by unfold dottedName; infer_instance

instance (expected : String) : Stuck (dottedName expected) := by unfold dottedName; infer_instance

instance : Linewise 0 asName? := by unfold asName?; infer_instance

instance : Linewise 0 importName := by unfold importName; infer_instance

instance : Linewise 0 importedName := by unfold importedName; infer_instance

instance : Linewise 0 importTargets := by unfold importTargets; infer_instance

instance : Linewise 0 dotRound := by unfold dotRound; infer_instance

def ReadsLine (x : Rule Stmt) : Prop := ∃ body, x = ended body ∧ Linewise 1 body

instance (start : Offset) (level : Nat) (path : List String) : Linewise 0 (importingFrom start level path) := by
  unfold importingFrom; infer_instance

theorem importFromStmt_readsLine : ReadsLine importFromStmt := by
  refine ⟨_, rfl, Rule.linewise_advance fun t => .bind inferInstance fun dots => ?_⟩
  let rest := importingFrom t.span.start dots.length
  -- without dots there has to be a name, whatever comes
  refine Rule.linewise_kind (if dots.isEmpty = true then dottedName "expected module name" >>= rest
    else pure [] >>= rest) rfl rfl fun k => ?_
  dsimp only
  infer_instance

instance (start : Offset) : Linewise 0 (varBinding start) := by unfold varBinding; infer_instance

theorem varStmt_readsLine : ReadsLine varStmt := by
  refine ⟨_, rfl, Rule.linewise_advance fun t => ?_⟩
  refine Rule.linewise_kind
    (Rule.unexpectedDetailed "expected identifier during variable declaration") rfl rfl fun k => ?_
  split <;> infer_instance

instance (k : Kind) : Linewise 1 (leaveValueAt k) := by unfold leaveValueAt; split <;> infer_instance

instance (start : Offset) (word : LeaveWord) (value : Option Expr) : Linewise 0 (leaving start word value) := by
  unfold leaving; infer_instance

/-- Where the line ends behind the word, there is no value. -/
theorem leaveStmt_readsLine (word : LeaveWord) : ReadsLine (leaveStmt word) := by
  refine ⟨_, rfl, Rule.linewise_advance fun t => ?_⟩
  exact Rule.linewise_kind (pure none >>= leaving t.span.start word) rfl rfl inferInstance

instance (t : Token) : Linewise 0 (bareBy t) := by unfold bareBy; split <;> infer_instance

theorem bareStmt_readsLine : ReadsLine bareStmt := ⟨_, rfl, Rule.linewise_advance inferInstance⟩

/-- A simple statement is read on its line, and then the mark behind it. -/
theorem simpleStmt_readsLine (k : Kind) : ReadsLine (simpleStmt k) := by
  cases k using simpleStmt_cases with
  | names => exact importFromStmt_readsLine
  | var => exact varStmt_readsLine
  | leave word => exact leaveStmt_readsLine word
  | bare => exact bareStmt_readsLine
  | modules | aliasing | expression => exact ⟨_, rfl, inferInstance⟩

end Simple

end Grammar

end Offside
