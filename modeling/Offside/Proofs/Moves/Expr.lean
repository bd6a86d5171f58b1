import Offside.Grammar.Expr
import Offside.Proofs.Moves

namespace Offside.Grammar

open Rule

variable {sub : ExprRule} {P : Cursor → Prop} {k : Kind}

section Operands

theorem adjacentStrings_inner (t : Token) : InnerFrom P (adjacentStrings t) := by
  refine (repeated_inner ?_).bind fun _ => Moves.pure
  refine kind_bind fun k => Moves.ite (fun hk => ?_) fun _ => Moves.pure
  exact Moves.map (advance_inner (hk ▸ rfl))

theorem floatLiteral_inner (t : Token) : InnerFrom P (floatLiteral t) := by
  unfold floatLiteral
  split
  · exact Moves.pure
  · exact fail_inner

theorem primary_inner (hk : k.isBoundary = false) : InnerAt k primary := by
  refine (advance_inner hk).bind fun t => ?_
  cases t using atom_cases with
  | float t => exact floatLiteral_inner t
  | string t => exact adjacentStrings_inner t
  | other => exact fail_inner
  | _ => exact Moves.pure

variable (hsub : ∀ level, Inner (sub level))

include hsub

theorem sign_inner (hk : k.isBoundary = false) : InnerAt k (sign sub) :=
  (advance_inner hk).bind fun _ => (hsub .unary).bind fun _ => Moves.pure

theorem negation_inner : InnerAt .kwNot (negation sub) :=
  (advance_inner rfl).bind fun _ => (hsub .not).bind fun _ => Moves.pure

theorem element_inner : InnerFrom P (element sub) :=
  atKeyword_bind (current_bind fun _ => fail_inner) (hsub .lowest)

theorem grouping_inner : InnerAt .openParen (grouping sub) := by
  refine (advance_inner rfl).bind fun _ => kind_bind fun k => Moves.ite (fun hk => ?_) fun _ => ?_
  · subst hk
    exact (advance_inner rfl).bind fun _ => Moves.pure
  · refine (element_inner hsub).bind fun _ => kind_bind fun _ => Moves.ite (fun _ => ?_) fun _ => ?_
    · refine (commaTail_inner (element_inner hsub)).bind fun _ => ?_
      exact (expect_inner rfl).bind fun _ => Moves.pure
    · exact (expect_inner rfl).bind fun _ => Moves.pure

theorem listDisplay_inner : InnerAt .openBracket (listDisplay sub) :=
  (advance_inner rfl).bind fun _ => (listUpTo_inner (element_inner hsub)).bind fun _ =>
    (expect_inner rfl).bind fun _ => Moves.pure

theorem entry_inner : InnerFrom P (entry sub) :=
  (element_inner hsub).bind fun _ => (expect_inner rfl).bind fun _ =>
    (hsub .lowest).bind fun _ => Moves.pure

theorem dictOrSet_inner : InnerAt .openCurly (dictOrSet sub) := by
  refine (advance_inner rfl).bind fun _ => kind_bind fun k => Moves.ite (fun hk => ?_) fun _ => ?_
  · subst hk
    exact (advance_inner rfl).bind fun _ => Moves.pure
  · refine (element_inner hsub).bind fun _ => (eat_inner rfl).bind fun _ => Moves.ite (fun _ => ?_) fun _ => ?_
    · refine (hsub .lowest).bind fun _ => (commaTail_inner (entry_inner hsub)).bind fun _ => ?_
      exact (expect_inner rfl).bind fun _ => Moves.pure
    · refine (commaTail_inner (element_inner hsub)).bind fun _ => ?_
      exact (expect_inner rfl).bind fun _ => Moves.pure

theorem operand_inner : InnerFrom P (operand sub) := by
  refine kind_bind fun k => ?_
  cases k using operand_cases with
  | primary k hk => exact primary_inner (Kind.isBoundary_of_isAtom hk)
  | sign op => exact sign_inner hsub op.isBoundary_kind
  | negation => exact negation_inner hsub
  | grouping => exact grouping_inner hsub
  | list => exact listDisplay_inner hsub
  | braces => exact dictOrSet_inner hsub
  | other => exact unexpected_inner

end Operands

section Extensions

theorem comparisonOp?_inner : InnerFrom P comparisonOp? := by
  have htaking {k : Kind} (op : ComparisonOp) (hk : Level.ofKind k = .comparison) : InnerAt k (taking op) :=
    (advance_inner (Kind.isBoundary_of_comparison hk)).bind fun _ => Moves.pure
  refine kind_bind fun k => ?_
  cases k using comparisonOp_cases with
  | taking op k hk => exact htaking op (ComparisonOp.level_of_kinds hk)
  | is => exact (advance_inner rfl).bind fun _ => (eat_inner rfl).bind fun _ => Moves.pure
  | notWithin =>
    refine peek_bind fun n => Moves.ite (fun hn => ?_) fun _ => Moves.pure
    subst hn
    exact advance_peeked rfl rfl fun _ => htaking _ rfl
  | other => exact Moves.pure

variable (hsub : ∀ level, Inner (sub level)) (left : Expr)

include hsub

theorem binary_inner (level : Level) (hk : k.isBoundary = false) :
    InnerAt k (binary sub left level) := by
  refine (advance_inner hk).bind fun t => ?_
  unfold binaryBy
  split
  · exact (hsub level).bind fun _ => Moves.pure
  · exact fail_inner

theorem power_inner : InnerAt .starStar (power sub left) :=
  (advance_inner rfl).bind fun _ => (hsub .unary).bind fun _ => Moves.pure

theorem caret_inner (level : Level) : InnerAt .caret (caret sub left level) :=
  Moves.ite (fun _ => (advance_inner rfl).bind fun _ => Moves.pure) fun _ =>
    binary_inner hsub left level rfl

theorem comparison_inner : InnerFrom P (comparison sub left) := by
  refine (repeated_inner ?_).bind fun _ => Moves.pure
  refine comparisonOp?_inner.bind fun op => ?_
  cases op with
  | none => exact Moves.pure
  | some op => exact (hsub .comparison).bind fun _ => Moves.pure

theorem conditional_inner : InnerAt .kwIf (conditional sub left) :=
  (advance_inner rfl).bind fun _ => (hsub .conditional).bind fun _ =>
    (expect_inner rfl).bind fun _ => (hsub .lowest).bind fun _ => Moves.pure

omit hsub in
theorem member_inner : InnerAt .dot (member left) :=
  (advance_inner rfl).bind fun _ => (expectDetailed_inner rfl).bind fun _ => Moves.pure

theorem argument_inner (level : Level) : InnerFrom P (argument sub level) := by
  refine atKeyword_bind (advance_peeked rfl rfl fun _ => ?_) ((hsub level).bind fun _ => Moves.pure)
  exact (advance_inner rfl).bind fun _ => (hsub level).bind fun _ => Moves.pure

theorem callArguments_inner : InnerFrom P (callArguments sub) :=
  (expect_inner rfl).bind fun _ => (listUpTo_inner (argument_inner hsub .conditional)).bind fun _ =>
    (expect_inner rfl).bind fun _ => Moves.pure

theorem call_inner : InnerFrom P (call sub left) :=
  (callArguments_inner hsub).bind fun _ => previousEnd_bind fun _ => Moves.pure

theorem sliceBound_inner : InnerFrom P (sliceBound sub) := by
  refine kind_bind fun k => ?_
  cases k using sliceBound_cases with
  | absent => exact Moves.pure
  | present => exact Moves.map (hsub .lowest).anywhere

theorem sliceTail_inner (start : Offset) (lower : Option Expr) :
    InnerAt .colon (sliceTail sub start lower) := by
  refine (advance_inner rfl).bind fun _ => (sliceBound_inner hsub).bind fun _ => ?_
  refine (eat_inner rfl).bind fun _ => Moves.ite (fun _ => ?_) fun _ => ?_
  · exact (sliceBound_inner hsub).bind fun _ => previousEnd_bind fun _ => Moves.pure
  · exact Moves.pure.bind fun _ => previousEnd_bind fun _ => Moves.pure

theorem bracketItem_inner : InnerFrom P (bracketItem sub) := by
  refine atKeyword_bind (argument_inner hsub .lowest) ?_
  refine here_bind fun start => kind_bind fun k => Moves.ite (fun hk => ?_) fun _ => ?_
  · subst hk
    exact sliceTail_inner hsub start none
  · refine (hsub .lowest).anywhere.bind fun e => kind_bind fun k => Moves.ite (fun hk => ?_) fun _ => Moves.pure
    subst hk
    exact sliceTail_inner hsub start (some e)

theorem bracket_inner : InnerAt .openBracket (bracket sub left) := by
  refine (advance_inner rfl).bind fun _ => kind_bind fun k => ?_
  refine Moves.ite (fun _ => unexpected_inner) fun _ => ?_
  refine (commaList_inner (bracketItem_inner hsub)).bind fun items => (expect_inner rfl).bind fun _ => ?_
  refine kind_bind fun k => Moves.ite (fun _ => ?_) fun _ => ?_
  · split
    · exact Moves.throw
    · exact (callArguments_inner hsub).bind fun _ => previousEnd_bind fun _ => Moves.pure
  · split
    · exact Moves.throw
    · exact previousEnd_bind fun _ => Moves.pure

theorem extension_inner (level : Level) : InnerFrom P (extension sub left level) := by
  refine kind_bind fun k => ?_
  cases k using extension_cases with
  | conditional => exact conditional_inner hsub left
  | comparison => exact comparison_inner hsub left
  | caret => exact caret_inner hsub left level
  | power => exact power_inner hsub left
  | call => exact call_inner hsub left
  | bracket => exact bracket_inner hsub left
  | member => exact member_inner left
  | binary op => exact binary_inner hsub left level op.isBoundary_kind
  | other => exact unexpected_inner

theorem extend?_inner (level : Level) : InnerFrom P (extend? sub level left) := by
  intro c _
  unfold extend?
  split
  · exact Moves.map (P := fun _ => True) (extension_inner hsub left c.level) c trivial
  · exact Std.Refl.refl c

theorem climb_inner (level : Level) : InnerFrom P (climb sub level) :=
  (operand_inner hsub).bind fun left =>
    Moves.iterate (fun e => extend?_inner hsub e level) (fun _ _ _ _ => trivial) left

end Extensions

theorem expr_inner (level : Level) : InnerFrom P (expr level) := by
  suffices h : Inner (expr level) from h.anywhere
  intro c _
  induction c using WellFounded.induction (measure Cursor.remaining).wf generalizing level with
  | _ c ih =>
    rw [expr]
    refine climb_inner (P := fun _ => True) (fun level d _ => ?_) level c trivial
    split
    · next hlt => exact ih d hlt level
    · exact Std.Refl.refl d

theorem exprList_inner : InnerFrom P exprList :=
  (expr_inner .lowest).bind fun _ => kind_bind fun _ =>
    Moves.ite (fun _ => (commaTail_inner (expr_inner .lowest)).bind fun _ =>
      previousEnd_bind fun _ => Moves.pure) fun _ => Moves.pure

end Offside.Grammar
