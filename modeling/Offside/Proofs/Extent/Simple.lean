import Offside.Proofs.Extent.Expr

namespace Offside.Grammar

open Rule Cursor

variable {k : Kind} {m : Nat} {o : Offset}

def Ended (P : Cursor → Prop) (m : Nat) (o : Offset) (x : Rule Stmt) : Prop :=
  ∃ body, x = ended body ∧ InnerFrom P body ∧
    Yields (fun c => Starts m o c ∧ P c) body fun s d => Spans m o s.span d

theorem binding_spans (isVar : Bool) (left : Expr) (type : Option TypeExpr) :
    Yields (Behind m) (binding o isVar left type) fun s d => Spans m o s.span d := by
  refine Inner.next (eat_inner rfl) fun _ => Yields.ite (fun _ => ?_) fun _ => ?_
  · refine Inner.next exprList_inner fun _ => Inner.next (target_inner left) fun _ => ?_
    exact yields_previousEnd fun _ => rfl
  · exact Inner.next (declaredName_inner left) fun _ => yields_previousEnd fun _ => rfl

theorem augmented_spans (left : Expr) (op : BinaryOp) (hk : k.isBoundary = false) :
    Yields (fun c => Behind m c ∧ c.kind = k) (augmented o left op) fun s d => Spans m o s.span d := by
  refine (yields_step hk).bind fun _ => Yields.before (P := Behind m) ?_ fun _ hc => hc.1
  refine Inner.next (target_inner left) fun pattern => ?_
  cases pattern with
  | tuple s ps | list s ps => exact yields_fail
  | _ => exact Inner.next exprList_inner fun _ => yields_previousEnd fun _ => rfl

theorem afterExprList_spans (first : Expr) :
    Yields (fun c => Spans m o first.span c) (afterExprList o first) fun s d => Spans m o s.span d := by
  refine yields_kind_bind fun k => ?_
  split
  · refine ((yields_step rfl).before fun c hc => ⟨hc.1.1, hc.2⟩).bind fun _ => ?_
    refine Yields.before (P := Behind m) ?_ fun _ hc => hc.1
    exact Inner.next (typeExpr_inner .lowest) fun type => binding_spans false first (some type)
  · refine ((yields_step rfl).before fun c hc => ⟨hc.1.1, hc.2⟩).bind fun _ => ?_
    refine Yields.before (P := Behind m) ?_ fun _ hc => hc.1
    refine Inner.next (target_inner first) fun _ => Inner.next exprList_inner fun _ => ?_
    exact yields_previousEnd fun _ => rfl
  · split
    · next op hop =>
      have hk : k.isBoundary = false := by
        revert hop
        cases k <;> simp [augmentedOp?, Kind.isBoundary]
      exact (augmented_spans first op hk).before fun c hc => ⟨hc.1.1, hc.2⟩
    · exact Yields.pure fun c hc => hc.1

theorem expressionStmt_ended : Ended (fun _ => True) m o expressionStmt := by
  refine ⟨_, rfl, here_bind fun start => exprList_inner.bind fun first =>
    afterExprList_inner start first, ?_⟩
  refine Yields.before (P := Starts m o) ?_ fun _ hc => hc.1
  exact yields_here_bind (exprList_spans.bind fun first => afterExprList_spans first)

theorem varBinding_spans : Yields (Behind m) (varBinding o) fun s d => Spans m o s.span d :=
  Inner.next exprList_inner fun left => Inner.next declaredType?_inner fun type => binding_spans true left type

theorem varStmt_ended : Ended (fun c => c.kind = .kwVar) m o varStmt := by
  refine ⟨_, rfl, (advance_inner rfl).bind fun t => kind_bind fun k => ?_,
    yields_opening rfl fun t ho => yields_kind fun k => ?_⟩
  · split
    · exact varBinding_inner t.span.start
    · exact varBinding_inner t.span.start
    · exact unexpectedDetailed_inner
  · subst ho
    split
    · exact varBinding_spans
    · exact varBinding_spans
    · exact yields_unexpectedDetailed

theorem aliasStmt_ended : Ended (fun c => c.kind = .kwAlias) m o aliasStmt := by
  refine ⟨_, rfl, (advance_inner rfl).bind fun t => ?_, yields_opening rfl fun t ho => ?_⟩
  · refine (expectDetailed_inner rfl).bind fun _ => typeParameters?_inner.bind fun _ => ?_
    refine (expect_inner rfl).bind fun _ => (expr_inner _).bind fun _ => ?_
    exact previousEnd_bind fun _ => Moves.pure
  · subst ho
    refine Inner.next (expectDetailed_inner rfl) fun _ => Inner.next typeParameters?_inner fun _ => ?_
    refine Inner.next (expect_inner rfl) fun _ => Inner.next (expr_inner _) fun _ => ?_
    exact yields_previousEnd fun _ => rfl

theorem leaveStmt_ended (word : LeaveWord) (hk : k.isBoundary = false) :
    Ended (fun c => c.kind = k) m o (leaveStmt word) := by
  refine ⟨_, rfl, (advance_inner hk).bind fun t => kind_bind fun k => ?_,
    yields_opening hk fun t ho => yields_kind fun k => ?_⟩
  · exact (leaveValueAt_inner k).bind fun _ => previousEnd_bind fun _ => Moves.pure
  · subst ho
    exact Inner.next (leaveValueAt_inner k) fun _ => yields_previousEnd fun _ => rfl

theorem bareStmt_ended (hk : k.isBoundary = false) :
    Ended (fun c => c.kind = k) m o bareStmt := by
  refine ⟨_, rfl, (advance_inner hk).bind fun t => ?_, (yields_advance hk).bind fun t => ?_⟩
  · cases t using bare_cases with
    | word => exact Moves.pure
    | other => exact fail_inner
  · cases t using bare_cases with
    | word => exact Yields.pure fun _ => id
    | other => exact yields_fail

theorem importStmt_ended : Ended (fun c => c.kind = .kwImport) m o importStmt := by
  refine ⟨_, rfl, (advance_inner rfl).bind fun t => ?_, yields_opening rfl fun t ho => ?_⟩
  · exact (commaList_inner importName_inner).bind fun _ => previousEnd_bind fun _ => Moves.pure
  · subst ho
    exact Inner.next (commaList_inner importName_inner) fun _ => yields_previousEnd fun _ => rfl

theorem importingFrom_inner {level : Nat} {path : List String} : Inner (importingFrom o level path) :=
  (expect_inner rfl).bind fun _ => importTargets_inner.bind fun _ => previousEnd_bind fun _ => Moves.pure

theorem importingFrom_spans {level : Nat} {path : List String} :
    Yields (Behind m) (importingFrom o level path) fun s d => Spans m o s.span d :=
  Inner.next (expect_inner rfl) fun _ => Inner.next importTargets_inner fun _ => yields_previousEnd fun _ => rfl

theorem importFromStmt_ended : Ended (fun c => c.kind = .kwFrom) m o importFromStmt := by
  refine ⟨_, rfl, (advance_inner rfl).bind fun t => dots_inner.bind fun dots => ?_,
    yields_opening rfl fun t ho => Inner.next dots_inner fun dots => ?_⟩
  · refine kind_bind fun k => Moves.ite (fun _ => ?_) fun _ => ?_
    · exact (dottedName_inner _).bind fun _ => importingFrom_inner
    · exact Moves.pure.bind fun _ => importingFrom_inner
  · subst ho
    refine yields_kind fun k => Yields.ite (fun _ => ?_) fun _ => ?_
    · exact Inner.next (dottedName_inner _) fun _ => importingFrom_spans
    · exact Inner.next Moves.pure fun _ => importingFrom_spans

theorem simpleStmt_ended (k : Kind) : Ended (fun c => c.kind = k) m o (simpleStmt k) := by
  cases k using simpleStmt_cases with
  | modules => exact importStmt_ended
  | names => exact importFromStmt_ended
  | var => exact varStmt_ended
  | aliasing => exact aliasStmt_ended
  | leave word => exact leaveStmt_ended word (by cases word <;> rfl)
  | bare word => exact bareStmt_ended (by cases word <;> rfl)
  | expression =>
    obtain ⟨body, hbody, hinner, hspans⟩ := expressionStmt_ended (m := m) (o := o)
    exact ⟨body, hbody, hinner.before fun _ _ => trivial,
      hspans.before fun _ hc => ⟨hc.1, trivial⟩⟩

end Offside.Grammar
