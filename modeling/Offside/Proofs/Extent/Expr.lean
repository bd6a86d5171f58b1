import Offside.Proofs.Extent

namespace Offside.Grammar

open Rule Cursor

variable {sub : ExprRule} {k : Kind} {m : Nat} {o : Offset} {left : Expr}

structure Spanning (sub : ExprRule) : Prop where
  inner : ∀ level, Inner (sub level)
  spans : ∀ level m o, Yields (Starts m o) (sub level) fun e d => Spans m o e.span d

theorem Spanning.ends (h : Spanning sub) (level : Level) :
    Yields (Behind m) (sub level) fun e d => Ends m e.span d :=
  fun c e d hc hr => (h.spans level m c.current.span.start c e d hc.starts hr).ends

section Operands

theorem adjacentStrings_spans (t : Token) :
    Yields (Spans m o t.span) (adjacentStrings t) fun e d => Spans m o e.span d := by
  let J (last : Option Token) (c : Cursor) : Prop := c.Ends m (last.getD t).span
  have hothers : Yields (J none) (Rule.repeated stringRound) fun ts d => J (ts.getLast?.or none) d := by
    refine Yields.many (fun last => yields_kind_bind fun k => Yields.ite (fun hk => ?_) fun _ => ?_) none
    · exact Yields.map ((yields_step (k := .string) rfl).before fun c hc => ⟨hc.1.1, hc.2.trans hk⟩)
    · exact Yields.pure fun c hc => hc.1
  refine Yields.given (p := t.span.start = o) (fun c hc => by rw [hc.2]) fun ho => ?_
  refine (hothers.before fun c hc => hc.ends).bind fun ts => Yields.pure fun d hd => ?_
  refine Ends.spans ⟨hd.1, ?_⟩ ho
  have hlast : (t :: ts).getLastD t = (ts.getLast?.or none).getD t := by
    rw [Option.or_none, List.getLastD_eq_getLast?, List.getLast?_cons]
    cases ts.getLast? <;> rfl
  rw [Expr.span, Span.through, hlast]
  exact hd.2

theorem primary_spans (hk : k.isBoundary = false) :
    Yields (fun c => Starts m o c ∧ c.kind = k) primary fun e d => Spans m o e.span d := by
  refine (yields_advance hk).bind fun t => ?_
  cases t using atom_cases with
  | float t =>
    unfold floatLiteral
    split
    · exact Yields.pure fun _ => id
    · exact yields_fail
  | string t => exact adjacentStrings_spans t
  | other => exact yields_fail
  | _ => exact Yields.pure fun _ => id

variable (hsub : Spanning sub)

include hsub

theorem sign_spans (hk : k.isBoundary = false) :
    Yields (fun c => Starts m o c ∧ c.kind = k) (sign sub) fun e d => Spans m o e.span d :=
  yields_opening hk fun _ ho => (hsub.ends .unary).bind fun _ => Yields.pure fun _ hd => Ends.spans hd ho

theorem negation_spans :
    Yields (fun c => Starts m o c ∧ c.kind = .kwNot) (negation sub) fun e d => Spans m o e.span d :=
  yields_opening rfl fun _ ho => (hsub.ends .not).bind fun _ => Yields.pure fun _ hd => Ends.spans hd ho

theorem grouping_spans :
    Yields (fun c => Starts m o c ∧ c.kind = .openParen) (grouping sub) fun e d => Spans m o e.span d := by
  refine yields_opening rfl fun opening ho => yields_kind_bind fun k => Yields.ite (fun hk => ?_) fun _ => ?_
  · subst hk
    exact (yields_step rfl).bind fun _ => Yields.pure fun _ hd => Ends.spans hd ho
  · refine Yields.before (Inner.next (element_inner hsub.inner) fun _ => ?_) fun _ hc => hc.1
    refine yields_kind fun _ => Yields.ite (fun _ => ?_) fun _ => ?_
    · refine Inner.next (commaTail_inner (element_inner hsub.inner)) fun _ => ?_
      exact (yields_expect rfl).bind fun _ => Yields.pure fun _ hd => Ends.spans hd ho
    · exact (yields_expect rfl).bind fun _ => Yields.pure fun _ hd => Ends.spans hd ho

theorem listDisplay_spans :
    Yields (fun c => Starts m o c ∧ c.kind = .openBracket) (listDisplay sub)
      fun e d => Spans m o e.span d := by
  refine yields_opening rfl fun opening ho => ?_
  refine Inner.next (listUpTo_inner (element_inner hsub.inner)) fun _ => ?_
  exact (yields_expect rfl).bind fun _ => Yields.pure fun _ hd => Ends.spans hd ho

theorem dictOrSet_spans :
    Yields (fun c => Starts m o c ∧ c.kind = .openCurly) (dictOrSet sub)
      fun e d => Spans m o e.span d := by
  refine yields_opening rfl fun opening ho => yields_kind_bind fun k => Yields.ite (fun hk => ?_) fun _ => ?_
  · subst hk
    exact (yields_step rfl).bind fun _ => Yields.pure fun _ hd => Ends.spans hd ho
  · refine Yields.before (Inner.next (element_inner hsub.inner) fun _ => ?_) fun _ hc => hc.1
    refine Inner.next (eat_inner rfl) fun _ => Yields.ite (fun _ => ?_) fun _ => ?_
    · refine Inner.next (hsub.inner .lowest) fun _ => ?_
      refine Inner.next (commaTail_inner (entry_inner hsub.inner)) fun _ => ?_
      exact (yields_expect rfl).bind fun _ => Yields.pure fun _ hd => Ends.spans hd ho
    · refine Inner.next (commaTail_inner (element_inner hsub.inner)) fun _ => ?_
      exact (yields_expect rfl).bind fun _ => Yields.pure fun _ hd => Ends.spans hd ho

theorem operand_spans : Yields (Starts m o) (operand sub) fun e d => Spans m o e.span d := by
  refine yields_kind_bind fun k => ?_
  cases k using operand_cases with
  | primary k hk => exact primary_spans (Kind.isBoundary_of_isAtom hk)
  | sign op => exact sign_spans hsub op.isBoundary_kind
  | negation => exact negation_spans hsub
  | grouping => exact grouping_spans hsub
  | list => exact listDisplay_spans hsub
  | braces => exact dictOrSet_spans hsub
  | other => exact yields_unexpected

end Operands

section Extensions

/-- Where no comparison operator stands, none is taken. -/
theorem comparisonOp?_none {P : Cursor → Prop} :
    Yields P comparisonOp? fun r d => r = none → P d := by
  have htaking {P' : Cursor → Prop} (op : ComparisonOp) :
      Yields P' (taking op) fun r d => r = none → P d := by
    intro c r d _ hr
    cases hr
    nofun
  refine yields_kind_bind fun k => ?_
  cases k using comparisonOp_cases with
  | taking op => exact htaking op
  | is =>
    intro c r d _ hr
    obtain ⟨t, u, -, hr⟩ := bind_eq_ok.mp hr
    obtain ⟨b, v, -, hr⟩ := bind_eq_ok.mp hr
    cases hr
    nofun
  | notWithin =>
    refine yields_peek_bind fun n => Yields.ite (fun _ => ?_) fun _ => Yields.pure fun _ hc _ => hc.1
    exact Yields.bind (Q := fun _ _ => True) (fun _ _ _ _ _ => trivial) fun _ => htaking _
  | other => exact Yields.pure fun _ hc _ => hc.1

variable (hsub : Spanning sub) (hleft : left.span.start = o)

include hsub hleft

theorem binary_spans (level : Level) (hk : k.isBoundary = false) :
    Yields (fun c => Behind m c ∧ c.kind = k) (binary sub left level)
      fun e d => Spans m o e.span d := by
  refine (yields_step hk).bind fun t => ?_
  unfold binaryBy
  split
  · exact ((hsub.ends level).before fun _ hc => hc.1).bind fun _ =>
      Yields.pure fun _ hd => Ends.spans hd hleft
  · exact yields_fail

theorem power_spans :
    Yields (fun c => Behind m c ∧ c.kind = .starStar) (power sub left) fun e d => Spans m o e.span d :=
  (yields_step rfl).bind fun _ => ((hsub.ends .unary).before fun _ hc => hc.1).bind fun _ =>
    Yields.pure fun _ hd => Ends.spans hd hleft

theorem caret_spans (level : Level) :
    Yields (fun c => Behind m c ∧ c.kind = .caret) (caret sub left level)
      fun e d => Spans m o e.span d :=
  Yields.ite (fun _ => (yields_step rfl).bind fun _ => Yields.pure fun _ hd => Ends.spans hd hleft)
    fun _ => binary_spans hsub hleft level rfl

theorem comparison_spans :
    Yields (fun c => Ends m left.span c) (comparison sub left) fun e d => Spans m o e.span d := by
  let J (link : Option (ComparisonOp × Expr)) (c : Cursor) : Prop :=
    c.Ends m ((link.map fun link => link.2).getD left).span
  refine (Yields.many (J := J) (fun link => ?_) none).bind fun links => Yields.pure fun d hd => ?_
  · intro c r d hc hr
    obtain ⟨op, u, hop, hr⟩ := bind_eq_ok.mp hr
    cases op with
    | none =>
      cases hr
      exact comparisonOp?_none c none d hc hop rfl
    | some op =>
      have hu : u.Behind m := comparisonOp?_inner.behind (P := fun _ => True) c (some op) u ⟨hc.1, trivial⟩ hop
      obtain ⟨e, v, he, hr⟩ := bind_eq_ok.mp hr
      cases hr
      exact hsub.ends .comparison u e d hu he
  · rw [Option.or_none] at hd
    exact Ends.spans hd hleft

theorem conditional_spans :
    Yields (fun c => Behind m c ∧ c.kind = .kwIf) (conditional sub left)
      fun e d => Spans m o e.span d := by
  refine (yields_step rfl).bind fun _ => Yields.before (P := Behind m) ?_ fun _ hc => hc.1
  refine Inner.next (hsub.inner .conditional) fun _ => Inner.next (expect_inner rfl) fun _ => ?_
  exact (hsub.ends .lowest).bind fun _ => Yields.pure fun _ hd => Ends.spans hd hleft

omit hsub in
theorem member_spans :
    Yields (fun c => Behind m c ∧ c.kind = .dot) (member left) fun e d => Spans m o e.span d :=
  (yields_step rfl).bind fun _ => ((yields_expectDetailed rfl).before fun _ hc => hc.1).bind fun _ =>
    Yields.pure fun _ hd => Ends.spans hd hleft

theorem call_spans : Yields (Behind m) (call sub left) fun e d => Spans m o e.span d := by
  subst hleft
  exact Inner.next (callArguments_inner hsub.inner) fun _ => yields_previousEnd fun _ => rfl

theorem bracket_spans :
    Yields (fun c => Behind m c ∧ c.kind = .openBracket) (bracket sub left)
      fun e d => Spans m o e.span d := by
  subst hleft
  refine (yields_step rfl).bind fun _ => Yields.before (P := Behind m) ?_ fun _ hc => hc.1
  refine yields_kind fun _ => Yields.ite (fun _ => yields_unexpected) fun _ => ?_
  refine Inner.next (commaList_inner (bracketItem_inner hsub.inner)) fun items => ?_
  refine Inner.next (expect_inner rfl) fun _ => yields_kind fun _ => Yields.ite (fun _ => ?_) fun _ => ?_
  · split
    · exact Yields.throw
    · exact Inner.next (callArguments_inner hsub.inner) fun _ => yields_previousEnd fun _ => rfl
  · split
    · exact Yields.throw
    · exact yields_previousEnd fun _ => rfl

theorem extension_spans (level : Level) :
    Yields (fun c => Ends m left.span c) (extension sub left level) fun e d => Spans m o e.span d := by
  have hseen {k : Kind} {x : Rule Expr}
      (h : Yields (fun c => Behind m c ∧ c.kind = k) x fun e d => Spans m o e.span d) :
      Yields (fun c => Ends m left.span c ∧ c.kind = k) x fun e d => Spans m o e.span d :=
    h.before fun _ hc => ⟨hc.1.1, hc.2⟩
  refine yields_kind_bind fun k => ?_
  cases k using extension_cases with
  | conditional => exact hseen (conditional_spans hsub hleft)
  | comparison => exact (comparison_spans hsub hleft).before fun _ hc => hc.1
  | caret => exact hseen (caret_spans hsub hleft level)
  | power => exact hseen (power_spans hsub hleft)
  | call => exact (call_spans hsub hleft).before fun _ hc => hc.1.1
  | bracket => exact hseen (bracket_spans hsub hleft)
  | member => exact hseen (member_spans hleft)
  | binary op => exact hseen (binary_spans hsub hleft level op.isBoundary_kind)
  | other => exact yields_unexpected

omit hleft in
theorem extend?_spans (level : Level) (left : Expr) :
    Yields (fun c => Spans m o left.span c) (extend? sub level left)
      fun r d => Spans m o (r.getD left).span d := by
  intro c r d hc hr
  unfold extend? at hr
  split at hr
  · have hleft : left.span.start = o := by rw [hc.2]
    exact Yields.map (R := fun r d => Spans m o (Option.getD r left).span d)
      (extension_spans hsub hleft c.level) c r d hc.ends hr
  · cases hr
    exact hc

omit hleft in
theorem climb_spans (level : Level) :
    Yields (Starts m o) (climb sub level) fun e d => Spans m o e.span d :=
  (operand_spans hsub).bind fun left => Yields.iterate (I := fun e d => Spans m o e.span d)
    (fun e => extend?_spans hsub level e) left

end Extensions

theorem expr_spanning : Spanning expr where
  inner _ := expr_inner _
  spans level m o := by
    intro c
    induction c using WellFounded.induction (measure Cursor.remaining).wf generalizing level m o with
    | _ c ih =>
      intro e d hc hr
      -- subexpressions that begin ahead of the expression span their tokens
      have hsub : Spanning fun level' c' =>
          if c'.remaining < c.remaining then expr level' c' else .error c'.unexpected c' := by
        constructor
        · intro level' c' _
          dsimp only
          split
          · exact expr_inner (P := fun _ => True) level' c' trivial
          · exact Std.Refl.refl c'
        · intro level' m' o' c' e' d' hc' hr'
          dsimp only at hr'
          split at hr'
          · next hlt => exact ih c' hlt level' m' o' e' d' hc' hr'
          · cases hr'
      rw [expr] at hr
      exact climb_spans hsub level c e d hc hr

theorem exprList_spans : Yields (Starts m o) exprList fun e d => Spans m o e.span d := by
  refine (expr_spanning.spans .lowest m o).bind fun first => ?_
  refine Yields.given (p := first.span.start = o) (fun c hc => by rw [hc.2]) fun ho => ?_
  subst ho
  refine yields_kind fun _ => Yields.ite (fun _ => ?_) fun _ => Yields.pure fun _ => id
  refine Yields.before (P := Behind m) ?_ fun _ hc => hc.1
  exact Inner.next (commaTail_inner (expr_inner .lowest)) fun _ => yields_previousEnd fun _ => rfl

end Offside.Grammar
