import Offside.Proofs.Nesting
import Offside.Proofs.Reading.Expr

namespace Offside.Grammar

open Rule Cursor Region

variable {sub : ExprRule} {a o : Offset} {rs : List Region} {k : Kind} {left : Expr}

structure Laying (sub : ExprRule) : Prop where
  inner : ∀ level, Inner (sub level)
  lays : ∀ level, Lays (sub level) fun e => [e.region]

section Operands

theorem adjacentStrings_lays (t : Token) :
    Yields (Laid a (rs ++ [leaf t.span])) (adjacentStrings t) fun e d => d.Laid a (rs ++ [e.region]) := by
  refine (many_lays (fun t : Token => [leaf t.span]) (fun a rs => ?_) a _).bind fun ts => ?_
  · refine yields_kind_bind fun k => Yields.ite (fun hk => ?_) fun _ => Yields.pure fun d hd => by simpa using hd.1
    subst hk
    exact Yields.map (advance_lays (by decide))
  · refine Yields.pure fun d hd => ?_
    have hlist : d.Laid a (rs ++ (t :: ts).map fun t => leaf t.span) := by
      simpa [← List.map_eq_flatMap] using hd
    refine hlist.through ⟨_, rfl, rfl⟩ (List.nil_sublist _) ⟨leaf ((t :: ts).getLastD t).span, ?_, rfl⟩
    rw [List.getLast?_map, List.getLastD_eq_getLast?, List.getLast?_cons]
    rfl

theorem primary_lays (hk : k ≠ .eof) :
    Yields (fun c => c.Laid a rs ∧ c.kind = k) primary fun e d => d.Laid a (rs ++ [e.region]) := by
  refine (advance_lays hk).bind fun t => ?_
  cases t using atom_cases with
  | float t =>
    unfold floatLiteral
    split
    · exact Yields.pure fun _ => id
    · exact yields_fail
  | string t => exact adjacentStrings_lays t
  | other => exact yields_fail
  | _ => exact Yields.pure fun _ => id

variable (hsub : Laying sub)

include hsub

theorem element_lays : Lays (element sub) fun e => [e.region] :=
  fun a rs => inner_after (fun c _ => Std.Refl.refl c) fun _ => Yields.ite
    (fun _ => yields_current_bind fun _ => yields_fail) fun _ => hsub.lays .lowest a rs

theorem entry_lays : Lays (entry sub) fun entry => [entry.1.region, entry.2.region] := by
  refine fun a rs => (element_lays hsub a rs).bind fun key => inner_after (expect_inner rfl) fun _ => ?_
  exact (hsub.lays .lowest a _).bind fun value => Yields.pure fun d hd => by simpa using hd

theorem sign_lays (hk : k ≠ .eof) :
    Yields (fun c => c.Laid a rs ∧ c.kind = k) (sign sub) fun e d => d.Laid a (rs ++ [e.region]) :=
  (advance_lays hk).bind fun _ => (hsub.lays .unary a _).bind fun e => Yields.pure fun _ hd =>
    hd.led rfl ⟨e.region, rfl, by simp [Span.through]⟩

theorem negation_lays :
    Yields (fun c => c.Laid a rs ∧ c.kind = .kwNot) (negation sub) fun e d =>
      d.Laid a (rs ++ [e.region]) :=
  (advance_lays (by decide)).bind fun _ => (hsub.lays .not a _).bind fun e => Yields.pure fun _ hd =>
    hd.led rfl ⟨e.region, rfl, by simp [Span.through]⟩

theorem grouping_lays :
    Yields (fun c => c.Laid a rs ∧ c.kind = .openParen) (grouping sub) fun e d =>
      d.Laid a (rs ++ [e.region]) := by
  refine (advance_lays (by decide)).bind fun opening => yields_kind_bind fun k =>
    Yields.ite (fun hk => ?_) fun _ => ?_
  · subst hk
    refine (advance_lays (by decide)).bind fun closing => Yields.pure fun d hd => ?_
    rw [← List.append_nil (rs ++ [leaf opening.span])] at hd
    exact hd.bracketed
  · refine Yields.before ?_ fun _ hc => hc.1
    refine (element_lays hsub a _).bind fun first => yields_kind fun _ => Yields.ite (fun _ => ?_) fun _ => ?_
    · refine (commaTail_lays _ (element_lays hsub) a _).bind fun rest => ?_
      refine (expect_lays (by decide) a _).bind fun closing => Yields.pure fun d hd => ?_
      refine Laid.bracketed ?_
      simpa [Expr.regions_eq_map] using hd
    · refine (expect_lays (by decide) a _).bind fun closing => Yields.pure fun d hd => ?_
      exact hd.bracketed

theorem listDisplay_lays :
    Yields (fun c => c.Laid a rs ∧ c.kind = .openBracket) (listDisplay sub) fun e d =>
      d.Laid a (rs ++ [e.region]) := by
  refine (advance_lays (by decide)).bind fun opening => ?_
  refine (listUpTo_lays _ (element_lays hsub) a _).bind fun es => ?_
  refine (expect_lays (by decide) a _).bind fun closing => Yields.pure fun d hd => ?_
  refine Laid.bracketed ?_
  simpa [Expr.regions_eq_map] using hd

theorem dictOrSet_lays :
    Yields (fun c => c.Laid a rs ∧ c.kind = .openCurly) (dictOrSet sub) fun e d =>
      d.Laid a (rs ++ [e.region]) := by
  refine (advance_lays (by decide)).bind fun opening => yields_kind_bind fun k =>
    Yields.ite (fun hk => ?_) fun _ => ?_
  · subst hk
    refine (advance_lays (by decide)).bind fun closing => Yields.pure fun d hd => ?_
    rw [← List.append_nil (rs ++ [leaf opening.span])] at hd
    exact hd.bracketed
  · refine Yields.before ?_ fun _ hc => hc.1
    refine (element_lays hsub a _).bind fun first => inner_after (eat_inner rfl) fun _ =>
      Yields.ite (fun _ => ?_) fun _ => ?_
    · refine (hsub.lays .lowest a _).bind fun value => ?_
      refine (commaTail_lays_all _ (entry_lays hsub) a _).bind fun rest => ?_
      refine (expect_lays (by decide) a _).bind fun closing => Yields.pure fun d hd => ?_
      refine Laid.bracketed ?_
      simpa [Expr.entryRegions_eq_flatMap] using hd
    · refine (commaTail_lays _ (element_lays hsub) a _).bind fun rest => ?_
      refine (expect_lays (by decide) a _).bind fun closing => Yields.pure fun d hd => ?_
      refine Laid.bracketed ?_
      simpa [Expr.regions_eq_map] using hd

theorem operand_lays : Lays (operand sub) fun e => [e.region] := by
  refine fun a rs => yields_kind_bind fun k => ?_
  cases k using operand_cases with
  | primary k hk => exact primary_lays (Kind.ne_of_inner (Kind.isBoundary_of_isAtom hk) rfl)
  | sign op => exact sign_lays hsub (Kind.ne_of_inner op.isBoundary_kind rfl)
  | negation => exact negation_lays hsub
  | grouping => exact grouping_lays hsub
  | list => exact listDisplay_lays hsub
  | braces => exact dictOrSet_lays hsub
  | other => exact yields_unexpected

end Operands

section Extensions

variable (hsub : Laying sub)

include hsub

theorem binary_lays (level : Level) :
    Yields (Laid a (rs ++ [left.region])) (binary sub left level) fun e d => d.Laid a (rs ++ [e.region]) := by
  refine advance_after fun t => ?_
  unfold binaryBy
  split
  · refine (hsub.lays level a _).bind fun right => Yields.pure fun d hd => ?_
    exact hd.joined (by simp [Span.through]) ⟨right.region, rfl, by simp [Span.through]⟩
  · exact yields_fail

theorem power_lays :
    Yields (Laid a (rs ++ [left.region])) (power sub left) fun e d => d.Laid a (rs ++ [e.region]) := by
  refine advance_after fun t => (hsub.lays .unary a _).bind fun right => Yields.pure fun d hd => ?_
  exact hd.joined (by simp [Span.through]) ⟨right.region, rfl, by simp [Span.through]⟩

theorem caret_lays (level : Level) :
    Yields (fun c => c.Laid a (rs ++ [left.region]) ∧ c.kind = .caret) (caret sub left level)
      fun e d => d.Laid a (rs ++ [e.region]) := by
  refine Yields.ite (fun _ => ?_) fun _ => (binary_lays hsub level).before fun _ hc => hc.1
  refine (advance_lays (by decide)).bind fun t => Yields.pure fun d hd => ?_
  rw [← List.append_nil (rs ++ [left.region])] at hd
  exact hd.ended (by simp [Span.through]) rfl

theorem comparison_lays :
    Yields (Laid a (rs ++ [left.region])) (comparison sub left) fun e d => d.Laid a (rs ++ [e.region]) := by
  refine (many_lays (fun link : ComparisonOp × Expr => [link.2.region]) (fun a rs => ?_) a _).bind fun links => ?_
  · refine inner_after comparisonOp?_inner fun op => ?_
    cases op with
    | none => exact pure_lays rfl a rs
    | some op => exact (hsub.lays .comparison a rs).bind fun e => Yields.pure fun d hd => by simpa using hd
  · refine Yields.pure fun d hd => ?_
    dsimp only at hd
    rw [← List.map_eq_flatMap, ← Expr.linkRegions_eq_map] at hd
    refine hd.joined (by simp [Span.through]) ?_
    rw [Expr.linkRegions_eq_map, List.getLast?_cons, List.getLast?_map]
    refine ⟨_, rfl, ?_⟩
    cases links.getLast? <;> simp [Span.through]

theorem conditional_lays :
    Yields (Laid a (rs ++ [left.region])) (conditional sub left) fun e d => d.Laid a (rs ++ [e.region]) := by
  refine advance_after fun t => (hsub.lays .conditional a _).bind fun condition => ?_
  refine inner_after (expect_inner rfl) fun _ => (hsub.lays .lowest a _).bind fun other => ?_
  refine Yields.pure fun d hd => ?_
  have hparts : d.Laid a (rs ++ [left.region] ++ [condition.region, other.region]) := by simpa using hd
  exact hparts.joined (by simp [Span.through]) ⟨other.region, rfl, by simp [Span.through]⟩

omit hsub in
theorem member_lays :
    Yields (Laid a (rs ++ [left.region])) (member left) fun e d => d.Laid a (rs ++ [e.region]) := by
  refine advance_after fun _ => (expectDetailed_lays (by decide) a _).bind fun t => Yields.pure fun d hd => ?_
  rw [← List.append_nil (rs ++ [left.region])] at hd
  exact hd.ended (by simp [Span.through]) rfl

theorem argument_lays (level : Level) : Lays (argument sub level) fun v => [v.region] := by
  intro a rs
  refine yields_atKeyword_bind ?_ ?_
  · refine ((advance_lays (k := .identifier) (by decide)).before fun c hc => ⟨hc.1, hc.2.1⟩).bind fun name => ?_
    refine advance_after fun _ => (hsub.lays level a _).bind fun value => Yields.pure fun d hd => ?_
    exact hd.led rfl ⟨value.region, rfl, by simp [Span.through]⟩
  · exact (hsub.lays level a rs).bind fun value => Yields.pure fun d hd => hd

theorem callArguments_lays : Lays (callArguments sub) Argument.regions := by
  refine fun a rs => inner_after (expect_inner rfl) fun _ => ?_
  refine (listUpTo_lays _ (argument_lays hsub .conditional) a rs).bind fun as => ?_
  refine inner_after (expect_inner rfl) fun _ => Yields.pure fun d hd => ?_
  rwa [Argument.regions_eq_map]

theorem call_lays :
    Yields (Laid a (rs ++ [left.region])) (call sub left) fun e d => d.Laid a (rs ++ [e.region]) := by
  refine (callArguments_lays hsub a _).bind fun as => laid_previousEnd Expr.region fun d hd => ?_
  exact hd.extended (by simp) rfl

theorem sliceBound_lays : Lays (sliceBound sub) Expr.optionRegions := by
  refine fun a rs => yields_kind fun k => ?_
  cases k using sliceBound_cases with
  | absent => exact pure_lays rfl a rs
  | present => exact Lays.map (hsub.lays .lowest) (fun _ => rfl) a rs

/-- A slice is the first thing that is laid, with its first bound. -/
theorem sliceTail_lays (lower : Option Expr) :
    Yields (fun c => c.Laid o (Expr.optionRegions lower) ∧ c.kind = .colon) (sliceTail sub o lower)
      fun v d => d.Laid o [v.region] := by
  refine (advance_lays (by decide)).bind fun t => (sliceBound_lays hsub o _).bind fun upper => ?_
  refine inner_after (eat_inner rfl) fun _ => ?_
  have hend (step : Option Expr) :
      Yields (Laid o (Expr.optionRegions lower ++ [leaf t.span] ++ Expr.optionRegions upper ++
        Expr.optionRegions step)) (sliced o lower upper step) fun v d => d.Laid o [v.region] :=
    spanned_previousEnd Argument.region (fun _ => rfl) (by simp) (by simp)
  refine Yields.ite (fun _ => (sliceBound_lays hsub o _).bind hend) fun _ => ?_
  have hnone : Lays (pure none) Expr.optionRegions := pure_lays rfl
  exact (hnone o _).bind hend

theorem bracketItem_lays : Lays (bracketItem sub) fun v => [v.region] := by
  refine Inner.lays (bracketItem_inner hsub.inner) fun o => yields_atKeyword_bind ?_ (fresh_here ?_)
  · exact (argument_lays hsub .lowest o []).before fun c hc => hc.1.laid
  · refine yields_kind_bind fun k => Yields.ite (fun hk => ?_) fun _ => ?_
    · subst hk
      exact (sliceTail_lays hsub none).before fun c hc => ⟨hc.1.laid, hc.2⟩
    · refine ((hsub.lays .lowest o []).before fun c hc => hc.1.laid).bind fun e => ?_
      refine yields_kind_bind fun k => Yields.ite (fun hk => ?_) fun _ => Yields.pure fun d hd => hd.1
      subst hk
      exact sliceTail_lays hsub (some e)

theorem bracket_lays :
    Yields (Laid a (rs ++ [left.region])) (bracket sub left) fun e d => d.Laid a (rs ++ [e.region]) := by
  refine advance_after fun _ => yields_kind fun _ => Yields.ite (fun _ => yields_unexpected) fun _ => ?_
  refine (commaList_lays _ (bracketItem_lays hsub) a _).bind fun items => ?_
  refine inner_after (expect_inner rfl) fun _ => yields_kind fun _ => Yields.ite (fun _ => ?_) fun _ => ?_
  · split
    · exact Yields.throw
    · refine (callArguments_lays hsub a _).bind fun as => ?_
      refine laid_previousEnd Expr.region fun d hd => ?_
      rw [← Argument.regions_eq_map] at hd
      rw [List.append_assoc] at hd
      exact hd.extended (by simp) rfl
  · split
    · exact Yields.throw
    · next es hes =>
      have heq := indices_eq_ok hes
      subst heq
      refine laid_previousEnd Expr.region fun d hd => ?_
      have hindices : (es.map Argument.positional).map Argument.region = Expr.regions es := by
        rw [Expr.regions_eq_map, List.map_map]
        rfl
      rw [hindices] at hd
      exact hd.extended (by simp) rfl

theorem extension_lays (level : Level) :
    Yields (Laid a (rs ++ [left.region])) (extension sub left level) fun e d => d.Laid a (rs ++ [e.region]) := by
  have hseen {k : Kind} {x : Rule Expr}
      (h : Yields (Laid a (rs ++ [left.region])) x fun e d => d.Laid a (rs ++ [e.region])) :
      Yields (fun c => c.Laid a (rs ++ [left.region]) ∧ c.kind = k) x fun e d => d.Laid a (rs ++ [e.region]) :=
    h.before fun _ hc => hc.1
  refine yields_kind_bind fun k => ?_
  cases k using extension_cases with
  | conditional => exact hseen (conditional_lays hsub)
  | comparison => exact hseen (comparison_lays hsub)
  | caret => exact caret_lays hsub level
  | power => exact hseen (power_lays hsub)
  | call => exact hseen (call_lays hsub)
  | bracket => exact hseen (bracket_lays hsub)
  | member => exact hseen member_lays
  | binary => exact hseen (binary_lays hsub level)
  | other => exact yields_unexpected

theorem extend?_lays (level : Level) (left : Expr) :
    Yields (Laid a (rs ++ [left.region])) (extend? sub level left) fun r d =>
      d.Laid a (rs ++ [(r.getD left).region]) := by
  intro c r d hc hr
  unfold extend? at hr
  split at hr
  · exact Yields.map (R := fun r d => Laid a (rs ++ [(Option.getD r left).region]) d)
      (extension_lays hsub c.level) c r d hc hr
  · cases hr
    exact hc

theorem climb_lays (level : Level) : Lays (climb sub level) fun e => [e.region] :=
  fun a rs => (operand_lays hsub a rs).bind fun left =>
    Yields.iterate (I := fun e d => Laid a (rs ++ [e.region]) d) (fun e => extend?_lays hsub level e) left

end Extensions

theorem expr_lays (level : Level) : Lays (expr level) fun e => [e.region] := by
  intro a rs c
  induction c using WellFounded.induction (measure Cursor.remaining).wf generalizing level a rs with
  | _ c ih =>
    intro e d hc hr
    -- subexpressions begin ahead of the expression
    have hsub : Laying (inner c.remaining) := by
      refine ⟨fun level' c' _ => ?_, fun level' a' rs' c' e' d' hc' hr' => ?_⟩
      · unfold inner
        split
        · exact expr_inner (P := fun _ => True) level' c' trivial
        · exact Std.Refl.refl c'
      · unfold inner at hr'
        split at hr'
        · next hlt => exact ih c' hlt level' a' rs' e' d' hc' hr'
        · cases hr'
    rw [expr_eq_climb] at hr
    exact climb_lays hsub level a rs c e d hc hr

theorem expr_laying : Laying expr := ⟨fun _ => expr_inner _, expr_lays⟩

theorem exprList_lays : Lays exprList fun e => [e.region] := by
  refine fun a rs => (expr_lays .lowest a rs).bind fun first => yields_kind fun _ =>
    Yields.ite (fun _ => ?_) fun _ => Yields.pure fun _ hd => hd
  refine (commaTail_lays _ (expr_lays .lowest) a _).bind fun rest => ?_
  refine laid_previousEnd Expr.region fun d hd => ?_
  rw [← Expr.regions_eq_map] at hd
  exact hd.extended (by simp) rfl

end Offside.Grammar
