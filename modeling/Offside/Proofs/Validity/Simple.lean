import Offside.Proofs.Validity

namespace Offside.Grammar

open Rule Cursor

variable {allowed : ConventionSet}

section Simple

abbrev MakesLine (allowed : ConventionSet) (x : Rule Stmt) : Prop :=
  Makes Live (fun s => s.Valid allowed ∧ s.isSimple = true) x

theorem ended_makes {x : Rule Stmt} (h : MakesLine allowed x) : MakesLine allowed (ended x) :=
  Makes.bind h fun _ hs => makes_after (makes_of_moves (endOfStatement_along track_ahead)) fun _ =>
    Makes.pure hs

theorem binding_makes {start : Offset} {isVar : Bool} {left : Expr} {declaredType : Option TypeExpr}
    (hleft : left.Valid) (hdeclared : ∀ t ∈ declaredType, t.Valid)
    (htyped : isVar = false → declaredType ≠ none) :
    MakesLine allowed (binding start isVar left declaredType) := by
  refine makes_after eat_makes fun _ => Yields.ite (fun _ => ?_) fun _ => ?_
  · refine exprList_makes.bind fun _ hvalue => (target_makes hleft).bind fun _ htarget => ?_
    exact yields_previousEnd_bind fun _ => Makes.pure ⟨.assignment htarget hdeclared hvalue, rfl⟩
  · refine makes_after (Inner.makes (declaredName_inner left)) fun _ => ?_
    exact yields_previousEnd_bind fun _ => Makes.pure ⟨.declaration hdeclared htyped, rfl⟩

theorem augmented_makes {start : Offset} {left : Expr} (op : BinaryOp) (h : left.Valid) :
    MakesLine allowed (augmented start left op) := by
  refine makes_after advance_makes fun _ => (target_makes h).bind fun p hp => ?_
  cases p with
  | tuple s ps | list s ps => exact yields_fail
  | _ =>
    exact exprList_makes.bind fun _ hvalue => yields_previousEnd_bind fun _ =>
      Makes.pure ⟨.augmented hp rfl hvalue, rfl⟩

theorem afterExprList_makes {start : Offset} {first : Expr} (h : first.Valid) :
    MakesLine allowed (afterExprList start first) := by
  refine yields_kind fun _ => ?_
  split
  · refine makes_after advance_makes fun _ => (typeExpr_makes .lowest).bind fun t ht => ?_
    exact binding_makes h (Option.forall_mem_some ht) fun _ => Option.some_ne_none t
  · refine makes_after advance_makes fun _ => (target_makes h).bind fun _ htarget => ?_
    refine exprList_makes.bind fun _ hvalue => yields_previousEnd_bind fun _ => ?_
    exact Makes.pure ⟨.assignment htarget Option.forall_mem_none hvalue, rfl⟩
  · split
    · next op _ => exact augmented_makes op h
    · exact Makes.pure ⟨.expression h, rfl⟩

theorem expressionStmt_makes : MakesLine allowed expressionStmt :=
  ended_makes <| yields_here fun _ => exprList_makes.bind fun _ h => afterExprList_makes h

theorem varBinding_makes {start : Offset} : MakesLine allowed (varBinding start) :=
  exprList_makes.bind fun _ hleft => declaredType?_makes.bind fun _ ht => binding_makes hleft ht nofun

theorem varStmt_makes : MakesLine allowed varStmt := by
  refine ended_makes <| makes_after advance_makes fun _ => yields_kind fun _ => ?_
  split
  · exact varBinding_makes
  · exact varBinding_makes
  · exact yields_unexpectedDetailed

theorem aliasStmt_makes : MakesLine allowed aliasStmt := by
  refine ended_makes <| makes_after advance_makes fun _ => makes_after expectDetailed_makes fun _ => ?_
  refine typeParameters?_makes.bind fun _ hps => makes_after expect_makes fun _ => ?_
  refine (expr_makes .lowest).bind fun e he => yields_previousEnd_bind fun _ => ?_
  refine Makes.pure ⟨.aliasing hps ?_, rfl⟩
  split
  · next t ht => exact he.type ht
  · exact he

theorem leaveValueAt_makes (k : Kind) : Makes Live (fun value => ∀ e ∈ value, e.Valid) (leaveValueAt k) := by
  cases k using leaveValue_cases with
  | absent => exact Makes.pure Option.forall_mem_none
  | present => exact Makes.map exprList_makes fun _ => Option.forall_mem_some

theorem leaveStmt_makes (word : LeaveWord) : MakesLine allowed (leaveStmt word) := by
  refine ended_makes <| makes_after advance_makes fun t => yields_kind fun k => ?_
  refine (leaveValueAt_makes k).bind fun value h => ?_
  exact yields_previousEnd_bind fun _ => Makes.pure ⟨.leave h, rfl⟩

theorem bareStmt_makes : MakesLine allowed bareStmt := by
  refine ended_makes <| makes_after advance_makes fun t => ?_
  cases t using bare_cases with
  | word => exact Makes.pure ⟨.bare, rfl⟩
  | other => exact yields_fail

theorem importStmt_makes : MakesLine allowed importStmt := by
  refine ended_makes <| makes_after advance_makes fun _ => ?_
  refine makes_after (Inner.makes (commaList_inner importName_inner)) fun _ => ?_
  exact yields_previousEnd_bind fun _ => Makes.pure ⟨.importModules, rfl⟩

theorem dottedName_makes (expected : String) :
    Makes Live (fun path => path ≠ []) (dottedName expected) := by
  refine makes_after expectDetailed_makes fun _ => Makes.bind (V := fun parts => ∀ part ∈ parts, True)
    (Makes.many (yields_kind fun _ => yields_peek_bind fun _ => ?_)) fun _ _ =>
      Makes.pure (List.cons_ne_nil _ _)
  refine Yields.ite (fun _ => ?_) fun _ => Makes.pure Option.forall_mem_none
  refine makes_after advance_makes fun _ => makes_after advance_makes fun _ => ?_
  exact Makes.pure (Option.forall_mem_some trivial)

theorem importTargets_makes : Makes Live ImportTargets.Valid importTargets := by
  have hlisted (stop : Kind → Bool) :
      Makes Live (fun names => names ≠ []) (commaList stop importedName) :=
    (commaList_makes stop (Inner.makes importedName_inner)).of fun _ h => h.1
  have hvalid {names : List ImportName} (h : names ≠ []) : (ImportTargets.listed names).Valid :=
    fun heq => h (ImportTargets.listed.inj heq)
  refine makes_after eat_makes fun _ => Yields.ite (fun _ => Makes.pure ?_) fun _ => ?_
  · exact ImportTargets.noConfusion
  refine makes_after eat_makes fun _ => Yields.ite (fun _ => ?_) fun _ => ?_
  · exact (hlisted _).bind fun _ h => makes_after expect_makes fun _ => Makes.pure (hvalid h)
  · exact (hlisted _).bind fun _ h => Makes.pure (hvalid h)

theorem importFromStmt_makes : MakesLine allowed importFromStmt := by
  refine ended_makes <| makes_after advance_makes fun t => ?_
  refine makes_after (Inner.makes dots_inner) fun dots => yields_kind fun k => ?_
  have hend (path : List String) (h : 0 < dots.length ∨ path ≠ []) :
      MakesLine allowed (importingFrom t.span.start dots.length path) :=
    makes_after expect_makes fun _ => importTargets_makes.bind fun _ htaken =>
      yields_previousEnd_bind fun _ => Makes.pure ⟨.importFrom h htaken, rfl⟩
  refine Yields.ite (fun _ => ?_) fun hk => ?_
  · exact (dottedName_makes _).bind fun path hpath => hend path (Or.inr hpath)
  · refine (Makes.pure (V := fun path => path = []) rfl).bind fun path _ => hend path (Or.inl ?_)
    cases dots with
    | nil => simp at hk
    | cons => exact Nat.succ_pos _

theorem simpleStmt_makes (k : Kind) : MakesLine allowed (simpleStmt k) := by
  cases k using simpleStmt_cases with
  | modules => exact importStmt_makes
  | names => exact importFromStmt_makes
  | var => exact varStmt_makes
  | aliasing => exact aliasStmt_makes
  | leave word => exact leaveStmt_makes word
  | bare => exact bareStmt_makes
  | expression => exact expressionStmt_makes

end Simple

section Headers

theorem convention?_makes :
    Makes Live (fun o => ∀ c ∈ o, allowed.accepts c = true) (convention? allowed) := by
  refine yields_current_bind fun _ => yields_peek_bind fun _ => ?_
  refine Yields.ite (fun _ => ?_) fun _ => Makes.pure Option.forall_mem_none
  unfold conventionBy
  split
  · exact Makes.pure Option.forall_mem_none
  · refine Yields.ite (fun haccepts => ?_) fun _ => yields_fail
    exact makes_after advance_makes fun _ => Makes.pure (Option.forall_mem_some haccepts)

theorem variadicTail_makes (start : Offset) (convention : Option Convention) :
    Makes Live (Parameter.Valid allowed) (variadicTail start convention) := by
  refine makes_after expect_makes fun _ => Yields.ite (fun _ => yields_fail) fun _ => ?_
  refine declaredType?_makes.bind fun _ ht => yields_kind fun _ => Yields.ite (fun _ => ?_) fun _ => ?_
  · exact yields_current_bind fun _ => yields_fail
  · refine yields_previousEnd_bind fun _ => Makes.pure ?_
    exact ⟨Option.forall_mem_none, ht, Option.forall_mem_none, fun _ => ⟨rfl, rfl⟩⟩

theorem parameter_makes : Makes Live (Parameter.Valid allowed) (parameter allowed) := by
  refine yields_here fun start => convention?_makes.bind fun convention hconvention => ?_
  refine makes_after eat_makes fun _ => Yields.ite (fun _ => variadicTail_makes _ _) fun _ => ?_
  refine makes_after expectDetailed_makes fun _ => declaredType?_makes.bind fun _ ht => ?_
  refine default?_makes.bind fun _ he => yields_previousEnd_bind fun _ => Makes.pure ?_
  exact ⟨hconvention, ht, he, fun h => by cases h⟩

theorem parameters_makes : Makes Live (fun ps => ∀ p ∈ ps, p.Valid allowed) (parameters allowed) :=
  makes_after expect_makes fun _ => (listUpTo_makes _ parameter_makes).bind fun _ hps =>
    makes_after expect_makes fun _ => Makes.pure hps

theorem result?_makes : Makes Live
    (fun r => (∀ c ∈ r.1, allowed.accepts c = true) ∧ ∀ t ∈ r.2, t.Valid) (result? allowed) := by
  refine makes_after eat_makes fun _ => Yields.ite (fun _ => ?_) fun _ => Makes.pure ?_
  · refine convention?_makes.bind fun _ hc => (typeExpr_makes .lowest).bind fun _ ht => ?_
    exact Makes.pure ⟨hc, Option.forall_mem_some ht⟩
  · exact ⟨Option.forall_mem_none, Option.forall_mem_none⟩

theorem functionHead_makes :
    Makes Live (fun v => v.2.Valid allowed) (functionHead allowed) := by
  refine makes_after advance_makes fun _ => makes_after expectDetailed_makes fun _ => ?_
  refine typeParameters?_makes.bind fun _ hts => parameters_makes.bind fun _ hps => ?_
  refine makes_after (Inner.makes raises?_inner) fun _ => result?_makes.bind fun _ hr => ?_
  exact makes_after (Inner.makes raises?_inner) fun _ => Makes.pure ⟨hts, hps, hr.1, hr.2⟩

theorem bases?_makes : Makes Live (fun ts => ∀ t ∈ ts, t.Valid) bases? := by
  refine makes_after eat_makes fun _ => Yields.ite (fun _ => ?_) fun _ =>
    Makes.pure (List.forall_mem_nil _)
  exact (listUpTo_makes _ (typeExpr_makes .lowest)).bind fun _ hts =>
    makes_after expect_makes fun _ => Makes.pure hts

theorem typeHead_makes (word : TypeWord) : Makes Live (fun v => v.2.Valid) (typeHead word) := by
  refine makes_after advance_makes fun _ => makes_after expectDetailed_makes fun _ => ?_
  refine typeParameters?_makes.bind fun _ hts => bases?_makes.bind fun _ hbs => ?_
  exact Makes.pure ⟨hts, hbs⟩

theorem decorator?_makes : Makes Live (fun o => ∀ d ∈ o, d.Valid) decorator? := by
  refine yields_kind fun _ => Yields.ite (fun _ => ?_) fun _ => Makes.pure Option.forall_mem_none
  refine makes_after advance_makes fun t => makes_after (Inner.makes (dottedName_inner _)) fun path => ?_
  have hend (arguments : Option (List Argument)) (h : ∀ as ∈ arguments, ∀ a ∈ as, a.Valid) :
      Makes Live (fun o : Option Decorator => ∀ d ∈ o, d.Valid) (decorating t.span.start path arguments) :=
    yields_previousEnd_bind fun _ => makes_after expect_makes fun _ =>
      Makes.pure (Option.forall_mem_some h)
  refine yields_kind fun _ => Yields.ite (fun _ => ?_) fun _ => ?_
  · have hsome (as : List Argument) (h : ∀ a ∈ as, a.Valid) :=
      Option.forall_mem_some (V := fun as : List Argument => ∀ a ∈ as, a.Valid) h
    exact (Makes.map callArguments_makes hsome).bind hend
  · exact (Makes.pure Option.forall_mem_none).bind hend

theorem forTarget_makes : Makes Live Pattern.Valid forTarget := by
  refine (expr_makes .comparison).bind fun first hfirst => yields_kind fun _ =>
    Yields.ite (fun _ => ?_) fun _ => target_makes hfirst
  refine (commaTail_makes _ (expr_makes .comparison)).bind fun rest hrest => ?_
  refine yields_previousEnd_bind fun _ => target_makes ?_
  exact tuple_valid (List.forall_mem_cons.mpr ⟨hfirst, hrest⟩)

theorem forHead_makes : Makes Live (fun v => v.2.1.Valid ∧ v.2.2.Valid) forHead :=
  makes_after advance_makes fun _ => forTarget_makes.bind fun _ hp =>
    makes_after expect_makes fun _ => exprList_makes.bind fun _ he => Makes.pure ⟨hp, he⟩

theorem conditionHead_makes : Makes Live (fun v => v.2.Valid) conditionHead :=
  makes_after advance_makes fun _ => (expr_makes .lowest).bind fun _ he => Makes.pure he

end Headers

end Offside.Grammar
