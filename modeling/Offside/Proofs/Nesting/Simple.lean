import Mathlib.Data.List.Forall2
import Offside.Proofs.Nesting.Expr

namespace Offside

open Region Cursor

variable {a o : Offset} {rs cs : List Region} {s : Span} {left : Expr} {p : Pattern} {c : Cursor}

/-- A target in place of the expression that it was read from. -/
theorem Cursor.Laid.targeted (h : c.Laid o [.mk s (left.region :: cs)]) (hp : Pattern.ofExpr left = .ok p) :
    c.Laid o [.mk s (p.region :: cs)] := by
  have hnested := h.nested _ (List.mem_singleton_self _)
  have hparts := List.forall_mem_cons.mp hnested.parts
  have hsame : List.Forall₂ Narrows cs cs := List.forall₂_same.mpr fun r hr => (hparts.2 r hr).narrows
  rw [← List.nil_append [Region.mk s (left.region :: cs)]] at h
  exact h.narrow_last (hnested.narrow (.cons (Pattern.narrows_ofExpr hp hparts.1) hsame))

namespace Grammar

open Rule

variable {k : Kind} {P : Cursor → Prop}

section Types

theorem symbolType_lays (hk : k ≠ .eof) :
    Yields (fun c => c.Laid a rs ∧ c.kind = k) symbolType fun t d => d.Laid a (rs ++ [t.region]) := by
  refine (advance_lays hk).bind fun t => ?_
  unfold symbolTypeBy
  split
  · exact Yields.pure fun _ => id
  · exact Yields.pure fun _ => id
  · exact yields_fail

theorem qualifiedType_lays (left : TypeExpr) :
    Yields (Laid a (rs ++ [left.region])) (qualifiedType left) fun t d => d.Laid a (rs ++ [t.region]) := by
  refine advance_after fun _ => (expect_lays (by decide) a _).bind fun t => Yields.pure fun d hd => ?_
  rw [← List.append_nil (rs ++ [left.region])] at hd
  exact hd.ended (by simp [Span.through]) rfl

theorem typeArgument_lays : Lays typeArgument fun v => [v.region] := by
  intro a rs
  refine yields_atKeyword_bind ?_ ?_
  · refine ((advance_lays (k := .identifier) (by decide)).before fun c hc => ⟨hc.1, hc.2.1⟩).bind fun name => ?_
    refine advance_after fun _ => (expr_lays .conditional a _).bind fun value => Yields.pure fun d hd => ?_
    have hvalue : d.Laid a (rs ++ [leaf name.span] ++ [(TypeArgument.ofExpr value).region]) := by
      rwa [TypeArgument.region_ofExpr]
    exact hvalue.led rfl ⟨_, rfl, by simp [Span.through, TypeArgument.region_ofExpr]⟩
  · refine Lays.map (expr_lays .conditional) (fun e => ?_) a rs
    rw [TypeArgument.region_ofExpr]

theorem genericType_lays (left : TypeExpr) :
    Yields (Laid a (rs ++ [left.region])) (genericType left) fun t d => d.Laid a (rs ++ [t.region]) := by
  refine advance_after fun _ => yields_kind fun _ => Yields.ite (fun _ => yields_unexpectedDetailed) fun _ => ?_
  refine (commaList_lays _ typeArgument_lays a _).bind fun arguments => ?_
  refine (expect_lays (by decide) a _).bind fun closing => Yields.pure fun d hd => ?_
  rw [← TypeArgument.regions_eq_map] at hd
  exact hd.ended (by simp [Span.through]) rfl

theorem extendType?_lays (level : Level) (left : TypeExpr) :
    Yields (Laid a (rs ++ [left.region])) (extendType? level left) fun r d =>
      d.Laid a (rs ++ [(r.getD left).region]) := by
  refine Yields.ite (fun _ => yields_kind fun _ => ?_) fun _ => Yields.pure fun _ hd => hd
  unfold typeTrailerAt
  split
  · exact Yields.map (qualifiedType_lays left)
  · exact Yields.map (genericType_lays left)
  · exact Yields.pure fun _ hd => hd

theorem typeExpr_lays (level : Level) : Lays (typeExpr level) fun t => [t.region] := by
  intro a rs
  have tail (left : TypeExpr) : Yields (Laid a (rs ++ [left.region]))
      (iterate Cursor.remaining (extendType? level) left) fun t d => d.Laid a (rs ++ [t.region]) :=
    Yields.iterate (I := fun t d => Laid a (rs ++ [t.region]) d) (fun t => extendType?_lays level t) left
  refine yields_kind_bind fun k => ?_
  split
  · exact (symbolType_lays (by decide)).bind tail
  · exact (symbolType_lays (by decide)).bind tail
  · exact yields_unexpectedDetailed

theorem declaredType?_lays : Lays declaredType? (Region.optional TypeExpr.region) :=
  introduced_lays rfl (typeExpr_lays .lowest)

theorem default?_lays : Lays default? (Region.optional Expr.region) :=
  introduced_lays rfl (expr_lays .lowest)

theorem typeParameter_lays : Lays typeParameter fun p => [p.region] := by
  refine fun a rs => yields_kind_bind fun k => Yields.ite (fun hk => ?_) fun _ => ?_
  · subst hk
    exact (advance_lays (by decide)).bind fun t => Yields.pure fun _ hd => hd
  · refine ((expectDetailed_lays (by decide) a rs).before fun c hc => hc.1).bind fun name => ?_
    refine (declaredType?_lays a _).bind fun declaredType => (default?_lays a _).bind fun value => ?_
    refine laid_previousEnd TypeParameter.region fun d hd => ?_
    rw [List.append_assoc] at hd
    exact hd.opened rfl rfl

theorem typeParameters?_lays : Lays typeParameters? (List.map TypeParameter.region) := by
  refine fun a rs => yields_kind fun _ => Yields.ite (fun _ => ?_) fun _ => pure_lays rfl a rs
  refine inner_after (expect_inner rfl) fun _ => yields_kind fun _ => Yields.ite (fun _ => ?_) fun _ => ?_
  · exact advance_after fun _ => yields_fail
  · refine (commaList_lays _ typeParameter_lays a rs).bind fun ps => ?_
    exact inner_after (expect_inner rfl) fun _ => Yields.pure fun _ => id

end Types

section Simple

theorem target_reads (e : Expr) : Yields P (target e) fun p c => P c ∧ Pattern.ofExpr e = .ok p := by
  unfold target
  split
  · next p hp => exact Yields.pure fun _ hc => ⟨hc, hp⟩
  · exact yields_fail

theorem declaredName_reads (e : Expr) : Yields P (declaredName e) fun _ c => P c := by
  cases e with
  | symbol s name => exact Yields.pure fun _ => id
  | _ => exact yields_fail

/-- The target of an assignment may have parentheses around it, which are no part of it. -/
theorem targeted_previousEnd {ts : List Region} {f : Offset → Stmt} (hp : Pattern.ofExpr left = .ok p)
    (hf : ∀ e, (f e).region = .mk ⟨o, e⟩ (p.region :: cs)) (hts : (left.region :: cs).Sublist ts) :
    Yields (Laid o ts) (Rule.previousEnd >>= fun e => pure (f e)) fun s d => d.Laid o [s.region] := by
  intro c s d hc hr
  cases hr
  rw [hf]
  exact (hc.spanned (List.ne_nil_of_mem (hts.subset List.mem_cons_self)) hts).targeted hp

theorem binding_lays {ts : List Region} {type : Option TypeExpr} (isVar : Bool)
    (hts : (left.region :: Region.optional TypeExpr.region type).Sublist ts) :
    Yields (Laid o ts) (binding o isVar left type) fun s d => d.Laid o [s.region] := by
  refine inner_after (eat_inner rfl) fun _ => Yields.ite (fun _ => ?_) fun _ => ?_
  · refine (exprList_lays o ts).bind fun value => Yields.bind_known (target_reads left) fun p hp => ?_
    exact targeted_previousEnd hp (fun _ => rfl) (hts.append (List.Sublist.refl [value.region]))
  · refine (declaredName_reads left).bind fun name => ?_
    exact spanned_previousEnd Stmt.region (fun _ => rfl) (List.ne_nil_of_mem (hts.subset List.mem_cons_self))
      ((List.sublist_cons_self _ _).trans hts)

theorem augmented_lays (op : BinaryOp) :
    Yields (Laid o [left.region]) (augmented o left op) fun s d => d.Laid o [s.region] := by
  refine advance_after fun _ => Yields.bind_known (target_reads left) fun p hp => ?_
  cases p with
  | tuple s ps | list s ps => exact yields_fail
  | _ => exact (exprList_lays o _).bind fun _ => targeted_previousEnd hp (fun _ => rfl) (List.Sublist.refl _)

theorem afterExprList_lays (first : Expr) :
    Yields (Laid o [first.region]) (afterExprList o first) fun s d => d.Laid o [s.region] := by
  refine yields_kind fun _ => ?_
  split
  · refine advance_after fun _ => (typeExpr_lays .lowest o _).bind fun type => ?_
    exact binding_lays false (List.Sublist.refl [first.region, type.region])
  · refine advance_after fun _ => Yields.bind_known (target_reads first) fun p hp => ?_
    refine (exprList_lays o _).bind fun value => ?_
    exact targeted_previousEnd hp (fun _ => rfl) (List.Sublist.refl [first.region, value.region])
  · split
    · next op _ => exact augmented_lays op
    · refine Yields.pure fun d hd => ?_
      rw [← List.nil_append [first.region]] at hd
      exact hd.through ⟨_, rfl, by simp⟩ (List.Sublist.refl _) ⟨_, rfl, by simp⟩

abbrev LaysLine (k : Kind) (x : Rule Stmt) : Prop :=
  ∀ o, Yields (fun c => c.Fresh o ∧ c.kind = k) x fun s d => d.Laid o [s.region]

theorem ended_lays {x : Rule Stmt} (h : LaysLine k x) : LaysLine k (ended x) :=
  fun o => (h o).bind fun _ => moves_after (endOfStatement_along track_ahead) fun _ => Yields.pure fun _ => id

/-- A rule that takes the first token of a statement. -/
theorem fresh_advance {x : Token → Rule Stmt} (hk : k ≠ .eof)
    (hx : ∀ t, Yields (Laid t.span.start [leaf t.span]) (x t) fun s d => d.Laid t.span.start [s.region]) :
    LaysLine k (Rule.advance >>= x) := by
  intro o c s d hc hr
  obtain ⟨t, u, ht, hr⟩ := bind_eq_ok.mp hr
  cases ht
  have hstart := hc.1.start
  subst hstart
  exact hx _ _ s d (hc.1.laid.take (hc.2 ▸ hk)) hr

theorem expressionStmt_lays : LaysLine k expressionStmt := by
  refine ended_lays fun o => Yields.before (P := Fresh o) (fresh_here ?_) fun _ hc => hc.1
  exact ((exprList_lays o []).before fun _ hc => hc.laid).bind fun first => afterExprList_lays first

theorem varBinding_lays {r : Region} : Yields (Laid o [r]) (varBinding o) fun s d => d.Laid o [s.region] :=
  (exprList_lays _ _).bind fun _ => (declaredType?_lays _ _).bind fun _ =>
    binding_lays true (List.sublist_cons_self _ _)

theorem varStmt_lays : LaysLine .kwVar varStmt := by
  refine ended_lays (fresh_advance (by decide) fun t => yields_kind fun _ => ?_)
  split
  · exact varBinding_lays
  · exact varBinding_lays
  · exact yields_unexpectedDetailed

theorem aliasStmt_lays : LaysLine .kwAlias aliasStmt := by
  refine ended_lays (fresh_advance (by decide) fun t => inner_after (expectDetailed_inner rfl) fun _ => ?_)
  refine (typeParameters?_lays _ _).bind fun ps => inner_after (expect_inner rfl) fun _ => ?_
  refine (expr_lays .lowest _ _).bind fun e => ?_
  refine spanned_previousEnd Stmt.region (fun _ => ?_) (by simp) (List.sublist_cons_self (leaf t.span) _)
  refine congrArg (fun r => Region.mk _ (ps.map TypeParameter.region ++ [r])) ?_
  split
  · next t ht => exact TypeExpr.region_ofExpr? ht
  · rfl

theorem leaveValueAt_lays (k : Kind) : Lays (leaveValueAt k) (Region.optional Expr.region) := by
  cases k using leaveValue_cases with
  | absent => exact pure_lays rfl
  | present => exact Lays.map exprList_lays fun _ => rfl

theorem leaveStmt_lays (word : LeaveWord) (hk : k ≠ .eof) : LaysLine k (leaveStmt word) := by
  refine ended_lays (fresh_advance hk fun t => yields_kind fun k => ?_)
  refine (leaveValueAt_lays k _ _).bind fun value => ?_
  exact spanned_previousEnd Stmt.region (fun _ => rfl) (by simp) (List.sublist_cons_self _ _)

theorem bareStmt_lays (hk : k ≠ .eof) : LaysLine k bareStmt := by
  refine ended_lays (fresh_advance hk fun t => ?_)
  cases t using bare_cases with
  | word => exact Yields.pure fun _ => id
  | other => exact yields_fail

theorem dottedName_after {α : Type} {expected : String} {g : List String → Rule α} {Q : α → Cursor → Prop}
    (hg : ∀ t path, Yields (Laid a (rs ++ [leaf t])) (g path) Q) :
    Yields (Laid a rs) (dottedName expected >>= g) Q :=
  Yields.bind (Q := fun _ d => ∃ t, d.Laid a (rs ++ [leaf t]))
    ((expectDetailed_lays (by decide) a rs).bind fun t => inner_after (repeated_inner nameRound_inner) fun _ =>
      Yields.pure fun _ hd => ⟨t.span, hd⟩)
    fun path c v d ⟨t, hc⟩ hr => hg t path c v d hc hr

theorem importName_lays : Lays importName fun n => [n.region] := by
  refine Inner.lays importName_inner fun o => fresh_here ?_
  refine Yields.before (P := Laid o []) (dottedName_after fun t path => ?_) fun _ hc => hc.laid
  refine inner_after asName?_inner fun _ => ?_
  exact spanned_previousEnd ImportName.region (fun _ => rfl) (List.cons_ne_nil _ _) (List.nil_sublist _)

theorem importedName_lays : Lays importedName fun n => [n.region] := by
  refine fun a rs => (expect_lays (by decide) a rs).bind fun t => inner_after asName?_inner fun _ => ?_
  refine laid_previousEnd ImportName.region fun d hd => ?_
  rw [← List.append_nil (rs ++ [leaf t.span])] at hd
  exact hd.opened rfl rfl

theorem importTargets_lays : Lays importTargets ImportTargets.regions := by
  refine fun a rs => inner_after (eat_inner rfl) fun _ => Yields.ite (fun _ => pure_lays rfl a rs) fun _ => ?_
  refine inner_after (eat_inner rfl) fun _ => Yields.ite (fun _ => ?_) fun _ => ?_
  · exact (commaList_lays _ importedName_lays a rs).bind fun _ =>
      inner_after (expect_inner rfl) fun _ => Yields.pure fun _ => id
  · exact (commaList_lays _ importedName_lays a rs).bind fun _ => Yields.pure fun _ => id

theorem importStmt_lays : LaysLine .kwImport importStmt := by
  refine ended_lays (fresh_advance (by decide) fun t => (commaList_lays _ importName_lays _ _).bind fun names => ?_)
  exact spanned_previousEnd Stmt.region (fun _ => rfl) (List.cons_ne_nil _ _) (List.sublist_cons_self _ _)

theorem importFromStmt_lays : LaysLine .kwFrom importFromStmt := by
  refine ended_lays (fresh_advance (by decide) fun t => inner_after dots_inner fun dots => yields_kind fun _ => ?_)
  have hend (path : List String) : Yields (Laid t.span.start [leaf t.span])
      (importingFrom t.span.start dots.length path) fun s d => d.Laid t.span.start [s.region] :=
    inner_after (expect_inner rfl) fun _ => (importTargets_lays _ _).bind fun _ =>
      spanned_previousEnd Stmt.region (fun _ => rfl) (List.cons_ne_nil _ _) (List.sublist_cons_self _ _)
  exact Yields.ite (fun _ => inner_after (dottedName_inner _) hend) fun _ => inner_after Moves.pure hend

theorem simpleStmt_lays (k : Kind) : LaysLine k (simpleStmt k) := by
  cases k using simpleStmt_cases with
  | modules => exact importStmt_lays
  | names => exact importFromStmt_lays
  | var => exact varStmt_lays
  | aliasing => exact aliasStmt_lays
  | leave word => exact leaveStmt_lays word (by cases word <;> decide)
  | bare word => exact bareStmt_lays (by cases word <;> decide)
  | expression => exact expressionStmt_lays

end Simple

section Headers

variable {allowed : ConventionSet}

theorem variadicTail_lays (convention : Option Convention) :
    Yields (Laid o []) (variadicTail o convention) fun p d => d.Laid o [p.region] := by
  refine (expect_lays (by decide) o []).bind fun name => Yields.ite (fun _ => yields_fail) fun _ => ?_
  refine (declaredType?_lays o _).bind fun type => yields_kind fun _ => Yields.ite (fun _ => ?_) fun _ => ?_
  · exact yields_current_bind fun _ => yields_fail
  · have hnone : Region.optional Expr.region none = [] := rfl
    refine spanned_previousEnd Parameter.region (fun _ => ?_) (List.cons_ne_nil _ _) (List.sublist_cons_self _ _)
    rw [Parameter.region, hnone, List.append_nil]
    rfl

theorem parameter_lays : Lays (parameter allowed) fun p => [p.region] := by
  refine Inner.lays parameter_inner fun o => fresh_here (Yields.before (P := Laid o []) ?_ fun _ hc => hc.laid)
  refine inner_after convention?_inner fun convention => inner_after (eat_inner rfl) fun _ => ?_
  refine Yields.ite (fun _ => variadicTail_lays convention) fun _ => ?_
  refine (expectDetailed_lays (by decide) o []).bind fun name => (declaredType?_lays o _).bind fun type => ?_
  refine (default?_lays o _).bind fun value => ?_
  exact spanned_previousEnd Parameter.region (fun _ => rfl) (List.cons_ne_nil _ _) (List.sublist_cons_self _ _)

theorem parameters_lays : Lays (parameters allowed) (List.map Parameter.region) :=
  fun a rs => inner_after (expect_inner rfl) fun _ => (listUpTo_lays _ parameter_lays a rs).bind fun _ =>
    inner_after (expect_inner rfl) fun _ => Yields.pure fun _ => id

theorem result?_lays : Lays (result? allowed) fun r => Region.optional TypeExpr.region r.2 :=
  fun a rs => inner_after (eat_inner rfl) fun _ => Yields.ite
    (fun _ => inner_after convention?_inner fun _ => (typeExpr_lays .lowest a rs).bind fun _ =>
      Yields.pure fun _ => id)
    fun _ => pure_lays rfl a rs

theorem functionHead_lays : Lays (functionHead allowed) fun v => v.2.regions := by
  refine fun a rs => advance_after fun t => inner_after (expectDetailed_inner rfl) fun _ => ?_
  refine (typeParameters?_lays a _).bind fun _ => (parameters_lays a _).bind fun _ => ?_
  refine inner_after raises?_inner fun _ => (result?_lays a _).bind fun _ => ?_
  refine inner_after raises?_inner fun _ => Yields.pure fun d hd => ?_
  rw [List.append_assoc, List.append_assoc] at hd
  exact hd

theorem bases?_lays : Lays bases? (List.map TypeExpr.region) :=
  fun a rs => inner_after (eat_inner rfl) fun _ => Yields.ite
    (fun _ => (listUpTo_lays _ (typeExpr_lays .lowest) a rs).bind fun _ =>
      inner_after (expect_inner rfl) fun _ => Yields.pure fun _ => id)
    fun _ => pure_lays rfl a rs

theorem typeHead_lays (word : TypeWord) : Lays (typeHead word) fun v => v.2.regions := by
  refine fun a rs => advance_after fun t => inner_after (expectDetailed_inner rfl) fun _ => ?_
  refine (typeParameters?_lays a _).bind fun _ => (bases?_lays a _).bind fun _ => Yields.pure fun d hd => ?_
  rw [List.append_assoc] at hd
  exact hd

/-- A decorator ends in front of its newline. -/
theorem decorator?_lays : Lays decorator? fun o => o.toList.flatMap fun d => [d.region] := by
  refine fun a rs => yields_kind_bind fun k => Yields.ite (fun hk => ?_) fun _ => ?_
  · subst hk
    refine (advance_lays (by decide)).bind fun t => inner_after (dottedName_inner _) fun path => ?_
    have hend (arguments : Option (List Argument)) :
        Yields (Laid a (rs ++ [leaf t.span] ++ (arguments.getD []).map Argument.region))
          (decorating t.span.start path arguments) fun o d => d.Laid a (rs ++ o.toList.flatMap fun d => [d.region]) := by
      refine previousEnd_after fun o => ?_
      refine Yields.before (P := Laid a (rs ++ [(Decorator.mk ⟨t.span.start, o⟩ path arguments).region]))
        ?_ fun c hc => hc.1.opened rfl hc.2.symm
      exact moves_after (expect_along track_ahead (.inl rfl)) fun _ => Yields.pure fun _ hd => hd
    refine yields_kind fun _ => Yields.ite (fun _ => ?_) fun _ => ?_
    · refine (Lays.map (callArguments_lays expr_laying) (fun as => ?_) a _).bind hend
      exact (Argument.regions_eq_map as).symm
    · have hnone : Lays (pure none) fun as : Option (List Argument) => (as.getD []).map Argument.region :=
        pure_lays rfl
      exact (hnone a _).bind hend
  · exact Yields.pure fun _ hc => by simpa using hc.1

theorem target_lays (e : Expr) :
    Yields (Laid a (rs ++ [e.region])) (target e) fun p d => d.Laid a (rs ++ [p.region]) :=
  (target_reads e).weaken fun _ _ hd => hd.1.narrow_last (Pattern.narrows_ofExpr hd.2
    (hd.1.nested _ (List.mem_append_right _ (List.mem_singleton_self _))))

theorem forTarget_lays : Lays forTarget fun p => [p.region] := by
  refine fun a rs => (expr_lays .comparison a rs).bind fun first => yields_kind fun _ => ?_
  refine Yields.ite (fun _ => ?_) fun _ => target_lays first
  refine (commaTail_lays _ (expr_lays .comparison) a _).bind fun rest => ?_
  refine previousEnd_after fun o => ?_
  refine (target_lays (.tuple ⟨first.span.start, o⟩ (first :: rest))).before fun c hc => ?_
  rw [← Expr.regions_eq_map] at hc
  exact hc.1.extended (by simp) hc.2.symm

theorem forHead_lays : Lays forHead fun v => [v.2.1.region, v.2.2.region] := by
  refine fun a rs => advance_after fun t => (forTarget_lays a rs).bind fun p => ?_
  refine inner_after (expect_inner rfl) fun _ => (exprList_lays a _).bind fun e => Yields.pure fun d hd => ?_
  rw [List.append_assoc] at hd
  exact hd

theorem conditionHead_lays : Lays conditionHead fun v => [v.2.region] :=
  fun a rs => advance_after fun _ => (expr_lays .lowest a rs).bind fun _ => Yields.pure fun _ hd => hd

end Headers

end Grammar

end Offside
