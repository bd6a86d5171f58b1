import Offside.Grammar.Definition
import Offside.Proofs.Seam.Expr

namespace Offside.Seam

open Grammar

variable {S : Seam} {P : Cursor → Cursor → Prop} {b : Bool} {N : Origin} {p : Depth} {k : Kind}

section Types

theorem symbolType_alike (hk : k.isBoundary = false) (hp : p.after k = p) :
    S.Alike (Where (S.In b N p) fun c => c.kind = k) (S.In true N p) (S.Out N p.blocks)
      symbolType symbolType := by
  refine (advance hk).bind fun t => ?_
  rw [hp, symbolTypeBy, symbolTypeBy, kind_relocate]
  split
  · exact stay rfl
  · exact stay rfl
  · exact fail rfl

theorem qualifiedType_alike (left : TypeExpr) :
    S.Alike (Where (S.In true N p) fun c => c.kind = .dot) (S.In true N p) (S.Out N p.blocks)
      (qualifiedType left) (qualifiedType (relocate S.move left)) := by
  refine (advance rfl).bind fun _ => (expect rfl).bind fun t => stay ?_
  rw [TypeExpr.span_relocate]
  rfl

theorem typeArgument_alike : S.Inline N typeArgument typeArgument := by
  intro p
  refine atKeyword_bind ?_ ?_
  · refine (advance_peeked rfl rfl).bind fun t => (advance rfl).bind fun _ => ?_
    refine (expr_alike .conditional).bind fun e => stay ?_
    rw [Expr.span_relocate, TypeArgument.ofExpr_relocate]
    rfl
  · exact (expr_alike .conditional).bind fun e => stay (TypeArgument.ofExpr_relocate _ e)

theorem genericType_alike (left : TypeExpr) :
    S.Alike (Where (S.In true N p) fun c => c.kind = .openBracket) (S.In true N p) (S.Out N p.blocks)
      (genericType left) (genericType (relocate S.move left)) := by
  refine (advance rfl).bind fun _ => kind_bind fun k => ?_
  refine Sim.ite (fun _ => unexpectedDetailed (p := p.after .openBracket) _) fun _ => ?_
  refine (commaList (typeArgument_alike _)).forget.bind fun as => (expect rfl).bind fun t => ?_
  exact stay (by simp)

theorem extendType?_alike (level : Level) (left : TypeExpr) :
    S.Inline N (extendType? level left) (extendType? level (relocate S.move left)) := by
  intro p
  refine Sim.ite (fun _ => kind_bind fun k => ?_) fun _ => stay rfl
  unfold typeTrailerAt
  split
  · exact (qualifiedType_alike left).map fun _ => rfl
  · exact (genericType_alike left).map fun _ => rfl
  · exact stay rfl

theorem typeExpr_alike (level : Level) :
    S.Alike (S.In b N p) (S.In true N p) (S.Out N p.blocks) (typeExpr level) (typeExpr level) := by
  have tail (left : TypeExpr) := Sim.iterate (fun t => extendType?_alike (S := S) (N := N) level t p)
    (fun _ _ _ _ h h₂ => h.remaining_lt_iff h₂) left
  refine kind_bind fun k => ?_
  split
  · exact (symbolType_alike rfl rfl).bind tail
  · exact (symbolType_alike rfl rfl).bind tail
  · exact unexpectedDetailed _

theorem declaredType?_alike : S.Inline N declaredType? declaredType? := fun _ =>
  introduced rfl rfl (typeExpr_alike .lowest) rfl

theorem default?_alike : S.Inline N default? default? := fun _ =>
  introduced rfl rfl (expr_alike .lowest) rfl

theorem typeParameter_alike : S.Inline N typeParameter typeParameter := by
  intro p
  refine kind_bind fun k => Sim.ite (fun hk => ?_) fun _ => Sim.forget ?_
  · subst hk
    exact (advance rfl).bind fun t => stay rfl
  · refine (expectDetailed rfl _).bind fun t => (declaredType?_alike p).bind fun type => ?_
    exact (default?_alike p).bind fun e => previousEnd_bind fun o => stay rfl

theorem typeParameters_alike : S.Inline N typeParameters typeParameters := by
  intro p
  refine (expect rfl).bind fun t => kind_bind fun k => Sim.ite (fun hk => ?_) fun _ => ?_
  · subst hk
    exact (advance rfl).bind fun _ => fail (p := (p.after .openBracket).after .closeBracket) rfl
  · refine (commaList (typeParameter_alike _)).forget.bind fun items => (expect rfl).bind fun _ => ?_
    exact stay rfl

theorem typeParameters?_alike : S.Inline N typeParameters? typeParameters? := fun p =>
  kind_bind fun _ => Sim.ite (fun _ => (typeParameters_alike p).forget) fun _ => stay rfl

end Types

section Simple

theorem target_alike (e : Expr) : S.Inline N (target e) (target (relocate S.move e)) := by
  intro p
  rw [target, target, Pattern.ofExpr_relocate]
  cases Pattern.ofExpr e with
  | ok pattern => exact stay rfl
  | error s => exact fail rfl

theorem declaredName_alike (e : Expr) :
    S.Inline N (declaredName e) (declaredName (relocate S.move e)) := by
  intro p
  cases e with
  | symbol s name => exact stay rfl
  | _ => exact fail rfl

theorem binding_alike (start : Offset) (isVar : Bool) (left : Expr) (type : Option TypeExpr) :
    S.Inline N (binding start isVar left type)
      (binding (S.move start) isVar (relocate S.move left) (relocate S.move type)) := by
  intro p
  refine eat_bind rfl ?_ (Sim.forget ?_)
  · refine exprList_alike.bind fun value => (target_alike left p).bind fun pattern => ?_
    exact previousEnd_bind fun o => stay rfl
  · exact (declaredName_alike left p).bind fun name => previousEnd_bind fun o => stay rfl

theorem augmented_alike (start : Offset) (left : Expr) (op : BinaryOp) (hk : k.isBoundary = false)
    (hp : p.after k = p) :
    S.Alike (Where (S.In true N p) fun c => c.kind = k) (S.In true N p) (S.Out N p.blocks)
      (augmented start left op) (augmented (S.move start) (relocate S.move left) op) := by
  refine (advance hk).bind fun _ => ?_
  rw [hp]
  refine (target_alike left p).bind fun pattern => ?_
  cases pattern with
  | tuple s ps | list s ps => exact fail rfl
  | _ => exact exprList_alike.bind fun e => previousEnd_bind fun o => stay rfl

theorem afterExprList_alike (start : Offset) (first : Expr) :
    S.Inline N (afterExprList start first)
      (afterExprList (S.move start) (relocate S.move first)) := by
  intro p
  refine kind_bind fun k => ?_
  split
  · refine (advance rfl).bind fun _ => (typeExpr_alike .lowest).bind fun type => ?_
    exact binding_alike start false first (some type) p
  · refine (advance rfl).bind fun _ => (target_alike first p).bind fun pattern => ?_
    exact exprList_alike.bind fun value => previousEnd_bind fun o => stay rfl
  · split
    · next op hop =>
      have hk : k.isBoundary = false ∧ p.after k = p := by
        revert hop
        cases k <;> simp [augmentedOp?, Kind.isBoundary, Depth.after]
      exact augmented_alike start first op hk.1 hk.2
    · exact stay (by rw [Expr.span_relocate]; rfl)

theorem dottedName_alike (expected : String) :
    S.Inline N (dottedName expected) (dottedName expected) := by
  intro p
  refine (expectDetailed rfl expected).bind fun t => ?_
  refine Sim.bind (repeated ?_) fun rest => stay (by simp; rfl)
  let step (v : Bool) : Rule (Option String) := if v = true then dotName else pure none
  refine seen_bind (g := step) (j := step) rfl ?_ (stay rfl)
  exact (advance_peeked rfl rfl).bind fun _ => (advance rfl).bind fun t => stay rfl

theorem asName?_alike : S.Inline N asName? asName? := fun _ =>
  introduced rfl rfl ((expect rfl).bind fun _ => stay rfl) rfl

theorem importName_alike : S.Inline N importName importName := by
  intro p
  refine here_bind fun start => (dottedName_alike _ p).bind fun path => ?_
  exact (asName?_alike p).bind fun name => previousEnd_bind fun o => stay (by simp; rfl)

theorem importedName_alike : S.Inline N importedName importedName := fun p =>
  (expect rfl).bind fun t => (asName?_alike p).bind fun name =>
    previousEnd_bind fun o => stay (by simp; rfl)

theorem importTargets_alike : S.Inline N importTargets importTargets := by
  intro p
  refine eat_bind rfl (stay rfl) (eat_bind rfl ?_ ?_)
  · refine (commaList (importedName_alike _)).bind fun names => (expect rfl).bind fun _ => stay rfl
  · exact ((commaList (importedName_alike p)).forget.forget).bind fun names => stay rfl

end Simple

section Headers

variable {allowed : ConventionSet}

theorem raises?_alike : S.Inline N raises? raises? := by
  intro p
  refine current_bind fun t => ?_
  rw [kind_relocate, text_relocate]
  refine Sim.ite (fun ht => ?_) fun _ => stay rfl
  refine Sim.bind (Sim.before (advance (P := S.In true N p) (k := .identifier) rfl) ?_) fun _ => stay rfl
  exact fun c c' h => ⟨h.1, (congrArg Token.kind h.2).trans ht.1⟩

def atConvention (c : Cursor) : Bool :=
  decide (c.kind = .identifier) && (decide (c.peek 1 = .identifier) || decide (c.peek 1 = .star))

theorem convention?_eq_ite : convention? allowed = fun c =>
    (if atConvention c = true then Rule.current >>= conventionBy allowed else pure none) c := by
  funext c
  have hat : atConvention c = true ↔
      c.current.kind = .identifier ∧ (c.peek 1 = .identifier ∨ c.peek 1 = .star) := by
    simp only [atConvention, Bool.and_eq_true, Bool.or_eq_true, decide_eq_true_eq]
    rfl
  rw [convention?, Rule.current_run, Rule.peek_run]
  by_cases h : atConvention c = true
  · rw [if_pos h, if_pos (hat.mp h), Rule.current_run]
  · rw [if_neg h, if_neg (mt hat.mpr h)]

theorem convention?_alike : S.Inline N (convention? allowed) (convention? allowed) := by
  intro p
  rw [convention?_eq_ite]
  let step (v : Bool) : Rule (Option Convention) :=
    if v = true then Rule.current >>= conventionBy allowed else pure none
  refine Sim.read (φ := atConvention) (g := step) (k := step)
    (fun c c' h => ?_) fun v => ?_
  · unfold atConvention
    rw [In.kind h]
    by_cases hc : c.kind = .identifier
    · rw [In.peek h (by rw [hc]; rfl)]
      rfl
    · simp only [hc, decide_false, Bool.false_and]
      rfl
  · cases v with
    | false => exact stay rfl
    | true =>
      refine Sim.before (P := Where (S.In true N p) fun c => c.kind = .identifier) ?_ fun c c' h => ?_
      · refine current_bind fun t => ?_
        unfold conventionBy
        rw [text_relocate]
        split
        · exact stay rfl
        · refine Sim.ite (fun _ => Sim.forget ?_) fun _ => fail rfl
          exact (advance rfl).bind fun _ => stay rfl
      · have := h.2
        simp only [atConvention, Bool.and_eq_true, decide_eq_true_eq] at this
        exact ⟨h.1, this.1⟩

theorem variadicTail_alike (start : Offset) (convention : Option Convention) :
    S.Inline N (variadicTail start convention) (variadicTail (S.move start) convention) := by
  intro p
  refine (expect rfl).bind fun name => Sim.ite (fun _ => fail rfl) fun _ => ?_
  refine (declaredType?_alike p).bind fun type => kind_bind fun k => Sim.ite (fun _ => ?_) fun _ => ?_
  · exact current_bind fun t => fail rfl
  · exact previousEnd_bind fun o => stay rfl

theorem parameter_alike : S.Inline N (parameter allowed) (parameter allowed) := by
  intro p
  refine here_bind fun start => (convention?_alike p).bind fun convention => ?_
  rw [relocate_convention?]
  refine eat_bind rfl (variadicTail_alike start convention p) (Sim.forget ?_)
  refine (expectDetailed rfl _).bind fun name => (declaredType?_alike p).bind fun type => ?_
  exact (default?_alike p).bind fun e => previousEnd_bind fun o => stay rfl

theorem parameters_alike : S.Inline N (parameters allowed) (parameters allowed) := by
  intro p
  refine (expect rfl).bind fun _ => (listUpTo (parameter_alike _)).bind fun items => ?_
  exact (expect rfl).bind fun _ => stay rfl

theorem result?_alike : S.Inline N (result? allowed) (result? allowed) := by
  intro p
  refine eat_bind rfl ?_ (stay rfl)
  refine (convention?_alike p).bind fun convention => (typeExpr_alike .lowest).bind fun type => ?_
  exact stay rfl

theorem functionHead_alike [S.Before P N p] (hk : k.isBoundary = false) (hp : p.after k = p) :
    S.Alike (Where P fun c => c.kind = k) (S.In true N p) (S.Out N p.blocks)
      (functionHead allowed) (functionHead allowed) := by
  refine (advance hk).bind fun t => ?_
  rw [hp]
  refine (expectDetailed rfl _).bind fun name => (typeParameters?_alike p).bind fun types => ?_
  refine (parameters_alike p).bind fun items => (raises?_alike p).bind fun early => ?_
  refine (result?_alike p).bind fun result => (raises?_alike p).bind fun late => stay ?_
  rw [relocate_convention?]
  rfl

theorem bases?_alike : S.Inline N bases? bases? := by
  intro p
  refine eat_bind rfl ?_ (stay rfl)
  refine (listUpTo (typeExpr_alike .lowest)).bind fun types => ?_
  exact (expect rfl).bind fun _ => stay rfl

theorem typeHead_alike [S.Before P N p] (word : TypeWord) (hk : k.isBoundary = false) (hp : p.after k = p) :
    S.Alike (Where P fun c => c.kind = k) (S.In true N p) (S.Out N p.blocks)
      (typeHead word) (typeHead word) := by
  refine (advance hk).bind fun t => ?_
  rw [hp]
  refine (expectDetailed rfl _).bind fun name => (typeParameters?_alike p).bind fun types => ?_
  exact (bases?_alike p).bind fun bases => stay rfl

theorem forTarget_alike : S.Inline N forTarget forTarget := by
  intro p
  refine (expr_alike .comparison).bind fun first => kind_bind fun k => ?_
  refine Sim.ite (fun _ => ?_) fun _ => (target_alike first p).forget
  refine (commaTail (expr_alike .comparison)).forget.bind fun rest => previousEnd_bind fun o => ?_
  have htuple : Expr.tuple ⟨(relocate S.move first).span.start, S.move o⟩
      (relocate S.move first :: relocate S.move rest) =
      relocate S.move (Expr.tuple ⟨first.span.start, o⟩ (first :: rest)) := by
    rw [relocate_tuple, Expr.span_relocate]
    rfl
  rw [htuple]
  exact target_alike _ p

theorem forHead_alike [S.Before P N p] :
    S.Alike (Where P fun c => c.kind = .kwFor) (S.In true N p) (S.Out N p.blocks)
      forHead forHead := by
  refine (advance rfl).bind fun t => (forTarget_alike p).bind fun pattern => ?_
  exact (expect rfl).bind fun _ => exprList_alike.bind fun e => stay rfl

theorem conditionHead_alike [S.Before P N p] (hk : k.isBoundary = false) (hp : p.after k = p) :
    S.Alike (Where P fun c => c.kind = k) (S.In true N p) (S.Out N p.blocks)
      conditionHead conditionHead := by
  refine (advance hk).bind fun t => ?_
  rw [hp]
  exact (expr_alike .lowest).bind fun e => stay rfl

end Headers

end Offside.Seam
