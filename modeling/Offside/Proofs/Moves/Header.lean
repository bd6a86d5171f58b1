import Offside.Proofs.Seam.Header
import Offside.Proofs.Moves.Expr

namespace Offside.Grammar

open Rule

variable {P : Cursor → Prop} {k : Kind}

section Types

theorem symbolType_inner (hk : k.isBoundary = false) : InnerAt k symbolType := by
  refine (advance_inner hk).bind fun t => ?_
  unfold symbolTypeBy
  split
  · exact Moves.pure
  · exact Moves.pure
  · exact fail_inner

theorem qualifiedType_inner (left : TypeExpr) : InnerAt .dot (qualifiedType left) :=
  (advance_inner rfl).bind fun _ => (expect_inner rfl).bind fun _ => Moves.pure

theorem typeArgument_inner : InnerFrom P typeArgument := by
  refine atKeyword_bind (advance_peeked rfl rfl fun _ => ?_) ((expr_inner _).bind fun _ => Moves.pure)
  exact (advance_inner rfl).bind fun _ => (expr_inner _).bind fun _ => Moves.pure

theorem genericType_inner (left : TypeExpr) : InnerAt .openBracket (genericType left) := by
  refine (advance_inner rfl).bind fun _ => kind_bind fun k => ?_
  refine Moves.ite (fun _ => unexpectedDetailed_inner) fun _ => ?_
  exact (commaList_inner typeArgument_inner).bind fun _ => (expect_inner rfl).bind fun _ => Moves.pure

theorem extendType?_inner (level : Level) (left : TypeExpr) :
    InnerFrom P (extendType? level left) := by
  refine Moves.ite (fun _ => kind_bind fun k => ?_) fun _ => Moves.pure
  unfold typeTrailerAt
  split
  · exact Moves.map (qualifiedType_inner left)
  · exact Moves.map (genericType_inner left)
  · exact Moves.pure

theorem typeExpr_inner (level : Level) : InnerFrom P (typeExpr level) := by
  have tail (left : TypeExpr) : Inner (iterate Cursor.remaining (extendType? level) left) :=
    Moves.iterate (fun t => extendType?_inner level t) (fun _ _ _ _ => trivial) left
  refine kind_bind fun k => ?_
  split
  · exact (symbolType_inner rfl).bind tail
  · exact (symbolType_inner rfl).bind tail
  · exact unexpectedDetailed_inner

theorem declaredType?_inner : InnerFrom P declaredType? := introduced_inner rfl (typeExpr_inner _)

theorem default?_inner : InnerFrom P default? := introduced_inner rfl (expr_inner _)

theorem typeParameter_inner : InnerFrom P typeParameter := by
  refine kind_bind fun k => Moves.ite (fun hk => ?_) fun _ => ?_
  · subst hk
    exact (advance_inner rfl).bind fun _ => Moves.pure
  · refine (expectDetailed_inner rfl).bind fun _ => declaredType?_inner.bind fun _ => ?_
    exact default?_inner.bind fun _ => previousEnd_bind fun _ => Moves.pure

theorem typeParameters_inner : InnerFrom P typeParameters := by
  refine (expect_inner rfl).bind fun _ => kind_bind fun k => Moves.ite (fun hk => ?_) fun _ => ?_
  · subst hk
    exact (advance_inner rfl).bind fun _ => fail_inner
  · refine (commaList_inner typeParameter_inner).bind fun _ => (expect_inner rfl).bind fun _ => ?_
    exact Moves.pure

theorem typeParameters?_inner : InnerFrom P typeParameters? :=
  kind_bind fun _ => Moves.ite (fun _ => typeParameters_inner) fun _ => Moves.pure

end Types

section Simple

theorem target_inner (e : Expr) : InnerFrom P (target e) := by
  unfold target
  split
  · exact Moves.pure
  · exact fail_inner

theorem declaredName_inner (e : Expr) : InnerFrom P (declaredName e) := by
  cases e with
  | symbol s name => exact Moves.pure
  | _ => exact fail_inner

theorem binding_inner (start : Offset) (isVar : Bool) (left : Expr) (type : Option TypeExpr) :
    InnerFrom P (binding start isVar left type) := by
  refine (eat_inner rfl).bind fun _ => Moves.ite (fun _ => ?_) fun _ => ?_
  · refine exprList_inner.bind fun _ => (target_inner left).bind fun _ => ?_
    exact previousEnd_bind fun _ => Moves.pure
  · exact (declaredName_inner left).bind fun _ => previousEnd_bind fun _ => Moves.pure

theorem varBinding_inner (start : Offset) : InnerFrom P (varBinding start) :=
  exprList_inner.bind fun left => declaredType?_inner.bind fun type => binding_inner start true left type

theorem leaveValueAt_inner (k : Kind) : InnerFrom P (leaveValueAt k) := by
  cases k using leaveValue_cases with
  | absent => exact Moves.pure
  | present => exact Moves.map exprList_inner

theorem augmented_inner (start : Offset) (left : Expr) (op : BinaryOp) (hk : k.isBoundary = false) :
    InnerAt k (augmented start left op) := by
  refine (advance_inner hk).bind fun _ => (target_inner left).bind fun pattern => ?_
  cases pattern with
  | tuple s ps | list s ps => exact fail_inner
  | _ => exact exprList_inner.bind fun _ => previousEnd_bind fun _ => Moves.pure

theorem afterExprList_inner (start : Offset) (first : Expr) :
    InnerFrom P (afterExprList start first) := by
  refine kind_bind fun k => ?_
  split
  · refine (advance_inner rfl).bind fun _ => (typeExpr_inner .lowest).bind fun type => ?_
    exact binding_inner start false first (some type)
  · refine (advance_inner rfl).bind fun _ => (target_inner first).bind fun _ => ?_
    exact exprList_inner.bind fun _ => previousEnd_bind fun _ => Moves.pure
  · split
    · next op hop =>
      have hk : k.isBoundary = false := by
        revert hop
        cases k <;> simp [augmentedOp?, Kind.isBoundary]
      exact augmented_inner start first op hk
    · exact Moves.pure

theorem nameRound_inner : InnerFrom P nameRound := by
  refine kind_bind fun k => peek_bind fun n => Moves.ite (fun h => ?_) fun _ => Moves.pure
  obtain ⟨rfl, rfl⟩ : k = .dot ∧ n = .identifier := by simpa using h
  exact advance_peeked rfl rfl fun _ => (advance_inner rfl).bind fun _ => Moves.pure

theorem dottedName_inner (expected : String) : InnerFrom P (dottedName expected) :=
  (expectDetailed_inner rfl).bind fun _ => (repeated_inner nameRound_inner).bind fun _ => Moves.pure

theorem dots_inner : InnerFrom P (Rule.repeated dotRound) :=
  repeated_inner ((eat_inner rfl).bind fun _ => Moves.ite (fun _ => Moves.pure) fun _ => Moves.pure)

theorem asName?_inner : InnerFrom P asName? :=
  introduced_inner rfl ((expect_inner rfl).bind fun _ => Moves.pure)

theorem importName_inner : InnerFrom P importName :=
  here_bind fun _ => (dottedName_inner _).bind fun _ => asName?_inner.bind fun _ =>
    previousEnd_bind fun _ => Moves.pure

theorem importedName_inner : InnerFrom P importedName :=
  (expect_inner rfl).bind fun _ => asName?_inner.bind fun _ => previousEnd_bind fun _ => Moves.pure

theorem importTargets_inner : InnerFrom P importTargets := by
  refine (eat_inner rfl).bind fun _ => Moves.ite (fun _ => Moves.pure) fun _ => ?_
  refine (eat_inner rfl).bind fun _ => Moves.ite (fun _ => ?_) fun _ => ?_
  · exact (commaList_inner importedName_inner).bind fun _ => (expect_inner rfl).bind fun _ => Moves.pure
  · exact (commaList_inner importedName_inner).bind fun _ => Moves.pure

end Simple

section Headers

variable {allowed : ConventionSet}

theorem raises?_inner : InnerFrom P raises? := by
  intro c _
  change Cursor.Inward c (endState ((if c.current.kind = .identifier ∧ c.current.text = "raises" then
    Rule.advance >>= fun _ => pure true else pure false : Rule Bool) c))
  split
  · next h =>
    exact (advance_inner (k := .identifier) rfl).bind (fun _ => Moves.pure (a := true)) c h.1
  · exact Std.Refl.refl c

theorem convention?_inner : InnerFrom P (convention? allowed) := by
  rw [Seam.convention?_eq_ite]
  intro c _
  dsimp only
  split
  · next hat =>
    simp only [Seam.atConvention, Bool.and_eq_true, decide_eq_true_eq] at hat
    refine current_bind (P := fun c => c.kind = .identifier) (fun t => ?_) c hat.1
    unfold conventionBy
    split
    · exact Moves.pure
    · exact Moves.ite (fun _ => (advance_inner rfl).bind fun _ => Moves.pure) fun _ => fail_inner
  · exact Std.Refl.refl c

theorem variadicTail_inner (start : Offset) (convention : Option Convention) :
    InnerFrom P (variadicTail start convention) := by
  refine (expect_inner rfl).bind fun _ => Moves.ite (fun _ => fail_inner) fun _ => ?_
  refine declaredType?_inner.bind fun _ => kind_bind fun _ => Moves.ite (fun _ => ?_) fun _ => ?_
  · exact current_bind fun _ => fail_inner
  · exact previousEnd_bind fun _ => Moves.pure

theorem parameter_inner : InnerFrom P (parameter allowed) := by
  refine here_bind fun start => convention?_inner.bind fun convention => (eat_inner rfl).bind fun _ => ?_
  refine Moves.ite (fun _ => variadicTail_inner start convention) fun _ => ?_
  refine (expectDetailed_inner rfl).bind fun _ => declaredType?_inner.bind fun _ => ?_
  exact default?_inner.bind fun _ => previousEnd_bind fun _ => Moves.pure

theorem parameters_inner : InnerFrom P (parameters allowed) :=
  (expect_inner rfl).bind fun _ => (listUpTo_inner parameter_inner).bind fun _ =>
    (expect_inner rfl).bind fun _ => Moves.pure

theorem result?_inner : InnerFrom P (result? allowed) :=
  (eat_inner rfl).bind fun _ => Moves.ite
    (fun _ => convention?_inner.bind fun _ => (typeExpr_inner _).bind fun _ => Moves.pure)
    fun _ => Moves.pure

theorem functionHead_inner (hk : k.isBoundary = false) : InnerAt k (functionHead allowed) :=
  (advance_inner hk).bind fun _ => (expectDetailed_inner rfl).bind fun _ =>
    typeParameters?_inner.bind fun _ => parameters_inner.bind fun _ => raises?_inner.bind fun _ =>
      result?_inner.bind fun _ => raises?_inner.bind fun _ => Moves.pure

theorem bases?_inner : InnerFrom P bases? :=
  (eat_inner rfl).bind fun _ => Moves.ite
    (fun _ => (listUpTo_inner (typeExpr_inner _)).bind fun _ => (expect_inner rfl).bind fun _ => Moves.pure)
    fun _ => Moves.pure

theorem typeHead_inner (word : TypeWord) (hk : k.isBoundary = false) : InnerAt k (typeHead word) :=
  (advance_inner hk).bind fun _ => (expectDetailed_inner rfl).bind fun _ =>
    typeParameters?_inner.bind fun _ => bases?_inner.bind fun _ => Moves.pure

theorem forTarget_inner : InnerFrom P forTarget := by
  refine (expr_inner _).bind fun _ => kind_bind fun _ => Moves.ite (fun _ => ?_) fun _ => target_inner _
  exact (commaTail_inner (expr_inner _)).bind fun _ => previousEnd_bind fun _ => target_inner _

theorem forHead_inner : InnerAt .kwFor forHead :=
  (advance_inner rfl).bind fun _ => forTarget_inner.bind fun _ => (expect_inner rfl).bind fun _ =>
    exprList_inner.bind fun _ => Moves.pure

theorem conditionHead_inner (hk : k.isBoundary = false) : InnerAt k conditionHead :=
  (advance_inner hk).bind fun _ => (expr_inner _).bind fun _ => Moves.pure

end Headers

end Offside.Grammar
