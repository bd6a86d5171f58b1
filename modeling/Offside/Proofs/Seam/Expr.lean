import Offside.Grammar.Expr
import Offside.Proofs.Seam.Rule

namespace Offside.Seam

open Grammar

variable {S : Seam} {P : Cursor → Cursor → Prop} {b : Bool} {N : Origin} {p : Depth} {k : Kind}
  {sub sub' : ExprRule}

section Operands

theorem adjacentStrings_alike (t : Token) :
    S.Inline N (adjacentStrings t) (adjacentStrings (relocate S.move t)) := by
  intro p
  refine Sim.bind (repeated ?_) fun ts => stay ?_
  · refine kind_bind fun k => Sim.ite (fun hk => ?_) fun _ => stay rfl
    subst hk
    exact (advance rfl).map fun _ => rfl
  · have htext : ((relocate S.move t :: relocate S.move ts).map fun t => Literal.contents t.text) =
        (t :: ts).map fun t => Literal.contents t.text := by
      simp [relocate]
    have hlast : (relocate S.move t :: relocate S.move ts).getLastD (relocate S.move t) =
        relocate S.move ((t :: ts).getLastD t) := by
      rw [← relocate_cons, getLastD_relocate]
    rw [htext, hlast]
    rfl

theorem floatLiteral_alike (t : Token) :
    S.Inline N (floatLiteral t) (floatLiteral (relocate S.move t)) := by
  intro p
  unfold floatLiteral
  rw [text_relocate]
  split
  · exact stay rfl
  · exact fail rfl

theorem primary_alike [S.Before P N p] (hk : k.isBoundary = false) (hp : p.after k = p) :
    S.Alike (Where P fun c => c.kind = k) (S.In true N p) (S.Out N p.blocks)
      primary primary := by
  refine (advance hk).bind fun t => ?_
  unfold atom
  rw [hp, kind_relocate]
  split
  · exact stay rfl
  · exact floatLiteral_alike t p
  · exact adjacentStrings_alike t p
  all_goals first | exact stay rfl | exact fail rfl

variable (hsub : ∀ level, S.Inline N (sub level) (sub' level))

include hsub

theorem sign_alike [S.Before P N p] (hk : k.isBoundary = false) (hp : p.after k = p) :
    S.Alike (Where P fun c => c.kind = k) (S.In true N p) (S.Out N p.blocks)
      (sign sub) (sign sub') := by
  refine (advance hk).bind fun t => ?_
  rw [hp]
  exact (hsub .unary p).bind fun e => stay (by rw [Expr.span_relocate]; rfl)

theorem negation_alike [S.Before P N p] :
    S.Alike (Where P fun c => c.kind = .kwNot) (S.In true N p) (S.Out N p.blocks)
      (negation sub) (negation sub') :=
  (advance rfl).bind fun t => (hsub .not p).bind fun e => stay (by rw [Expr.span_relocate]; rfl)

theorem element_alike : S.Inline N (element sub) (element sub') := by
  intro p
  refine atKeyword_bind ?_ (hsub .lowest p)
  exact current_bind fun t => fail rfl

theorem grouping_alike [S.Before P N p] :
    S.Alike (Where P fun c => c.kind = .openParen) (S.In true N p) (S.Out N p.blocks)
      (grouping sub) (grouping sub') := by
  refine (advance rfl).bind fun opening => kind_bind fun k => Sim.ite (fun hk => ?_) fun _ => ?_
  · subst hk
    exact (advance rfl).bind fun closing => Sim.pure (by simp) fun _ _ => id
  · refine (element_alike hsub _).forget.bind fun e => kind_bind fun k => Sim.ite (fun _ => ?_) fun _ => ?_
    · refine (commaTail (element_alike hsub _)).forget.bind fun es => ?_
      exact (expect rfl).bind fun closing => stay (by simp)
    · exact (expect rfl).bind fun closing => stay rfl

theorem listDisplay_alike [S.Before P N p] :
    S.Alike (Where P fun c => c.kind = .openBracket) (S.In true N p) (S.Out N p.blocks)
      (listDisplay sub) (listDisplay sub') := by
  refine (advance rfl).bind fun opening => (listUpTo (element_alike hsub _)).bind fun es => ?_
  exact (expect rfl).bind fun closing => stay (by simp)

theorem entry_alike : S.Inline N (entry sub) (entry sub') := fun p =>
  (element_alike hsub p).bind fun _ => (expect rfl).bind fun _ =>
    (hsub .lowest p).bind fun _ => stay rfl

theorem dictOrSet_alike [S.Before P N p] :
    S.Alike (Where P fun c => c.kind = .openCurly) (S.In true N p) (S.Out N p.blocks)
      (dictOrSet sub) (dictOrSet sub') := by
  refine (advance rfl).bind fun opening => kind_bind fun k => Sim.ite (fun hk => ?_) fun _ => ?_
  · subst hk
    exact (advance rfl).bind fun closing => Sim.pure (by simp) fun _ _ => id
  · refine (element_alike hsub _).forget.bind fun e => eat_bind rfl ?_ (Sim.forget ?_)
    · refine (hsub .lowest _).bind fun value => (commaTail (entry_alike hsub _)).bind fun es => ?_
      exact (expect rfl).bind fun closing => stay (by simp)
    · refine (commaTail (element_alike hsub _)).bind fun es => ?_
      exact (expect rfl).bind fun closing => stay (by simp)

theorem operand_alike [S.Before P N p] :
    S.Alike P (S.In true N p) (S.Out N p.blocks) (operand sub) (operand sub') := by
  refine kind_bind fun k => ?_
  cases k using operand_cases with
  | primary k hk => exact primary_alike (Kind.isBoundary_of_isAtom hk) (p.after_atom hk)
  | sign op => exact sign_alike hsub op.isBoundary_kind (p.after_unary op)
  | negation => exact negation_alike hsub
  | grouping => exact grouping_alike hsub
  | list => exact listDisplay_alike hsub
  | braces => exact dictOrSet_alike hsub
  | other => exact unexpected

end Operands

section Extensions

theorem typeArgumentFault?_relocate (f : Offset → Offset) (a : Argument) :
    typeArgumentFault? (relocate f a) = relocate f (typeArgumentFault? a) := by
  cases a with
  | positional e | keyword s name e => cases e <;> rfl

theorem findSome?_typeArgumentFault?_relocate (f : Offset → Offset) (items : List Argument) :
    (relocate f items).findSome? typeArgumentFault? =
      relocate f (items.findSome? typeArgumentFault?) := by
  induction items with
  | nil => rfl
  | cons a items ih =>
    rw [relocate_cons, List.findSome?_cons, List.findSome?_cons, typeArgumentFault?_relocate, ih]
    cases typeArgumentFault? a <;> rfl

theorem indices_relocate (f : Offset → Offset) (items : List Argument) :
    indices (relocate f items) =
      match indices items with
      | .ok es => .ok (relocate f es)
      | .error fault => .error (relocate f fault) := by
  induction items with
  | nil => rfl
  | cons a items ih =>
    cases a with
    | keyword s name e => rfl
    | positional e =>
      have hstep : indices (relocate f (Argument.positional e :: items)) =
          match indices (relocate f items) with
          | .ok es => .ok (relocate f e :: es)
          | .error fault => .error fault := rfl
      rw [hstep, ih, indices]
      cases indices items <;> rfl

theorem comparisonOp?_alike : S.Inline N comparisonOp? comparisonOp? := by
  have htaking {k : Kind} (op : ComparisonOp) (p : Depth) (hk : Level.ofKind k = .comparison) :
      S.Alike (Where (S.In true N p) fun c => c.kind = k) (S.In true N p) (S.Out N p.blocks)
        (taking op) (taking op) :=
    (advance (Kind.isBoundary_of_comparison hk)).bind fun _ => by
      rw [p.after_comparison hk]
      exact stay rfl
  intro p
  refine kind_bind fun k => ?_
  cases k using comparisonOp_cases with
  | taking op k hk => exact htaking op p (ComparisonOp.level_of_kinds hk)
  | is => exact (advance rfl).bind fun _ => eat_bind rfl (stay rfl) (stay rfl)
  | notWithin =>
    refine peek_bind rfl fun n => Sim.ite (fun hn => ?_) fun _ => stay rfl
    subst hn
    exact (advance_peeked rfl rfl).bind fun _ => htaking _ p rfl
  | other => exact stay rfl

variable (hsub : ∀ level, S.Inline N (sub level) (sub' level)) (left : Expr)

include hsub

theorem binary_alike (level : Level) (hk : k.isBoundary = false) (hp : p.after k = p) :
    S.Alike (Where (S.In true N p) fun c => c.kind = k) (S.In true N p) (S.Out N p.blocks)
      (binary sub left level) (binary sub' (relocate S.move left) level) := by
  refine (advance hk).bind fun t => ?_
  unfold binaryBy
  rw [hp, kind_relocate]
  split
  · exact (hsub level p).bind fun e => stay (by simp)
  · exact fail rfl

theorem power_alike :
    S.Alike (Where (S.In true N p) fun c => c.kind = .starStar) (S.In true N p) (S.Out N p.blocks)
      (power sub left) (power sub' (relocate S.move left)) :=
  (advance rfl).bind fun _ => (hsub .unary p).bind fun e => stay (by simp)

theorem caret_alike (level : Level) :
    S.Alike (Where (S.In true N p) fun c => c.kind = .caret) (S.In true N p) (S.Out N p.blocks)
      (caret sub left level) (caret sub' (relocate S.move left) level) := by
  refine Sim.ite (fun _ => ?_) fun _ => binary_alike hsub left level rfl rfl
  exact (advance rfl).bind fun t => stay (by rw [Expr.span_relocate]; rfl)

theorem comparison_alike :
    S.Inline N (comparison sub left) (comparison sub' (relocate S.move left)) := by
  intro p
  refine Sim.bind (repeated ?_) fun links => stay ?_
  · refine (comparisonOp?_alike p).bind fun op => ?_
    cases op with
    | none => exact stay rfl
    | some op => exact (hsub .comparison p).bind fun e => stay rfl
  · have hfinal : ((relocate S.move links).getLast?.map fun link => link.2).getD (relocate S.move left) =
        relocate S.move ((links.getLast?.map fun link => link.2).getD left) := by
      simp only [relocate, List.getLast?_map]
      cases links.getLast? <;> rfl
    rw [hfinal]
    simp

theorem conditional_alike :
    S.Alike (Where (S.In true N p) fun c => c.kind = .kwIf) (S.In true N p) (S.Out N p.blocks)
      (conditional sub left) (conditional sub' (relocate S.move left)) := by
  refine (advance rfl).bind fun _ => (hsub .conditional p).bind fun _ => ?_
  refine (expect rfl).bind fun _ => (hsub .lowest p).bind fun e => stay ?_
  simp only [Expr.span_relocate]
  rfl

omit hsub in
theorem member_alike :
    S.Alike (Where (S.In true N p) fun c => c.kind = .dot) (S.In true N p) (S.Out N p.blocks)
      (member left) (member (relocate S.move left)) := by
  refine (advance rfl).bind fun _ => (expectDetailed rfl _).bind fun t => stay ?_
  rw [Expr.span_relocate]
  rfl

theorem argument_alike (level : Level) : S.Inline N (argument sub level) (argument sub' level) := by
  intro p
  refine atKeyword_bind ?_ ?_
  · refine (advance_peeked rfl rfl).bind fun t => (advance rfl).bind fun _ => ?_
    exact (hsub level p).bind fun e => stay (by rw [Expr.span_relocate]; rfl)
  · exact (hsub level p).bind fun e => stay rfl

theorem callArguments_alike :
    S.Alike (S.In b N p) (S.In true N p) (S.Out N p.blocks) (callArguments sub)
      (callArguments sub') := by
  refine (expect rfl).bind fun _ => (listUpTo (argument_alike hsub .conditional _)).bind fun as => ?_
  exact (expect rfl).bind fun _ => stay rfl

theorem call_alike :
    S.Alike (Where (S.In true N p) fun c => c.kind = .openParen) (S.In true N p) (S.Out N p.blocks)
      (call sub left) (call sub' (relocate S.move left)) := by
  refine (callArguments_alike hsub).forget.bind fun as => previousEnd_bind fun o => stay ?_
  simp only [Expr.span_relocate, relocate_call]
  rfl

theorem sliceBound_alike : S.Inline N (sliceBound sub) (sliceBound sub') := by
  intro p
  refine kind_bind fun k => ?_
  cases k using sliceBound_cases with
  | absent => exact stay rfl
  | present => exact (hsub .lowest p).forget.map fun _ => rfl

theorem sliceTail_alike (start : Offset) (lower : Option Expr) :
    S.Alike (Where (S.In true N p) fun c => c.kind = .colon) (S.In true N p) (S.Out N p.blocks)
      (sliceTail sub start lower) (sliceTail sub' (S.move start) (relocate S.move lower)) := by
  refine (advance rfl).bind fun _ => (sliceBound_alike hsub p).bind fun upper => ?_
  have hend (step : Option Expr) : S.Alike (S.In true N p) (S.In true N p) (S.Out N p.blocks)
      (sliced start lower upper step)
      (sliced (S.move start) (relocate S.move lower) (relocate S.move upper) (relocate S.move step)) :=
    previousEnd_bind fun o => stay (congrArg Argument.positional
      (relocate_slice S.move ⟨start, o⟩ lower upper step).symm)
  refine eat_bind rfl ?_ ?_
  · exact (sliceBound_alike hsub p).bind hend
  · exact (hend none).forget

theorem bracketItem_alike : S.Inline N (bracketItem sub) (bracketItem sub') := by
  intro p
  refine atKeyword_bind (argument_alike hsub .lowest p).forget.forget ?_
  refine here_bind fun start => kind_bind fun k => Sim.ite (fun hk => ?_) fun _ => Sim.forget ?_
  · subst hk
    exact sliceTail_alike hsub start none
  · refine (hsub .lowest p).bind fun e => kind_bind fun k => Sim.ite (fun hk => ?_) fun _ => stay rfl
    subst hk
    exact sliceTail_alike hsub start (some e)

theorem bracket_alike :
    S.Alike (Where (S.In true N p) fun c => c.kind = .openBracket) (S.In true N p) (S.Out N p.blocks)
      (bracket sub left) (bracket sub' (relocate S.move left)) := by
  refine (advance rfl).bind fun _ => kind_bind fun k => ?_
  refine Sim.ite (fun _ => unexpected (p := p.after .openBracket)) fun _ => ?_
  refine (commaList (bracketItem_alike hsub _)).forget.bind fun items => (expect rfl).bind fun _ => ?_
  refine kind_bind fun k => Sim.ite (fun _ => ?_) fun _ => ?_
  · rw [findSome?_typeArgumentFault?_relocate]
    cases items.findSome? typeArgumentFault? with
    | some fault => exact Sim.fail rfl fun _ _ h => h.1.out
    | none =>
      refine (callArguments_alike hsub).forget.bind fun as => previousEnd_bind fun o => stay ?_
      simp only [Expr.span_relocate, relocate_genericCall]
      rfl
  · rw [indices_relocate]
    cases indices items with
    | error fault => exact Sim.fail rfl fun _ _ h => h.1.out
    | ok es =>
      refine Sim.forget (previousEnd_bind fun o => stay ?_)
      simp only [Expr.span_relocate, relocate_subscript]
      rfl

theorem extension_alike (level : Level) :
    S.Inline N (extension sub left level) (extension sub' (relocate S.move left) level) := by
  intro p
  refine kind_bind fun k => ?_
  cases k using extension_cases with
  | conditional => exact conditional_alike hsub left
  | comparison => exact (comparison_alike hsub left p).forget
  | caret => exact caret_alike hsub left level
  | power => exact power_alike hsub left
  | call => exact call_alike hsub left
  | bracket => exact bracket_alike hsub left
  | member => exact member_alike left
  | binary op => exact binary_alike hsub left level op.isBoundary_kind (p.after_binary op)
  | other => exact unexpected

omit hsub in
theorem extend?_eq_ite (level : Level) : extend? sub level left = fun c =>
    (if level < c.level then some <$> extension sub left c.level else pure none) c := by
  funext c
  unfold extend?
  split <;> rfl

theorem extend?_alike (level : Level) :
    S.Inline N (extend? sub level left) (extend? sub' level (relocate S.move left)) := by
  intro p
  rw [extend?_eq_ite, extend?_eq_ite]
  refine Sim.read (φ := Cursor.level) (fun c c' h => In.level h)
    (g := fun l => if level < l then some <$> extension sub left l else pure none)
    (k := fun l => if level < l then some <$> extension sub' (relocate S.move left) l else pure none)
    fun l => Sim.forget ?_
  refine Sim.ite (fun _ => ?_) fun _ => stay rfl
  exact (extension_alike hsub left l p).map fun _ => rfl

end Extensions

theorem climb_alike [S.Before P N p] (hsub : ∀ level, S.Inline N (sub level) (sub' level)) (level : Level) :
    S.Alike P (S.In true N p) (S.Out N p.blocks) (climb sub level) (climb sub' level) :=
  (operand_alike hsub).bind fun left =>
    Sim.iterate (fun e => extend?_alike hsub e level p) (fun _ _ _ _ h h₂ => h.remaining_lt_iff h₂) left

theorem inner_alike (n n' : Nat) (hn : n + S.tail'.length ≤ n' + S.tail.length) (level : Level) :
    S.Alike (Where (S.In b N p) fun c => c.remaining < n) (S.In true N p) (S.Out N p.blocks)
      (inner n level) (inner n' level) := by
  induction n using Nat.strongRecOn generalizing n' b N p level with
  | _ n ih =>
    -- subexpressions of an expression that begins at `c` begin behind `c`
    have hsub (c c' : Cursor) (hlt : c.remaining < n) (m : Nat)
        (hm : c.remaining + S.tail'.length ≤ m + S.tail.length) (level : Level) :
        S.Inline ⟨c, c'⟩ (inner c.remaining level) (inner m level) := fun p =>
      (ih c.remaining hlt m hm level).before fun _ _ h => ⟨h, h.remaining_lt⟩
    constructor
    · intro c
      by_cases hlt : c.remaining < n
      · rw [inner_of_lt hlt, expr_eq_climb]
        have hany := hsub c c hlt (c.remaining + S.tail'.length) (Nat.le_add_right _ _)
        exact (climb_alike (P := S.In false ⟨c, c⟩ p) hany level).onward c
      · rw [Grammar.inner, if_neg hlt]
        exact Directed.refl c
    · intro c c' ⟨h, hlt⟩
      have hrem := h.remaining_add
      rw [inner_of_lt hlt, inner_of_lt (by omega), expr_eq_climb, expr_eq_climb]
      have hsub := hsub c c' hlt c'.remaining (Nat.le_of_eq hrem)
      refine ((climb_alike hsub level).agree c c' h.restart).imp_right fun ha => ?_
      exact ha.weaken (fun _ _ => In.resume h) fun _ _ => Out.resume h

theorem inner_inline_nowhere (n : Nat) (level : Level) :
    S.Inline nowhere.1 (inner n level) (inner n level) := fun p =>
  ⟨(inner_alike (b := true) (N := nowhere.1) (p := p) n (n + S.tail'.length) (Nat.le_add_right _ _) level).onward,
    fun _ _ h => absurd h not_in_nowhere⟩

theorem expr_alike [h : S.Before P N p] (level : Level) :
    S.Alike P (S.In true N p) (S.Out N p.blocks) (expr level) (expr level) where
  onward c := by
    rw [← inner_of_lt (Nat.lt_succ_self _)]
    exact (inner_alike (b := true) (N := N) (p := p) _ (c.remaining + 1 + S.tail'.length)
      (Nat.le_add_right _ _) level).onward c
  agree c c' hP := by
    rcases h.place c c' hP with hend | ⟨b, hin⟩
    · left
      rw [expr_eq_climb]
      exact strays (climb_alike (fun level => inner_inline_nowhere c.remaining level) level)
        (fun _ _ => not_in_nowhere) hend.window hend.nowhere
    · have hrem := hin.remaining_add
      rw [← inner_of_lt (Nat.lt_succ_self c.remaining), ← inner_of_lt (Nat.lt_succ_self c'.remaining)]
      exact (inner_alike _ _ (by omega) level).agree c c' ⟨hin, Nat.lt_succ_self _⟩

theorem exprList_alike [S.Before P N p] :
    S.Alike P (S.In true N p) (S.Out N p.blocks) exprList exprList := by
  refine (expr_alike .lowest).bind fun first => kind_bind fun k => Sim.ite (fun _ => ?_) fun _ => stay rfl
  refine (commaTail (expr_alike .lowest)).forget.bind fun rest => previousEnd_bind fun o => stay ?_
  simp only [Expr.span_relocate, relocate_tuple]
  rfl

end Offside.Seam
