import Offside.Proofs.Seam.Block

namespace Offside.Seam

open Grammar

variable {S : Seam} {α β : Type} [Relocate α] [Relocate β] {P P' Q E : Cursor → Cursor → Prop}
  {b : Bool} {N : Origin} {p : Depth} {d : Nat} {k : Kind}

section Compound

variable {n : Nat} {sub sub' : StmtRule Stmt} {cfg : Config}

theorem blockOf_relocate (f : Offset → Offset) (inline : Bool) (o : Offset) (body : List Stmt) :
    blockOf inline (f o) (relocate f body) = relocate f (blockOf inline o body) := by
  rw [blockOf, blockOf, relocate_block]
  have hhead : (relocate f body).head? = relocate f body.head? := List.head?_map
  have hlast : (relocate f body).getLast? = relocate f body.getLast? := List.getLast?_map
  rw [hhead, hlast]
  cases body.head? <;> cases body.getLast? <;> simp <;> rfl

variable (hcancel : cfg.cancel = true → S.cancels = true)
  (hmax : ∀ a b, S.move (max a b) = max (S.move a) (S.move b)) (hsub : S.Statements n sub sub')
  (hN : N.bound ≤ n)

include hcancel hmax hsub hN

theorem suite_alike :
    S.AlikeOn (S.In true N (.flat d)) (S.Edge true N d) (S.Out N (Depth.flat d).blocks)
      (suite cfg sub) (suite cfg sub') := by
  refine (lifted_alike (expect (k := .colon) rfl)).bind fun _ => on_kind_bind fun k => ?_
  refine Sim.ite (fun hk => ?_) fun _ => ?_
  · subst hk
    refine (lifted_alike advance_out).bind fun newline => ?_
    refine edge_ite (k := .indent) (fun _ _ => And.left) rfl ?_ ?_
    · refine (lifted_alike (advancing fun _ _ hP hin => hin.advance_indent hP.2)).bind fun indent => ?_
      refine (blockBody_alike hcancel hmax hsub hN).bind fun body => ?_
      exact on_stay (blockOf_relocate S.move false indent.span.stop body) fun _ _ => id
    · exact Sim.fail rfl (On.imp fun _ _ => And.right)
  · exact (inlineBody_alike hsub hN).before (On.imp fun _ _ => And.left)

variable [S.Before P N (.flat d)]

theorem functionStmt_alike (hk : k.isBoundary = false)
    (hp : Depth.after (.flat d) k = .flat d) :
    S.AlikeOn (Where P fun c => c.kind = k) (S.Edge true N d) (S.Out N (Depth.flat d).blocks)
      (functionStmt cfg sub) (functionStmt cfg sub') := by
  refine (lifted_alike (functionHead_alike hk hp)).bind fun (start, head) => ?_
  refine (suite_alike hcancel hmax hsub hN).bind fun body => on_stay ?_ fun _ _ => id
  rw [Block.span_relocate]
  rfl

theorem typeStmt_alike (word : TypeWord) (hk : k.isBoundary = false)
    (hp : Depth.after (.flat d) k = .flat d) :
    S.AlikeOn (Where P fun c => c.kind = k) (S.Edge true N d) (S.Out N (Depth.flat d).blocks)
      (typeStmt cfg sub word) (typeStmt cfg sub' word) := by
  refine (lifted_alike (typeHead_alike word hk hp)).bind fun (start, head) => ?_
  refine (suite_alike hcancel hmax hsub hN).bind fun body => on_stay ?_ fun _ _ => id
  rw [Block.span_relocate]
  rfl

theorem forStmt_alike :
    S.AlikeOn (Where P fun c => c.kind = .kwFor) (S.Edge true N d) (S.Out N (Depth.flat d).blocks)
      (forStmt cfg sub) (forStmt cfg sub') := by
  refine (lifted_alike forHead_alike).bind fun (start, pattern, iterable) => ?_
  refine (suite_alike hcancel hmax hsub hN).bind fun body => on_stay ?_ fun _ _ => id
  rw [Block.span_relocate]
  rfl

theorem whileStmt_alike :
    S.AlikeOn (Where P fun c => c.kind = .kwWhile) (S.Edge true N d) (S.Out N (Depth.flat d).blocks)
      (whileStmt cfg sub) (whileStmt cfg sub') := by
  refine (lifted_alike (conditionHead_alike rfl rfl)).bind fun (start, condition) => ?_
  refine (suite_alike hcancel hmax hsub hN).bind fun body => on_stay ?_ fun _ _ => id
  rw [Block.span_relocate]
  rfl

omit [S.Before P N (.flat d)] in
theorem elifClause?_alike :
    S.AlikeOn (S.Edge true N d) (S.Edge true N d) (S.Out N (Depth.flat d).blocks)
      (elifClause? cfg sub) (elifClause? cfg sub') := by
  refine edge_ite (k := .kwElif) (fun _ _ => id) rfl ?_ (on_stay rfl fun _ _ => id)
  refine (lifted_alike (conditionHead_alike rfl rfl)).bind fun (start, condition) => ?_
  refine (suite_alike hcancel hmax hsub hN).bind fun body => on_stay ?_ fun _ _ => id
  rw [Block.span_relocate]
  rfl

omit [S.Before P N (.flat d)] in
theorem elseBody?_alike :
    S.AlikeOn (S.Edge true N d) (S.Edge true N d) (S.Out N (Depth.flat d).blocks)
      (elseBody? cfg sub) (elseBody? cfg sub') := by
  refine edge_eat_bind (k := .kwElse) rfl rfl ?_ (on_stay rfl fun _ _ => id)
  exact (suite_alike hcancel hmax hsub hN).map fun _ => rfl

theorem ifStmt_alike :
    S.AlikeOn (Where P fun c => c.kind = .kwIf) (S.Edge true N d) (S.Out N (Depth.flat d).blocks)
      (ifStmt cfg sub) (ifStmt cfg sub') := by
  refine (lifted_alike (conditionHead_alike rfl rfl)).bind fun (start, condition) => ?_
  refine (suite_alike hcancel hmax hsub hN).bind fun body => ?_
  refine ((elifClause?_alike hcancel hmax hsub hN).many fun _ _ _ _ h h₂ => h.1.remaining_iff h₂.1).bind
    fun elifs => ?_
  refine (elseBody?_alike hcancel hmax hsub hN).bind fun otherwise => on_stay ?_ fun _ _ => id
  have hlast : (relocate S.move elifs).getLast? = relocate S.move elifs.getLast? := List.getLast?_map
  rw [relocate_conditional, hlast]
  cases otherwise <;> cases elifs.getLast? <;> simp <;> rfl

/-- The definition behind decorators. -/
theorem definition_alike :
    S.AlikeOn P (S.Edge true N d) (S.Out N (Depth.flat d).blocks) (definition cfg sub)
      (definition cfg sub') := by
  refine on_kind_bind fun k => ?_
  cases k using definition_cases with
  | function word => cases word <;> exact functionStmt_alike hcancel hmax hsub hN rfl rfl
  | type word => cases word <;> exact typeStmt_alike hcancel hmax hsub hN _ rfl rfl
  | other =>
    refine Sim.before (P := S.On P) ?_ (On.imp fun _ _ => And.left)
    exact lifted_alike (refusing (fun t => .decoratorWithoutDefinition t.shown) fun _ => rfl)

abbrev decorated (K : List Decorator → StmtRule Stmt) (before : List Decorator) : StmtRule Stmt :=
  lifted (Rule.repeated decorator?) >>= fun ds => K (before ++ ds)

end Compound

section Decorated

variable {K K' : List Decorator → StmtRule Stmt} {q : Progress} {before : List Decorator}

theorem decorated_of_ne (h : q.cursor.kind ≠ .atSign) : decorated K before q = K before q :=
  (lifted_bind_ok (many_none (decorator?_of_ne h))).trans (by rw [List.append_nil])

theorem decorated_error {e : Diagnostic} {c : Cursor} (h : decorator? q.cursor = .error e c) :
    decorated K before q = .error e { q with cursor := c } :=
  lifted_bind_error (many_error h)

theorem decorated_cons {a : Decorator} {c : Cursor} (h : decorator? q.cursor = .ok (some a) c)
    (hlt : c.remaining < q.cursor.remaining) :
    decorated K before q = decorated K (before ++ [a]) { q with cursor := c } := by
  cases hrest : Rule.repeated decorator? c with
  | ok ds e =>
    refine (lifted_bind_ok (many_cons h hlt hrest)).trans ?_
    rw [List.append_cons]
    exact (lifted_bind_ok (g := fun ds => K (before ++ [a] ++ ds)) (q := { q with cursor := c }) hrest).symm
  | error e t =>
    refine (lifted_bind_error (many_cons_error h hlt hrest)).trans ?_
    exact (lifted_bind_error (g := fun ds => K (before ++ [a] ++ ds)) (q := { q with cursor := c })
      hrest).symm

theorem onward_decorator? (S : Seam) (c : Cursor) : Onward c (endState (decorator? c)) :=
  (decorator_alike (S := S) (P := S.Over nowhere.1 (.flat 1))).onward c

/-- A run that strays in a decorator has strayed. -/
theorem decorated_strays (hK : ∀ ds q, Onward q (endState (K ds q)))
    (h : S.strayed.outcome (decorator? q.cursor)) : S.strayedOn.outcome (decorated K before q) :=
  S.strayedOn.outcome_bind (fun _ => hK _) (lifted_strays (S.strayed.outcome_many (onward_decorator? S) h))

theorem decorated_behind (honward : ∀ ds q, Onward q (endState (K ds q)))
    (hK : ∀ ds q, S.Behind q → S.strayedOn.outcome (K ds q)) (h : S.Behind q) :
    S.strayedOn.outcome (decorated K before q) := by
  by_cases hk : q.cursor.kind = .atSign
  · obtain ⟨q', hover⟩ := h.on_over (N := nowhere.1) (p := nowhere.2)
    exact decorated_strays honward (strays (decorator_alike (d := 1)) (fun _ _ => not_edge_nowhere)
      h.window ⟨hover.1, hk⟩)
  · rw [decorated_of_ne hk]
    exact hK before q h

theorem decorated_alike
    (hK : ∀ b ds, S.AlikeOn (S.In b N (.flat d)) (S.Edge true N d) (S.Out N (Depth.flat d).blocks)
      (K ds) (K' (relocate S.move ds)))
    (hstrays : ∀ ds q, S.Behind q → S.strayedOn.outcome (K ds q)) (before : List Decorator) :
    S.AlikeOn (S.Beside N d) (S.Edge true N d) (S.Out N (Depth.flat d).blocks) (decorated K before)
      (decorated K' (relocate S.move before)) := by
  have honward ds := (hK true ds).onward
  refine ⟨onward_bind (onward_lifted (onward_many (onward_decorator? S))) fun ds => honward _,
    fun q => ?_⟩
  induction q using WellFounded.induction (measure Progress.remaining).wf generalizing before with
  | _ q ih =>
    intro q' hq
    obtain ⟨⟨done, rest, hat⟩, hnew⟩ := hq
    by_cases hseam : S.window ≠ none ∧ rest = []
    · obtain ⟨hw, rfl⟩ := hseam
      exact Or.inl (decorated_behind honward hstrays
        ⟨hw, hat.rest_eq, hat.last_eq, hnew.imp fun _ => And.left⟩)
    have hin : S.In false N (.flat d) q.cursor q'.cursor :=
      ⟨done, rest, hat, fun hw hr => hseam ⟨hw, hr⟩, nofun⟩
    by_cases hk : q.cursor.kind = .atSign
    · have hline := (decorator_alike (S := S) (P := S.In false ⟨q.cursor, q'.cursor⟩ (.flat d))).agree
        q.cursor q'.cursor ⟨hin.restart, hk⟩
      rcases hline with hs | ha
      · exact Or.inl (decorated_strays honward hs)
      · generalize hr : decorator? q.cursor = r at ha
        generalize hr' : decorator? q'.cursor = r' at ha
        cases ha with
        | error hout =>
          rw [decorated_error hr, decorated_error hr']
          exact Or.inr (.error ⟨hout.resume hin, hnew⟩)
        | @ok o e e' hedge =>
          cases o with
          | none => exact absurd hk (decorator?_ne_none hr)
          | some a =>
            obtain ⟨hlt, hlt'⟩ := hedge.remaining_lt_iff hin
            rw [decorated_cons hr hlt, decorated_cons hr' hlt']
            have hstep := ih { q with cursor := e } hlt (before ++ [a]) { q' with cursor := e' }
              ⟨(hedge.resume hin).beside, hnew⟩
            rwa [relocate_append] at hstep
    · rw [decorated_of_ne hk, decorated_of_ne (by rw [hin.kind]; exact hk)]
      exact (hK false before).agree q q' ⟨hin, hnew⟩

end Decorated

section Stmt

variable {n : Nat} {sub sub' : StmtRule Stmt} {cfg : Config}

theorem Over.behind {q q' : Progress} (h : S.On (S.Over N p) q q') : S.Behind q :=
  ⟨h.1.window, h.1.rest_eq, h.1.last_eq, h.2.imp fun _ => And.left⟩

section

variable (hcancel : cfg.cancel = true → S.cancels = true)
  (hmax : ∀ a b, S.move (max a b) = max (S.move a) (S.move b)) (hsub : S.Statements n sub sub')

include hcancel hmax hsub

theorem definition_strays (q : Progress) (h : S.Behind q) :
    S.strayedOn.outcome (definition cfg sub q) := by
  obtain ⟨q', hover⟩ := h.on_over (N := nowhere.1) (p := nowhere.2)
  exact strays_on (definition_alike hcancel hmax hsub (Nat.zero_le n)) h.window hover

theorem decoratedStmt_alike (hN : N.bound ≤ n) [hP : S.Before P N (.flat d)] :
    S.AlikeOn P (S.Edge true N d) (S.Out N (Depth.flat d).blocks) (decoratedStmt cfg sub)
      (decoratedStmt cfg sub') := by
  refine (lifted_alike (here_alike (P := P))).bind fun start => ?_
  let K (sub : StmtRule Stmt) (start : Offset) (ds : List Decorator) : StmtRule Stmt :=
    definition cfg sub >>= fun inner => pure (.decorated ⟨start, inner.span.stop⟩ ds inner)
  have hK (b : Bool) (ds : List Decorator) :
      S.AlikeOn (S.In b N (.flat d)) (S.Edge true N d) (S.Out N (Depth.flat d).blocks)
        (K sub start ds) (K sub' (S.move start) (relocate S.move ds)) := by
    refine (definition_alike hcancel hmax hsub hN).bind fun inner => on_stay ?_ fun _ _ => id
    rw [Stmt.span_relocate]
    rfl
  have hstrays (ds : List Decorator) (q : Progress) (h : S.Behind q) :
      S.strayedOn.outcome (K sub start ds q) :=
    S.strayedOn.outcome_bind (fun _ => Directed.refl) (definition_strays hcancel hmax hsub q h)
  have halike := decorated_alike hK hstrays []
  refine ⟨halike.onward, fun q q' hq => ?_⟩
  rcases hP.place _ _ hq.1 with hover | ⟨b, hin⟩
  · have hbehind : S.strayedOn.outcome (decorated (K sub start) [] q) :=
      decorated_behind (fun ds => (hK true ds).onward) hstrays (Over.behind ⟨hover, hq.2⟩)
    exact Or.inl hbehind
  · exact halike.agree q q' ⟨hin.beside, hq.2⟩

theorem statement_alike (hN : N.bound ≤ n) [S.Before P N (.flat d)] (k : Kind) :
    S.AlikeOn (Where P fun c => c.kind = k) (S.Edge (startsCompound k) N d)
      (S.Out N (Depth.flat d).blocks) (statement cfg sub) (statement cfg sub') := by
  refine on_kind_cases (S := S) (P := P) (Q := fun k => S.Edge (startsCompound k) N d)
    (fun k => ?_) k
  cases k using statement_cases with
  | indent =>
    refine lifted_alike ?_
    exact unexpectedDetailed (p := .flat d) _
  | function word => cases word <;> exact functionStmt_alike hcancel hmax hsub hN rfl rfl
  | type word => cases word <;> exact typeStmt_alike hcancel hmax hsub hN _ rfl rfl
  | conditional => exact ifStmt_alike hcancel hmax hsub hN
  | forLoop => exact forStmt_alike hcancel hmax hsub hN
  | whileLoop => exact whileStmt_alike hcancel hmax hsub hN
  | decorated => exact (decoratedStmt_alike hcancel hmax hsub hN).before (On.imp fun _ _ => And.left)
  | simple k hsimple =>
    rw [hsimple]
    exact lifted_alike simpleStmt_alike

end

/-- Statements inside a statement that began before so many tokens. -/
def innerStmt (cfg : Config) (n : Nat) : StmtRule Stmt := fun q =>
  if q.remaining < n then stmt cfg q else .error q.cursor.unexpected q

theorem stmt_eq_statement (q : Progress) :
    stmt cfg q = statement cfg (innerStmt cfg q.remaining) q := by
  rw [stmt]
  rfl

/-- A stream that is one statement. -/
theorem parse_of_stmt (hcancel : cfg.cancel = false) {tokens : List Token} {s : Stmt} {r : Progress}
    (hkind : (Cursor.ofTokens tokens).kind.isBoundary = false)
    (hstmt : stmt cfg { cursor := .ofTokens tokens } = .ok s r) (hend : r.cursor.kind = .eof)
    (hlt : r.remaining < (Cursor.ofTokens tokens).remaining) :
    parse cfg tokens = ⟨[s], r.diagnostics, false⟩ := by
  have hnewline := Kind.ne_of_inner (l := .newline) hkind rfl
  have hdedent := Kind.ne_of_inner (l := .dedent) hkind rfl
  have heof := Kind.ne_of_inner (l := .eof) hkind rfl
  have hone : recovering (stmt cfg) { cursor := .ofTokens tokens } = (s, r) := by rw [recovering, hstmt]
  have hloop : topLevel cfg tokens = ([s], r) := by
    rw [topLevel, statements_one hcancel (by simp [heof]) (by simp [hnewline, hdedent]) (hone ▸ hlt), hone,
      statements_stop (by simp [hend])]
  rw [parse, hloop]
  exact congrArg (Parsed.mk [s] r.diagnostics) (r.cancelled_eq hcancel)

theorem innerStmt_of_lt {q : Progress} (h : q.remaining < n) : innerStmt cfg n q = stmt cfg q :=
  if_pos h

theorem innerStmt_statements (hcancel : cfg.cancel = true → S.cancels = true)
    (hmax : ∀ a b, S.move (max a b) = max (S.move a) (S.move b)) (n n' : Nat)
    (hn : n + S.tail'.length ≤ n' + S.tail.length) :
    S.Statements n (innerStmt cfg n) (innerStmt cfg n') := by
  induction n using Nat.strongRecOn generalizing n' with
  | _ n ih =>
    -- on the left alone any bound on the right will do
    have hleft (q : Progress) (hlt : q.remaining < n) :=
      ih q.remaining hlt (q.remaining + S.tail'.length) (Nat.le_add_right _ _)
    constructor
    · intro b N d k
      constructor
      · intro q
        by_cases hlt : q.remaining < n
        · rw [innerStmt_of_lt hlt, stmt_eq_statement]
          exact (statement_alike (P := S.Over nowhere.1 (.flat d)) hcancel hmax (hleft q hlt)
            (Nat.zero_le _) k).onward q
        · rw [innerStmt, if_neg hlt]
          exact Directed.refl q
      · intro q q' ⟨⟨⟨hin, hlt⟩, hk⟩, hnew⟩
        have hrem := hin.remaining_add
        have hlt : q.remaining < n := hlt
        have hlt' : q'.remaining < n' := by
          have : q'.remaining = q'.cursor.remaining := rfl
          have : q.remaining = q.cursor.remaining := rfl
          omega
        rw [innerStmt_of_lt hlt, innerStmt_of_lt hlt', stmt_eq_statement, stmt_eq_statement]
        have hsub := ih q.remaining hlt q'.remaining (Nat.le_of_eq hrem)
        have halike := statement_alike (P := S.In false ⟨q.cursor, q'.cursor⟩ (.flat d)) hcancel hmax
          hsub (Nat.le_refl _) k
        refine (halike.agree q q' ⟨⟨hin.restart, hk⟩, hnew⟩).imp_right fun ha => ?_
        exact ha.weaken (On.imp fun _ _ => Edge.resume hin) (On.imp fun _ _ => Out.resume hin)
    · intro q hq
      by_cases hlt : q.remaining < n
      · rw [innerStmt_of_lt hlt, stmt_eq_statement]
        obtain ⟨q', hover⟩ := hq.on_over (N := nowhere.1) (p := nowhere.2)
        exact strays_on (statement_alike hcancel hmax (hleft q hlt) (Nat.zero_le _) q.cursor.kind)
          hq.window ⟨⟨hover.1, rfl⟩, hover.2⟩
      · rw [innerStmt, if_neg hlt]
        exact hq.refuses _

theorem stmt_statements (hcancel : cfg.cancel = true → S.cancels = true)
    (hmax : ∀ a b, S.move (max a b) = max (S.move a) (S.move b)) (n : Nat) :
    S.Statements n (stmt cfg) (stmt cfg) := by
  have hleft (q : Progress) := innerStmt_statements hcancel hmax (q.remaining + 1)
    (q.remaining + 1 + S.tail'.length) (Nat.le_add_right _ _)
  constructor
  · intro b N d k
    constructor
    · intro q
      rw [← innerStmt_of_lt (Nat.lt_succ_self q.remaining)]
      exact ((hleft q).alike b N d k).onward q
    · intro q q' hq
      have hrem : q.remaining + S.tail'.length = q'.remaining + S.tail.length :=
        hq.1.1.1.remaining_add
      rw [← innerStmt_of_lt (Nat.lt_succ_self q.remaining),
        ← innerStmt_of_lt (Nat.lt_succ_self q'.remaining)]
      have hsub := innerStmt_statements (S := S) hcancel hmax (q.remaining + 1) (q'.remaining + 1)
        (by omega)
      exact (hsub.alike b N d k).agree q q' ⟨⟨⟨hq.1.1.1, Nat.lt_succ_self _⟩, hq.1.2⟩, hq.2⟩
  · intro q hq
    rw [← innerStmt_of_lt (Nat.lt_succ_self q.remaining)]
    exact (hleft q).strays q hq

end Stmt

end Offside.Seam
