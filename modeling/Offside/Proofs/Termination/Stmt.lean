import Offside.Proofs.Termination

namespace Offside.Grammar

section Congruence

variable {α β : Type} {n : Nat}

/-- Two rules that do the same where fewer than `n` tokens are left. -/
def Same (n : Nat) (x y : StmtRule α) : Prop :=
  ∀ q : Progress, q.cursor.last.kind = .eof → q.remaining < n → x q = y q

namespace Same

variable {x y : StmtRule α} {g k : α → StmtRule β}

theorem refl : Same n x x := fun _ _ _ => rfl

theorem bind [hx : Forward x] (h : Same n x y) (hg : ∀ a, Same n (g a) (k a)) :
    Same n (x >>= g) (y >>= k) := by
  intro q hl hlt
  change EStateM.bind x g q = EStateM.bind y k q
  unfold EStateM.bind
  rw [← h q hl hlt]
  cases hfirst : x q with
  | error e r => rfl
  | ok a r =>
    have hforth := hx.of_ok hfirst
    exact hg a r (hforth.last_eq ▸ hl) (Nat.lt_of_le_of_lt hforth.remaining_le hlt)

/-- Behind a rule that consumes a token, fewer are left. -/
theorem behind [Forward x] [hx : Consumes x] (hg : ∀ a, Same n (g a) (k a)) :
    Same (n + 1) (x >>= g) (x >>= k) := by
  intro q hl hlt
  change EStateM.bind x g q = EStateM.bind x k q
  unfold EStateM.bind
  cases hfirst : x q with
  | error e r => rfl
  | ok a r =>
    have hstep : r.remaining < q.remaining := hx.lt hl hfirst
    exact hg a r ((Forward.of_ok hfirst).last_eq ▸ hl) (by omega)

theorem map {φ : α → β} (h : Same n x y) : Same n (φ <$> x) (φ <$> y) := by
  intro q hl hlt
  change EStateM.map φ x q = EStateM.map φ y q
  unfold EStateM.map
  rw [h q hl hlt]

theorem ite {p : Prop} [Decidable p] {x' y' : StmtRule α} (h : Same n x y) (h' : Same n x' y') :
    Same n (if p then x else x') (if p then y else y') := by
  split
  · exact h
  · exact h'

theorem many {size : Progress → Nat} {step step' : StmtRule (Option α)} [hstep : Forward step]
    (h : Same n step step') : Same n (many size step) (many size step') := by
  intro q
  induction q using WellFounded.induction (measure size).wf with
  | _ q ih =>
    intro hl hlt
    rw [Offside.many, Offside.many, ← h q hl hlt]
    cases hr : step q with
    | error e r => rfl
    | ok o r =>
      cases o with
      | none => rfl
      | some a =>
        have hforth := hstep.of_ok hr
        dsimp only
        split
        · next hsize =>
          rw [ih r hsize (hforth.last_eq ▸ hl) (Nat.lt_of_le_of_lt hforth.remaining_le hlt)]
        · rfl

end Same

variable {cfg : Config} {stmt stmt' : StmtRule Stmt} [Forward stmt] (h : Same n stmt stmt')

include h

omit [Forward stmt] in
theorem recovering_same {q : Progress} (hl : q.cursor.last.kind = .eof) (hlt : q.remaining < n) :
    recovering stmt q = recovering stmt' q := by
  rw [recovering, recovering, h q hl hlt]

theorem statements_same {stop blank : Kind → Bool} {q : Progress} (hl : q.cursor.last.kind = .eof)
    (hlt : q.remaining < n) :
    statements cfg stop blank (recovering stmt) q = statements cfg stop blank (recovering stmt') q := by
  induction q using WellFounded.induction (measure Progress.remaining).wf with
  | _ q ih =>
    have hblank := (q.poll cfg).cursor.forth_advance
    have hone := forth_recovering stmt (q.poll cfg)
    have hl' : (q.poll cfg).cursor.last.kind = .eof := by rwa [q.poll_cursor]
    have hlt' : (q.poll cfg).remaining < n := by rwa [q.poll_remaining]
    rw [statements.eq_def cfg stop blank (recovering stmt) q,
      statements.eq_def cfg stop blank (recovering stmt') q]
    dsimp only
    rw [← recovering_same h hl' hlt']
    split
    · rfl
    · split
      · rfl
      · split
        · split
          · next hsize => exact ih (q.poll cfg).advance hsize (hblank.last_eq ▸ hl') (by omega)
          · rfl
        · split
          · next hsize => rw [ih _ hsize (hone.last_eq ▸ hl') (by omega)]
          · rfl

theorem blockBody_same : Same n (blockBody cfg stmt) (blockBody cfg stmt') := by
  intro q hl hlt
  unfold blockBody
  rw [statements_same h hl hlt]

theorem inlineBody_same : Same n (inlineBody stmt) (inlineBody stmt') := by
  have hone : Same n (inlineStmt stmt) (inlineStmt stmt') :=
    Same.refl.bind fun k => Same.refl.ite h
  have hround : Same n (bodyRound stmt) (bodyRound stmt') :=
    Same.refl.bind fun q => Same.refl.ite hone.map
  exact Same.refl.bind fun start => hone.bind fun first => (Same.many hround).bind fun rest => .refl

/-- The statements of a body stand behind its colon. -/
theorem suite_same : Same (n + 1) (suite cfg stmt) (suite cfg stmt') := by
  refine Same.behind fun _ => Same.refl.bind fun k => Same.ite ?_ (inlineBody_same h)
  refine Same.refl.bind fun newline => Same.refl.bind fun k => Same.ite ?_ .refl
  exact Same.refl.bind fun indent => (blockBody_same h).bind fun body => .refl

theorem functionStmt_same : Same (n + 1) (functionStmt cfg stmt) (functionStmt cfg stmt') :=
  Same.refl.bind fun _ => (suite_same h).bind fun _ => .refl

theorem typeStmt_same (word : TypeWord) : Same (n + 1) (typeStmt cfg stmt word) (typeStmt cfg stmt' word) :=
  Same.refl.bind fun _ => (suite_same h).bind fun _ => .refl

theorem elifClause?_same : Same (n + 1) (elifClause? cfg stmt) (elifClause? cfg stmt') :=
  Same.refl.bind fun _ => Same.ite (Same.refl.bind fun _ => (suite_same h).bind fun _ => .refl) .refl

theorem elseBody?_same : Same (n + 1) (elseBody? cfg stmt) (elseBody? cfg stmt') :=
  Same.refl.bind fun _ => Same.ite (suite_same h).map .refl

theorem ifStmt_same : Same (n + 1) (ifStmt cfg stmt) (ifStmt cfg stmt') :=
  Same.refl.bind fun _ => (suite_same h).bind fun _ => (Same.many (elifClause?_same h)).bind fun _ =>
    (elseBody?_same h).bind fun _ => .refl

theorem forStmt_same : Same (n + 1) (forStmt cfg stmt) (forStmt cfg stmt') :=
  Same.refl.bind fun _ => (suite_same h).bind fun _ => .refl

theorem whileStmt_same : Same (n + 1) (whileStmt cfg stmt) (whileStmt cfg stmt') :=
  Same.refl.bind fun _ => (suite_same h).bind fun _ => .refl

theorem definition_same : Same (n + 1) (definition cfg stmt) (definition cfg stmt') := by
  refine Same.refl.bind fun k => ?_
  cases k using definition_cases with
  | function => exact functionStmt_same h
  | type word => exact typeStmt_same h word
  | other => exact .refl

theorem decoratedStmt_same : Same (n + 1) (decoratedStmt cfg stmt) (decoratedStmt cfg stmt') :=
  Same.refl.bind fun _ => Same.refl.bind fun _ => (definition_same h).bind fun _ => .refl

/-- What a statement is hangs on what its statements are where fewer tokens are left. -/
theorem statement_same : Same (n + 1) (statement cfg stmt) (statement cfg stmt') := by
  refine Same.refl.bind fun k => ?_
  cases k using statement_cases with
  | function => exact functionStmt_same h
  | type word => exact typeStmt_same h word
  | conditional => exact ifStmt_same h
  | forLoop => exact forStmt_same h
  | whileLoop => exact whileStmt_same h
  | decorated => exact decoratedStmt_same h
  | indent | simple => exact .refl

end Congruence

variable {cfg : Config}

def stmtWithin (cfg : Config) (stuck : StmtRule Stmt) : Nat → StmtRule Stmt
  | 0 => stuck
  | n + 1 => statement cfg (stmtWithin cfg stuck n)

theorem stmtWithin_same (stuck : StmtRule Stmt) (n : Nat) : Same n (stmt cfg) (stmtWithin cfg stuck n) := by
  induction n with
  | zero => exact fun _ _ hlt => absurd hlt (Nat.not_lt_zero _)
  | succ n ih =>
    intro q hl hlt
    -- inside a statement fewer tokens are left, so there the unrolling below is enough
    have hinner : Same q.remaining (Seam.innerStmt cfg q.remaining) (stmtWithin cfg stuck n) := by
      intro r hr hrest
      rw [Seam.innerStmt_of_lt hrest]
      exact ih r hr (by omega)
    rw [Seam.stmt_eq_statement]
    exact statement_same hinner q hl (Nat.lt_succ_self _)

/-- A loop over statements without a guard, unrolled. -/
def statementsWithin (cfg : Config) (stuck : Progress → List Stmt × Progress) (stop blank : Kind → Bool)
    (one : Progress → Stmt × Progress) : Nat → Progress → List Stmt × Progress
  | 0, q => stuck q
  | n + 1, p =>
    if stop p.cursor.kind then ([], p)
    else
      let q := p.poll cfg
      if q.cancelled cfg then ([], q)
      else if blank q.cursor.kind then statementsWithin cfg stuck stop blank one n q.advance
      else
        let s := one q
        let rest := statementsWithin cfg stuck stop blank one n s.2
        (s.1 :: rest.1, rest.2)

/-- Each round of a loop over statements consumes a token, if no dedent begins a statement in it. -/
theorem statementsWithin_eq (stuck : Progress → List Stmt × Progress) {stop blank : Kind → Bool}
    {one : Progress → Stmt × Progress} {n : Nat} {q : Progress}
    (hone : ∀ q : Progress, q.cursor.last.kind = .eof → q.remaining < n →
      one q = recovering (stmt cfg) q)
    (heof : stop .eof = true) (hdedent : stop .dedent = true ∨ blank .dedent = true)
    (hl : q.cursor.last.kind = .eof) (hlt : q.remaining < n) :
    statementsWithin cfg stuck stop blank one n q = statements cfg stop blank (recovering (stmt cfg)) q := by
  induction n generalizing q with
  | zero => exact absurd hlt (Nat.not_lt_zero _)
  | succ n ih =>
    have hgo := fun (r : Progress) hl hr => ih (q := r) (fun q hl hlt => hone q hl (by omega)) hl hr
    rw [statements, statementsWithin]
    dsimp only
    split
    · rfl
    · next hstop =>
      have he : q.cursor.kind ≠ .eof := fun he => hstop (he ▸ heof)
      have hl' : (q.poll cfg).cursor.last.kind = .eof := by rwa [q.poll_cursor]
      split
      · rfl
      · split
        · have hsize : (q.poll cfg).advance.remaining < q.remaining := by
            rw [q.poll_advance_remaining]
            exact Cursor.remaining_advance_lt hl he
          rw [if_pos hsize]
          exact hgo (q.poll cfg).advance ((q.poll cfg).cursor.last_advance ▸ hl') (by omega)
        · next hblank =>
          rw [q.poll_cursor] at hblank
          have hd : q.cursor.kind ≠ .dedent := fun hd => by
            rcases hdedent with h | h
            · exact hstop (hd ▸ h)
            · exact hblank (hd ▸ h)
          have hsize : (recovering (stmt cfg) (q.poll cfg)).2.remaining < q.remaining := by
            rw [← q.poll_cursor cfg] at he hd
            exact q.poll_remaining cfg ▸ recovering_lt hl' he hd
          rw [hone (q.poll cfg) hl' (by rwa [q.poll_remaining]), if_pos hsize]
          rw [hgo _ ((forth_recovering (stmt cfg) (q.poll cfg)).last_eq ▸ hl') (by omega)]

end Offside.Grammar
