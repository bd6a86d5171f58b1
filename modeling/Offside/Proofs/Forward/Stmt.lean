import Offside.Proofs.Forward.Loop
import Offside.Proofs.Seam.Stmt

namespace Offside

open Grammar

namespace Grammar

variable {α : Type}

instance {x : Rule α} [Forward x] : Forward (liftM x : StmtRule α) where
  moves q _ := by
    have hx := Forward.forth (x := x) q.cursor
    change q.cursor.Forth (endState (lifted x q)).cursor
    unfold lifted
    generalize x q.cursor = r at hx
    cases r <;> exact hx

instance {x : Rule α} [Consumes x] : Consumes (liftM x : StmtRule α) where
  lt {q r a} hl h := by
    change lifted x q = .ok a r at h
    unfold lifted at h
    split at h
    · next hx =>
      cases h
      exact Consumes.lt (s := q.cursor) hl hx
    · contradiction

variable {cfg : Config} (stmt : StmtRule Stmt)

section Blocks

variable [Forward stmt]

theorem forth_recovering (q : Progress) : q.cursor.Forth (recovering stmt q).2.cursor := by
  have hstmt := Forward.forth (x := stmt) q
  unfold recovering
  generalize stmt q = r at hstmt
  cases r with
  | ok s t => exact hstmt
  | error e t => exact IsTrans.trans _ _ _ hstmt (Cursor.forth_synchronize _ t.cursor)

/-- A loop over statements goes forward if each statement does. -/
theorem forth_statements {stop blank : Kind → Bool} {one : Progress → Stmt × Progress}
    (hone : ∀ q : Progress, q.cursor.Forth (one q).2.cursor) (q : Progress) :
    q.cursor.Forth (statements cfg stop blank one q).2.cursor := by
  refine statements_invariant cfg q (I := fun _ p => q.cursor.Forth p.cursor) (fun _ p hp => ?_)
    (fun _ p hp => ?_) (fun _ p _ _ hp => ?_) [] (Std.Refl.refl q.cursor)
  · rwa [p.poll_cursor]
  · exact IsTrans.trans _ _ _ hp p.cursor.forth_advance
  · exact IsTrans.trans _ _ _ hp (hone p)

instance : Forward (blockBody cfg stmt) where
  moves q _ := by
    have hloop : q.cursor.Forth (Seam.blockLoop cfg stmt q).2.cursor :=
      forth_statements (forth_recovering stmt) q
    refine IsTrans.trans _ _ _ hloop ?_
    change Cursor.Forth _ (closeBlock cfg (Seam.blockLoop cfg stmt q).2).cursor
    rcases closeBlock_cursor cfg (Seam.blockLoop cfg stmt q).2 with h | h
    · rw [h]
      exact Std.Refl.refl (Seam.blockLoop cfg stmt q).2.cursor
    · rw [h]
      exact Cursor.forth_advance _

instance : Forward (inlineStmt stmt) := by unfold inlineStmt; infer_instance

instance : Forward (get : StmtRule Progress) := .stay fun _ => rfl

instance (c : Cursor) : Forward (bodyRoundAt c stmt) := by unfold bodyRoundAt; infer_instance

instance : Forward (bodyRound stmt) := by unfold bodyRound; infer_instance

instance [Consumes stmt] : Consumes (inlineStmt stmt) := by unfold inlineStmt; infer_instance

instance [Consumes stmt] (c : Cursor) : Rounds (bodyRoundAt c stmt) := by unfold bodyRoundAt; infer_instance

instance [Consumes stmt] : Rounds (bodyRound stmt) := .bind fun _ => inferInstance

instance : Forward (inlineBody stmt) := by unfold inlineBody; infer_instance

instance : Forward (suiteBody cfg stmt) := by unfold suiteBody; infer_instance

instance : Forward (suite cfg stmt) := by unfold suite; infer_instance

instance : Consumes (suite cfg stmt) := by unfold suite; infer_instance

instance : Forward (functionStmt cfg stmt) := by unfold functionStmt; infer_instance

instance : Consumes (functionStmt cfg stmt) := by unfold functionStmt; infer_instance

instance (word : TypeWord) : Forward (typeStmt cfg stmt word) := by unfold typeStmt; infer_instance

instance (word : TypeWord) : Consumes (typeStmt cfg stmt word) := by unfold typeStmt; infer_instance

instance : Forward (elifClause? cfg stmt) := by unfold elifClause?; infer_instance

instance : Rounds (elifClause? cfg stmt) := by
  refine .bind fun k => ?_
  infer_instance

instance : Forward (elseBody? cfg stmt) := by unfold elseBody?; infer_instance

instance : Forward (ifStmt cfg stmt) := by unfold ifStmt; infer_instance

instance : Consumes (ifStmt cfg stmt) := by unfold ifStmt; infer_instance

instance : Forward (forStmt cfg stmt) := by unfold forStmt; infer_instance

instance : Consumes (forStmt cfg stmt) := by unfold forStmt; infer_instance

instance : Forward (whileStmt cfg stmt) := by unfold whileStmt; infer_instance

instance : Consumes (whileStmt cfg stmt) := by unfold whileStmt; infer_instance

instance : Forward missingDefinition := by unfold missingDefinition; infer_instance

instance : Consumes missingDefinition := by unfold missingDefinition; infer_instance

instance (k : Kind) : Forward (definitionAt k cfg stmt) := by unfold definitionAt; split <;> infer_instance

instance (k : Kind) : Consumes (definitionAt k cfg stmt) := by unfold definitionAt; split <;> infer_instance

instance : Forward (definition cfg stmt) := by unfold definition; infer_instance

instance : Consumes (definition cfg stmt) := by unfold definition; infer_instance

instance : Forward (decoratedStmt cfg stmt) := by unfold decoratedStmt; infer_instance

instance : Consumes (decoratedStmt cfg stmt) := by unfold decoratedStmt; infer_instance

instance (k : Kind) : Forward (statementAt k cfg stmt) := by unfold statementAt; split <;> infer_instance

instance : Forward (statement cfg stmt) := by unfold statement; infer_instance

instance : Consumes (statement cfg stmt) where
  lt {q r s} hl h := by
    obtain ⟨k, u, hkind, hrest⟩ := bind_eq_ok.mp h
    obtain ⟨hk, rfl⟩ : q.cursor.kind = k ∧ u = q := by
      cases hkind
      exact ⟨rfl, rfl⟩
    revert hrest
    cases k using statement_cases with
    | indent => nofun
    | simple k =>
      intro hrest
      change lifted (simpleStmt k) u = _ at hrest
      unfold lifted at hrest
      split at hrest
      · next hs =>
        cases hrest
        exact simpleStmt_lt hl (hk ▸ hs)
      · contradiction
    | type => exact Consumes.lt (x := typeStmt cfg stmt _) hl
    | _ => exact Consumes.lt hl

end Blocks

instance (n : Nat) : Forward (Seam.innerStmt cfg n) where
  moves := by
    induction n using Nat.strongRecOn with
    | _ n ih =>
      intro q _
      by_cases hlt : q.remaining < n
      · rw [Seam.innerStmt_of_lt hlt, Seam.stmt_eq_statement]
        have hinner : Forward (Seam.innerStmt cfg q.remaining) := ⟨ih q.remaining hlt⟩
        exact Forward.forth (x := statement cfg (Seam.innerStmt cfg q.remaining)) q
      · rw [Seam.innerStmt, if_neg hlt]
        exact Std.Refl.refl q.cursor

instance : Forward (Grammar.stmt cfg) where
  moves q _ := by
    rw [Seam.stmt_eq_statement]
    exact Forward.forth (x := statement cfg (Seam.innerStmt cfg q.remaining)) q

instance : Consumes (Grammar.stmt cfg) where
  lt {q r s} hl h := by
    rw [Seam.stmt_eq_statement] at h
    exact Consumes.lt hl h

/-- One round of a loop over statements: whether a statement is read or passed over, tokens are
consumed, unless the stream or the block around it ends here. -/
theorem recovering_lt {q : Progress} (hl : q.cursor.last.kind = .eof) (he : q.cursor.kind ≠ .eof)
    (hd : q.cursor.kind ≠ .dedent) : (recovering (Grammar.stmt cfg) q).2.remaining < q.remaining := by
  unfold recovering
  split
  · next s r hs => exact Consumes.lt hl hs
  · next fault r hs =>
    have hforth := Forward.forth (x := Grammar.stmt cfg) q
    rw [hs] at hforth
    change (synchronize (decide (r.remaining < q.remaining)) r.cursor).remaining < q.cursor.remaining
    by_cases hlt : r.remaining < q.remaining
    · exact Nat.lt_of_le_of_lt (Seam.remaining_synchronize_le _ _) hlt
    · -- a statement that failed at its first token leaves the cursor where it was
      have hstay : r.cursor = q.cursor := Cursor.Forth.eq_of_le hforth (Nat.not_lt.mp hlt)
      obtain ⟨ts, hts⟩ := Cursor.exists_cons hl he
      rw [decide_eq_false hlt, hstay]
      exact Seam.remaining_synchronize_lt hts he hd

end Grammar

end Offside
