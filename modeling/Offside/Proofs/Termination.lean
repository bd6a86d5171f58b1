import Offside.Proofs.Forward.Stmt

namespace Offside

open Grammar

section Loops

variable {σ α : Type} [HasCursor σ]

/-- A loop without a guard, unrolled. -/
def manyWithin (stuck step : EStateM Diagnostic σ (Option α)) : Nat → EStateM Diagnostic σ (List α)
  | 0 => Option.toList <$> stuck
  | n + 1 => do
    match ← step with
    | none => return []
    | some a => return a :: (← manyWithin stuck step n)

def iterateWithin (stuck step : α → EStateM Diagnostic σ (Option α)) : Nat → α → EStateM Diagnostic σ α
  | 0, a => (fun r => r.getD a) <$> stuck a
  | n + 1, a => do
    match ← step a with
    | none => return a
    | some b => iterateWithin stuck step n b

def tokensLeft (s : σ) : Nat := (cursorOf s).remaining

theorem manyWithin_eq {step : EStateM Diagnostic σ (Option α)} [hforward : Forward step]
    [hround : Rounds step] (stuck : EStateM Diagnostic σ (Option α)) {n : Nat} {s : σ}
    (hl : (cursorOf s).last.kind = .eof) (hn : tokensLeft s < n) :
    manyWithin stuck step n s = many tokensLeft step s := by
  induction n generalizing s with
  | zero => exact absurd hn (Nat.not_lt_zero _)
  | succ n ih =>
    rw [many]
    change EStateM.bind step _ s = _
    unfold EStateM.bind
    cases hstep : step s with
    | error e t => rfl
    | ok o t =>
      cases o with
      | none => rfl
      | some a =>
        -- a round that goes on took a token, so the guard lets it, and one unrolling less is enough
        have hlt : tokensLeft t < tokensLeft s := hround.lt hl hstep
        have hrest := ih (s := t) ((hforward.of_ok hstep).last_eq ▸ hl) (by omega)
        simp only [if_pos hlt]
        change EStateM.bind (manyWithin stuck step n) _ t = _
        unfold EStateM.bind
        rw [hrest]
        cases many tokensLeft step t <;> rfl

theorem iterateWithin_eq {step : α → EStateM Diagnostic σ (Option α)} [hforward : ∀ a, Forward (step a)]
    [hround : ∀ a, Rounds (step a)] (stuck : α → EStateM Diagnostic σ (Option α)) {n : Nat} {a : α}
    {s : σ} (hl : (cursorOf s).last.kind = .eof) (hn : tokensLeft s < n) :
    iterateWithin stuck step n a s = iterate tokensLeft step a s := by
  induction n generalizing s a with
  | zero => exact absurd hn (Nat.not_lt_zero _)
  | succ n ih =>
    rw [iterate]
    change EStateM.bind (step a) _ s = _
    unfold EStateM.bind
    cases hstep : step a s with
    | error e t => rfl
    | ok o t =>
      cases o with
      | none => rfl
      | some b =>
        have hlt : tokensLeft t < tokensLeft s := (hround a).lt hl hstep
        simp only [if_pos hlt]
        exact ih (((hforward a).of_ok hstep).last_eq ▸ hl) (by omega)

end Loops

namespace Grammar

section Expressions

open Seam

variable {c d : Cursor} {sub : ExprRule}

/-- Both sides of a seam between a stream and itself are at the same cursor. -/
theorem at_self {last : Token} {hlast : last.kind = .eof} {D D' : List Diagnostic} {p : Depth}
    {done rest : List Token} {c₀ c c' : Cursor}
    (h : (moved id false last hlast D D').At ⟨c₀, c₀⟩ p done rest c c') : c' = c := by
  have hrest : c'.rest = c.rest := by
    have hid (t : Token) : relocate id t = t := rfl
    rw [h.rest_eq, h.rest_eq']
    change rest.map (relocate id) ++ [] = rest ++ []
    rw [funext hid, List.map_id']
  have hlast : c'.last = c.last := h.last_eq'.trans h.last_eq.symm
  have hprevious : c'.previous = c.previous := by
    rcases Nat.lt_or_eq_of_le h.le_bound with hlt | heq
    · obtain ⟨t, ht, ht'⟩ := h.moved hlt
      rw [ht, ht']
      rfl
    · obtain ⟨rfl, rfl⟩ := h.unmoved heq
      rfl
  cases c
  cases c'
  simp_all

/-- What an expression is hangs on what its subexpressions are where fewer tokens are left. -/
theorem climb_congr (hl : c.last.kind = .eof) (level : Level)
    (hsub : ∀ level d, d.last.kind = .eof → d.remaining < c.remaining → sub level d = expr level d) :
    climb sub level c = expr level c := by
  -- between the stream and itself, moved by nothing, what is read alike is read the same
  let S := moved id false c.last hl [] []
  have hinline (level : Level) : S.Inline ⟨c, c⟩ (inner c.remaining level) (sub level) := by
    intro p
    have hinner := inner_alike (S := S) (b := true) (N := ⟨c, c⟩) (p := p) c.remaining c.remaining
      (Nat.le_refl _) level
    refine ⟨hinner.onward, fun d d' h => ?_⟩
    obtain ⟨done, rest, hat, -, hlt⟩ := id h
    obtain rfl : d' = d := at_self hat
    have hlt : d'.remaining < c.remaining := hlt rfl
    have hsame : sub level d' = inner c.remaining level d' :=
      (hsub level d' (hat.last_eq ▸ hl) hlt).trans (inner_of_lt hlt).symm
    rw [hsame]
    exact hinner.agree d' d' ⟨h, hlt⟩
  have hin : S.In false ⟨c, c⟩ (.flat 0) c c := by
    have hon := on_self false { cursor := c } hl
    exact hon.1.inside (Or.inl rfl)
  have hclimb := (climb_alike (P := S.In false ⟨c, c⟩ (.flat 0)) hinline level).agree c c hin
  rw [expr_eq_climb]
  rcases hclimb with hescape | hagree
  · generalize climb (inner c.remaining) level c = r at hescape
    cases r with
    | ok e d => exact absurd rfl hescape.1
    | error e d => exact hescape.elim (fun h => absurd rfl h.1) fun h => absurd rfl h.1
  · generalize climb (inner c.remaining) level c = r at hagree ⊢
    generalize climb sub level c = r' at hagree ⊢
    cases hagree with
    | ok h =>
      obtain ⟨done, rest, hat, -, -⟩ := h
      rw [at_self hat]
      exact congrArg (EStateM.Result.ok · _) (Expr.mapSpans_id _)
    | error h =>
      obtain ⟨n, done, rest, hat, -⟩ := h
      rw [at_self hat]
      rfl

def exprWithin (stuck : ExprRule) : Nat → ExprRule
  | 0 => stuck
  | n + 1 => climb (exprWithin stuck n)

theorem exprWithin_eq (stuck : ExprRule) {n : Nat} (level : Level) (hl : c.last.kind = .eof)
    (hn : c.remaining < n) : exprWithin stuck n level c = expr level c := by
  induction n generalizing c level with
  | zero => exact absurd hn (Nat.not_lt_zero _)
  | succ n ih => exact climb_congr hl level fun level d hd hlt => ih level hd (by omega)

end Expressions

end Grammar

end Offside
