import Offside.Proofs.Extent.Simple
import Offside.Proofs.Forward.Rules
import Offside.Proofs.Reading.Expr
import Offside.Proofs.Writing

namespace Offside

open Grammar

variable {c d : Cursor}

instance : Fact (Kind.comma ≠ .eof) := ⟨nofun⟩

instance : Fact (Kind.dot ≠ .eof) := ⟨nofun⟩

namespace Grammar

section Consuming

/-- A round that consumes a token where one of some kind stands. -/
def RoundsAt {α : Type} (k : Kind) (step : Rule (Option α)) : Prop :=
  ∀ (c d : Cursor) (a : α), c.last.kind = .eof → c.kind = k → step c = .ok (some a) d →
    d.remaining < c.remaining

theorem RoundsAt.opens {α : Type} {k : Kind} {step : Rule (Option α)} [Opens step] (hk : k ≠ .eof) :
    RoundsAt k step :=
  fun _ _ _ hl hc h => Opens.lt hl (hc ▸ hk) h

theorem RoundsAt.stop {α : Type} {k : Kind} : RoundsAt (α := α) k (pure none) := by
  intro c d a hl hk h
  cases h

theorem RoundsAt.peek {α : Type} {k : Kind} {n : Nat} {g : Kind → Rule (Option α)}
    (h : ∀ l, RoundsAt k (g l)) : RoundsAt k (Rule.peek n >>= g) :=
  fun c d a hl hk hx => h (c.peek n) c d a hl hk hx

theorem rounds_kind_bind {α : Type} {g : Kind → Rule (Option α)} (hg : ∀ k, RoundsAt k (g k)) :
    Rounds (Rule.kind >>= g) :=
  ⟨fun {c d a} hl h => hg c.kind c d a hl rfl h⟩

instance : Rounds stringRound := by
  refine rounds_kind_bind fun k => ?_
  split
  · next hk =>
    subst hk
    exact .opens nofun
  · exact .stop

instance {α : Type} (stop : Kind → Bool) (item : Rule α) [Forward item] :
    Rounds (Rule.commaRound stop item) := by
  unfold Rule.commaRound; infer_instance

instance : Rounds dotRound := by unfold dotRound; infer_instance

instance : Rounds nameRound := by
  refine rounds_kind_bind fun k => .peek fun n => ?_
  split
  · next h =>
    obtain ⟨rfl, -⟩ : k = .dot ∧ n = .identifier := by simpa using h
    exact .opens nofun
  · exact .stop

instance : Rounds comparisonOp? := by
  refine rounds_kind_bind fun k => ?_
  cases k using comparisonOp_cases with
  | taking op k hk =>
    exact .opens (Kind.ne_of_inner (Kind.isBoundary_of_comparison (ComparisonOp.level_of_kinds hk)) rfl)
  | is => exact .opens nofun
  | notWithin =>
    refine .peek fun n => ?_
    split
    · exact .opens nofun
    · exact .stop
  | other => exact .stop

variable (sub : ExprRule) [∀ level, Forward (sub level)]

instance : Rounds (linkRound sub) where
  lt := by
    intro c d link hl h
    obtain ⟨op, u, hop, hrest⟩ := bind_eq_ok.mp h
    cases op with
    | none => cases hrest
    | some op =>
      have hlt := Rounds.lt hl hop
      have hle := (Forward.of_ok (x := sub .comparison >>= fun e => pure (some (op, e))) hrest).remaining_le
      exact Nat.lt_of_le_of_lt hle hlt

/-- Where a comparison operator stands, a comparison consumes it. -/
theorem comparison_lt {left e : Expr} {c d : Cursor} (hl : c.last.kind = .eof)
    (hlevel : c.level = .comparison) (h : comparison sub left c = .ok e d) :
    d.remaining < c.remaining := by
  obtain ⟨links, u, hlinks, hrest⟩ := bind_eq_ok.mp h
  cases hrest
  refine many_lt hl (fun u hstop => ?_) hlinks
  obtain ⟨op, v, hop, hrest⟩ := bind_eq_ok.mp hstop
  cases op with
  | none =>
    -- at this level an operator stands here, so the first round finds one
    have hnot := (comparisonOp?_reads hl c none v (.refl c) hop).2
    exact hnot (comparisonOp?_none (P := fun c => c.level = .comparison) c none v hlevel hop rfl)
  | some op =>
    obtain ⟨_, _, _, hrest⟩ := bind_eq_ok.mp hrest
    cases hrest

instance : Consumes (callArguments sub) := by unfold callArguments; infer_instance

instance (left : Expr) : Consumes (call sub left) := by unfold call; infer_instance

/-- Where a token extends an operand, the extension consumes it. -/
theorem extension_lt {left e : Expr} {level : Level} {c d : Cursor} (hl : c.last.kind = .eof)
    (hlevel : .lowest < c.level) (h : extension sub left level c = .ok e d) :
    d.remaining < c.remaining := by
  -- an end mark extends nothing
  have hk : c.kind ≠ .eof := by
    intro hk
    rw [level_eq_ofKind (by simp [hk]) (by simp [hk]), hk] at hlevel
    exact absurd hlevel (by decide)
  have hcomparison (hof : Level.ofKind c.kind = .comparison) (h : comparison sub left c = .ok e d) :
      d.remaining < c.remaining := comparison_lt sub hl (level_eq_comparison hof hlevel) h
  unfold extension at h
  rw [Rule.kind_run] at h
  generalize hc : c.kind = k at h
  revert h
  cases k using extension_cases with
  | comparison k hof => exact hcomparison (hc ▸ hof)
  | call => exact Consumes.lt (x := call sub left) hl
  | other => nofun
  | caret | binary => exact Opens.lt hl hk
  | _ =>
    dsimp only
    exact Opens.lt hl hk

instance (level : Level) (left : Expr) : Rounds (extend? sub level left) where
  lt := by
    intro c d e hl h
    unfold extend? at h
    split at h
    · next hlevel =>
      obtain ⟨e, u, hextension, hrest⟩ := bind_eq_ok.mp h
      cases hrest
      exact extension_lt sub hl (Nat.lt_of_le_of_lt (Nat.zero_le _) hlevel) hextension
    · cases h

instance (level : Level) (left : TypeExpr) : Rounds (extendType? level left) := by
  unfold extendType?
  split
  · refine rounds_kind_bind fun k => ?_
    unfold typeTrailerAt
    split
    · exact .opens nofun
    · exact .opens nofun
    · exact .stop
  · infer_instance

instance : Rounds decorator? := by
  refine rounds_kind_bind fun k => ?_
  split
  · next hk =>
    subst hk
    exact .opens nofun
  · exact .stop

instance (level : Level) : Consumes (expr level) where
  lt {c _ _} hl h :=
    (expr_spanning.spans level c.remaining c.current.span.start _ _ _ ⟨⟨hl, Nat.le_refl _⟩, rfl⟩ h).1.2

instance : Consumes conditionHead := by unfold conditionHead; infer_instance

/-- A simple statement consumes a token where it starts with one of its own. -/
theorem simpleStmt_lt {s : Stmt} (hl : c.last.kind = .eof) (h : simpleStmt c.kind c = .ok s d) :
    d.remaining < c.remaining := by
  obtain ⟨body, hbody, -, hspans⟩ := simpleStmt_ended (m := c.remaining) (o := c.current.span.start) c.kind
  rw [hbody] at h
  obtain ⟨s', u, hs, hend⟩ := bind_eq_ok.mp h
  have hlt := (hspans c s' u ⟨⟨⟨hl, Nat.le_refl _⟩, rfl⟩, rfl⟩ hs).1.2
  obtain ⟨_, v, hclose, hrest⟩ := bind_eq_ok.mp hend
  cases hrest
  exact Nat.lt_of_le_of_lt (Forward.of_ok hclose).remaining_le hlt

end Consuming

end Grammar

end Offside
