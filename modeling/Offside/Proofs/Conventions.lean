import Offside.Proofs.Moves
import Offside.Proofs.Seam.Stream
import Offside.Scan

namespace Offside

/-- What tells two rules apart: faults of some kind, and states that hold one. -/
structure Refusal (σ : Type) where
  fault : Diagnostic → Prop
  state : σ → Prop

variable {σ α β : Type}

/-- The outcome with its state changed. -/
def carried (φ : σ → σ) : EStateM.Result Diagnostic σ α → EStateM.Result Diagnostic σ α
  | .ok a s => .ok a (φ s)
  | .error e s => .error e (φ s)

namespace Refusal

def Shown (X : Refusal σ) : EStateM.Result Diagnostic σ α → Prop
  | .ok _ s => X.state s
  | .error e s => X.fault e ∨ X.state s

def Kept (X : Refusal σ) (s t : σ) : Prop := X.state s → X.state t

instance (X : Refusal σ) : Std.Refl X.Kept := ⟨fun _ => id⟩

instance (X : Refusal σ) : IsTrans σ X.Kept := ⟨fun _ _ _ h h' => h' ∘ h⟩

theorem shown_of_state {X : Refusal σ} {r : EStateM.Result Diagnostic σ α} (h : X.state (endState r)) :
    X.Shown r := by
  cases r with
  | ok a s => exact h
  | error e s => exact Or.inr h

end Refusal

/-- The second rule does what the first one does, with the state changed before and after, unless a
refusal shows there. -/
structure Extends (X : Refusal σ) (φ : σ → σ) (x x' : EStateM Diagnostic σ α) : Prop where
  kept : Moves X.Kept (fun _ => True) x
  same : ∀ s, X.Shown (x s) ∨ x' (φ s) = carried φ (x s)

namespace Extends

variable {X : Refusal σ} {φ : σ → σ} {x x' y y' : EStateM Diagnostic σ α}
  {g g' : α → EStateM Diagnostic σ β}

theorem pure {a : α} : Extends X φ (Pure.pure a) (Pure.pure a) := ⟨Moves.pure, fun _ => Or.inr rfl⟩

theorem throw {e : Diagnostic} : Extends (α := α) X φ (throw e) (throw e) :=
  ⟨Moves.throw, fun _ => Or.inr rfl⟩

theorem ite {p : Prop} [Decidable p] (hx : p → Extends X φ x x') (hy : ¬p → Extends X φ y y') :
    Extends X φ (if p then x else y) (if p then x' else y') := by
  split
  · exact hx ‹_›
  · exact hy ‹_›

theorem bind (hx : Extends X φ x x') (hg : ∀ a, Extends X φ (g a) (g' a)) :
    Extends X φ (x >>= g) (x' >>= g') where
  kept := hx.kept.bind fun a => (hg a).kept
  same s := by
    change X.Shown (EStateM.bind x g s) ∨ EStateM.bind x' g' (φ s) = carried φ (EStateM.bind x g s)
    unfold EStateM.bind
    rcases hx.same s with h | h
    · -- a refusal that shows in the first part is not undone by the second
      left
      generalize x s = r at h
      cases r with
      | ok a t => exact Refusal.shown_of_state ((hg a).kept t trivial h)
      | error e t => exact h
    · rw [h]
      cases x s with
      | ok a t => exact (hg a).same t
      | error e t => exact Or.inr rfl

theorem map {f : α → β} (hx : Extends X φ x x') : Extends X φ (f <$> x) (f <$> x') := by
  change Extends X φ (x >>= fun a => Pure.pure (f a)) (x' >>= fun a => Pure.pure (f a))
  exact hx.bind fun _ => pure

theorem many {size : σ → Nat} (hsize : ∀ s, size (φ s) = size s)
    {step step' : EStateM Diagnostic σ (Option α)} (h : Extends X φ step step') :
    Extends X φ (many size step) (many size step') where
  kept := Moves.many h.kept fun _ _ _ _ => trivial
  same s := by
    induction s using WellFounded.induction (measure size).wf with
    | _ s ih =>
      rw [Offside.many, Offside.many]
      rcases h.same s with hs | hs
      · left
        generalize step s = r at hs
        match r with
        | .error e t | .ok none t => exact hs
        | .ok (some a) t =>
          dsimp only
          split
          · have hm : X.state (endState (Offside.many size step t)) :=
              Moves.many h.kept (fun _ _ _ _ => trivial) t trivial hs
            generalize Offside.many size step t = m at hm
            cases m <;> exact Refusal.shown_of_state hm
          · exact hs
      · rw [hs]
        match step s with
        | .error e t | .ok none t => exact Or.inr rfl
        | .ok (some a) t =>
          dsimp only [carried]
          rw [hsize, hsize]
          split
          · next hlt =>
            rcases ih t hlt with hm | hm
            · left
              generalize Offside.many size step t = m at hm
              cases m <;> exact hm
            · rw [hm]
              right
              generalize Offside.many size step t = m
              cases m <;> rfl
          · exact Or.inr rfl

end Extends

/-- A fault for a convention that one set refuses and another one accepts. -/
def Diagnostic.Refuses (small large : ConventionSet) (d : Diagnostic) : Prop :=
  ∃ c : Convention, d.cause = .conventionNotEnabled c.word ∧ small.accepts c = false ∧
    large.accepts c = true

namespace Grammar

open Rule

variable {small large : ConventionSet}

def wordRefusal (small large : ConventionSet) : Refusal Cursor where
  fault := Diagnostic.Refuses small large
  state _ := False

abbrev Widens (small large : ConventionSet) (x x' : Rule α) : Prop :=
  Extends (wordRefusal small large) id x x'

section Rules

variable {item item' : Rule α}

theorem widens_self (x : Rule α) : Widens small large x x where
  kept _ _ := id
  same c := by
    right
    rw [id_eq]
    cases x c <;> rfl

theorem listUpTo_widens {close : Kind} (h : Widens small large item item') :
    Widens small large (listUpTo close item) (listUpTo close item') := by
  have htail : Widens small large (commaTail (· == close) item) (commaTail (· == close) item') :=
    .many (fun _ => rfl) <| (widens_self _).bind fun _ => .ite
      (fun _ => (widens_self _).bind fun _ => .ite (fun _ => .pure) fun _ => h.map) fun _ => .pure
  exact (widens_self _).bind fun _ => .ite (fun _ => .pure) fun _ =>
    h.bind fun _ => htail.bind fun _ => .pure

variable (hsub : ∀ c, small.accepts c = true → large.accepts c = true)

include hsub

theorem convention?_widens : Widens small large (convention? small) (convention? large) := by
  refine (widens_self _).bind fun t => (widens_self _).bind fun next => .ite (fun _ => ?_) fun _ => .pure
  unfold conventionBy
  cases Convention.ofWord? t.text with
  | none => exact .pure
  | some c =>
    -- the sets part at a word that the smaller one refuses and the larger one accepts
    dsimp only
    cases hsmall : small.accepts c with
    | true =>
      rw [if_pos rfl, if_pos (hsub c hsmall)]
      exact widens_self _
    | false =>
      cases hlarge : large.accepts c with
      | true => exact ⟨fun _ _ => id, fun _ => Or.inl (Or.inl ⟨c, rfl, hsmall, hlarge⟩)⟩
      | false => exact widens_self _

theorem parameters_widens : Widens small large (parameters small) (parameters large) := by
  have hitem : Widens small large (parameter small) (parameter large) :=
    (widens_self _).bind fun _ => (convention?_widens hsub).bind fun _ => widens_self _
  exact (widens_self _).bind fun _ => (listUpTo_widens hitem).bind fun _ => widens_self _

theorem result?_widens : Widens small large (result? small) (result? large) :=
  (widens_self _).bind fun _ => .ite
    (fun _ => (convention?_widens hsub).bind fun _ => widens_self _) fun _ => .pure

theorem functionHead_widens : Widens small large (functionHead small) (functionHead large) :=
  (widens_self _).bind fun _ => (widens_self _).bind fun _ => (widens_self _).bind fun _ =>
    (parameters_widens hsub).bind fun _ => (widens_self _).bind fun _ =>
      (result?_widens hsub).bind fun _ => (widens_self _).bind fun _ => .pure

end Rules

end Grammar

/-- A configuration has the flag of another one, or none. -/
def Config.FlagOf (cfg' cfg : Config) : Prop :=
  cfg'.cancel = true → cfg.cancel = true ∧ cfg'.patience = cfg.patience

namespace Grammar

open Rule

variable {cfg cfg' : Config}

namespace Progress

/-- The same state where a flag is looked at only if there is one. -/
def under (cfg : Config) (q : Progress) : Progress := if cfg.cancel then q else { q with polls := 0 }

variable (cfg : Config) (q : Progress)

@[simp]
theorem under_cursor : (q.under cfg).cursor = q.cursor := by
  unfold under
  split <;> rfl

@[simp]
theorem under_diagnostics : (q.under cfg).diagnostics = q.diagnostics := by
  unfold under
  split <;> rfl

@[simp]
theorem under_remaining : (q.under cfg).remaining = q.remaining :=
  congrArg Cursor.remaining (q.under_cursor cfg)

theorem under_with (c : Cursor) (ds : List Diagnostic) :
    { q.under cfg with cursor := c, diagnostics := ds } =
      ({ q with cursor := c, diagnostics := ds } : Progress).under cfg := by
  unfold under
  split <;> rfl

theorem under_advance : (q.under cfg).advance = q.advance.under cfg := by
  unfold under
  split <;> rfl

omit cfg

variable {cfg : Config} (hflag : cfg'.FlagOf cfg)

include hflag

theorem under_poll : (q.under cfg').poll cfg' = (q.poll cfg).under cfg' := by
  unfold under poll
  cases hc : cfg'.cancel with
  | true =>
    rw [(hflag hc).1]
    rfl
  | false =>
    rw [if_neg Bool.false_ne_true, if_neg Bool.false_ne_true, if_neg Bool.false_ne_true]
    split <;> rfl

theorem under_cancelled : (q.under cfg').cancelled cfg' = (cfg'.cancel && q.cancelled cfg) := by
  unfold under cancelled
  cases hc : cfg'.cancel with
  | true =>
    rw [(hflag hc).1, (hflag hc).2]
    rfl
  | false => rfl

end Progress

/-- A convention has been refused that the other configuration accepts, or the parse has been cancelled
and the other configuration has no flag. -/
def recordedRefusal (cfg cfg' : Config) : Refusal Progress where
  fault := Diagnostic.Refuses cfg.conventions cfg'.conventions
  state q := (∃ d ∈ q.diagnostics, Diagnostic.Refuses cfg.conventions cfg'.conventions d) ∨
    cfg'.cancel = false ∧ q.cancelled cfg = true

abbrev WidensStmt (cfg cfg' : Config) (x x' : StmtRule α) : Prop :=
  Extends (recordedRefusal cfg cfg') (Progress.under cfg') x x'

theorem lifted_widens {x x' : Rule α} (h : Widens cfg.conventions cfg'.conventions x x') :
    WidensStmt cfg cfg' (lifted x) (lifted x') where
  kept q _ := by
    unfold lifted
    split <;> exact id
  same q := by
    unfold lifted
    rw [q.under_cursor]
    rcases h.same q.cursor with hx | hx
    · left
      generalize x q.cursor = r at hx
      cases r with
      | ok a c => exact absurd hx id
      | error e c => exact Or.inl (hx.resolve_right id)
    · rw [id_eq] at hx
      rw [hx]
      right
      have hwith (c : Cursor) : { q.under cfg' with cursor := c } = ({ q with cursor := c } : Progress).under cfg' := by
        unfold Progress.under
        split <;> rfl
      cases x q.cursor with
      | ok a c => exact congrArg (EStateM.Result.ok a) (hwith c)
      | error e c => exact congrArg (EStateM.Result.error e) (hwith c)

theorem lifted_self (x : Rule α) : WidensStmt cfg cfg' (lifted x) (lifted x) :=
  lifted_widens (widens_self x)

structure WidensTotal (cfg cfg' : Config) (one one' : Progress → α × Progress) : Prop where
  kept : ∀ q, (recordedRefusal cfg cfg').Kept q (one q).2
  same : ∀ q, (recordedRefusal cfg cfg').state (one q).2 ∨
    one' (q.under cfg') = ((one q).1, (one q).2.under cfg')

section Suites

variable {sub sub' : StmtRule Stmt} {stop blank : Kind → Bool} {one one' : Progress → Stmt × Progress}

/-- A fault is recorded where it is passed over, and so is a refusal. -/
theorem recovering_widens (hsub : WidensStmt cfg cfg' sub sub') :
    WidensTotal cfg cfg' (recovering sub) (recovering sub') where
  kept q hq := by
    have hkept := hsub.kept q trivial hq
    unfold recovering
    generalize sub q = r at hkept
    cases r with
    | ok s r => exact hkept
    | error fault r =>
      exact hkept.imp_left fun ⟨d, hd, hrefuses⟩ => ⟨d, List.mem_append_left _ hd, hrefuses⟩
  same q := by
    unfold recovering
    rcases hsub.same q with h | h
    · left
      generalize sub q = r at h
      cases r with
      | ok s r => exact h
      | error fault r =>
        rcases h with hrefuses | h
        · exact Or.inl ⟨fault, List.mem_append_right _ (List.mem_singleton.mpr rfl), hrefuses⟩
        · exact h.imp_left fun ⟨d, hd, hrefuses⟩ => ⟨d, List.mem_append_left _ hd, hrefuses⟩
    · right
      rw [h]
      cases sub q with
      | ok s r => rfl
      | error fault r =>
        dsimp only [carried]
        rw [r.under_remaining, q.under_remaining, r.under_cursor, q.under_cursor, r.under_diagnostics,
          Progress.under_with]

theorem kept_poll (q : Progress) : (recordedRefusal cfg cfg').Kept q (q.poll cfg) :=
  Or.imp (by rw [q.poll_diagnostics]; exact id) (And.imp_right Progress.cancelled_poll)

theorem statements_kept (hone : ∀ q, (recordedRefusal cfg cfg').Kept q (one q).2) (q : Progress) :
    (recordedRefusal cfg cfg').Kept q (statements cfg stop blank one q).2 := by
  exact statements_invariant cfg q (I := fun _ p => (recordedRefusal cfg cfg').Kept q p)
    (fun _ p hp => kept_poll p ∘ hp) (fun _ _ hp => hp) (fun _ p _ _ hp => hone p ∘ hp) [] id

variable (hflag : cfg'.FlagOf cfg)

include hflag

theorem statements_widens (hone : WidensTotal cfg cfg' one one') :
    WidensTotal cfg cfg' (statements cfg stop blank one) (statements cfg' stop blank one') where
  kept := statements_kept hone.kept
  same q := by
    have hcancelled (p : Progress) (h : ¬(p.under cfg').cancelled cfg' = true) (hp : p.cancelled cfg = true) :
        (recordedRefusal cfg cfg').state p := by
      rw [p.under_cancelled hflag, hp, Bool.and_true, Bool.not_eq_true] at h
      exact Or.inr ⟨h, hp⟩
    have hup (p : Progress) (h : ¬p.cancelled cfg = true) : ¬(p.under cfg').cancelled cfg' = true := by
      rw [p.under_cancelled hflag, Bool.eq_false_iff.mpr h, Bool.and_false]
      nofun
    fun_induction statements cfg stop blank one q with
    | case1 q hs =>
      rw [statements.eq_def cfg', if_pos (by rwa [q.under_cursor])]
      exact Or.inr rfl
    | case2 q hs p hc =>
      rw [statements.eq_def cfg', if_neg (by rwa [q.under_cursor])]
      dsimp only
      rw [q.under_poll hflag]
      by_cases h : (p.under cfg').cancelled cfg' = true
      · rw [if_pos h]
        exact Or.inr rfl
      · exact Or.inl (hcancelled p h hc)
    | case3 q hs p hc hb hlt ih =>
      rw [statements.eq_def cfg', if_neg (by rwa [q.under_cursor])]
      dsimp only
      rw [q.under_poll hflag, if_neg (hup p hc), if_pos (by rwa [p.under_cursor]),
        p.under_advance, Progress.under_remaining, q.under_remaining, if_pos hlt]
      exact ih
    | case4 q hs p hc hb hlt =>
      rw [statements.eq_def cfg', if_neg (by rwa [q.under_cursor])]
      dsimp only
      rw [q.under_poll hflag, if_neg (hup p hc), if_pos (by rwa [p.under_cursor]),
        p.under_advance, Progress.under_remaining, q.under_remaining, if_neg hlt]
      exact Or.inr rfl
    | case5 q hs p hc hb s hlt rest ih =>
      rcases hone.same p with h | h
      · exact Or.inl (statements_kept hone.kept s.2 h)
      refine ih.imp_right fun hrest => ?_
      rw [statements.eq_def cfg', if_neg (by rwa [q.under_cursor])]
      dsimp only
      rw [q.under_poll hflag, if_neg (hup p hc), if_neg (by rwa [p.under_cursor]), h]
      dsimp only
      rw [Progress.under_remaining, q.under_remaining, if_pos hlt, hrest]
    | case6 q hs p hc hb s hlt =>
      refine (hone.same p).imp_right fun h => ?_
      rw [statements.eq_def cfg', if_neg (by rwa [q.under_cursor])]
      dsimp only
      rw [q.under_poll hflag, if_neg (hup p hc), if_neg (by rwa [p.under_cursor]), h]
      dsimp only
      rw [Progress.under_remaining, q.under_remaining, if_neg hlt]

omit hflag in
theorem closeBlock_kept (q : Progress) : (recordedRefusal cfg cfg').Kept q (closeBlock cfg q) := by
  intro h
  have hp := kept_poll q h
  unfold closeBlock
  dsimp only
  split
  · exact hp
  · split
    · exact hp
    · exact hp

theorem closeBlock_widens (q : Progress) : (recordedRefusal cfg cfg').state (closeBlock cfg q) ∨
    closeBlock cfg' (q.under cfg') = (closeBlock cfg q).under cfg' := by
  unfold closeBlock
  dsimp only
  rw [q.under_poll hflag, (q.poll cfg).under_cancelled hflag, (q.poll cfg).under_cursor,
    (q.poll cfg).under_advance]
  cases hc : (q.poll cfg).cancelled cfg with
  | true =>
    rw [if_pos rfl, Bool.and_true]
    cases hflag' : cfg'.cancel with
    | true => exact Or.inr rfl
    | false => exact Or.inl (Or.inr ⟨hflag', hc⟩)
  | false =>
    rw [if_neg Bool.false_ne_true, Bool.and_false, if_neg Bool.false_ne_true]
    right
    split
    · rfl
    · rfl

omit hflag

variable (hflag : cfg'.FlagOf cfg)
  (hsub : WidensStmt cfg cfg' sub sub')

include hsub in
theorem inlineBody_widens : WidensStmt cfg cfg' (inlineBody sub) (inlineBody sub') := by
  have hone : WidensStmt cfg cfg' (inlineStmt sub) (inlineStmt sub') :=
    (lifted_self _).bind fun _ => .ite (fun _ => lifted_self _) fun _ => hsub
  have hround (p : Progress) :
      WidensStmt cfg cfg' (bodyRoundAt p.cursor sub) (bodyRoundAt p.cursor sub') :=
    .ite (fun _ => .pure) fun _ => hone.map
  -- a round goes on from the state that it looks at
  have hstep : WidensStmt cfg cfg' (bodyRound sub) (bodyRound sub') := by
    refine ⟨fun q => (hround q).kept q, fun q => ?_⟩
    rw [Seam.bodyRound_run, Seam.bodyRound_run, q.under_cursor]
    exact (hround q).same q
  exact (lifted_self _).bind fun _ => hone.bind fun _ =>
    (Extends.many (Progress.under_remaining cfg') hstep).bind fun _ => .pure

include hflag hsub

theorem blockBody_widens : WidensStmt cfg cfg' (blockBody cfg sub) (blockBody cfg' sub') := by
  have hloop : WidensTotal cfg cfg' (Seam.blockLoop cfg sub) (Seam.blockLoop cfg' sub') :=
    statements_widens hflag (recovering_widens hsub)
  constructor
  · exact fun q _ h => closeBlock_kept _ (hloop.kept q h)
  · intro q
    rcases hloop.same q with h | h
    · exact Or.inl (closeBlock_kept _ h)
    · refine (closeBlock_widens hflag (Seam.blockLoop cfg sub q).2).imp_right fun hclose => ?_
      rw [Seam.blockBody_run, h, hclose]
      rfl

theorem suite_widens : WidensStmt cfg cfg' (suite cfg sub) (suite cfg' sub') :=
  (lifted_self _).bind fun _ => (lifted_self _).bind fun _ => .ite
    (fun _ => (lifted_self _).bind fun _ => (lifted_self _).bind fun _ => .ite
      (fun _ => (lifted_self _).bind fun _ => (blockBody_widens hflag hsub).bind fun _ => .pure)
      fun _ => .throw)
    fun _ => inlineBody_widens hsub

theorem typeStmt_widens (word : TypeWord) :
    WidensStmt cfg cfg' (typeStmt cfg sub word) (typeStmt cfg' sub' word) :=
  (lifted_self _).bind fun ⟨_, _⟩ => (suite_widens hflag hsub).bind fun _ => .pure

theorem ifStmt_widens : WidensStmt cfg cfg' (ifStmt cfg sub) (ifStmt cfg' sub') := by
  have helif : WidensStmt cfg cfg' (elifClause? cfg sub) (elifClause? cfg' sub') :=
    (lifted_self _).bind fun _ => .ite (fun _ => (lifted_self _).bind fun ⟨_, _⟩ =>
      (suite_widens hflag hsub).bind fun _ => .pure) fun _ => .pure
  have helse : WidensStmt cfg cfg' (elseBody? cfg sub) (elseBody? cfg' sub') :=
    (lifted_self _).bind fun _ => .ite (fun _ => (suite_widens hflag hsub).map) fun _ => .pure
  exact (lifted_self _).bind fun ⟨_, _⟩ => (suite_widens hflag hsub).bind fun _ =>
    (Extends.many (Progress.under_remaining cfg') helif).bind fun _ => helse.bind fun _ => .pure

theorem forStmt_widens : WidensStmt cfg cfg' (forStmt cfg sub) (forStmt cfg' sub') :=
  (lifted_self _).bind fun ⟨_, _, _⟩ => (suite_widens hflag hsub).bind fun _ => .pure

theorem whileStmt_widens : WidensStmt cfg cfg' (whileStmt cfg sub) (whileStmt cfg' sub') :=
  (lifted_self _).bind fun ⟨_, _⟩ => (suite_widens hflag hsub).bind fun _ => .pure

end Suites

section Streams

variable {cfg cfg' : Config} {sub sub' : StmtRule Stmt} (hflag : cfg'.FlagOf cfg)
  (hsets : ∀ c, cfg.conventions.accepts c = true → cfg'.conventions.accepts c = true)

include hflag hsets

/-- The header of a function is the only one that asks for the set. -/
theorem functionStmt_widens (hsub : WidensStmt cfg cfg' sub sub') :
    WidensStmt cfg cfg' (functionStmt cfg sub) (functionStmt cfg' sub') :=
  (lifted_widens (functionHead_widens hsets)).bind fun ⟨_, _⟩ =>
    (suite_widens hflag hsub).bind fun _ => .pure

theorem statement_widens (hsub : WidensStmt cfg cfg' sub sub') :
    WidensStmt cfg cfg' (statement cfg sub) (statement cfg' sub') := by
  have hdefinition : WidensStmt cfg cfg' (definition cfg sub)
      (definition cfg' sub') := by
    refine (lifted_self _).bind fun k => ?_
    cases k using definition_cases with
    | function => exact functionStmt_widens hflag hsets hsub
    | type word => exact typeStmt_widens hflag hsub word
    | other => exact (lifted_self _).bind fun _ => .throw
  refine (lifted_self _).bind fun k => ?_
  cases k using statement_cases with
  | indent => exact lifted_self _
  | function => exact functionStmt_widens hflag hsets hsub
  | type word => exact typeStmt_widens hflag hsub word
  | conditional => exact ifStmt_widens hflag hsub
  | forLoop => exact forStmt_widens hflag hsub
  | whileLoop => exact whileStmt_widens hflag hsub
  | decorated => exact (lifted_self _).bind fun _ => (lifted_self _).bind fun _ => hdefinition.bind fun _ => .pure
  | simple => exact lifted_self _

/-- Statements inside a statement that began before so many tokens. -/
theorem innerStmt_widens (m : Nat) : WidensStmt cfg cfg'
    (Seam.innerStmt cfg m) (Seam.innerStmt cfg' m) := by
  -- the statements inside begin before fewer tokens
  induction m using Nat.strongRecOn with
  | _ m ih =>
    have hstatement {q : Progress} (hlt : q.remaining < m) :=
      statement_widens hflag hsets (ih q.remaining hlt)
    constructor
    · intro q _
      by_cases hlt : q.remaining < m
      · rw [Seam.innerStmt_of_lt hlt, Seam.stmt_eq_statement]
        exact (hstatement hlt).kept q trivial
      · rw [Seam.innerStmt, if_neg hlt]
        exact id
    · intro q
      by_cases hlt : q.remaining < m
      · rw [Seam.innerStmt_of_lt hlt, Seam.innerStmt_of_lt (by rwa [q.under_remaining]),
          Seam.stmt_eq_statement, Seam.stmt_eq_statement, q.under_remaining]
        exact (hstatement hlt).same q
      · rw [Seam.innerStmt, Seam.innerStmt, if_neg hlt, q.under_remaining, if_neg hlt, q.under_cursor]
        exact Or.inr rfl

theorem stmt_widens : WidensStmt cfg cfg' (stmt cfg) (stmt cfg') where
  kept q _ := by
    rw [Seam.stmt_eq_statement]
    exact (statement_widens hflag hsets (innerStmt_widens hflag hsets _)).kept q trivial
  same q := by
    rw [Seam.stmt_eq_statement, Seam.stmt_eq_statement, q.under_remaining]
    exact (statement_widens hflag hsets (innerStmt_widens hflag hsets _)).same q

/-- With a larger set, or without the flag, the parse is the same, unless a word is refused that the
larger set accepts or the parse is cancelled that the flag is taken from. -/
theorem parse_widens (tokens : List Token) :
    ((∃ d ∈ (parse cfg tokens).diagnostics, d.Refuses cfg.conventions cfg'.conventions) ∨
      cfg'.cancel = false ∧ (parse cfg tokens).cancelled = true) ∨
      parse cfg' tokens = parse cfg tokens := by
  have hloop : WidensTotal cfg cfg' (streamLoop cfg) (streamLoop cfg') :=
    statements_widens hflag (recovering_widens (stmt_widens hflag hsets))
  rcases hloop.same { cursor := Cursor.ofTokens tokens } with h | h
  · exact Or.inl h
  by_cases hstopped : cfg'.cancel = false ∧ (parse cfg tokens).cancelled = true
  · exact Or.inl (Or.inr hstopped)
  right
  have hstart : Progress.under cfg' { cursor := Cursor.ofTokens tokens } = { cursor := Cursor.ofTokens tokens } := by
    unfold Progress.under
    split <;> rfl
  rw [hstart] at h
  have hcancelled : (topLevel cfg tokens).2.cancelled cfg =
      ((topLevel cfg tokens).2.under cfg').cancelled cfg' := by
    rw [Progress.under_cancelled _ hflag]
    cases hc : cfg'.cancel with
    | true => rfl
    | false => exact Bool.eq_false_iff.mpr fun h => hstopped ⟨hc, h⟩
  have htop : topLevel cfg' tokens = ((topLevel cfg tokens).1, (topLevel cfg tokens).2.under cfg') := h
  rw [parse, htop]
  change Parsed.mk _ _ _ = Parsed.mk (topLevel cfg tokens).1 (topLevel cfg tokens).2.diagnostics
    ((topLevel cfg tokens).2.cancelled cfg)
  rw [hcancelled, Progress.under_diagnostics]

end Streams

/-- Equal sets refuse the same words. -/
theorem not_refuses_self {small large : ConventionSet} (hsets : large = small) (d : Diagnostic) :
    ¬d.Refuses small large := by
  rintro ⟨c, -, hsmall, hlarge⟩
  rw [hsets, hsmall] at hlarge
  contradiction

/-- With the same set, the parse is the same, unless the flag is taken from it that cancels it. -/
theorem parse_sameSet {cfg cfg' : Config} {tokens : List Token} (hflag : cfg'.FlagOf cfg)
    (hsets : cfg'.conventions = cfg.conventions)
    (hcancelled : cfg'.cancel = false → (parse cfg tokens).cancelled = false) :
    parse cfg' tokens = parse cfg tokens := by
  refine (parse_widens hflag (fun _ h => hsets ▸ h) tokens).resolve_left ?_
  rintro (⟨d, -, hrefuses⟩ | ⟨hnone, hfound⟩)
  · exact not_refuses_self hsets d hrefuses
  · rw [hcancelled hnone] at hfound
    contradiction

/-- A parse asks its configuration for the conventions and for the flag that cancels it only. -/
theorem parse_congr (cfg cfg' : Config) (hcancel : cfg'.cancel = cfg.cancel)
    (hpatience : cfg'.patience = cfg.patience) (hsets : cfg'.conventions = cfg.conventions)
    (tokens : List Token) : parse cfg' tokens = parse cfg tokens :=
  parse_sameSet (fun h => ⟨hcancel.symm.trans h, hpatience⟩) hsets fun h =>
    parse_cancelled (hcancel.symm.trans h) tokens

/-- A parse that refuses no convention word is the parse that every word is accepted in, whatever other
faults it has. -/
theorem parse_conventions (cfg : Config) (tokens : List Token)
    (h : ∀ d ∈ (parse cfg tokens).diagnostics, ∀ word, d.cause ≠ .conventionNotEnabled word) :
    parse { cfg with conventions := .both } tokens = parse cfg tokens := by
  have hwidens := @parse_widens cfg { cfg with conventions := .both } (fun hc => ⟨hc, rfl⟩) (fun _ _ => rfl) tokens
  refine hwidens.resolve_left ?_
  rintro (⟨d, hd, c, hcause, -⟩ | ⟨hnone, hcancelled⟩)
  · exact h d hd c.word hcause
  · have hnone : cfg.cancel = false := hnone
    rw [parse_cancelled hnone] at hcancelled
    contradiction

/-- The legacy set accepts the word before the parameter, and the body is at fault. -/
theorem parse_conventions_owned :
    (parse { conventions := .legacy } (Scan.scan {} "fn f(owned a):\n  x =\n").tokens).diagnostics =
        [⟨.unexpectedToken "Newline", Span.ofNat 20 21⟩] ∧
      parse { conventions := .both } (Scan.scan {} "fn f(owned a):\n  x =\n").tokens =
        parse { conventions := .legacy } (Scan.scan {} "fn f(owned a):\n  x =\n").tokens := by
  have hfault : (parse { conventions := .legacy } (Scan.scan {} "fn f(owned a):\n  x =\n").tokens).diagnostics =
      [⟨.unexpectedToken "Newline", Span.ofNat 20 21⟩] := by decide +kernel
  refine ⟨hfault, parse_conventions { conventions := .legacy } _ fun d hd word => ?_⟩
  rw [hfault] at hd
  rw [List.mem_singleton.mp hd]
  exact Cause.noConfusion

end Grammar

end Offside
