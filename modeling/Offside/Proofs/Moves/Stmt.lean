import Offside.Proofs.Blocks
import Offside.Proofs.Extent.Simple
import Offside.Proofs.Seam.Stream

namespace Offside

open Grammar

theorem Closes.unit {t : Token} (hi : t.kind ≠ .indent) (hd : t.kind ≠ .dedent) : Closes 0 [t] :=
  closes_inside fun u hu => by
    rw [List.mem_singleton.mp hu]
    exact ⟨hi, hd⟩

/-- A cursor has moved over tokens whose blocks are closed in them. -/
def Cursor.Steady (c d : Cursor) : Prop := ∃ us, c.Took us d ∧ Closes 0 us

namespace Cursor

variable {c d : Cursor}

instance : Std.Refl Steady := ⟨fun c => ⟨[], .refl c, rfl⟩⟩

instance : IsTrans Cursor Steady where
  trans := by
    rintro c d e ⟨us, h, hus⟩ ⟨vs, h₂, hvs⟩
    exact ⟨us ++ vs, h.trans h₂, hus.append hvs⟩

theorem Inward.steady (h : c.Inward d) : c.Steady d := by
  obtain ⟨us, h, hus⟩ := h
  refine ⟨us, h, closes_inside fun t ht => ⟨fun hk => ?_, fun hk => ?_⟩⟩
  all_goals
    have := hus t ht
    rw [hk] at this
    contradiction

theorem steady_advance (he : c.kind ≠ .eof) (hi : c.kind ≠ .indent) (hd : c.kind ≠ .dedent) :
    c.Steady c.advance := by
  rcases took_advance he with ⟨h, -⟩ | h
  · rw [h]
    exact Std.Refl.refl c
  · exact ⟨_, h, .unit hi hd⟩

theorem took_skip {us vs : List Token} (h : c.rest = us ++ vs) (he : ∀ t ∈ us, t.kind ≠ .eof) :
    c.Took us (c.skip us.length) := by
  induction us generalizing c with
  | nil => exact .refl c
  | cons t us ih =>
    have hk : c.kind = t.kind := by rw [kind, current, h]; rfl
    have hstep : c.Took [t] c.advance := by
      have hcur : c.current = t := by rw [current, h]; rfl
      rcases took_advance (hk ▸ he t List.mem_cons_self) with ⟨-, hr⟩ | hstep
      · rw [hr] at h
        contradiction
      · rwa [hcur] at hstep
    have hrest : c.advance.rest = us ++ vs := by
      have := hstep.rest_eq
      rw [h] at this
      exact (List.cons.inj this).2.symm
    exact hstep.trans (ih hrest fun u hu => he u (List.mem_cons_of_mem t hu))

structure InFlow (n : Nat) (c : Cursor) : Prop where
  flow : Flow n c.rest
  last_eof : c.last.kind = .eof

theorem InFlow.along {n : Nat} (h : c.InFlow n) (hs : c.Steady d) : d.InFlow n := by
  obtain ⟨us, ht, hus⟩ := hs
  have hflow := h.flow
  rw [ht.rest_eq] at hflow
  exact ⟨hflow.right hus (Nat.zero_le n), ht.last_eq ▸ h.last_eof⟩

/-- With a block open, the stream does not end here. -/
theorem InFlow.kind_ne_eof {n : Nat} (h : c.InFlow (n + 1)) : c.kind ≠ .eof := by
  rw [kind, current]
  cases hr : c.rest with
  | nil =>
    have := h.flow.sheds
    rw [hr] at this
    exact absurd this (Nat.succ_ne_zero n)
  | cons t ts => exact h.flow.ne_eof t (hr ▸ List.mem_cons_self)

/-- An indent opens a block. -/
theorem InFlow.advance_indent {n : Nat} (h : c.InFlow n) (hk : c.kind = .indent) :
    c.Took [c.current] c.advance ∧ c.advance.InFlow (n + 1) := by
  have hstep := took_current h.last_eof (by simp [hk])
  have hflow := h.flow
  rw [hstep.rest_eq] at hflow
  exact ⟨hstep, ⟨(sheds_indent hk).mp hflow.sheds, hflow.tail_ne_eof⟩, hstep.last_eq ▸ h.last_eof⟩

/-- What recovery passes over is balanced. -/
theorem InFlow.synchronize {n : Nat} (h : c.InFlow n) (progressed : Bool) :
    c.Steady (synchronize progressed c) := by
  unfold Grammar.synchronize
  split
  · exact Std.Refl.refl c
  · obtain ⟨us, vs, heq, hlen, hus⟩ := h.flow.broken_closes (j := 0)
    rw [← hlen]
    refine ⟨us, took_skip heq fun t ht => h.flow.ne_eof t ?_, hus⟩
    rw [heq]
    exact List.mem_append_left vs ht

end Cursor

namespace Cursor

variable {c d : Cursor}

def Ahead (c d : Cursor) : Prop := ∃ us, c.Took us d

instance : Std.Refl Ahead := ⟨fun c => ⟨[], .refl c⟩⟩

instance : IsTrans Cursor Ahead where
  trans := by
    rintro c d e ⟨us, h⟩ ⟨vs, h₂⟩
    exact ⟨us ++ vs, h.trans h₂⟩

theorem ahead_advance (c : Cursor) : c.Ahead c.advance := by
  by_cases hk : c.kind = .eof
  · rw [advance_of_eof hk]
    exact Std.Refl.refl c
  · rcases took_advance hk with ⟨hstay, -⟩ | htook
    · rw [hstay]
      exact Std.Refl.refl c
    · exact ⟨_, htook⟩

theorem ahead_skip (n : Nat) (c : Cursor) : c.Ahead (c.skip n) := by
  induction n generalizing c with
  | zero => exact Std.Refl.refl c
  | succ n ih => exact IsTrans.trans _ _ _ c.ahead_advance (ih c.advance)

theorem ahead_synchronize (progressed : Bool) (c : Cursor) : c.Ahead (synchronize progressed c) := by
  unfold Grammar.synchronize
  split
  · exact Std.Refl.refl c
  · exact ahead_skip _ c

end Cursor

/-- Where cursors may stand, given how many blocks are open around them, and how the statements there
may move them. -/
structure Track (I : Nat → Cursor → Prop) (R : Cursor → Cursor → Prop) : Prop where
  last_eof : ∀ {n c}, I n c → c.last.kind = .eof
  along : ∀ {n c d}, I n c → R c d → I n d
  inner : ∀ {c d}, c.Inward d → R c d
  step : ∀ {c}, c.kind = .newline ∨ c.kind = .semicolon → R c c.advance
  synchronize : ∀ {n c} progressed, I n c → R c (synchronize progressed c)
  opens : ∀ {n c}, I n c → c.kind = .indent → I (n + 1) c.advance
  /-- A block goes from an indent to what ends it. -/
  block : ∀ {n c d}, I n c → c.kind = .indent → R c.advance d → d.kind = .dedent ∨ d.kind = .eof →
    R c (if d.kind = .dedent then d.advance else d)

open Cursor in
/-- In a balanced stream, statements lead over whole blocks. -/
theorem track_steady : Track InFlow Steady where
  last_eof h := h.last_eof
  along h hs := h.along hs
  inner h := h.steady
  step h := by
    refine steady_advance ?_ ?_ ?_
    all_goals rcases h with h | h <;> simp [h]
  synchronize progressed h := h.synchronize progressed
  opens h hk := (h.advance_indent hk).2
  block {n c d} h hk hs hd := by
    obtain ⟨htook, hopen⟩ := h.advance_indent hk
    have hd' : d.kind = .dedent := hd.resolve_right (hopen.along hs).kind_ne_eof
    obtain ⟨us, hus, hcloses⟩ := hs
    rw [if_pos hd']
    refine ⟨c.current :: (us ++ [d.current]), htook.trans (hus.trans ?_), ?_⟩
    · exact took_current (hopen.along ⟨us, hus, hcloses⟩).last_eof (by simp [hd'])
    · refine (closes_indent hk).mpr ?_
      rw [← Nat.zero_add (0 + 1)]
      exact hcloses.append ((closes_dedent hd').mpr ⟨Nat.one_pos, rfl⟩)

open Cursor in
/-- In any stream, statements lead over tokens. -/
theorem track_ahead : Track (fun _ c => c.last.kind = .eof) Ahead where
  last_eof := id
  along h := fun ⟨_, ht⟩ => ht.last_eq ▸ h
  inner := fun ⟨us, ht, _⟩ => ⟨us, ht⟩
  step _ := ahead_advance _
  synchronize progressed _ := ahead_synchronize progressed _
  opens h _ := by
    obtain ⟨us, ht⟩ := ahead_advance _
    exact (congrArg Token.kind ht.last_eq).trans h
  block _ _ hs _ := by
    refine IsTrans.trans _ _ _ (ahead_advance _) (IsTrans.trans _ _ _ hs ?_)
    split
    · exact ahead_advance _
    · exact Std.Refl.refl _

/-- A parse that may be cancelled may leave a block anywhere. -/
def Leaves (cfg : Config) (I : Nat → Cursor → Prop) (R : Cursor → Cursor → Prop) : Prop :=
  cfg.cancel = true → ∀ ⦃n c d⦄, I n c → c.kind = .indent → R c.advance d → R c d

theorem leaves_steady {cfg : Config} (hcancel : cfg.cancel = false) : Leaves cfg Cursor.InFlow Cursor.Steady :=
  fun h => absurd (hcancel.symm.trans h) Bool.false_ne_true

theorem leaves_ahead {cfg : Config} : Leaves cfg (fun _ c => c.last.kind = .eof) Cursor.Ahead :=
  fun _ _ _ _ _ _ hs => IsTrans.trans _ _ _ (Cursor.ahead_advance _) hs

namespace Rule

variable {α : Type} {I : Nat → Cursor → Prop} {R : Cursor → Cursor → Prop} {P : Cursor → Prop}
  {k : Kind} (T : Track I R)

include T

theorem InnerFrom.along {x : Rule α} (h : InnerFrom P x) : Moves R P x :=
  fun c hc => T.inner (h c hc)

theorem advance_along (hk : k = .newline ∨ k = .semicolon) :
    Moves R (fun c => c.kind = k) Rule.advance :=
  fun _ hc => T.step (hc ▸ hk)

variable [Std.Refl R]

theorem eat_along (hk : k = .newline ∨ k = .semicolon) : Moves R P (Rule.eat k) := by
  intro c _
  unfold Rule.eat
  split
  · next hc => exact T.step (hc ▸ hk)
  · exact Std.Refl.refl c

theorem expect_along (hk : k = .newline ∨ k = .semicolon) : Moves R P (Rule.expect k) := by
  intro c _
  unfold Rule.expect
  split
  · next hc => exact T.step (hc ▸ hk)
  · exact Std.Refl.refl c

end Rule

namespace Grammar

open Rule
open Seam (blockLoop)

variable {α β : Type} {n : Nat} {I : Nat → Cursor → Prop} {R : Cursor → Cursor → Prop}
  {P : Cursor → Prop} {k : Kind} [Std.Refl R] [IsTrans Cursor R]

section Simple

variable (T : Track I R)

include T

theorem endOfStatement_along : Moves R P endOfStatement := by
  refine kind_bind fun k => ?_
  split
  · refine (advance_along T (.inr rfl)).bind fun _ => ?_
    exact (eat_along T (.inl rfl)).bind fun _ => Moves.pure
  · exact (advance_along T (.inl rfl)).bind fun _ => Moves.pure
  · exact Moves.pure
  · exact unexpected_inner.along T

theorem ended_along {x : Rule α} (h : InnerFrom P x) : Moves R P (ended x) :=
  (h.along T).bind fun _ => (endOfStatement_along T).bind fun _ => Moves.pure

theorem simpleStmt_along : Moves R (fun c => c.kind = k) (simpleStmt k) := by
  obtain ⟨body, hbody, hinner, -⟩ := simpleStmt_ended (m := 0) (o := 0) k
  rw [hbody]
  exact ended_along T hinner

theorem decorator?_along : Moves R P decorator? := by
  refine kind_bind fun k => Moves.ite (fun hk => ?_) fun _ => Moves.pure
  subst hk
  refine ((advance_inner rfl).along T).bind fun t => ((dottedName_inner _).along T).bind fun path => ?_
  have hend (arguments : Option (List Argument)) :
      Moves R (fun _ => True) (decorating t.span.start path arguments) :=
    previousEnd_bind fun o => (expect_along T (.inl rfl)).bind fun _ => Moves.pure
  have harguments : Inner (some <$> callArguments expr) :=
    Moves.map (callArguments_inner fun level => expr_inner level)
  refine kind_bind fun k => Moves.ite (fun _ => ?_) fun _ => ?_
  · exact (harguments.anywhere.along T).bind hend
  · exact Moves.pure.bind hend

end Simple

def Progress.Moved (R : Cursor → Cursor → Prop) (q r : Progress) : Prop := R q.cursor r.cursor

instance : Std.Refl (Progress.Moved R) := ⟨fun q => Std.Refl.refl (r := R) q.cursor⟩

instance : IsTrans Progress (Progress.Moved R) where
  trans _ _ _ h h₂ := IsTrans.trans (r := R) _ _ _ h h₂

/-- A rule for statements that keeps to a track, with so many blocks open around it. -/
def Keeps {α : Type} (I : Nat → Cursor → Prop) (R : Cursor → Cursor → Prop) (n : Nat)
    (P : Cursor → Prop) (x : StmtRule α) : Prop :=
  Moves (Progress.Moved R) (fun q => I n q.cursor ∧ P q.cursor) x

namespace Keeps

variable {x y : StmtRule α} {g : α → StmtRule β}

omit [IsTrans Cursor R] in
theorem pure {a : α} : Keeps I R n P (Pure.pure a) := Moves.pure

omit [IsTrans Cursor R] in
theorem throw {e : Diagnostic} : Keeps (α := α) I R n P (throw e) := Moves.throw

omit [Std.Refl R] [IsTrans Cursor R] in
theorem ite {p : Prop} [Decidable p] (hx : p → Keeps I R n P x) (hy : ¬p → Keeps I R n P y) :
    Keeps I R n P (if p then x else y) :=
  Moves.ite hx hy

omit [Std.Refl R] in
theorem bind (T : Track I R) (hx : Keeps I R n P x) (hg : ∀ a, Keeps I R n (fun _ => True) (g a)) :
    Keeps I R n P (x >>= g) :=
  hx.seq (fun _ _ hq hs => ⟨T.along hq.1 hs, trivial⟩) hg

theorem map {φ : α → β} (hx : Keeps I R n P x) : Keeps I R n P (φ <$> x) := Moves.map hx

omit [Std.Refl R] [IsTrans Cursor R] in
theorem anywhere (h : Keeps I R n (fun _ => True) x) : Keeps I R n P x :=
  h.before fun _ hq => ⟨hq.1, trivial⟩

omit [Std.Refl R] in
theorem many (T : Track I R) {size : Progress → Nat} {step : StmtRule (Option α)}
    (h : Keeps I R n (fun _ => True) step) : Keeps I R n (fun _ => True) (many size step) :=
  Moves.many h fun _ _ hq hs => ⟨T.along hq.1 hs, trivial⟩

end Keeps

omit [Std.Refl R] [IsTrans Cursor R] in
theorem lifted_keeps {x : Rule α} (h : Moves R P x) : Keeps I R n P (lifted x) := by
  intro q hq
  have hx := h q.cursor hq.2
  unfold lifted
  generalize x q.cursor = r at hx
  cases r <;> exact hx

omit [Std.Refl R] [IsTrans Cursor R] in
theorem on_kind_bind {g : Kind → StmtRule α} (hg : ∀ k, Keeps I R n (fun c => c.kind = k) (g k)) :
    Keeps I R n P (lifted Rule.kind >>= g) :=
  Moves.read (φ := fun q : Progress => q.cursor.kind) fun k =>
    (hg k).before fun _ hq => ⟨hq.1.1, hq.2⟩

structure Advances (I : Nat → Cursor → Prop) (R : Cursor → Cursor → Prop) (sub : StmtRule Stmt) :
    Prop where
  keeps : ∀ n, Keeps I R n (fun _ => True) sub
  ahead : ∀ q : Progress, q.cursor.last.kind = .eof → q.cursor.kind ≠ .eof →
    q.cursor.kind.isBlank = false → (recovering sub q).2.remaining < q.remaining

variable {sub : StmtRule Stmt} {cfg : Config} (T : Track I R)

include T

omit [Std.Refl R] in
theorem recovering_moved (hsub : Advances I R sub) {q : Progress} (hq : I n q.cursor) :
    q.Moved R (recovering sub q).2 := by
  have hone := hsub.keeps n q ⟨hq, trivial⟩
  unfold recovering
  generalize sub q = r at hone
  cases r with
  | ok s t => exact hone
  | error e t => exact IsTrans.trans (r := R) _ _ _ hone (T.synchronize _ (T.along hq hone))

omit T [Std.Refl R] [IsTrans Cursor R] in
theorem moved_poll {q r : Progress} : (q.poll cfg).Moved R r ↔ q.Moved R r := by
  rw [Progress.Moved, Progress.Moved, q.poll_cursor]

/-- A loop over statements keeps to the track, and comes to a token that stops it or to where the parse
is cancelled. -/
theorem statements_moved {stop blank : Kind → Bool} {one : Progress → Stmt × Progress}
    (hone : ∀ q : Progress, I n q.cursor → stop q.cursor.kind = false →
      blank q.cursor.kind = false → q.Moved R (one q).2 ∧ (one q).2.remaining < q.remaining)
    (hblank : ∀ q : Progress, I n q.cursor → stop q.cursor.kind = false →
      blank q.cursor.kind = true → q.Moved R q.advance ∧ q.advance.remaining < q.remaining)
    {q : Progress} (hq : I n q.cursor) :
    q.Moved R (statements cfg stop blank one q).2 ∧
      ((statements cfg stop blank one q).2.cancelled cfg = true ∨
        stop (statements cfg stop blank one q).2.cursor.kind = true) := by
  induction q using WellFounded.induction (measure Progress.remaining).wf with
  | _ q ih =>
    by_cases hs : stop q.cursor.kind = true
    · rw [Seam.statements_stop hs]
      exact ⟨Std.Refl.refl (r := R) q.cursor, Or.inr hs⟩
    rw [Bool.not_eq_true] at hs
    cases hc : (q.poll cfg).cancelled cfg with
    | true =>
      rw [Seam.statements_cancelled hs hc]
      exact ⟨moved_poll.mp (Std.Refl.refl (r := R) (q.poll cfg).cursor), Or.inl hc⟩
    | false =>
      have hq₂ : I n (q.poll cfg).cursor := by rwa [q.poll_cursor]
      have hs₂ : stop (q.poll cfg).cursor.kind = false := by rwa [q.poll_cursor]
      have hrem := q.poll_remaining cfg
      cases hb : blank q.cursor.kind with
      | true =>
        obtain ⟨hstep, hlt⟩ := hblank (q.poll cfg) hq₂ hs₂ (by rwa [q.poll_cursor])
        rw [hrem] at hlt
        rw [Seam.statements_polled_blank hs hc hb (by rwa [q.poll_advance_remaining] at hlt)]
        exact (ih _ hlt (T.along hq₂ hstep)).imp_left fun h =>
          moved_poll.mp (IsTrans.trans (r := R) _ _ _ hstep h)
      | false =>
        obtain ⟨hstep, hlt⟩ := hone (q.poll cfg) hq₂ hs₂ (by rwa [q.poll_cursor])
        rw [hrem] at hlt
        rw [Seam.statements_polled_one hs hc hb hlt]
        exact (ih _ hlt (T.along hq₂ hstep)).imp_left fun h =>
          moved_poll.mp (IsTrans.trans (r := R) _ _ _ hstep h)

theorem blockLoop_moved (cfg : Config) (hsub : Advances I R sub) {q : Progress} (hq : I n q.cursor) :
    q.Moved R (blockLoop cfg sub q).2 ∧ ((blockLoop cfg sub q).2.cancelled cfg = true ∨
      (blockLoop cfg sub q).2.cursor.kind = .dedent ∨ (blockLoop cfg sub q).2.cursor.kind = .eof) := by
  have hloop : q.Moved R (blockLoop cfg sub q).2 ∧ ((blockLoop cfg sub q).2.cancelled cfg = true ∨
      ((blockLoop cfg sub q).2.cursor.kind == .dedent || (blockLoop cfg sub q).2.cursor.kind == .eof) = true) := by
    refine statements_moved T (fun r hr hs hb => ?_) (fun r hr hs hb => ?_) hq
    · simp only [Bool.or_eq_false_iff, beq_eq_false_iff_ne] at hs hb
      refine ⟨recovering_moved T hsub hr, hsub.ahead r (T.last_eof hr) hs.2 ?_⟩
      simp [Kind.isBlank, hb, hs.1]
    · have hk := beq_iff_eq.mp hb
      exact ⟨T.step (.inl hk), Cursor.remaining_advance_lt (T.last_eof hr) (by simp [hk])⟩
  exact hloop.imp_right fun h => h.imp_right fun h =>
    (Bool.or_eq_true_iff.mp h).imp beq_iff_eq.mp beq_iff_eq.mp

omit T in
theorem blockBody_eq (hcancel : cfg.cancel = false) (q : Progress) : blockBody cfg sub q =
    .ok (blockLoop cfg sub q).1 (if (blockLoop cfg sub q).2.cursor.kind = .dedent then
      (blockLoop cfg sub q).2.advance else (blockLoop cfg sub q).2) := by
  rw [Seam.blockBody_run, Seam.closeBlock_eq hcancel]

/-- The body of an indented block, with the indent before it. -/
theorem indented_moved (hleaves : Leaves cfg I R) (hsub : Advances I R sub) {q : Progress}
    (hq : I n q.cursor) (hk : q.cursor.kind = .indent) :
    q.Moved R (endState (blockBody cfg sub q.advance)) := by
  obtain ⟨hloop, hstop⟩ := blockLoop_moved T cfg hsub (q := q.advance) (T.opens hq hk)
  rw [Seam.blockBody_run]
  change R q.cursor (closeBlock cfg _).cursor
  generalize (blockLoop cfg sub q.advance).2 = r at hloop hstop
  have hcursor := r.poll_cursor cfg
  unfold closeBlock
  dsimp only
  split
  · next hc => exact hcursor ▸ hleaves (Seam.cancel_of_cancelled hc) hq hk hloop
  · next hc =>
    -- the flag that is down now was down before
    have hstop := hstop.resolve_left fun h => hc (Progress.cancelled_poll h)
    have hblock := T.block hq hk hloop hstop
    rw [hcursor]
    split at hblock
    · next hd =>
      rw [if_pos hd]
      change R q.cursor (r.poll cfg).cursor.advance
      rwa [hcursor]
    · next hd =>
      rw [if_neg hd]
      rwa [hcursor]

theorem inlineBody_keeps (hsub : Advances I R sub) : Keeps I R n P (inlineBody sub) := by
  have hone : Keeps I R n (fun _ => True) (inlineStmt sub) := by
    refine on_kind_bind fun k => Keeps.ite (fun _ => ?_) fun _ => (hsub.keeps n).anywhere
    exact lifted_keeps (unexpectedDetailed_inner.along T)
  have hstep : Keeps I R n (fun _ => True) (bodyRound sub) := by
    intro q hq
    rw [Seam.bodyRound_run]
    exact Keeps.ite (fun _ => Keeps.pure) (fun _ => hone.map) q hq
  refine (lifted_keeps (x := Rule.here) fun c _ => Std.Refl.refl c).bind T fun start => ?_
  exact hone.bind T fun first => (hstep.many T).bind T fun rest => Keeps.pure

section Compound

variable (hleaves : Leaves cfg I R) (hsub : Advances I R sub)

include hleaves hsub

theorem suite_keeps : Keeps I R n P (suite cfg sub) := by
  refine (lifted_keeps ((expect_inner rfl).along T)).bind T fun _ => on_kind_bind fun k => ?_
  refine Keeps.ite (fun hk => ?_) fun _ => inlineBody_keeps T hsub
  subst hk
  refine (lifted_keeps (advance_along T (.inl rfl))).bind T fun newline => on_kind_bind fun k => ?_
  refine Keeps.ite (fun hk => ?_) fun _ => Keeps.throw
  subst hk
  intro q hq
  have hbody := indented_moved T hleaves hsub hq.1 hq.2
  have hrun : (lifted Rule.advance >>= fun indent => blockBody cfg sub >>= fun body =>
      pure (blockOf false indent.span.stop body)) q = .ok _ _ :=
    bind_eq_ok.mpr ⟨_, q.advance, rfl, bind_eq_ok.mpr ⟨_, _, Seam.blockBody_run cfg sub _, rfl⟩⟩
  exact (congrArg endState hrun).symm ▸ hbody

theorem functionStmt_keeps (hk : k.isBoundary = false) :
    Keeps I R n (fun c => c.kind = k) (functionStmt cfg sub) :=
  (lifted_keeps ((functionHead_inner hk).along T)).bind T fun _ =>
    (suite_keeps T hleaves hsub).bind T fun _ => Keeps.pure

theorem typeStmt_keeps (word : TypeWord) (hk : k.isBoundary = false) :
    Keeps I R n (fun c => c.kind = k) (typeStmt cfg sub word) :=
  (lifted_keeps ((typeHead_inner word hk).along T)).bind T fun _ =>
    (suite_keeps T hleaves hsub).bind T fun _ => Keeps.pure

theorem forStmt_keeps : Keeps I R n (fun c => c.kind = .kwFor) (forStmt cfg sub) :=
  (lifted_keeps (forHead_inner.along T)).bind T fun _ =>
    (suite_keeps T hleaves hsub).bind T fun _ => Keeps.pure

theorem whileStmt_keeps : Keeps I R n (fun c => c.kind = .kwWhile) (whileStmt cfg sub) :=
  (lifted_keeps ((conditionHead_inner rfl).along T)).bind T fun _ =>
    (suite_keeps T hleaves hsub).bind T fun _ => Keeps.pure

theorem elifClause?_keeps : Keeps I R n P (elifClause? cfg sub) := by
  refine on_kind_bind fun k => Keeps.ite (fun hk => ?_) fun _ => Keeps.pure
  subst hk
  exact (lifted_keeps ((conditionHead_inner rfl).along T)).bind T fun _ =>
    (suite_keeps T hleaves hsub).bind T fun _ => Keeps.pure

theorem elseBody?_keeps : Keeps I R n P (elseBody? cfg sub) :=
  (lifted_keeps ((eat_inner rfl).along T)).bind T fun _ =>
    Keeps.ite (fun _ => (suite_keeps T hleaves hsub).map) fun _ => Keeps.pure

theorem ifStmt_keeps : Keeps I R n (fun c => c.kind = .kwIf) (ifStmt cfg sub) :=
  (lifted_keeps ((conditionHead_inner rfl).along T)).bind T fun _ =>
    (suite_keeps T hleaves hsub).bind T fun _ =>
      ((elifClause?_keeps T hleaves hsub).many T).bind T fun _ =>
        (elseBody?_keeps T hleaves hsub).bind T fun _ => Keeps.pure

theorem definition_keeps : Keeps I R n P (definition cfg sub) := by
  refine on_kind_bind fun k => ?_
  cases k using definition_cases with
  | function word => cases word <;> exact functionStmt_keeps T hleaves hsub rfl
  | type word => cases word <;> exact typeStmt_keeps T hleaves hsub _ rfl
  | other => exact (lifted_keeps (x := Rule.current) fun c _ => Std.Refl.refl c).bind T fun _ => Keeps.throw

theorem decoratedStmt_keeps : Keeps I R n P (decoratedStmt cfg sub) :=
  (lifted_keeps (x := Rule.here) fun c _ => Std.Refl.refl c).bind T fun _ =>
    (lifted_keeps (Moves.many (decorator?_along T) fun _ _ _ _ => trivial)).bind T fun _ =>
      (definition_keeps T hleaves hsub).bind T fun _ => Keeps.pure

theorem statement_keeps : Keeps I R n P (statement cfg sub) := by
  refine on_kind_bind fun k => ?_
  cases k using statement_cases with
  | indent => exact lifted_keeps (unexpectedDetailed_inner.along T)
  | function word => cases word <;> exact functionStmt_keeps T hleaves hsub rfl
  | type word => cases word <;> exact typeStmt_keeps T hleaves hsub _ rfl
  | conditional => exact ifStmt_keeps T hleaves hsub
  | forLoop => exact forStmt_keeps T hleaves hsub
  | whileLoop => exact whileStmt_keeps T hleaves hsub
  | decorated => exact decoratedStmt_keeps T hleaves hsub
  | simple => exact lifted_keeps (simpleStmt_along T)

end Compound

/-- Statements inside a statement that began before so many tokens. -/
theorem innerStmt_advances (hleaves : Leaves cfg I R) (m : Nat) :
    Advances I R (Seam.innerStmt cfg m) := by
  induction m using Nat.strongRecOn with
  | _ m ih =>
    constructor
    · intro n q hq
      by_cases hlt : q.remaining < m
      · rw [Seam.innerStmt_of_lt hlt, Seam.stmt_eq_statement]
        exact statement_keeps T (P := fun _ => True) hleaves (ih q.remaining hlt) q hq
      · rw [Seam.innerStmt, if_neg hlt]
        exact Std.Refl.refl (r := R) q.cursor
    · intro q hl he hb
      by_cases hlt : q.remaining < m
      · have hsame : recovering (Seam.innerStmt cfg m) q = recovering (stmt cfg) q := by
          rw [recovering, recovering, Seam.innerStmt_of_lt hlt]
        rw [hsame]
        exact (Seam.stmt_lt cfg hl he hb).1
      · obtain ⟨ts, hts⟩ := Cursor.exists_cons hl he
        have hrun : Seam.innerStmt cfg m q = .error q.cursor.unexpected q := by
          rw [Seam.innerStmt, if_neg hlt]
        have hd : q.cursor.current.kind ≠ .dedent := fun hd => by
          have : q.cursor.kind = .dedent := hd
          rw [this] at hb
          contradiction
        have hsync := Seam.remaining_synchronize_lt hts he hd
        unfold recovering
        rw [hrun]
        change (synchronize (decide (q.remaining < q.remaining)) q.cursor).remaining <
          q.cursor.remaining
        rwa [decide_eq_false (Nat.lt_irrefl _)]

theorem stmt_advances (hleaves : Leaves cfg I R) : Advances I R (stmt cfg) where
  keeps n q hq := by
    rw [Seam.stmt_eq_statement]
    exact statement_keeps T (P := fun _ => True) hleaves (innerStmt_advances T hleaves q.remaining) q hq
  ahead _ hl he hb := (Seam.stmt_lt cfg hl he hb).1

end Grammar

end Offside
