import Offside.Grammar.Stmt
import Offside.Proofs.Seam.Recovery

namespace Offside.Grammar.Progress

variable (cfg : Config) (p : Progress)

@[simp]
theorem poll_cursor : (p.poll cfg).cursor = p.cursor := by
  unfold poll
  split <;> rfl

@[simp]
theorem poll_diagnostics : (p.poll cfg).diagnostics = p.diagnostics := by
  unfold poll
  split <;> rfl

@[simp]
theorem poll_remaining : (p.poll cfg).remaining = p.remaining :=
  congrArg Cursor.remaining (p.poll_cursor cfg)

@[simp]
theorem poll_advance_remaining : (p.poll cfg).advance.remaining = p.advance.remaining :=
  congrArg (fun c : Cursor => c.advance.remaining) (p.poll_cursor cfg)

variable {cfg p}

/-- What was cancelled stays so. -/
theorem cancelled_poll (h : p.cancelled cfg = true) : (p.poll cfg).cancelled cfg = true := by
  obtain ⟨hcancel, hlt⟩ := Bool.and_eq_true_iff.mp h
  rw [poll, if_pos hcancel, cancelled, hcancel, Bool.true_and]
  exact decide_eq_true (Nat.lt_succ_of_lt (of_decide_eq_true hlt))

variable (p) (hcancel : cfg.cancel = false)

include hcancel

/-- Without a flag there is nothing to look at. -/
theorem poll_eq : p.poll cfg = p := by rw [poll, hcancel, if_neg Bool.false_ne_true]

theorem cancelled_eq : p.cancelled cfg = false := by rw [cancelled, hcancel, Bool.false_and]

end Offside.Grammar.Progress

namespace Offside.Grammar

variable (cfg : Config) (q : Progress)

theorem parse_cancelled {cfg : Config} (hcancel : cfg.cancel = false) (tokens : List Token) :
    (parse cfg tokens).cancelled = false :=
  Progress.cancelled_eq _ hcancel

/-- The end of a block takes one token at most. -/
theorem closeBlock_cursor : (closeBlock cfg q).cursor = q.cursor ∨
    (closeBlock cfg q).cursor = q.cursor.advance := by
  unfold closeBlock
  dsimp only
  split
  · exact Or.inl (q.poll_cursor cfg)
  · split
    · exact Or.inr (congrArg Cursor.advance (q.poll_cursor cfg))
    · exact Or.inl (q.poll_cursor cfg)

@[simp]
theorem closeBlock_diagnostics : (closeBlock cfg q).diagnostics = q.diagnostics := by
  unfold closeBlock
  dsimp only
  split
  · exact q.poll_diagnostics cfg
  · split
    · exact q.poll_diagnostics cfg
    · exact q.poll_diagnostics cfg

/-- What a look at the flag, a token passed over and a statement keep, a loop over statements keeps.
The statements read so far are part of it. -/
theorem statements_invariant {stop blank : Kind → Bool} {one : Progress → Stmt × Progress}
    {I : List Stmt → Progress → Prop} (hpoll : ∀ ss p, I ss p → I ss (p.poll cfg))
    (hadvance : ∀ ss p, I ss p → I ss p.advance)
    (hone : ∀ ss p, stop p.cursor.kind = false → blank p.cursor.kind = false → I ss p →
      I (ss ++ [(one p).1]) (one p).2) :
    ∀ ss, I ss q → I (ss ++ (statements cfg stop blank one q).1) (statements cfg stop blank one q).2 := by
  have hpolled {p : Progress} (hs : ¬stop p.cursor.kind = true) : stop (p.poll cfg).cursor.kind = false := by
    rwa [p.poll_cursor, ← Bool.not_eq_true]
  -- each statement goes behind those read before, so the induction is for all of these at once
  fun_induction statements cfg stop blank one q with
  | case1 q _ => exact fun ss h => (List.append_nil ss).symm ▸ h
  | case2 q _ p _ => exact fun ss h => (List.append_nil ss).symm ▸ hpoll ss q h
  | case3 q _ p _ _ _ ih => exact fun ss h => ih ss (hadvance ss p (hpoll ss q h))
  | case4 q _ p _ _ _ => exact fun ss h => (List.append_nil ss).symm ▸ hadvance ss p (hpoll ss q h)
  | case5 q hs p _ hb s _ rest ih =>
    intro ss h
    have hrest := ih (ss ++ [s.1]) (hone ss p (hpolled hs) (Bool.eq_false_iff.mpr hb) (hpoll ss q h))
    rwa [List.append_assoc] at hrest
  | case6 q hs p _ hb s _ =>
    exact fun ss h => hone ss p (hpolled hs) (Bool.eq_false_iff.mpr hb) (hpoll ss q h)

end Offside.Grammar

namespace Offside.Seam

open Grammar

theorem lifted_bind_ok {α β : Type} {x : Rule α} {g : α → StmtRule β} {q : Progress} {a : α}
    {c : Cursor} (h : x q.cursor = .ok a c) : (lifted x >>= g) q = g a { q with cursor := c } := by
  change EStateM.bind (lifted x) g q = _
  unfold EStateM.bind lifted
  simp only [h]

theorem lifted_bind_error {α β : Type} {x : Rule α} {g : α → StmtRule β} {q : Progress}
    {e : Diagnostic} {c : Cursor} (h : x q.cursor = .error e c) :
    (lifted x >>= g) q = .error e { q with cursor := c } := by
  change EStateM.bind (lifted x) g q = _
  unfold EStateM.bind lifted
  simp only [h]

variable {S : Seam} {α β : Type} [Relocate α] [Relocate β] {P P' Q E : Cursor → Cursor → Prop}
  {b : Bool} {N : Origin} {p : Depth} {d : Nat} {k : Kind}

/-- Cursors in a relation, with the same faults recorded since the start. Where a parse may be
cancelled, the flag has been looked at as often on both sides. -/
def On (S : Seam) (P : Cursor → Cursor → Prop) (q q' : Progress) : Prop :=
  P q.cursor q'.cursor ∧ ∃ new, q.diagnostics = S.faults ++ new ∧
    q'.diagnostics = S.faults' ++ relocate S.move new ∧ (S.cancels = true → q'.polls = q.polls)

instance : Directed Progress where
  Onward p q := q.remaining ≤ p.remaining ∧ ∃ new, q.diagnostics = p.diagnostics ++ new
  refl p := ⟨Nat.le_refl _, [], (List.append_nil _).symm⟩
  trans := by
    rintro p q r ⟨hlt, new, h⟩ ⟨hlt₂, new₂, h₂⟩
    exact ⟨Nat.le_trans hlt₂ hlt, new ++ new₂, by rw [h₂, h, List.append_assoc]⟩

/-- The cursor has strayed, or a fault has been recorded at the end of the window. -/
def strayedOn (S : Seam) : Escape Progress where
  state q := S.strayed.state q.cursor ∨ S.window ≠ none ∧ q.remaining ≤ S.tail.length ∧
    ∃ e ∈ q.diagnostics, e.span.start = S.next.span.start
  fault e q := S.strayed.fault e q.cursor
  kept := by
    rintro p q ⟨hle, new, hnew⟩ (h | ⟨hw, hrem, e, he, hstart⟩)
    · exact Or.inl (S.strayed.kept hle h)
    · exact Or.inr ⟨hw, Nat.le_trans hle hrem, e, by simp [hnew, he], hstart⟩

theorem onward_poll (cfg : Config) (q : Progress) : Onward q (q.poll cfg) :=
  ⟨Nat.le_of_eq (q.poll_remaining cfg), [], by rw [List.append_nil, q.poll_diagnostics]⟩

theorem onward_advance (q : Progress) : Onward q q.advance :=
  ⟨q.cursor.remaining_advance_le, [], (List.append_nil _).symm⟩

abbrev AlikeOn (S : Seam) (P Q E : Cursor → Cursor → Prop) (x x' : StmtRule α) : Prop :=
  Sim S.move S.strayedOn (S.On P) (S.On Q) (S.On E) x x'

section Polls

variable {cfg : Config} {q q' : Progress}

theorem On.poll (cfg : Config) (h : S.On P q q') : S.On P (q.poll cfg) (q'.poll cfg) := by
  obtain ⟨hP, new, hnew, hnew', hpolls⟩ := h
  refine ⟨by rwa [Progress.poll_cursor, Progress.poll_cursor], new, by rw [Progress.poll_diagnostics, hnew],
    by rw [Progress.poll_diagnostics, hnew'], fun hcancels => ?_⟩
  unfold Progress.poll
  split
  · exact congrArg (· + 1) (hpolls hcancels)
  · exact hpolls hcancels

/-- A parse that may be cancelled is so on both sides or on neither. -/
theorem On.cancelled (hcancel : cfg.cancel = true → S.cancels = true) (h : S.On P q q') :
    q'.cancelled cfg = q.cancelled cfg := by
  obtain ⟨-, new, -, -, hpolls⟩ := h
  unfold Progress.cancelled
  cases hc : cfg.cancel with
  | false => rfl
  | true => rw [hpolls (hcancel hc)]

end Polls

/-- Without a flag, any two streams can be compared. -/
theorem never_cancelled {cfg : Config} (hcancel : cfg.cancel = false) :
    cfg.cancel = true → S.cancels = true :=
  fun h => absurd (hcancel.symm.trans h) Bool.false_ne_true

theorem cancel_of_cancelled {cfg : Config} {q : Progress} (h : q.cancelled cfg = true) : cfg.cancel = true :=
  (Bool.and_eq_true_iff.mp h).1

theorem On.imp (h : ∀ c c', P c c' → P' c c') (q q' : Progress) (hq : S.On P q q') : S.On P' q q' :=
  ⟨h _ _ hq.1, hq.2⟩

/-- Behind a statement, a word that could belong to it is taken on both sides or on neither. -/
theorem edge_eat_bind {compound : Bool} {g g' : Bool → StmtRule α} (hk : k.startsAfresh = false)
    (hb : k.isBoundary = false)
    (ht : S.AlikeOn (S.In true N (Depth.after (.flat d) k)) Q E (g true) (g' true))
    (hf : S.AlikeOn (S.Edge compound N d) Q E (g false) (g' false)) :
    S.AlikeOn (S.Edge compound N d) Q E (lifted (Rule.eat k) >>= g) (lifted (Rule.eat k) >>= g') := by
  have heat (g : Bool → StmtRule α) (q : Progress) : (lifted (Rule.eat k) >>= g) q =
      if q.cursor.kind = k then g true q.advance else g false q := by
    change EStateM.bind (lifted (Rule.eat k)) g q = _
    unfold EStateM.bind lifted Rule.eat
    by_cases hc : q.cursor.kind = k
    · simp only [if_pos hc]
      rfl
    · simp only [if_neg hc]
  constructor
  · intro q
    rw [heat]
    split
    · exact Directed.trans (onward_advance q) (ht.onward q.advance)
    · exact hf.onward q
  · intro q q' hq
    rw [heat, heat]
    rcases hq.1.seen hk with ⟨hc, hin⟩ | ⟨hc, hc'⟩
    · rw [if_pos hc, if_pos (hin.kind.trans hc)]
      exact ht.agree _ _ ⟨hin.advance hc hb, hq.2⟩
    · rw [if_neg hc, if_neg hc']
      exact hf.agree q q' hq

structure Behind (S : Seam) (q : Progress) : Prop where
  window : S.window ≠ none
  rest_eq : q.cursor.rest = S.tail
  last_eq : q.cursor.last = S.last
  faults : ∃ new, q.diagnostics = S.faults ++ new

omit [Relocate α] in
/-- Fault found with the token behind the window is for the left side only. -/
theorem Behind.refuses {q : Progress} (h : S.Behind q) (cause : Cause) :
    S.strayedOn.outcome (α := α) (.error ⟨cause, q.cursor.current.span⟩ q) := by
  refine Or.inr ⟨h.window, ?_, ?_⟩
  · change q.cursor.current.span.start = _
    rw [Cursor.current, h.rest_eq, h.last_eq]
    rfl
  · exact Nat.le_of_eq (congrArg List.length h.rest_eq)

theorem Behind.on_over {q : Progress} (h : S.Behind q) : ∃ q', S.On (S.Over N p) q q' := by
  obtain ⟨new, hnew⟩ := h.faults
  exact ⟨⟨⟨none, relocate S.move S.tail, relocate S.move S.last⟩, S.faults' ++ relocate S.move new, q.polls⟩,
    ⟨h.window, h.rest_eq, h.last_eq, rfl, rfl⟩, new, hnew, rfl, fun _ => rfl⟩

/-- A rule that has nowhere to end strays. -/
theorem strays_on {x x' : StmtRule α} {compound : Bool}
    (h : S.AlikeOn P (S.Edge compound nowhere.1 nowhere.2.blocks) (S.Out nowhere.1 nowhere.2.blocks)
      x x') {q q' : Progress} (hw : S.window ≠ none) (hq : S.On P q q') :
    S.strayedOn.outcome (x q) := by
  rcases h.agree q q' hq with hs | ha
  · exact hs
  · exfalso
    generalize x q = r at ha
    generalize x' q' = r' at ha
    cases ha with
    | ok hQ => exact not_edge_nowhere hQ.1
    | error hE => exact not_out_nowhere hw hE.1

omit [Relocate α] in
theorem onward_lifted {x : Rule α} (h : ∀ c, Onward c (endState (x c))) (q : Progress) :
    Onward q (endState (lifted x q)) := by
  have hx := h q.cursor
  unfold lifted
  generalize x q.cursor = r at hx
  cases r <;> exact ⟨hx, [], (List.append_nil _).symm⟩

omit [Relocate α] in
theorem lifted_strays {x : Rule α} {q : Progress} (h : S.strayed.outcome (x q.cursor)) :
    S.strayedOn.outcome (lifted x q) := by
  unfold lifted
  generalize x q.cursor = r at h
  cases r with
  | ok a c => exact Or.inl h
  | error e c => exact h.imp_left Or.inl

theorem lifted_alike {x x' : Rule α} (h : S.Alike P Q E x x') :
    S.AlikeOn P Q E (lifted x) (lifted x') where
  onward := onward_lifted h.onward
  agree q q' hq := by
    rcases h.agree q.cursor q'.cursor hq.1 with hx | hx
    · exact Or.inl (lifted_strays hx)
    · unfold lifted
      generalize x q.cursor = r at hx
      generalize x' q'.cursor = r' at hx
      cases hx with
      | ok hQ => exact Or.inr (.ok ⟨hQ, hq.2⟩)
      | error hE => exact Or.inr (.error ⟨hE, hq.2⟩)

theorem on_kind_bind [h : S.Before P N p] {g g' : Kind → StmtRule α}
    (hg : ∀ k, S.AlikeOn (Where P fun c => c.kind = k) Q E (g k) (g' k)) :
    S.AlikeOn P Q E (lifted Rule.kind >>= g) (lifted Rule.kind >>= g') :=
  Sim.read (φ := fun q : Progress => q.cursor.kind)
    (fun _ _ hq => h.kind hq.1) fun k => (hg k).before fun _ _ hq => ⟨⟨hq.1.1, hq.2⟩, hq.1.2⟩

/-- What a rule does may hang on the kind of token it starts at. -/
theorem on_kind_cases [h : S.Before P N p] {g g' : Kind → StmtRule α}
    {Q : Kind → Cursor → Cursor → Prop}
    (hg : ∀ k, S.AlikeOn (Where P fun c => c.kind = k) (Q k) E (g k) (g' k)) (k : Kind) :
    S.AlikeOn (Where P fun c => c.kind = k) (Q k) E (lifted Rule.kind >>= g)
      (lifted Rule.kind >>= g') where
  onward q := (hg q.cursor.kind).onward q
  agree q q' hq := by
    change S.strayedOn.outcome (g q.cursor.kind q) ∨
      Agree S.move (S.On (Q k)) (S.On E) (g q.cursor.kind q) (g' q'.cursor.kind q')
    rw [h.kind hq.1.1, hq.1.2]
    exact (hg k).agree q q' hq

theorem on_stay {a a' : α} (ha : a' = relocate S.move a) (hQ : ∀ c c', P c c' → Q c c') :
    S.AlikeOn P Q E (pure a) (pure a') :=
  Sim.pure ha (On.imp hQ)

/-- Behind a statement, a test for a token that could belong to it. -/
theorem edge_ite {compound : Bool} {x x' y y' : StmtRule α} (hP : ∀ c c', P c c' → S.Edge compound N d c c')
    (hk : k.startsAfresh = false)
    (hx : S.AlikeOn (Where (S.In true N (.flat d)) fun c => c.kind = k) Q E x x')
    (hy : S.AlikeOn P Q E y y') :
    S.AlikeOn P Q E (lifted Rule.kind >>= fun k' => if k' = k then x else y)
      (lifted Rule.kind >>= fun k' => if k' = k then x' else y') where
  onward q := by
    change Onward q (endState ((if q.cursor.kind = k then x else y) q))
    split
    · exact hx.onward q
    · exact hy.onward q
  agree q q' hq := by
    change S.strayedOn.outcome ((if q.cursor.kind = k then x else y) q) ∨
      Agree S.move (S.On Q) (S.On E) ((if q.cursor.kind = k then x else y) q)
        ((if q'.cursor.kind = k then x' else y') q')
    rcases (hP _ _ hq.1).seen hk with ⟨hc, hin⟩ | ⟨hc, hc'⟩
    · rw [if_pos hc, if_pos (hin.kind.trans hc)]
      exact hx.agree q q' ⟨⟨hin, hc⟩, hq.2⟩
    · rw [if_neg hc, if_neg hc']
      exact hy.agree q q' hq

/-- Rules for statements that are alike wherever they start with fewer than `n` tokens before
them, and that stray when they start behind the window. -/
structure Statements (S : Seam) (n : Nat) (sub sub' : StmtRule Stmt) : Prop where
  alike : ∀ b N d k, S.AlikeOn
    (Where (Where (S.In b N (.flat d)) fun c => c.remaining < n) fun c => c.kind = k)
    (S.Edge (startsCompound k) N d) (S.Out N (Depth.flat d).blocks) sub sub'
  strays : ∀ q, S.Behind q → S.strayedOn.outcome (sub q)

end Offside.Seam
