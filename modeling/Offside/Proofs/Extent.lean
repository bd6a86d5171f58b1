import Offside.Proofs.Moves.Header

namespace Offside

section Logic

variable {σ α β : Type} {P P' : σ → Prop} {Q Q' : α → σ → Prop} {R : β → σ → Prop}

/-- What is known of the values that a rule returns and of the states it returns them in. -/
def Yields (P : σ → Prop) (x : EStateM Diagnostic σ α) (Q : α → σ → Prop) : Prop :=
  ∀ s a t, P s → x s = .ok a t → Q a t

namespace Yields

variable {x y : EStateM Diagnostic σ α} {g : α → EStateM Diagnostic σ β}

theorem before (h : Yields P x Q) (hP : ∀ s, P' s → P s) : Yields P' x Q :=
  fun s a t hs hr => h s a t (hP s hs) hr

theorem weaken (h : Yields P x Q) (hQ : ∀ a s, Q a s → Q' a s) : Yields P x Q' :=
  fun s a t hs hr => hQ a t (h s a t hs hr)

theorem pure {a : α} (h : ∀ s, P s → Q a s) : Yields P (Pure.pure a) Q := by
  intro s b t hs hr
  cases hr
  exact h s hs

theorem throw {e : Diagnostic} : Yields P (throw e) Q := by
  intro s b t _ hr
  cases hr

theorem ite {p : Prop} [Decidable p] (hx : p → Yields P x Q) (hy : ¬p → Yields P y Q) :
    Yields P (if p then x else y) Q := by
  split
  · exact hx ‹_›
  · exact hy ‹_›

theorem bind (hx : Yields P x Q) (hg : ∀ a, Yields (Q a) (g a) R) : Yields P (x >>= g) R := by
  intro s b t hs hr
  obtain ⟨a, u, ha, hb⟩ := bind_eq_ok.mp hr
  exact hg a u b t (hx s a u hs ha) hb

/-- What all states of a precondition agree on is known. -/
theorem given {p : Prop} (hP : ∀ s, P s → p) (h : p → Yields P x Q) : Yields P x Q :=
  fun s a t hs hr => h (hP s hs) s a t hs hr

theorem map {φ : α → β} (hx : Yields P x fun a s => R (φ a) s) : Yields P (φ <$> x) R :=
  hx.bind (g := fun a => Pure.pure (φ a)) fun _ => pure fun _ => id

/-- What is seen in the state stays known. -/
theorem read {φ : σ → α} (hg : ∀ a, Yields (fun s => P s ∧ φ s = a) (g a) R) :
    Yields P (fun s => g (φ s) s) R :=
  fun s b t hs hr => hg (φ s) s b t ⟨hs, rfl⟩ hr

/-- What each step of a repetition keeps, given the values found so far. -/
theorem many_list {J : List α → σ → Prop} {size : σ → Nat} {step : EStateM Diagnostic σ (Option α)}
    (h : ∀ as, Yields (J as) step fun r t => J (as ++ r.toList) t) (as : List α) :
    Yields (J as) (many size step) fun bs t => J (as ++ bs) t := by
  intro s
  induction s using WellFounded.induction (measure size).wf generalizing as with
  | _ s ih =>
    intro bs t hs hr
    rw [Offside.many] at hr
    cases hstep : step s with
    | error e u => simp [hstep] at hr
    | ok r u =>
      have hu := h as s r u hs hstep
      cases r with
      | none =>
        simp only [hstep] at hr
        cases hr
        exact hu
      | some a =>
        simp only [hstep] at hr
        split at hr
        · next hlt =>
          cases hm : Offside.many size step u with
          | error e v => simp [hm] at hr
          | ok cs v =>
            simp only [hm] at hr
            cases hr
            rw [List.append_cons]
            exact ih u hlt (as ++ [a]) cs t hu hm
        · cases hr
          exact hu

/-- The value that a repetition found last, or what stood for it before the first. -/
theorem many {J : Option α → σ → Prop} {size : σ → Nat} {step : EStateM Diagnostic σ (Option α)}
    (h : ∀ o, Yields (J o) step fun r t => J (r.or o) t) (o : Option α) :
    Yields (J o) (many size step) fun as t => J (as.getLast?.or o) t := by
  refine many_list (J := fun as t => J (as.getLast?.or o) t) (fun as => ?_) []
  refine (h (as.getLast?.or o)).weaken fun r t ht => ?_
  cases r with
  | none => simpa using ht
  | some a => simpa using ht

theorem iterate {I : α → σ → Prop} {size : σ → Nat} {step : α → EStateM Diagnostic σ (Option α)}
    (h : ∀ a, Yields (I a) (step a) fun r t => I (r.getD a) t) (a : α) :
    Yields (I a) (iterate size step a) I := by
  intro s
  induction s using WellFounded.induction (measure size).wf generalizing a with
  | _ s ih =>
    intro b t hs hr
    rw [Offside.iterate] at hr
    cases hstep : step a s with
    | error e u => simp [hstep] at hr
    | ok r u =>
      have hu := h a s r u hs hstep
      cases r with
      | none =>
        simp only [hstep] at hr
        cases hr
        exact hu
      | some c =>
        simp only [hstep] at hr
        split at hr
        · next hlt => exact ih u hlt c b t hu hr
        · cases hr
          exact hu

end Yields

end Logic

namespace Cursor

variable {c d : Cursor}

/-- Fewer tokens than a bound are to come, up to an end mark. -/
def Behind (m : Nat) (c : Cursor) : Prop := c.last.kind = .eof ∧ c.remaining < m

def Starts (m : Nat) (o : Offset) (c : Cursor) : Prop :=
  (c.last.kind = .eof ∧ c.remaining ≤ m) ∧ c.current.span.start = o

def Ends (m : Nat) (s : Span) (c : Cursor) : Prop := c.Behind m ∧ s.stop = c.previousEnd

/-- A span goes from an offset to the end of the token consumed last. -/
def Spans (m : Nat) (o : Offset) (s : Span) (c : Cursor) : Prop :=
  c.Behind m ∧ s = ⟨o, c.previousEnd⟩

variable {m : Nat} {o : Offset} {s : Span}

theorem Spans.ends (h : c.Spans m o s) : c.Ends m s := ⟨h.1, by rw [h.2]⟩

theorem Ends.spans (h : c.Ends m s) (hs : s.start = o) : c.Spans m o s :=
  ⟨h.1, by rw [← h.2, ← hs]⟩

theorem Behind.starts (h : c.Behind m) : c.Starts m c.current.span.start :=
  ⟨⟨h.1, Nat.le_of_lt h.2⟩, rfl⟩

theorem Inward.behind (h : c.Inward d) (hc : c.Behind m) : d.Behind m := by
  obtain ⟨us, h, -⟩ := h
  refine ⟨h.last_eq ▸ hc.1, Nat.lt_of_le_of_lt ?_ hc.2⟩
  rw [remaining, remaining, h.rest_eq, List.length_append]
  exact Nat.le_add_left _ _

/-- Over a token inside a statement, the cursor ends with it. -/
theorem ends_advance (hl : c.last.kind = .eof) (hm : c.remaining ≤ m)
    (hb : c.kind.isBoundary = false) : c.advance.Ends m c.current.span := by
  have hk : c.kind ≠ .eof := fun he => by simp [he, Kind.isBoundary] at hb
  rcases took_advance hk with ⟨-, hr⟩ | ht
  · rw [kind, current, hr] at hk
    exact absurd hl hk
  · refine ⟨⟨ht.last_eq ▸ hl, Nat.lt_of_lt_of_le ?_ hm⟩, ?_⟩
    · rw [remaining, remaining, ht.rest_eq]
      exact Nat.lt_succ_self _
    · rw [previousEnd, ht.previous_eq]
      rfl

end Cursor

namespace Rule

open Cursor

variable {α β : Type} {P : Cursor → Prop} {Q : α → Cursor → Prop} {k : Kind} {m : Nat} {o : Offset}

theorem yields_kind {g : Kind → Rule α} (hg : ∀ k, Yields P (g k) Q) :
    Yields P (Rule.kind >>= g) Q :=
  Yields.read (φ := Cursor.kind) fun k => (hg k).before fun _ h => h.1

theorem yields_kind_bind {g : Kind → Rule α} (hg : ∀ k, Yields (fun c => P c ∧ c.kind = k) (g k) Q) :
    Yields P (Rule.kind >>= g) Q :=
  Yields.read (φ := Cursor.kind) hg

theorem yields_peek_bind {g : Kind → Rule α} (hg : ∀ k, Yields P (g k) Q) :
    Yields P (Rule.peek 1 >>= g) Q :=
  Yields.read (φ := fun c : Cursor => c.peek 1) fun k => (hg k).before fun _ h => h.1

theorem yields_here_bind {g : Offset → Rule α} (hg : Yields (Starts m o) (g o) Q) :
    Yields (Starts m o) (Rule.here >>= g) Q :=
  Yields.read (φ := fun c : Cursor => c.current.span.start) fun a s b t hs hr =>
    hg s b t hs.1 (by rw [← hs.1.2, hs.2]; exact hr)

/-- A rule that leads over tokens inside a statement leads on. -/
theorem InnerFrom.behind {x : Rule α} (h : InnerFrom P x) :
    Yields (fun c => c.Behind m ∧ P c) x fun _ d => d.Behind m := by
  intro c a d hc hr
  have hmove := h c hc.2
  rw [hr] at hmove
  exact hmove.behind hc.1

/-- What comes after a rule that leads over tokens inside a statement. -/
theorem Inner.next {x : Rule α} {g : α → Rule β} {R : β → Cursor → Prop} (hx : Inner x)
    (hg : ∀ a, Yields (Behind m) (g a) R) : Yields (Behind m) (x >>= g) R :=
  (hx.behind.before fun _ h => ⟨h, trivial⟩).bind hg

theorem yields_previousEnd {f : Offset → α} {span : α → Span} (hf : ∀ e, span (f e) = ⟨o, e⟩) :
    Yields (Behind m) (Rule.previousEnd >>= fun e => pure (f e)) fun a d => Spans m o (span a) d :=
  fun c a d hc hr => by
    cases hr
    exact ⟨hc, hf _⟩

theorem yields_advance (hk : k.isBoundary = false) :
    Yields (fun c => Starts m o c ∧ c.kind = k) Rule.advance fun t d => Spans m o t.span d := by
  intro c t d hc hr
  cases hr
  exact (ends_advance hc.1.1.1 hc.1.1.2 (hc.2 ▸ hk)).spans hc.1.2

/-- A rule that goes on behind the first token. -/
theorem yields_opening (hk : k.isBoundary = false) {g : Token → Rule α}
    (hg : ∀ t, t.span.start = o → Yields (Behind m) (g t) Q) :
    Yields (fun c => Starts m o c ∧ c.kind = k) (Rule.advance >>= g) Q :=
  (yields_advance hk).bind fun t => Yields.given (p := t.span.start = o) (fun c hc => by rw [hc.2])
    fun ht => (hg t ht).before fun _ hc => hc.1

theorem yields_step (hk : k.isBoundary = false) :
    Yields (fun c => Behind m c ∧ c.kind = k) Rule.advance fun t d => Ends m t.span d := by
  intro c t d hc hr
  cases hr
  exact ends_advance hc.1.1 (Nat.le_of_lt hc.1.2) (hc.2 ▸ hk)

theorem yields_expect_first (hk : k.isBoundary = false) :
    Yields (Starts m o) (Rule.expect k) fun t d => Ends m t.span d := by
  intro c t d hc hr
  unfold Rule.expect at hr
  split at hr
  · next h =>
    cases hr
    exact ends_advance hc.1.1 hc.1.2 (h ▸ hk)
  · cases hr

theorem yields_expect (hk : k.isBoundary = false) :
    Yields (Behind m) (Rule.expect k) fun t d => Ends m t.span d :=
  fun c t d hc => yields_expect_first hk c t d hc.starts

theorem yields_expectDetailed (hk : k.isBoundary = false) {message : String} :
    Yields (Behind m) (Rule.expectDetailed k message) fun t d => Ends m t.span d := by
  intro c t d hc hr
  unfold Rule.expectDetailed at hr
  split at hr
  · next h =>
    cases hr
    exact ends_advance hc.1 (Nat.le_of_lt hc.2) (h ▸ hk)
  · cases hr

theorem yields_fail {cause : Cause} {span : Span} : Yields P (Rule.fail cause span) Q := by
  intro c a d _ hr
  cases hr

theorem yields_unexpected : Yields P Rule.unexpected Q := by
  intro c a d _ hr
  cases hr

theorem yields_unexpectedDetailed {message : String} :
    Yields P (Rule.unexpectedDetailed message) Q := by
  intro c a d _ hr
  cases hr

end Rule

end Offside
