import Offside.Grammar.Operand
import Offside.Proofs.Seam

namespace Offside

section Logic

variable {σ α β : Type} {R : σ → σ → Prop} {P P' : σ → Prop}

/-- From states with a property, a rule ends in related states. -/
def Moves (R : σ → σ → Prop) (P : σ → Prop) (x : EStateM Diagnostic σ α) : Prop :=
  ∀ s, P s → R s (endState (x s))

namespace Moves

variable {x y : EStateM Diagnostic σ α} {g : α → EStateM Diagnostic σ β}

theorem before (h : Moves R P x) (hP : ∀ s, P' s → P s) : Moves R P' x := fun s hs => h s (hP s hs)

theorem pure [Std.Refl R] {a : α} : Moves R P (Pure.pure a) := fun s _ => Std.Refl.refl s

theorem throw [Std.Refl R] {e : Diagnostic} : Moves (α := α) R P (throw e) :=
  fun s _ => Std.Refl.refl s

theorem ite {p : Prop} [Decidable p] (hx : p → Moves R P x) (hy : ¬p → Moves R P y) :
    Moves R P (if p then x else y) := by
  split
  · exact hx ‹_›
  · exact hy ‹_›

/-- The second rule starts where the first one has led. -/
theorem seq [IsTrans σ R] (hx : Moves R P x) (hP : ∀ s t, P s → R s t → P' t)
    (hg : ∀ a, Moves R P' (g a)) : Moves R P (x >>= g) := by
  intro s hs
  have hstep := hx s hs
  change R s (endState (EStateM.bind x g s))
  unfold EStateM.bind
  generalize x s = r at hstep
  cases r with
  | ok a t => exact IsTrans.trans _ _ _ hstep (hg a t (hP s t hs hstep))
  | error e t => exact hstep

theorem bind [IsTrans σ R] (hx : Moves R P x) (hg : ∀ a, Moves R (fun _ => True) (g a)) :
    Moves R P (x >>= g) :=
  hx.seq (fun _ _ _ _ => trivial) hg

theorem map [IsTrans σ R] [Std.Refl R] {φ : α → β} (hx : Moves R P x) : Moves R P (φ <$> x) :=
  hx.bind (g := fun a => Pure.pure (φ a)) fun _ => pure

/-- What is seen in the state stays known. -/
theorem read {φ : σ → α} (hg : ∀ a, Moves R (fun s => P s ∧ φ s = a) (g a)) :
    Moves R P (fun s => g (φ s) s) :=
  fun s hs => hg (φ s) s ⟨hs, rfl⟩

theorem many [IsTrans σ R] {size : σ → Nat} {step : EStateM Diagnostic σ (Option α)}
    (h : Moves R P step) (hP : ∀ s t, P s → R s t → P t) : Moves R P (many size step) := by
  intro s
  induction s using WellFounded.induction (measure size).wf with
  | _ s ih =>
    intro hs
    have hstep := h s hs
    rw [Offside.many]
    generalize step s = r at hstep
    rcases r with ⟨_ | a, t⟩ | ⟨e, t⟩
    · exact hstep
    · dsimp only
      split
      · next hlt =>
        have hrest := ih t hlt (hP s t hs hstep)
        generalize Offside.many size step t = m at hrest
        cases m <;> exact IsTrans.trans _ _ _ hstep hrest
      · exact hstep
    · exact hstep

theorem iterate [IsTrans σ R] {size : σ → Nat} {step : α → EStateM Diagnostic σ (Option α)}
    (h : ∀ a, Moves R P (step a)) (hP : ∀ s t, P s → R s t → P t) (a : α) :
    Moves R P (iterate size step a) := by
  intro s
  induction s using WellFounded.induction (measure size).wf generalizing a with
  | _ s ih =>
    intro hs
    have hstep := h a s hs
    rw [Offside.iterate]
    generalize step a s = r at hstep
    rcases r with ⟨_ | b, t⟩ | ⟨e, t⟩
    · exact hstep
    · dsimp only
      split
      · next hlt => exact IsTrans.trans _ _ _ hstep (ih t hlt b (hP s t hs hstep))
      · exact hstep
    · exact hstep

end Moves

end Logic

structure Cursor.Took (c : Cursor) (us : List Token) (d : Cursor) : Prop where
  rest_eq : c.rest = us ++ d.rest
  last_eq : d.last = c.last
  previous_eq : d.previous = us.getLast?.or c.previous

namespace Cursor

theorem Took.refl (c : Cursor) : c.Took [] c := ⟨rfl, rfl, rfl⟩

theorem Took.trans {c d e : Cursor} {us vs : List Token} (h : c.Took us d) (h₂ : d.Took vs e) :
    c.Took (us ++ vs) e where
  rest_eq := by rw [h.rest_eq, h₂.rest_eq, List.append_assoc]
  last_eq := h₂.last_eq.trans h.last_eq
  previous_eq := by rw [h₂.previous_eq, h.previous_eq, List.getLast?_append, Option.or_assoc]

/-- No step leads over an end mark. -/
theorem advance_of_eof {c : Cursor} (hk : c.kind = .eof) : c.advance = c := by
  rw [kind, current] at hk
  unfold advance
  cases hr : c.rest with
  | nil => rfl
  | cons t ts =>
    rw [hr] at hk
    exact if_pos hk

/-- A step leads over the current token, or there is none to move over. -/
theorem took_advance {c : Cursor} (hk : c.kind ≠ .eof) :
    c.advance = c ∧ c.rest = [] ∨ c.Took [c.current] c.advance := by
  obtain ⟨previous, rest, last⟩ := c
  cases rest with
  | nil => exact Or.inl ⟨rfl, rfl⟩
  | cons t ts =>
    have hk : t.kind ≠ .eof := hk
    refine Or.inr ⟨?_, ?_, ?_⟩ <;> simp [advance, hk, current]

theorem exists_cons {c : Cursor} (hl : c.last.kind = .eof) (hk : c.kind ≠ .eof) : ∃ ts, c.rest = c.current :: ts := by
  rw [kind, current] at hk
  rw [current]
  cases h : c.rest with
  | nil =>
    rw [h] at hk
    exact absurd hl hk
  | cons t ts => exact ⟨ts, rfl⟩

/-- A step over a token that is no end mark. -/
theorem took_current {c : Cursor} (hl : c.last.kind = .eof) (hk : c.kind ≠ .eof) : c.Took [c.current] c.advance := by
  obtain ⟨ts, hts⟩ := exists_cons hl hk
  refine (took_advance hk).resolve_left fun hstay => ?_
  rw [hts] at hstay
  exact absurd hstay.2 (List.cons_ne_nil _ _)

theorem last_ofTokens (ts : List Token) : (Cursor.ofTokens ts).last.kind = .eof := by
  unfold ofTokens
  split
  · rfl
  · split
    · next h => exact h
    · rfl

/-- A cursor has moved over tokens inside a statement. -/
def Inward (c d : Cursor) : Prop := ∃ us, c.Took us d ∧ ∀ t ∈ us, t.kind.isBoundary = false

instance : Std.Refl Inward := ⟨fun c => ⟨[], .refl c, by simp⟩⟩

instance : IsTrans Cursor Inward where
  trans := by
    rintro c d e ⟨us, h, hus⟩ ⟨vs, h₂, hvs⟩
    exact ⟨us ++ vs, h.trans h₂, fun t ht => (List.mem_append.mp ht).elim (hus t) (hvs t)⟩

theorem inward_advance {c : Cursor} (hk : c.kind.isBoundary = false) : c.Inward c.advance := by
  have heof : c.kind ≠ .eof := fun he => by simp [he, Kind.isBoundary] at hk
  rcases took_advance heof with ⟨h, -⟩ | h
  · rw [h]
    exact Std.Refl.refl c
  · exact ⟨_, h, fun t ht => by rwa [List.mem_singleton.mp ht]⟩

end Cursor

namespace Rule

variable {α β : Type} {P : Cursor → Prop} {k n : Kind}

abbrev InnerFrom (P : Cursor → Prop) (x : Rule α) : Prop := Moves Cursor.Inward P x

abbrev InnerAt (k : Kind) (x : Rule α) : Prop := InnerFrom (fun c => c.kind = k) x

abbrev Inner (x : Rule α) : Prop := InnerFrom (fun _ => True) x

theorem Inner.anywhere {x : Rule α} (h : Inner x) : InnerFrom P x := h.before fun _ _ => trivial

theorem InnerFrom.many {size : Cursor → Nat} {step : Rule (Option α)} (h : Inner step) :
    Inner (many size step) :=
  Moves.many h fun _ _ _ _ => trivial

section Reading

variable {R : Cursor → Cursor → Prop}

theorem kind_bind {g : Kind → Rule α} (hg : ∀ k, Moves R (fun c => c.kind = k) (g k)) :
    Moves R P (Rule.kind >>= g) :=
  Moves.read (φ := Cursor.kind) fun k => (hg k).before fun _ h => h.2

theorem current_bind {g : Token → Rule α} (hg : ∀ t, Moves R P (g t)) :
    Moves R P (Rule.current >>= g) :=
  Moves.read (φ := Cursor.current) fun t => (hg t).before fun _ h => h.1

theorem here_bind {g : Offset → Rule α} (hg : ∀ o, Moves R P (g o)) :
    Moves R P (Rule.here >>= g) :=
  Moves.read (φ := fun c : Cursor => c.current.span.start) fun o => (hg o).before fun _ h => h.1

theorem previousEnd_bind {g : Offset → Rule α} (hg : ∀ o, Moves R P (g o)) :
    Moves R P (Rule.previousEnd >>= g) :=
  Moves.read (φ := Cursor.previousEnd) fun o => (hg o).before fun _ h => h.1

theorem peek_bind {g : Kind → Rule α} (hg : ∀ n, Moves R (fun c => P c ∧ c.peek 1 = n) (g n)) :
    Moves R P (Rule.peek 1 >>= g) :=
  Moves.read (φ := fun c : Cursor => c.peek 1) hg

end Reading

theorem advance_inner (hk : k.isBoundary = false) : InnerAt k Rule.advance :=
  fun _ hc => Cursor.inward_advance (hc ▸ hk)

/-- After the token looked ahead from, the cursor is at the token seen. -/
theorem advance_peeked {g : Token → Rule α} (hk : k.isBoundary = false) (hn : n.isBoundary = false)
    (hg : ∀ t, InnerAt n (g t)) :
    InnerFrom (fun c => c.kind = k ∧ c.peek 1 = n) (Rule.advance >>= g) := by
  intro c hc
  have heof : c.kind ≠ .eof := fun he => by simp [← hc.1, he, Kind.isBoundary] at hk
  have hpeek : c.peek 1 ≠ .eof := fun he => by simp [← hc.2, he, Kind.isBoundary] at hn
  have hnext : c.advance.kind = n := (Cursor.kind_advance heof hpeek).symm.trans hc.2
  exact IsTrans.trans _ _ _ (Cursor.inward_advance (hc.1 ▸ hk)) (hg c.current c.advance hnext)

theorem fail_inner {cause : Cause} {span : Span} :
    InnerFrom (α := α) P (Rule.fail cause span) :=
  fun c _ => Std.Refl.refl c

theorem unexpected_inner : InnerFrom (α := α) P Rule.unexpected := fun c _ => Std.Refl.refl c

theorem unexpectedDetailed_inner {message : String} :
    InnerFrom (α := α) P (Rule.unexpectedDetailed message) :=
  fun c _ => Std.Refl.refl c

theorem eat_inner (hk : k.isBoundary = false) : InnerFrom P (Rule.eat k) := by
  intro c _
  unfold Rule.eat
  split
  · next hc => exact Cursor.inward_advance (hc ▸ hk)
  · exact Std.Refl.refl c

theorem expect_inner (hk : k.isBoundary = false) : InnerFrom P (Rule.expect k) := by
  intro c _
  unfold Rule.expect
  split
  · next hc => exact Cursor.inward_advance (hc ▸ hk)
  · exact Std.Refl.refl c

theorem expectDetailed_inner (hk : k.isBoundary = false) {message : String} :
    InnerFrom P (Rule.expectDetailed k message) := by
  intro c _
  unfold Rule.expectDetailed
  split
  · next hc => exact Cursor.inward_advance (hc ▸ hk)
  · exact Std.Refl.refl c

theorem atKeyword_bind {g : Bool → Rule α}
    (ht : InnerFrom (fun c => c.kind = .identifier ∧ c.peek 1 = .assignment) (g true))
    (hf : Inner (g false)) : InnerFrom P (Grammar.atKeyword >>= g) := by
  intro c _
  change Cursor.Inward c (endState (g (decide (c.kind = .identifier) &&
    decide (c.peek 1 = .assignment)) c))
  by_cases hc : c.kind = .identifier ∧ c.peek 1 = .assignment
  · rw [decide_eq_true hc.1, decide_eq_true hc.2]
    exact ht c hc
  · rw [← Bool.decide_and, decide_eq_false hc]
    exact hf c trivial

section Lists

variable {item : Rule α} {step : Rule (Option α)} {stop : Kind → Bool} {close : Kind}

theorem repeated_inner (h : Inner step) : InnerFrom P (Rule.repeated step) :=
  (InnerFrom.many h).anywhere

theorem introduced_inner (hk : k.isBoundary = false) (h : Inner item) :
    InnerFrom P (Rule.introduced k item) :=
  (eat_inner hk).bind fun _ => Moves.ite (fun _ => Moves.map h) fun _ => Moves.pure

theorem commaTail_inner (h : Inner item) : InnerFrom P (Rule.commaTail stop item) :=
  repeated_inner <| (eat_inner rfl).bind fun _ =>
    Moves.ite (fun _ => kind_bind fun _ => Moves.ite (fun _ => Moves.pure) fun _ =>
      Moves.map h.anywhere) fun _ => Moves.pure

theorem commaList_inner (h : Inner item) : InnerFrom P (Rule.commaList stop item) :=
  h.anywhere.bind fun _ => (commaTail_inner h).bind fun _ => Moves.pure

theorem listUpTo_inner (h : Inner item) : InnerFrom P (Rule.listUpTo close item) :=
  kind_bind fun _ => Moves.ite (fun _ => Moves.pure) fun _ => commaList_inner h

end Lists

end Rule

end Offside
