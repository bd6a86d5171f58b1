import Offside.Proofs.Moves.Expr
import Offside.Proofs.Seam.Stream

namespace Offside

open Grammar

/-- A cursor has moved over tokens none of which is an end mark. -/
def Cursor.Forth (c d : Cursor) : Prop := ∃ us, c.Took us d ∧ ∀ t ∈ us, t.kind ≠ .eof

namespace Cursor

variable {c d : Cursor}

instance : Std.Refl Forth := ⟨fun c => ⟨[], .refl c, by simp⟩⟩

instance : IsTrans Cursor Forth where
  trans := by
    rintro c d e ⟨us, h, hus⟩ ⟨vs, h₂, hvs⟩
    exact ⟨us ++ vs, h.trans h₂, fun t ht => (List.mem_append.mp ht).elim (hus t) (hvs t)⟩

theorem Forth.last_eq (h : c.Forth d) : d.last = c.last := by
  obtain ⟨us, h, -⟩ := h
  exact h.last_eq

theorem Forth.remaining_le (h : c.Forth d) : d.remaining ≤ c.remaining := by
  obtain ⟨us, h, -⟩ := h
  rw [remaining, remaining, h.rest_eq, List.length_append]
  omega

/-- A cursor with fewer tokens left has moved over the current one. -/
theorem Forth.exists_rest (h : c.Forth d) (hlt : d.remaining < c.remaining) :
    ∃ us, c.rest = c.current :: (us ++ d.rest) := by
  obtain ⟨us, htook, -⟩ := h
  have hrest := htook.rest_eq
  cases us with
  | nil => exact absurd (congrArg List.length hrest) (Nat.ne_of_gt hlt)
  | cons u us =>
    refine ⟨us, ?_⟩
    rw [current, hrest]
    rfl

/-- A cursor with as many tokens left has not moved. -/
theorem Forth.eq_of_le (h : c.Forth d) (hle : c.remaining ≤ d.remaining) : d = c := by
  obtain ⟨us, htook, -⟩ := h
  have hlength := congrArg List.length htook.rest_eq
  rw [List.length_append] at hlength
  -- as many tokens are left, so none was taken
  obtain rfl : us = [] := List.eq_nil_of_length_eq_zero (by unfold remaining at hle; omega)
  obtain ⟨hrest, hlast, hprevious⟩ := htook
  cases c
  cases d
  simp_all

theorem Inward.forth (h : c.Inward d) : c.Forth d := by
  obtain ⟨us, h, hus⟩ := h
  refine ⟨us, h, fun t ht hk => ?_⟩
  have hinside := hus t ht
  rw [hk] at hinside
  contradiction

/-- A step stays before an end mark and moves over any other token. -/
theorem forth_advance (c : Cursor) : c.Forth c.advance := by
  by_cases hk : c.kind = .eof
  · rw [advance_of_eof hk]
    exact Std.Refl.refl c
  · rcases took_advance hk with ⟨hstay, -⟩ | htook
    · rw [hstay]
      exact Std.Refl.refl c
    · exact ⟨_, htook, fun t ht => by rwa [List.mem_singleton.mp ht]⟩

theorem forth_skip (n : Nat) (c : Cursor) : c.Forth (c.skip n) := by
  induction n generalizing c with
  | zero => exact Std.Refl.refl c
  | succ n ih => exact IsTrans.trans _ _ _ c.forth_advance (ih c.advance)

theorem forth_synchronize (progressed : Bool) (c : Cursor) : c.Forth (synchronize progressed c) := by
  unfold Grammar.synchronize
  split
  · exact Std.Refl.refl c
  · exact forth_skip _ c

end Cursor

class HasCursor (σ : Type) where
  cursorOf : σ → Cursor

export HasCursor (cursorOf)

instance : HasCursor Cursor := ⟨id⟩

instance : HasCursor Progress := ⟨Progress.cursor⟩

section Classes

variable {σ α β : Type} [HasCursor σ]

def Farther (s t : σ) : Prop := (cursorOf s).Forth (cursorOf t)

instance : Std.Refl (Farther (σ := σ)) := ⟨fun s => Std.Refl.refl (cursorOf s)⟩

instance : IsTrans σ Farther where
  trans s t u h h₂ := IsTrans.trans (cursorOf s) (cursorOf t) (cursorOf u) h h₂

/-- A rule that goes forward, wherever it starts. -/
class Forward (x : EStateM Diagnostic σ α) : Prop where
  moves : Moves Farther (fun _ => True) x

class Consumes (x : EStateM Diagnostic σ α) : Prop where
  lt : ∀ {s t : σ} {a : α}, (cursorOf s).last.kind = .eof → x s = .ok a t →
    (cursorOf t).remaining < (cursorOf s).remaining

variable {x y : EStateM Diagnostic σ α} {g : α → EStateM Diagnostic σ β}

theorem Forward.forth [h : Forward x] (s : σ) : (cursorOf s).Forth (cursorOf (endState (x s))) :=
  h.moves s trivial

theorem Forward.of_ok [h : Forward x] {s t : σ} {a : α} (hx : x s = .ok a t) :
    (cursorOf s).Forth (cursorOf t) := by
  have hforth := h.forth s
  rwa [hx] at hforth

theorem Forward.stay {α : Type} {x : EStateM Diagnostic σ α} (h : ∀ s, endState (x s) = s) : Forward x where
  moves s _ := by
    rw [h s]
    exact Std.Refl.refl s

theorem Forward.bind [hx : Forward x] (hg : ∀ a, Forward (g a)) : Forward (x >>= g) :=
  ⟨hx.moves.bind fun a => (hg a).moves⟩

instance (a : α) : Forward (σ := σ) (pure a) := ⟨Moves.pure⟩

instance (e : Diagnostic) : Forward (σ := σ) (α := α) (throw e) := ⟨Moves.throw⟩

instance [Forward x] [hg : ∀ a, Forward (g a)] : Forward (x >>= g) := .bind hg

instance {φ : α → β} [hx : Forward x] : Forward (φ <$> x) := ⟨hx.moves.map⟩

instance {p : Prop} [Decidable p] [hx : Forward x] [hy : Forward y] :
    Forward (if p then x else y) :=
  ⟨Moves.ite (fun _ => hx.moves) fun _ => hy.moves⟩

instance {size : σ → Nat} {step : EStateM Diagnostic σ (Option α)} [h : Forward step] :
    Forward (many size step) :=
  ⟨Moves.many h.moves fun _ _ _ _ => trivial⟩

instance {size : σ → Nat} {step : α → EStateM Diagnostic σ (Option α)} [h : ∀ a, Forward (step a)] (a : α) :
    Forward (iterate size step a) :=
  ⟨Moves.iterate (fun a => (h a).moves) (fun _ _ _ _ => trivial) a⟩

instance (priority := high) [hx : Consumes x] [hg : ∀ a, Forward (g a)] : Consumes (x >>= g) where
  lt := by
    intro s u b hl h
    obtain ⟨a, t, hfirst, hsecond⟩ := bind_eq_ok.mp h
    have hlt := hx.lt hl hfirst
    have hle := (Forward.of_ok hsecond).remaining_le
    omega

instance [hx : Forward x] [hg : ∀ a, Consumes (g a)] : Consumes (x >>= g) where
  lt := by
    intro s u b hl h
    obtain ⟨a, t, hfirst, hsecond⟩ := bind_eq_ok.mp h
    have hforth := hx.of_ok hfirst
    -- a rule that goes forward keeps the end mark, so the second part may count on it
    have hlt := (hg a).lt (hforth.last_eq ▸ hl) hsecond
    have hle := hforth.remaining_le
    omega

instance {φ : α → β} [hx : Consumes x] : Consumes (φ <$> x) where
  lt hl h := by
    change (x >>= fun a => pure (φ a)) _ = _ at h
    obtain ⟨a, u, hfirst, hsecond⟩ := bind_eq_ok.mp h
    cases hsecond
    exact hx.lt hl hfirst

instance {p : Prop} [Decidable p] [hx : Consumes x] [hy : Consumes y] :
    Consumes (if p then x else y) := by
  split <;> infer_instance

instance (e : Diagnostic) : Consumes (σ := σ) (α := α) (throw e) := ⟨fun _ h => nomatch h⟩

/-- One round of a loop: to ask for another round it must have consumed a token. -/
class Rounds (step : EStateM Diagnostic σ (Option α)) : Prop where
  lt : ∀ {s t : σ} {a : α}, (cursorOf s).last.kind = .eof → step s = .ok (some a) t →
    (cursorOf t).remaining < (cursorOf s).remaining

instance [hx : Consumes x] : Rounds (some <$> x) := ⟨fun hl h => Consumes.lt hl h⟩

instance : Rounds (σ := σ) (α := α) (pure none) := ⟨fun _ h => nomatch h⟩

instance {p : Prop} [Decidable p] {step step' : EStateM Diagnostic σ (Option α)} [Rounds step]
    [Rounds step'] : Rounds (if p then step else step') := by
  split <;> infer_instance

instance {g : α → EStateM Diagnostic σ (Option β)} [hx : Consumes x] [hg : ∀ a, Forward (g a)] :
    Rounds (x >>= g) :=
  ⟨fun hl h => Consumes.lt hl h⟩

theorem Rounds.bind {g : α → EStateM Diagnostic σ (Option β)} [hx : Forward x]
    (hg : ∀ a, Rounds (g a)) : Rounds (x >>= g) where
  lt := by
    intro s u b hl h
    obtain ⟨a, t, hfirst, hsecond⟩ := bind_eq_ok.mp h
    have hforth := hx.of_ok hfirst
    have hlt := (hg a).lt (hforth.last_eq ▸ hl) hsecond
    have hle := hforth.remaining_le
    omega

/-- A loop whose first round does not end it consumes a token. -/
theorem many_lt {size : σ → Nat} {step : EStateM Diagnostic σ (Option α)} [Forward step]
    [hround : Rounds step] {s t : σ} {as : List α} (hl : (cursorOf s).last.kind = .eof)
    (hgo : ∀ u, step s ≠ .ok none u) (h : many size step s = .ok as t) :
    (cursorOf t).remaining < (cursorOf s).remaining := by
  rw [many] at h
  cases hstep : step s with
  | error e u =>
    rw [hstep] at h
    contradiction
  | ok o u =>
    cases o with
    | none => exact absurd hstep (hgo u)
    | some a =>
      -- the first round took a token, and the others give none back
      have hlt := hround.lt hl hstep
      rw [hstep] at h
      dsimp only at h
      split at h
      · split at h
        · next hrest =>
          cases h
          have hle := (Forward.of_ok hrest).remaining_le
          omega
        · contradiction
      · cases h
        exact hlt

end Classes

namespace Rule

variable {α : Type} {item : Rule α} {step : Rule (Option α)}

instance : Forward Rule.kind := .stay fun _ => rfl

instance : Forward Rule.current := .stay fun _ => rfl

instance : Forward Rule.here := .stay fun _ => rfl

instance : Forward Rule.previousEnd := .stay fun _ => rfl

instance (n : Nat) : Forward (Rule.peek n) := .stay fun _ => rfl

instance (cause : Cause) (span : Span) : Forward (α := α) (Rule.fail cause span) := .stay fun _ => rfl

instance : Forward (α := α) Rule.unexpected := .stay fun _ => rfl

instance (message : String) : Forward (α := α) (Rule.unexpectedDetailed message) := .stay fun _ => rfl

instance (message : String) : Consumes (α := α) (Rule.unexpectedDetailed message) :=
  ⟨fun _ h => nomatch h⟩

instance : Forward Rule.advance := ⟨fun c _ => c.forth_advance⟩

/-- The step taken when the current token is of a kind. -/
theorem forward_taking {k : Kind} {a b : Cursor → α} {f : Cursor → Diagnostic} :
    Forward (fun c : Cursor => if c.kind = k then .ok (a c) c.advance else .ok (b c) c) ∧
      Forward (α := α) (fun c : Cursor => if c.kind = k then .ok (a c) c.advance else .error (f c) c) := by
  constructor
  all_goals
    constructor
    intro c _
    dsimp only
    split
    · exact c.forth_advance
    · exact Std.Refl.refl c

instance (k : Kind) : Forward (Rule.eat k) := (forward_taking (f := Cursor.unexpected)).1

instance (k : Kind) : Forward (Rule.expect k) :=
  (forward_taking (b := Cursor.current)).2

instance (k : Kind) (message : String) : Forward (Rule.expectDetailed k message) :=
  (forward_taking (b := Cursor.current)).2

/-- Tokens that are no end mark can be consumed. -/
theorem consumes_taking {k : Kind} (hk : k ≠ .eof) {a : Cursor → α} {f : Cursor → Diagnostic} :
    Consumes (α := α) (fun c : Cursor => if c.kind = k then .ok (a c) c.advance else .error (f c) c) where
  lt := by
    intro c d t hl h
    split at h
    · next hc =>
      cases h
      exact c.remaining_advance_lt hl (hc ▸ hk)
    · contradiction

instance (k : Kind) [hk : Fact (k ≠ .eof)] : Consumes (Rule.expect k) := consumes_taking hk.out

instance (k : Kind) (message : String) [hk : Fact (k ≠ .eof)] : Consumes (Rule.expectDetailed k message) :=
  consumes_taking hk.out

instance : Fact (Kind.identifier ≠ .eof) := ⟨nofun⟩

instance : Fact (Kind.colon ≠ .eof) := ⟨nofun⟩

instance : Fact (Kind.newline ≠ .eof) := ⟨nofun⟩

instance : Fact (Kind.openParen ≠ .eof) := ⟨nofun⟩

instance : Fact (Kind.closeBracket ≠ .eof) := ⟨nofun⟩

instance (k : Kind) [hk : Fact (k ≠ .eof)] [hstep : Forward step] :
    Rounds (Rule.eat k >>= fun eaten => if eaten = true then step else pure none) where
  lt := by
    intro c d a hl h
    obtain ⟨eaten, u, heat, hrest⟩ := bind_eq_ok.mp h
    unfold Rule.eat at heat
    split at heat
    · next hc =>
      cases heat
      have hlt := c.remaining_advance_lt hl (hc ▸ hk.out)
      have hle := (hstep.of_ok hrest).remaining_le
      exact Nat.lt_of_le_of_lt hle hlt
    · cases heat
      exact absurd (show (pure none : Rule (Option α)) c = _ from hrest) nofun

instance [Forward step] : Forward (Rule.repeated step) := by unfold Rule.repeated; infer_instance

instance (k : Kind) [Forward item] : Forward (Rule.introduced k item) := by
  unfold Rule.introduced; infer_instance

instance (stop : Kind → Bool) [Forward item] : Forward (Rule.commaRound stop item) := by
  unfold Rule.commaRound; infer_instance

instance (stop : Kind → Bool) [Forward item] : Forward (Rule.commaTail stop item) := by
  unfold Rule.commaTail; infer_instance

instance (stop : Kind → Bool) [Forward item] : Forward (Rule.commaList stop item) := by
  unfold Rule.commaList; infer_instance

instance (close : Kind) [Forward item] : Forward (Rule.listUpTo close item) := by
  unfold Rule.listUpTo; infer_instance

end Rule

end Offside
