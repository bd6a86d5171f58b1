import Offside.Rule

namespace Offside

class Relocate (α : Type) where
  relocate : (Offset → Offset) → α → α

export Relocate (relocate)

instance : Relocate Diagnostic where
  relocate f d := ⟨d.cause, ⟨f d.span.start, f d.span.stop⟩⟩

instance {α : Type} [Relocate α] : Relocate (Option α) where
  relocate f := Option.map (relocate f)

instance {α : Type} [Relocate α] : Relocate (List α) where
  relocate f := List.map (relocate f)

/-- States that runs lead through in one direction. -/
class Directed (σ : Type) where
  /-- A run can lead from the first state to the second. -/
  Onward : σ → σ → Prop
  refl : ∀ s, Onward s s
  trans : ∀ {s t u}, Onward s t → Onward t u → Onward s u

export Directed (Onward)

/-- When the left of two runs is given up: in a state, or with a fault found in a state. A run that
is given up stays so. -/
structure Escape (σ : Type) [Directed σ] where
  state : σ → Prop
  fault : Diagnostic → σ → Prop
  kept : ∀ {s t}, Onward s t → state s → state t

def Where {σ : Type} (P : σ → σ → Prop) (φ : σ → Prop) : σ → σ → Prop := fun s s' => P s s' ∧ φ s

variable {σ α β : Type}

def endState : EStateM.Result Diagnostic σ α → σ
  | .ok _ s => s
  | .error _ s => s

theorem bind_eq_ok {x : EStateM Diagnostic σ α} {g : α → EStateM Diagnostic σ β} {s t : σ} {b : β} :
    (x >>= g) s = .ok b t ↔ ∃ a u, x s = .ok a u ∧ g a u = .ok b t := by
  change EStateM.bind x g s = _ ↔ _
  unfold EStateM.bind
  cases x s with
  | ok a u => exact ⟨fun h => ⟨a, u, rfl, h⟩, fun ⟨_, _, hx, h⟩ => by cases hx; exact h⟩
  | error e u => simp

theorem bind_ok {x : EStateM Diagnostic σ α} {g : α → EStateM Diagnostic σ β} {s t : σ} {a : α}
    (h : x s = .ok a t) : (x >>= g) s = g a t := by
  change EStateM.bind x g s = _
  unfold EStateM.bind
  rw [h]

section Steps

variable {size : σ → Nat} {step : EStateM Diagnostic σ (Option α)} {s t u : σ} {a : α} {as : List α}
  {e : Diagnostic}

theorem many_none (h : step s = .ok none t) : many size step s = .ok [] t := by
  rw [many, h]

theorem many_error (h : step s = .error e t) : many size step s = .error e t := by
  rw [many, h]

theorem many_cons (h : step s = .ok (some a) t) (hlt : size t < size s)
    (hrest : many size step t = .ok as u) : many size step s = .ok (a :: as) u := by
  rw [many, h]
  simp only [if_pos hlt, hrest]

theorem many_cons_error (h : step s = .ok (some a) t) (hlt : size t < size s)
    (hrest : many size step t = .error e u) : many size step s = .error e u := by
  rw [many, h]
  simp only [if_pos hlt, hrest]

variable {next : α → EStateM Diagnostic σ (Option α)} {b : α}

theorem iterate_none (h : next a s = .ok none t) : iterate size next a s = .ok a t := by
  rw [iterate, h]

theorem iterate_some (h : next a s = .ok (some b) t) (hlt : size t < size s) :
    iterate size next a s = iterate size next b t := by
  rw [iterate, h]
  simp only [if_pos hlt]

end Steps

variable [Directed σ]

def Escape.outcome (X : Escape σ) : EStateM.Result Diagnostic σ α → Prop
  | .ok _ s => X.state s
  | .error e s => X.state s ∨ X.fault e s

theorem Escape.outcome_of_state (X : Escape σ) {r : EStateM.Result Diagnostic σ α}
    (h : X.state (endState r)) : X.outcome r := by
  cases r with
  | ok a s => exact h
  | error e s => exact Or.inl h

theorem onward_bind {x : EStateM Diagnostic σ α} {g : α → EStateM Diagnostic σ β}
    (hx : ∀ s, Onward s (endState (x s))) (hg : ∀ a s, Onward s (endState (g a s))) (s : σ) :
    Onward s (endState ((x >>= g) s)) := by
  have hx := hx s
  change Onward s (endState (EStateM.bind x g s))
  unfold EStateM.bind
  generalize x s = r at hx
  cases r with
  | ok a t => exact Directed.trans hx (hg a t)
  | error e t => exact hx

/-- A rule that has escaped stays so, whatever comes after it. -/
theorem Escape.outcome_bind (X : Escape σ) {x : EStateM Diagnostic σ α}
    {g : α → EStateM Diagnostic σ β} (hg : ∀ a s, Onward s (endState (g a s))) {s : σ}
    (h : X.outcome (x s)) : X.outcome ((x >>= g) s) := by
  change X.outcome (EStateM.bind x g s)
  unfold EStateM.bind
  generalize x s = r at h
  cases r with
  | ok a t => exact X.outcome_of_state (X.kept (hg a t) h)
  | error e t => exact h

theorem onward_many {size : σ → Nat} {step : EStateM Diagnostic σ (Option α)}
    (h : ∀ s, Onward s (endState (step s))) (s : σ) :
    Onward s (endState (Offside.many size step s)) := by
  induction s using WellFounded.induction (measure size).wf with
  | _ s ih =>
    have hstep := h s
    rw [Offside.many]
    generalize step s = r at hstep
    match r with
    | .error e t | .ok none t => exact hstep
    | .ok (some a) t =>
      dsimp only
      split
      · next hlt =>
        have hm := ih t hlt
        generalize Offside.many size step t = m at hm
        cases m <;> exact Directed.trans hstep hm
      · exact hstep

theorem Escape.outcome_many (X : Escape σ) {size : σ → Nat} {step : EStateM Diagnostic σ (Option α)}
    (hstep : ∀ s, Onward s (endState (step s))) {s : σ} (h : X.outcome (step s)) :
    X.outcome (Offside.many size step s) := by
  rw [Offside.many]
  generalize step s = r at h
  match r with
  | .error e t | .ok none t => exact h
  | .ok (some a) t =>
    dsimp only
    split
    · have hm : X.state (endState (Offside.many size step t)) := X.kept (onward_many hstep t) h
      generalize Offside.many size step t = m at hm
      cases m <;> exact X.outcome_of_state hm
    · exact h

theorem onward_iterate {size : σ → Nat} {step : α → EStateM Diagnostic σ (Option α)}
    (h : ∀ a s, Onward s (endState (step a s))) (a : α) (s : σ) :
    Onward s (endState (Offside.iterate size step a s)) := by
  induction s using WellFounded.induction (measure size).wf generalizing a with
  | _ s ih =>
    have hstep := h a s
    rw [Offside.iterate]
    generalize step a s = r at hstep
    match r with
    | .error e t | .ok none t => exact hstep
    | .ok (some b) t =>
      dsimp only
      split
      · next hlt => exact Directed.trans hstep (ih t hlt b)
      · exact hstep

variable [Relocate α] [Relocate β]

/-- Two outcomes are the same up to positions, in related states. -/
inductive Agree (f : Offset → Offset) (Q E : σ → σ → Prop) :
    EStateM.Result Diagnostic σ α → EStateM.Result Diagnostic σ α → Prop where
  | ok {a : α} {s s' : σ} (h : Q s s') : Agree f Q E (.ok a s) (.ok (relocate f a) s')
  | error {e : Diagnostic} {s s' : σ} (h : E s s') :
      Agree f Q E (.error e s) (.error (relocate f e) s')

structure Sim (f : Offset → Offset) (X : Escape σ) (P Q E : σ → σ → Prop)
    (x x' : EStateM Diagnostic σ α) : Prop where
  onward : ∀ s, Onward s (endState (x s))
  agree : ∀ s s', P s s' → X.outcome (x s) ∨ Agree f Q E (x s) (x' s')

variable {f : Offset → Offset} {X : Escape σ} {P P' Q Q' R E E' : σ → σ → Prop}
  {x x' : EStateM Diagnostic σ α}

omit [Directed σ] in
theorem Agree.weaken {r r' : EStateM.Result Diagnostic σ α} (h : Agree f Q E r r')
    (hQ : ∀ s s', Q s s' → Q' s s') (hE : ∀ s s', E s s' → E' s s') : Agree f Q' E' r r' := by
  cases h with
  | ok h => exact .ok (hQ _ _ h)
  | error h => exact .error (hE _ _ h)

namespace Sim

theorem weaken (h : Sim f X P Q E x x') (hP : ∀ s s', P' s s' → P s s')
    (hQ : ∀ s s', Q s s' → Q' s s') (hE : ∀ s s', E s s' → E' s s') :
    Sim f X P' Q' E' x x' where
  onward := h.onward
  agree s s' hs := (h.agree s s' (hP s s' hs)).imp_right fun ha => ha.weaken hQ hE

theorem before (h : Sim f X P Q E x x') (hP : ∀ s s', P' s s' → P s s') : Sim f X P' Q E x x' :=
  h.weaken hP (fun _ _ => id) (fun _ _ => id)

theorem forget {φ : σ → Prop} (h : Sim f X P Q E x x') : Sim f X (Where P φ) Q E x x' :=
  h.before fun _ _ => And.left

theorem pure {a a' : α} (ha : a' = relocate f a) (hQ : ∀ s s', P s s' → Q s s') :
    Sim f X P Q E (Pure.pure a) (Pure.pure a') where
  onward := Directed.refl
  agree s s' hs := Or.inr (ha ▸ .ok (hQ s s' hs))

theorem fail {e d : Diagnostic} (he : d = relocate f e) (hE : ∀ s s', P s s' → E s s') :
    Sim (α := α) f X P Q E (throw e) (throw d) where
  onward := Directed.refl
  agree s s' hs := Or.inr (he ▸ .error (hE s s' hs))

theorem bind {g g' : α → EStateM Diagnostic σ β} (h : Sim f X P Q E x x')
    (hg : ∀ a, Sim f X Q R E (g a) (g' (relocate f a))) :
    Sim f X P R E (x >>= g) (x' >>= g') where
  onward := onward_bind h.onward fun a => (hg a).onward
  agree s s' hs := by
    rcases h.agree s s' hs with hx | hx
    · exact Or.inl (X.outcome_bind (fun a => (hg a).onward) hx)
    · change X.outcome (EStateM.bind x g s) ∨
        Agree f R E (EStateM.bind x g s) (EStateM.bind x' g' s')
      unfold EStateM.bind
      generalize x s = r at hx
      generalize x' s' = r' at hx
      cases hx with
      | ok hQ => exact (hg _).agree _ _ hQ
      | error hE => exact Or.inr (.error hE)

theorem map {φ ψ : α → β} (h : Sim f X P Q E x x')
    (hφ : ∀ a, ψ (relocate f a) = relocate f (φ a)) :
    Sim f X P Q E (φ <$> x) (ψ <$> x') := by
  have hm : ∀ (φ : α → β) (x : EStateM Diagnostic σ α), (φ <$> x) = (x >>= fun a => Pure.pure (φ a)) :=
    fun _ _ => rfl
  rw [hm, hm]
  exact h.bind fun a => pure (hφ a) fun _ _ => id

theorem ite {b : Prop} [Decidable b] {y y' : EStateM Diagnostic σ α}
    (hx : b → Sim f X P Q E x x') (hy : ¬b → Sim f X P Q E y y') :
    Sim f X P Q E (if b then x else y) (if b then x' else y') := by
  split
  · exact hx ‹_›
  · exact hy ‹_›

/-- What is seen in the state stays known. -/
theorem read {φ : σ → α} {g k : α → EStateM Diagnostic σ β}
    (hφ : ∀ s s', P s s' → φ s' = relocate f (φ s))
    (hg : ∀ a, Sim f X (Where P fun s => φ s = a) Q E (g a) (k (relocate f a))) :
    Sim f X P Q E (fun s => g (φ s) s) (fun s => k (φ s) s) where
  onward s := (hg (φ s)).onward s
  agree s s' hs := by
    rw [hφ s s' hs]
    exact (hg (φ s)).agree s s' ⟨hs, rfl⟩

/-- Repetition keeps what each step keeps, if the two sides measure their progress alike. -/
theorem many {size size' : σ → Nat} {step step' : EStateM Diagnostic σ (Option α)}
    (h : Sim f X P P E step step')
    (hsize : ∀ s s' t t', P s s' → P t t' → (size t < size s ↔ size' t' < size' s')) :
    Sim f X P P E (many size step) (many size' step') where
  onward := onward_many h.onward
  agree s := by
    induction s using WellFounded.induction (measure size).wf with
    | _ s ih =>
      intro s' hs
      rcases h.agree s s' hs with hstep | hstep
      · exact Or.inl (X.outcome_many h.onward hstep)
      · rw [Offside.many, Offside.many]
        generalize step s = r at hstep
        generalize step' s' = r' at hstep
        cases hstep with
        | error hE => exact Or.inr (.error hE)
        | @ok o t t' hQ =>
          cases o with
          | none => exact Or.inr (.ok hQ)
          | some a =>
            have hlt := hsize s s' t t' hs hQ
            simp only [Relocate.relocate, Option.map_some]
            by_cases ht : size t < size s
            · rw [if_pos ht, if_pos (hlt.mp ht)]
              have hm := ih t ht t' hQ
              generalize Offside.many size step t = m at hm
              generalize Offside.many size' step' t' = m' at hm
              rcases hm with hm | hm
              · left
                cases m <;> exact hm
              · cases hm with
                | ok hP => exact Or.inr (.ok (a := a :: _) hP)
                | error hE => exact Or.inr (.error hE)
            · rw [if_neg ht, if_neg (mt hlt.mpr ht)]
              exact Or.inr (.ok (a := [a]) hQ)

theorem iterate {size size' : σ → Nat} {step step' : α → EStateM Diagnostic σ (Option α)}
    (h : ∀ a, Sim f X P P E (step a) (step' (relocate f a)))
    (hsize : ∀ s s' t t', P s s' → P t t' → (size t < size s ↔ size' t' < size' s')) (a : α) :
    Sim f X P P E (iterate size step a) (iterate size' step' (relocate f a)) where
  onward := onward_iterate (fun a => (h a).onward) a
  agree s := by
    induction s using WellFounded.induction (measure size).wf generalizing a with
    | _ s ih =>
      intro s' hs
      have hstep := (h a).agree s s' hs
      rw [Offside.iterate, Offside.iterate]
      generalize step a s = r at hstep
      generalize step' (relocate f a) s' = r' at hstep
      rcases hstep with hstep | hstep
      · left
        match r with
        | .error e t | .ok none t => exact hstep
        | .ok (some b) t =>
          dsimp only
          split
          · exact X.outcome_of_state (X.kept (onward_iterate (fun a => (h a).onward) b t) hstep)
          · exact hstep
      · cases hstep with
        | error hE => exact Or.inr (.error hE)
        | @ok o t t' hQ =>
          cases o with
          | none => exact Or.inr (.ok hQ)
          | some b =>
            have hlt := hsize s s' t t' hs hQ
            simp only [Relocate.relocate, Option.map_some]
            by_cases ht : size t < size s
            · rw [if_pos ht, if_pos (hlt.mp ht)]
              exact ih t ht b t' hQ
            · rw [if_neg ht, if_neg (mt hlt.mpr ht)]
              exact Or.inr (.ok (a := b) hQ)

end Sim

end Offside
