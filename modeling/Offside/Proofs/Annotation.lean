import Offside.Proofs.Termination
import Offside.Proofs.Tree.Valid

namespace Offside.Grammar

variable {α β : Type} {c d : Cursor}

section Loops

/-- The first round of a loop, which either ends it or goes on to the rest of it. -/
theorem iterate_cases {step : α → Rule (Option α)} [hround : ∀ a, Rounds (step a)] {a z : α}
    (hl : c.last.kind = .eof) (h : iterate Cursor.remaining step a c = .ok z d) :
    (step a c = .ok none d ∧ z = a) ∨ ∃ b u, step a c = .ok (some b) u ∧ u.remaining < c.remaining ∧
      iterate Cursor.remaining step b u = .ok z d := by
  rw [iterate] at h
  cases hstep : step a c with
  | error e u =>
    rw [hstep] at h
    contradiction
  | ok o u =>
    rw [hstep] at h
    cases o with
    | none =>
      cases h
      exact Or.inl ⟨rfl, rfl⟩
    | some b =>
      have hlt : u.remaining < c.remaining := (hround a).lt hl hstep
      dsimp only at h
      rw [if_pos hlt] at h
      exact Or.inr ⟨b, u, rfl, hlt, h⟩

theorem many_cases {step : Rule (Option α)} [hround : Rounds step] {as : List α}
    (hl : c.last.kind = .eof) (h : many Cursor.remaining step c = .ok as d) :
    (step c = .ok none d ∧ as = []) ∨ ∃ a rest u, step c = .ok (some a) u ∧
      u.remaining < c.remaining ∧ as = a :: rest ∧ many Cursor.remaining step u = .ok rest d := by
  rw [many] at h
  cases hstep : step c with
  | error e u =>
    rw [hstep] at h
    contradiction
  | ok o u =>
    rw [hstep] at h
    cases o with
    | none =>
      cases h
      exact Or.inl ⟨rfl, rfl⟩
    | some a =>
      have hlt : u.remaining < c.remaining := hround.lt hl hstep
      dsimp only at h
      rw [if_pos hlt] at h
      split at h
      · next rest v hrest =>
        cases h
        exact Or.inr ⟨a, rest, u, rfl, hlt, rfl, hrest⟩
      · contradiction

/-- A loop that takes the steps of another one ends like it. What a step of the first loop comes to
in the end may be used to find the step of the second. -/
theorem iterate_transfer {f : α → Rule (Option α)} {g : β → Rule (Option β)}
    [hforward : ∀ a, Forward (f a)] [∀ a, Rounds (f a)] {R : α → β → Prop} {z : α}
    (hsome : ∀ {a b a' c u}, c.last.kind = .eof → R a b → f a c = .ok (some a') u →
      iterate Cursor.remaining f a' u = .ok z d → ∃ b', g b c = .ok (some b') u ∧ R a' b')
    (hnone : ∀ {b c}, R z b → f z c = .ok none d → g b c = .ok none d)
    {a : α} {b : β} (hl : c.last.kind = .eof) (hab : R a b)
    (h : iterate Cursor.remaining f a c = .ok z d) :
    ∃ w, iterate Cursor.remaining g b c = .ok w d ∧ R z w := by
  -- on the tokens left: both loops have taken the same ones
  induction c using WellFounded.induction (measure Cursor.remaining).wf generalizing a b with
  | _ c ih =>
    rcases iterate_cases hl h with ⟨hend, rfl⟩ | ⟨a', u, hstep, hlt, hrest⟩
    · exact ⟨b, iterate_none (hnone hab hend), hab⟩
    · obtain ⟨b', hstep', hrel⟩ := hsome hl hab hstep hrest
      obtain ⟨w, hw, hzw⟩ := ih u hlt (((hforward a).of_ok hstep).last_eq ▸ hl) hrel hrest
      exact ⟨w, (iterate_some hstep' hlt).trans hw, hzw⟩

end Loops

section Lists

variable {item : Rule α} {item' : Rule β} {W : α → Prop} {R : α → β → Prop} {close : Kind}

theorem commaRound_none {stop : Kind → Bool} (h : Rule.commaRound stop item c = .ok none d) :
    (c.kind ≠ .comma ∨ c.kind = .comma ∧ stop c.advance.kind = true) ∧
      d = if c.kind = .comma then c.advance else c := by
  have hstop : c.kind ≠ .comma ∨ c.kind = .comma ∧ stop c.advance.kind = true := by
    by_cases hk : c.kind = .comma
    · cases hs : stop c.advance.kind with
      | true => exact Or.inr ⟨hk, rfl⟩
      | false =>
        rw [Rule.commaRound_item hk hs] at h
        obtain ⟨_, _, _, h⟩ := bind_eq_ok.mp h
        cases h
    · exact Or.inl hk
  refine ⟨hstop, ?_⟩
  rw [Rule.commaRound_stop hstop] at h
  cases h
  rfl

theorem commaRound_some {stop : Kind → Bool} {a : α} (h : Rule.commaRound stop item c = .ok (some a) d) :
    c.kind = .comma ∧ stop c.advance.kind = false ∧ item c.advance = .ok a d := by
  by_cases hstop : c.kind ≠ .comma ∨ c.kind = .comma ∧ stop c.advance.kind = true
  · rw [Rule.commaRound_stop hstop] at h
    cases h
  · obtain ⟨hk, hs⟩ := not_or.mp hstop
    have hk := not_not.mp hk
    have hs : stop c.advance.kind = false := Bool.not_eq_true _ ▸ fun h => hs ⟨hk, h⟩
    rw [Rule.commaRound_item hk hs] at h
    obtain ⟨b, u, hitem, hsome⟩ := bind_eq_ok.mp h
    cases hsome
    exact ⟨hk, hs, hitem⟩

/-- Behind an item stands a comma, or the token that closes the list. -/
theorem kind_behind_item {as : List α} (hl : c.last.kind = .eof) [Forward item]
    (h : Rule.commaTail (· == close) item c = .ok as d) (hd : d.kind = close) :
    c.kind = .comma ∨ c.kind = close := by
  rcases many_cases hl h with ⟨hend, -⟩ | ⟨_, _, _, hstep, -⟩
  · by_cases hk : c.kind = .comma
    · exact Or.inl hk
    · rw [(commaRound_none hend).2, if_neg hk] at hd
      exact Or.inr hd
  · exact Or.inl (commaRound_some hstep).1

section Transfer

variable [hforward : Forward item]
  (hitem : ∀ {c u a}, c.last.kind = .eof → W a → item c = .ok a u →
    u.kind = .comma ∨ u.kind = close → ∃ b, item' c = .ok b u ∧ R a b)

include hitem

/-- Lists with corresponding items. -/
theorem commaTail_transfer {as : List α} (hl : c.last.kind = .eof) (has : ∀ a ∈ as, W a)
    (h : Rule.commaTail (· == close) item c = .ok as d) (hd : d.kind = close) :
    ∃ bs, Rule.commaTail (· == close) item' c = .ok bs d ∧ List.Forall₂ R as bs := by
  induction c using WellFounded.induction (measure Cursor.remaining).wf generalizing as with
  | _ c ih =>
    rcases many_cases hl h with
      ⟨hend, rfl⟩ | ⟨a, rest, u, hstep, hlt, rfl, hrest⟩
    · obtain ⟨hstop, rfl⟩ := commaRound_none hend
      exact ⟨[], many_none (Rule.commaRound_stop hstop), .nil⟩
    · obtain ⟨hk, hgo, ha⟩ := commaRound_some hstep
      have hl' : c.advance.last.kind = .eof := c.last_advance ▸ hl
      have hu : u.last.kind = .eof := (hforward.of_ok ha).last_eq ▸ hl'
      obtain ⟨hwant, hwants⟩ := List.forall_mem_cons.mp has
      obtain ⟨b, hb, hab⟩ := hitem hl' hwant ha (kind_behind_item hu hrest hd)
      obtain ⟨bs, hbs, hrel⟩ := ih u hlt hu hwants hrest
      have hstep' : Rule.commaRound (· == close) item' c = .ok (some b) u := by
        rw [Rule.commaRound_item hk hgo]
        exact bind_ok hb
      exact ⟨b :: bs, many_cons hstep' hlt hbs, .cons hab hrel⟩

theorem commaList_transfer {as : List α} (hl : c.last.kind = .eof) (has : ∀ a ∈ as, W a)
    (h : Rule.commaList (· == close) item c = .ok as d) (hd : d.kind = close) :
    ∃ bs, Rule.commaList (· == close) item' c = .ok bs d ∧ List.Forall₂ R as bs := by
  obtain ⟨a, u, ha, hrest⟩ := bind_eq_ok.mp h
  obtain ⟨rest, v, htail, hend⟩ := bind_eq_ok.mp hrest
  cases hend
  have hu : u.last.kind = .eof := (hforward.of_ok ha).last_eq ▸ hl
  obtain ⟨hwant, hwants⟩ := List.forall_mem_cons.mp has
  obtain ⟨b, hb, hab⟩ := hitem hl hwant ha (kind_behind_item hu htail hd)
  obtain ⟨bs, hbs, hrel⟩ := commaTail_transfer hitem hu hwants htail hd
  refine ⟨b :: bs, ?_, .cons hab hrel⟩
  exact (bind_ok hb).trans (bind_ok hbs)

end Transfer

end Lists

section Levels

variable {sub : ExprRule} {e left : Expr} {level level' : Level}

theorem extend?_of_lt (h : level < c.level) :
    extend? sub level left c = (some <$> extension sub left c.level) c := if_pos h

theorem extend?_of_le (h : c.level ≤ level) : extend? sub level left c = .ok none c :=
  if_neg (Nat.not_lt.mpr h)

theorem extend?_eq_some (h : extend? sub level left c = .ok (some e) d) :
    level < c.level ∧ extension sub left c.level c = .ok e d := by
  by_cases hlt : level < c.level
  · rw [extend?_of_lt hlt] at h
    obtain ⟨e', u, hextension, hsome⟩ := bind_eq_ok.mp h
    cases hsome
    exact ⟨hlt, hextension⟩
  · rw [extend?_of_le (Nat.not_lt.mp hlt)] at h
    cases h

theorem extend?_eq_none (h : extend? sub level left c = .ok none d) : c.level ≤ level ∧ d = c := by
  by_cases hlt : level < c.level
  · rw [extend?_of_lt hlt] at h
    obtain ⟨e', u, hextension, hsome⟩ := bind_eq_ok.mp h
    cases hsome
  · rw [extend?_of_le (Nat.not_lt.mp hlt)] at h
    cases h
    exact ⟨Nat.not_lt.mp hlt, rfl⟩

/-- Expressions need no guard. -/
theorem expr_eq_climb_expr (hl : c.last.kind = .eof) (level : Level) :
    expr level c = climb expr level c :=
  (climb_congr hl level fun _ _ _ _ => rfl).symm

/-- An expression climbs in the same steps at another level, if that level takes each of them and
ends where the expression does. -/
theorem expr_transfer (hl : c.last.kind = .eof) (h : expr level c = .ok e d)
    (hstep : ∀ {left left' c u}, c.last.kind = .eof → extend? expr level left c = .ok (some left') u →
      iterate Cursor.remaining (extend? expr level) left' u = .ok e d → level' < c.level)
    (hd : d.level ≤ level') : expr level' c = .ok e d := by
  rw [expr_eq_climb_expr hl] at h ⊢
  obtain ⟨left, u, hleft, hclimb⟩ := bind_eq_ok.mp h
  have hu : u.last.kind = .eof := (Forward.of_ok hleft).last_eq ▸ hl
  obtain ⟨w, hw, rfl⟩ := iterate_transfer (R := Eq) (g := extend? expr level')
    (fun {a b a' c u} hc hab hsome hrest => by
      subst hab
      refine ⟨a', ?_, rfl⟩
      rw [extend?_of_lt (hstep hc hsome hrest)]
      exact bind_ok (extend?_eq_some hsome).2)
    (fun {b c} hb hnone => by
      subst hb
      obtain ⟨-, rfl⟩ := extend?_eq_none hnone
      exact extend?_of_le hd)
    hu rfl hclimb
  exact (bind_ok hleft).trans hw

/-- An expression that a looser level would end too is the same at that level. -/
theorem expr_looser (hl : c.last.kind = .eof) (h : expr level c = .ok e d) (hle : level' ≤ level)
    (hd : d.level ≤ level') : expr level' c = .ok e d :=
  expr_transfer hl h (fun _ hsome _ => Nat.lt_of_le_of_lt hle (extend?_eq_some hsome).1) hd

/-- Behind its last value a conditional has come to its end. -/
theorem conditional_ends {left : Expr} (hl : c.last.kind = .eof)
    (h : conditional expr left c = .ok e d) : e.isConditional = true ∧ d.level = .lowest := by
  obtain ⟨_, c₁, hc₁, h⟩ := bind_eq_ok.mp h
  obtain ⟨_, c₂, hc₂, h⟩ := bind_eq_ok.mp h
  obtain ⟨_, c₃, hc₃, h⟩ := bind_eq_ok.mp h
  obtain ⟨_, c₄, hc₄, h⟩ := bind_eq_ok.mp h
  cases h
  have hlast : c₃.last.kind = .eof :=
    (Forward.of_ok hc₃).last_eq.trans ((Forward.of_ok hc₂).last_eq.trans (Forward.of_ok hc₁).last_eq) ▸ hl
  have hstops := (expr_reading .lowest c₃ hlast [] c₃ _ _ (.refl c₃) hc₄).2.stops
  refine ⟨rfl, ?_⟩
  revert hstops
  cases d.level <;> decide

theorem kind_of_level_conditional (h : c.level = .conditional) : c.kind = .kwIf := by
  unfold Cursor.level at h
  split at h
  · split at h <;> cases h
  · split at h <;> cases h
  · revert h
    cases c.kind <;> simp [Level.ofKind]

/-- An expression that is no conditional is the same as a value. -/
theorem expr_value (hl : c.last.kind = .eof) (h : expr .lowest c = .ok e d)
    (he : e.isConditional = false) : expr .conditional c = .ok e d := by
  have hstops := (expr_reading .lowest c hl [] c _ _ (.refl c) h).2.stops
  refine expr_transfer hl h (fun {left left' c u} hc hsome hrest => ?_) (Nat.le_succ_of_le hstops)
  obtain ⟨hlt, hextension⟩ := extend?_eq_some hsome
  by_contra hle
  have hlevel : c.level = .conditional := by
    revert hlt hle
    cases c.level <;> decide
  -- behind its last value nothing extends a conditional any more, so it would be the result
  unfold extension at hextension
  rw [Rule.kind_run, kind_of_level_conditional hlevel] at hextension
  obtain ⟨hconditional, hu⟩ := conditional_ends hc hextension
  rw [iterate_none (extend?_of_le (Nat.le_of_eq (congrArg Level.rank hu)))] at hrest
  cases hrest
  rw [hconditional] at he
  contradiction

end Levels

end Offside.Grammar
