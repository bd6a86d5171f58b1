import Mathlib.Tactic.Common
import Offside.Layout.Levels

namespace Offside.Layout

/-- The outermost level is zero, and it alone. -/
def Nested (levels : List Nat) : Prop := ∃ inner, levels = inner ++ [0] ∧ ∀ l ∈ inner, 0 < l

variable {levels left : List Nat} {width : Nat}

theorem Nested.length_pos (h : Nested levels) : 0 < levels.length := by
  obtain ⟨inner, rfl, -⟩ := h
  simp

theorem Nested.contains_zero (h : Nested levels) : levels.contains 0 = true := by
  obtain ⟨inner, rfl, -⟩ := h
  simp

theorem Nested.cons (h : Nested levels) (hw : 0 < width) : Nested (width :: levels) := by
  obtain ⟨inner, rfl, hinner⟩ := h
  exact ⟨width :: inner, rfl, List.forall_mem_cons.mpr ⟨hw, hinner⟩⟩

/-- Closing levels leaves an outer part of them. -/
theorem closeWider_append (width : Nat) (levels : List Nat) :
    ∃ closed, levels = closed ++ (closeWider width levels).2 ∧
      closed.length = (closeWider width levels).1 ∧
      (levels ≠ [] → (closeWider width levels).2 ≠ []) := by
  fun_induction closeWider width levels with
  | case1 level outer rest hlt count left hc ih =>
    obtain ⟨closed, heq, hlen, hne⟩ := ih
    rw [hc] at heq hlen hne
    exact ⟨level :: closed, by rw [heq]; rfl, by simp [hlen], fun _ => hne (by simp)⟩
  | case2 => exact ⟨[], rfl, rfl, id⟩
  | case3 levels => exact ⟨[], rfl, rfl, id⟩

theorem Nested.closeWider (h : Nested levels) (width : Nat) :
    Nested (Layout.closeWider width levels).2 ∧
      (Layout.closeWider width levels).1 + (Layout.closeWider width levels).2.length =
        levels.length := by
  obtain ⟨closed, heq, hlen, hne⟩ := closeWider_append width levels
  obtain ⟨inner, rfl, hinner⟩ := h
  have hne := hne (by simp)
  generalize Layout.closeWider width (inner ++ [0]) = r at heq hlen hne
  obtain ⟨count, left⟩ := r
  dsimp only at heq hlen hne ⊢
  have hlength := congrArg List.length heq
  have hsum : (closed ++ left).length = count + left.length := by rw [List.length_append, hlen]
  rw [hsum] at hlength
  refine ⟨?_, hlength.symm⟩
  -- the outermost level is left, and with it a part of the inner ones
  obtain ⟨init, last, rfl⟩ := List.eq_nil_or_concat left |>.resolve_left hne
  rw [List.concat_eq_append] at heq ⊢
  rw [← List.append_assoc] at heq
  obtain ⟨hinit, hlast⟩ := List.append_inj' heq rfl
  obtain rfl := List.singleton_inj.mp hlast.symm
  refine ⟨init, rfl, fun l hl => hinner l ?_⟩
  rw [hinit]
  exact List.mem_append_right _ hl

theorem closeWider_zero (inner : List Nat) (h : ∀ l ∈ inner, 0 < l) :
    closeWider 0 (inner ++ [0]) = (inner.length, [0]) := by
  induction inner with
  | nil => rfl
  | cons l inner ih =>
    obtain ⟨hl, hinner⟩ := List.forall_mem_cons.mp h
    have ih := ih hinner
    cases inner with
    | nil => simp [closeWider, hl]
    | cons m inner =>
      rw [List.cons_append, List.cons_append, closeWider, if_pos hl]
      rw [List.cons_append] at ih
      rw [ih]
      rfl

/-- A width opens a level, is the innermost one, or closes some. -/
theorem enter_cases (h : Nested levels) (width : Nat) :
    enter width levels = (.indent, width :: levels) ∧ 0 < width ∨
      enter width levels = (.same, levels) ∨
      ∃ count matched left, enter width levels = (.dedent count matched, left) ∧ Nested left ∧
        count + left.length = levels.length := by
  unfold enter
  dsimp only
  split
  · next hlt => exact Or.inl ⟨rfl, Nat.lt_of_le_of_lt (Nat.zero_le _) hlt⟩
  · right
    split
    · exact Or.inl rfl
    · obtain ⟨hleft, hcount⟩ := h.closeWider width
      exact Or.inr ⟨_, _, _, rfl, hleft, hcount⟩

/-- A line without indentation closes all levels but the outermost one. -/
theorem enter_zero (h : Nested levels) :
    levels = [0] ∧ enter 0 levels = (.same, [0]) ∨
      enter 0 levels = (.dedent (levels.length - 1) true, [0]) := by
  obtain ⟨inner, rfl, hinner⟩ := h
  cases inner with
  | nil => exact Or.inl ⟨rfl, rfl⟩
  | cons l inner =>
    have hl : 0 < l := hinner l (by simp)
    right
    rw [enter, closeWider_zero _ hinner]
    simp [Nat.ne_of_lt hl]

end Offside.Layout
