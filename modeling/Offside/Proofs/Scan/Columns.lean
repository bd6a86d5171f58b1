import Offside.Proofs.Scan.Layout
import Offside.Proofs.Scan.Resume

namespace Offside

namespace Layout

theorem columns_le (tabWidth : Nat) (c : Char) : columns tabWidth c ≤ max 1 tabWidth := by
  unfold columns
  split
  · exact Nat.le_max_left 1 tabWidth
  split
  · exact Nat.le_max_right 1 tabWidth
  · exact Nat.zero_le _

theorem widthOf_le (tabWidth : Nat) (blanks : List Char) :
    widthOf tabWidth blanks ≤ max 1 tabWidth * blanks.length := by
  induction blanks with
  | nil => exact Nat.zero_le _
  | cons c cs ih =>
    have hc := columns_le tabWidth c
    rw [widthOf, List.length_cons, Nat.mul_add_one]
    omega

/-- The width of some blanks as it is counted in 32 bits, one blank after another. -/
def wrappingWidth (tabWidth : UInt32) (blanks : List Char) : UInt32 :=
  blanks.foldl (fun width c => width + UInt32.ofNat (columns tabWidth.toNat c)) 0

theorem wrappingWidth_eq (tabWidth : UInt32) (blanks : List Char) :
    wrappingWidth tabWidth blanks = UInt32.ofNat (widthOf tabWidth.toNat blanks) := by
  have hfrom (width : Nat) : blanks.foldl (fun width c => width + UInt32.ofNat (columns tabWidth.toNat c))
      (UInt32.ofNat width) = UInt32.ofNat (width + widthOf tabWidth.toNat blanks) := by
    induction blanks generalizing width with
    | nil => rfl
    | cons c cs ih => rw [List.foldl_cons, ← UInt32.ofNat_add, ih, widthOf, Nat.add_assoc]
  rw [← Nat.zero_add (widthOf _ _)]
  exact hfrom 0

theorem mem_enter {width level : Nat} {levels : List Nat} (h : level ∈ (enter width levels).2) :
    level = width ∨ level ∈ levels := by
  obtain ⟨closed, heq, -⟩ := closeWider_append width levels
  unfold enter at h
  dsimp only at h
  split at h
  · exact List.mem_cons.mp h
  split at h
  · exact Or.inr h
  · exact Or.inr (heq ▸ List.mem_append_right closed h)

end Layout

namespace Scan

open Layout (LineState)

variable {cfg : Config} {stops : List Offset} {s t : State} {e : Emission} {source : String}

/-- Open levels and brackets are no more than the text before a state can have opened. -/
structure State.Bounded (cfg : Config) (s : State) : Prop where
  levels : ∀ level ∈ s.levels, level ≤ max 1 cfg.tabWidth * s.pos
  depth : s.openers.length ≤ s.pos

theorem State.bounded_start (cfg : Config) (source : String) : (State.start source).Bounded cfg where
  levels := List.forall_mem_singleton.mpr (Nat.zero_le _)
  depth := Nat.le_refl 0

theorem State.Bounded.later (h : s.Bounded cfg) (hpos : s.pos ≤ t.pos) (hlevels : t.levels = s.levels)
    (hdepth : t.openers.length ≤ s.openers.length) : t.Bounded cfg where
  levels level hlevel := Nat.le_trans (h.levels level (hlevels ▸ hlevel)) (Nat.mul_le_mul_left _ hpos)
  depth := Nat.le_trans hdepth (Nat.le_trans h.depth hpos)

theorem mem_indentTo_levels {width a b level : Nat} (h : level ∈ (indentTo width a b s).2.levels) :
    level = width ∨ level ∈ s.levels := by
  have henter (h : level ∈ (Layout.enter width s.levels).2) := Layout.mem_enter h
  unfold indentTo at h
  split at h
  · exact Or.inr h
  · dsimp only at h
    split at h <;> next heq => exact henter (by rwa [heq])

/-- The columns of an indentation are paid for by its own bytes. -/
theorem entering_bounded (h : s.Bounded cfg) : (entering cfg s).2.Bounded cfg := by
  let indent := Layout.indentation cfg.tabWidth s.rest
  have hwidth : indent.width ≤ max 1 cfg.tabWidth * indent.length := Layout.widthOf_le _ _
  constructor
  · intro level hlevel
    change level ≤ max 1 cfg.tabWidth * (s.pos + indent.length)
    rw [Nat.mul_add]
    rcases mem_indentTo_levels hlevel with rfl | hlevel
    · exact Nat.le_trans hwidth (Nat.le_add_left _ _)
    · exact Nat.le_trans (h.levels level hlevel) (Nat.le_add_right _ _)
  · rw [entering_openers]
    exact Nat.le_trans h.depth (Nat.le_add_right _ _)

theorem accept_openers_le (lexeme : Lexeme) (n : Nat) (s : State) :
    (accept lexeme n s).2.openers.length ≤ s.openers.length + 1 := by
  cases lexeme with
  | closer => simp only [accept, List.length_tail]; omega
  | _ => simp [accept, State.noting, State.skip]

theorem step_bounded (hs : s.Bounded cfg) (h : step cfg stops s = .next e t) : t.Bounded cfg := by
  have hpos := (step_covers h).pos_le
  rcases step_cases h with ⟨-, -, h⟩ | ⟨cs, -, -, -, rfl⟩ | ⟨c, cs, hrest, -, -, -, rfl⟩
  · rcases lineStart_cases h with ⟨-, -, rfl⟩ | ⟨-, -, -, rfl⟩ | ⟨-, -, -, -, rfl⟩
    · exact ⟨hs.levels, hs.depth⟩
    · exact ⟨hs.levels, hs.depth⟩
    · exact entering_bounded hs
  · have hsame : (lineFeed s).2.levels = s.levels ∧ (lineFeed s).2.openers = s.openers := by
      unfold lineFeed
      split <;> exact ⟨rfl, rfl⟩
    exact hs.later hpos hsame.1 (Nat.le_of_eq (congrArg List.length hsame.2))
  · generalize (Lexeme.recognise c cs).1 = lexeme at hpos ⊢
    generalize (Lexeme.recognise c cs).2 = n at hpos ⊢
    have hlevels : (accept lexeme (n + 1) s).2.levels = s.levels := by cases lexeme <;> rfl
    have hlt : s.pos < (accept lexeme (n + 1) s).2.pos := by
      have hskip : (accept lexeme (n + 1) s).2.pos = (s.skip (n + 1)).pos := by cases lexeme <;> rfl
      have hsize := c.utf8Size_pos
      rw [hskip, State.skip, hrest, List.take_succ_cons, Text.byteSize_cons]
      dsimp only
      omega
    -- a bracket is opened by a character of its own
    have hopeners := accept_openers_le lexeme (n + 1) s
    have hdepth := hs.depth
    exact ⟨fun level hlevel => Nat.le_trans (hs.levels level (hlevels ▸ hlevel)) (Nat.mul_le_mul_left _ hpos),
      by omega⟩

theorem Reaches.bounded (h : Reaches cfg stops s e t) (hs : s.Bounded cfg) : t.Bounded cfg := by
  induction h with
  | refl => exact hs
  | tail _ hstep ih => exact step_bounded ih hstep

theorem State.Bounded.limit (h : s.Bounded cfg) {x : LineState}
    (hx : x.snapshot.levels = s.levels ∧ x.snapshot.depth = s.openers.length) :
    (∀ level ∈ x.snapshot.levels, level ≤ max 1 cfg.tabWidth * s.limit) ∧ x.snapshot.depth ≤ s.limit := by
  have hpos : s.pos ≤ s.limit := Nat.le_add_right _ _
  rw [hx.1, hx.2]
  exact ⟨fun level hlevel => Nat.le_trans (h.levels level hlevel) (Nat.mul_le_mul_left _ hpos),
    Nat.le_trans h.depth hpos⟩

theorem Reaches.lineStates_bounded (h : Reaches cfg stops s e t) (hs : s.Bounded cfg) : ∀ x ∈ e.lineStates,
    (∀ level ∈ x.snapshot.levels, level ≤ max 1 cfg.tabWidth * s.limit) ∧ x.snapshot.depth ≤ s.limit := by
  induction h with
  | refl => exact List.forall_mem_nil _
  | tail h hstep ih =>
    rw [Emission.append_lineStates, List.forall_mem_append]
    refine ⟨ih, fun x hx => ?_⟩
    rw [← h.covers.limit_eq]
    exact (h.bounded hs).limit (step_lineStates hstep x hx)

/-- What a scan records of the open blocks and brackets is bounded by the text up to its end: a level by
its columns, if each byte were as wide as a tab, and the depth by its bytes. -/
theorem run_bounded (cfg : Config) (stops : List Offset) (hsound : s.Sound) (hs : s.Bounded cfg) :
    ∀ x ∈ (run cfg stops s).lineStates,
      (∀ level ∈ x.snapshot.levels, level ≤ max 1 cfg.tabWidth * s.limit) ∧ x.snapshot.depth ≤ s.limit := by
  obtain ⟨e, t, r, h, hdone, hrun⟩ := exists_done cfg stops s
  have hlast : ∀ x ∈ r.lineStates, x.snapshot.levels = t.levels ∧ x.snapshot.depth = t.openers.length := by
    by_cases hrest : t.rest = []
    · rw [step_end hrest] at hdone
      cases hdone
      exact List.forall_mem_nil _
    · obtain ⟨hu, hstop⟩ := step_stop hdone hrest
      rw [hu.step_done (h.leads hsound).sound hstop] at hdone
      cases hdone
      exact List.forall_mem_singleton.mpr ⟨rfl, rfl⟩
  rw [hrun, Result.after, Emission.append_lineStates, List.forall_mem_append]
  refine ⟨h.lineStates_bounded hs, fun x hx => ?_⟩
  rw [← h.covers.limit_eq]
  exact (h.bounded hs).limit (hlast x hx)

/-- Numbers of 32 bits hold every width, level and depth of a scan, unless the text could be that many
columns wide: counted in 32 bits, no width wraps. -/
theorem scan_columns (cfg : Config) (source : String) {tabWidth : UInt32} (htab : cfg.tabWidth = tabWidth.toNat)
    (hsize : max 1 cfg.tabWidth * Text.byteSize source.toList < UInt32.size) :
    (∀ stops e t, Reaches cfg stops (.start source) e t →
      (Layout.wrappingWidth tabWidth (t.rest.takeWhile Layout.isIndent)).toNat =
        (Layout.indentation cfg.tabWidth t.rest).width) ∧
    ∀ x ∈ (scan cfg source).lineStates,
      (∀ level ∈ x.snapshot.levels, level < UInt32.size) ∧ x.snapshot.depth < UInt32.size := by
  have hlimit : (State.start source).limit = Text.byteSize source.toList := Nat.zero_add _
  constructor
  · intro stops e t h
    have hwidth := Layout.widthOf_le cfg.tabWidth (t.rest.takeWhile Layout.isIndent)
    have hblanks : (t.rest.takeWhile Layout.isIndent).length ≤ Text.byteSize source.toList := by
      have hrest : Text.byteSize t.rest ≤ t.limit := Nat.le_add_left _ _
      have hsplit := Text.byteSize_append (t.rest.takeWhile Layout.isIndent) (t.rest.dropWhile Layout.isIndent)
      rw [List.takeWhile_append_dropWhile, byteSize_indent _ fun c hc => List.all_eq_true.mp List.all_takeWhile c hc] at hsplit
      rw [h.covers.limit_eq, hlimit] at hrest
      omega
    have hlt := Nat.lt_of_le_of_lt (Nat.le_trans hwidth (Nat.mul_le_mul_left _ hblanks)) hsize
    rw [Layout.wrappingWidth_eq, ← htab, Offset.toNat_ofNat hlt]
    rfl
  · intro x hx
    obtain ⟨hlevels, hdepth⟩ := run_bounded cfg [] (State.sound_start source)
      (State.bounded_start cfg source) x hx
    rw [hlimit] at hlevels hdepth
    have hbytes : Text.byteSize source.toList ≤ max 1 cfg.tabWidth * Text.byteSize source.toList :=
      Nat.le_mul_of_pos_left _ (by omega)
    exact ⟨fun level hlevel => Nat.lt_of_le_of_lt (hlevels level hlevel) hsize,
      Nat.lt_of_le_of_lt (Nat.le_trans hdepth hbytes) hsize⟩

end Scan

end Offside
