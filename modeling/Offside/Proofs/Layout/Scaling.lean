import Mathlib.Data.List.Forall2
import Offside.Layout.Indentation
import Offside.Layout.Levels
import Offside.Text.Lines

namespace Offside

namespace Text

theorem lines_ne_nil {cs : List Char} (h : cs ≠ []) : lines cs ≠ [] := by
  cases cs with
  | nil => exact absurd rfl h
  | cons c cs =>
    rw [lines]
    split
    · exact List.cons_ne_nil _ _
    · split <;> exact List.cons_ne_nil _ _

/-- The lines in front are whole ones if the last of them ends with a line feed. -/
theorem lines_append {p : List Char} (hp : p.getLast?.getD '\n' = '\n') (q : List Char) :
    lines (p ++ q) = lines p ++ lines q := by
  induction p with
  | nil => rfl
  | cons c p ih =>
    have hlast : p.getLast?.getD '\n' = '\n' := by
      cases p with
      | nil => rfl
      | cons d p => rwa [List.getLast?_cons_cons] at hp
    rw [List.cons_append, lines, lines, ih hlast]
    split
    · rfl
    · next hc =>
      have hne : p ≠ [] := by
        rintro rfl
        exact hc hp
      obtain ⟨line, rest, hlines⟩ := List.exists_cons_of_ne_nil (lines_ne_nil hne)
      rw [hlines]
      rfl

/-- What a text begins with on its first line. -/
theorem takeWhile_firstLine {good : Char → Bool} (h : good '\n' = false) (cs : List Char) :
    ((lines cs).headD []).takeWhile good = cs.takeWhile good := by
  induction cs with
  | nil => rfl
  | cons c cs ih =>
    rw [lines]
    split
    · next hc =>
      subst hc
      simp [h]
    · cases hlines : lines cs with
      | nil =>
        rw [hlines] at ih
        rw [List.takeWhile_cons (l := cs), ← ih]
        exact List.takeWhile_cons
      | cons line rest =>
        rw [hlines] at ih
        rw [List.takeWhile_cons (l := cs), ← ih]
        exact List.takeWhile_cons

end Text

namespace Layout

/-- No line of a text has a space in its indentation. -/
def SpaceFree (text : List Char) : Prop := ∀ line ∈ Text.lines text, ' ' ∉ line.takeWhile isIndent

instance (text : List Char) : Decidable (SpaceFree text) := List.decidableBAll _ _

theorem SpaceFree.behind {p q : List Char} (h : SpaceFree (p ++ q)) (hp : p.getLast?.getD '\n' = '\n') :
    ' ' ∉ q.takeWhile isIndent := by
  rw [SpaceFree, Text.lines_append hp, List.forall_mem_append] at h
  rw [← Text.takeWhile_firstLine rfl]
  cases hlines : Text.lines q with
  | nil => exact List.not_mem_nil
  | cons line rest => exact h.2 line (hlines ▸ List.mem_cons_self)

def Scaled (v w l l' : Nat) : Prop := w * l = v * l'

abbrev ScaledAll (v w : Nat) (levels levels' : List Nat) : Prop := List.Forall₂ (Scaled v w) levels levels'

variable {v w l l' m m' : Nat} {levels levels' : List Nat}

theorem Scaled.zero : Scaled v w 0 0 := rfl

theorem widthOf_spaceFree {blanks : List Char} (h : ' ' ∉ blanks) (tabWidth : Nat) :
    widthOf tabWidth blanks = tabWidth * blanks.count '\t' := by
  induction blanks with
  | nil => rfl
  | cons c cs ih =>
    obtain ⟨hc, hcs⟩ := not_or.mp (mt List.mem_cons.mpr h)
    rw [widthOf, ih hcs, columns, if_neg (Ne.symm hc), List.count_cons]
    split
    · next htab => simp [htab, Nat.mul_add, Nat.add_comm]
    · next htab => simp [htab]

theorem scaled_widthOf {blanks : List Char} (h : ' ' ∉ blanks) :
    Scaled v w (widthOf v blanks) (widthOf w blanks) := by
  rw [Scaled, widthOf_spaceFree h, widthOf_spaceFree h]
  exact Nat.mul_left_comm _ _ _

variable (hv : 0 < v) (hw : 0 < w)

include hv hw

theorem Scaled.lt_iff (hl : Scaled v w l l') (hm : Scaled v w m m') : l' < m' ↔ l < m := by
  calc l' < m' ↔ v * l' < v * m' := (Nat.mul_lt_mul_left hv).symm
    _ ↔ w * l < w * m := by rw [← hl, ← hm]
    _ ↔ l < m := Nat.mul_lt_mul_left hw

theorem Scaled.eq_iff (hl : Scaled v w l l') (hm : Scaled v w m m') : l' = m' ↔ l = m := by
  calc l' = m' ↔ v * l' = v * m' := (Nat.mul_left_cancel_iff hv).symm
    _ ↔ w * l = w * m := by rw [← hl, ← hm]
    _ ↔ l = m := Nat.mul_left_cancel_iff hw

theorem contains_scaled (hl : Scaled v w l l') (h : ScaledAll v w levels levels') :
    levels'.contains l' = levels.contains l := by
  induction h with
  | nil => rfl
  | cons hm _ ih =>
    rw [List.contains_cons, List.contains_cons, ih, Bool.eq_iff_iff]
    simp only [Bool.or_eq_true, beq_iff_eq, hl.eq_iff hv hw hm]

theorem closeWider_scaled (hl : Scaled v w l l') (h : ScaledAll v w levels levels') :
    (closeWider l' levels').1 = (closeWider l levels).1 ∧
      ScaledAll v w (closeWider l levels).2 (closeWider l' levels').2 := by
  induction h with
  | nil => exact ⟨rfl, .nil⟩
  | @cons m m' levels levels' hm h ih =>
    -- the outermost level is never closed
    cases h with
    | nil => exact ⟨rfl, .cons hm .nil⟩
    | cons hn h =>
      rw [closeWider, closeWider]
      by_cases hlt : l < m
      · rw [if_pos hlt, if_pos ((hl.lt_iff hv hw hm).mpr hlt)]
        exact ⟨congrArg (· + 1) ih.1, ih.2⟩
      · rw [if_neg hlt, if_neg (mt (hl.lt_iff hv hw hm).mp hlt)]
        exact ⟨rfl, .cons hm (.cons hn h)⟩

omit hv hw in
theorem headD_scaled (h : ScaledAll v w levels levels') :
    Scaled v w (levels.headD 0) (levels'.headD 0) := by
  cases h with
  | nil => exact .zero
  | cons hm _ => exact hm

/-- The same levels are opened and closed. -/
theorem enter_scaled (hl : Scaled v w l l') (h : ScaledAll v w levels levels') :
    (enter l' levels').1 = (enter l levels).1 ∧
      ScaledAll v w (enter l levels).2 (enter l' levels').2 := by
  have htop := headD_scaled h
  unfold enter
  dsimp only
  by_cases hopens : levels.headD 0 < l
  · rw [if_pos hopens, if_pos ((htop.lt_iff hv hw hl).mpr hopens)]
    exact ⟨rfl, .cons hl h⟩
  rw [if_neg hopens, if_neg (mt (htop.lt_iff hv hw hl).mp hopens)]
  by_cases hstays : l = levels.headD 0
  · rw [if_pos hstays, if_pos ((hl.eq_iff hv hw htop).mpr hstays)]
    exact ⟨rfl, h⟩
  rw [if_neg hstays, if_neg (mt (hl.eq_iff hv hw htop).mp hstays)]
  obtain ⟨hcount, hleft⟩ := closeWider_scaled hv hw hl h
  have hmatched : ((closeWider l' levels').2.headD 0 == l') = ((closeWider l levels).2.headD 0 == l) := by
    rw [Bool.eq_iff_iff, beq_iff_eq, beq_iff_eq]
    exact (headD_scaled hleft).eq_iff hv hw hl
  rw [hcount, hmatched]
  exact ⟨rfl, hleft⟩

end Layout

end Offside
