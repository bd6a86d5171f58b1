import Mathlib.Tactic.Common
import Offside.Text.Bytes

namespace Offside.Text

variable {p q : List Char}

/-- Every character takes up space. -/
theorem eq_nil_of_byteSize (h : byteSize p = 0) : p = [] := by
  cases p with
  | nil => rfl
  | cons c p =>
    have hpos := c.utf8Size_pos
    rw [byteSize_cons] at h
    omega

theorem splitAtByte?_append (p q : List Char) : splitAtByte? (byteSize p) (p ++ q) = some (p, q) := by
  induction p with
  | nil => cases q <;> rfl
  | cons c p ih =>
    have hpos := c.utf8Size_pos
    obtain ⟨n, hn⟩ : ∃ n, c.utf8Size + byteSize p = n + 1 := ⟨c.utf8Size + byteSize p - 1, by omega⟩
    rw [byteSize_cons, List.cons_append, hn, splitAtByte?, if_pos (by omega), ← hn,
      Nat.add_sub_cancel_left, ih]
    · rfl
    · exact Nat.succ_ne_zero n

/-- A text comes apart in one way at a position. -/
theorem append_inj_of_byteSize {p' q' : List Char} (h : p ++ q = p' ++ q')
    (hsize : byteSize p = byteSize p') : p = p' ∧ q = q' := by
  have hcut := splitAtByte?_append p q
  rw [h, hsize, splitAtByte?_append] at hcut
  obtain ⟨hp, hq⟩ := Prod.mk.inj (Option.some.inj hcut)
  exact ⟨hp.symm, hq.symm⟩

/-- A beginning of a text is one of any longer beginning. -/
theorem append_of_byteSize_le {p' q' : List Char} (h : p ++ q = p' ++ q')
    (hle : byteSize p ≤ byteSize p') : ∃ w, p' = p ++ w ∧ q = w ++ q' := by
  rcases List.append_eq_append_iff.mp h with ⟨w, hp', hq⟩ | ⟨w, hp, hq'⟩
  · exact ⟨w, hp', hq⟩
  · cases w with
    | nil => exact ⟨[], by rw [hp]; simp, hq'.symm⟩
    | cons c w =>
      have hpos := c.utf8Size_pos
      rw [hp, byteSize_append, byteSize_cons] at hle
      omega

/-- What ends before a longer beginning of a text ends in it. -/
theorem cons_prefix_of_lt {a b v : List Char} {c : Char} (h : a ++ b = p ++ c :: v)
    (hlt : byteSize p < byteSize a) : ∃ w, a = p ++ c :: w ∧ v = w ++ b := by
  rcases List.append_eq_append_iff.mp h with ⟨as, has, -⟩ | ⟨as, has, hv⟩
  · rw [has, byteSize_append] at hlt
    omega
  · cases as with
    | nil =>
      rw [List.append_nil] at has
      rw [has] at hlt
      exact absurd hlt (Nat.lt_irrefl _)
    | cons d as =>
      rw [List.cons_append] at hv
      obtain ⟨rfl, htail⟩ := List.cons.inj hv
      exact ⟨as, has, htail⟩

end Offside.Text
