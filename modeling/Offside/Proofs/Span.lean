import Mathlib.Tactic.Common
import Offside.Proofs.Tree.Relocate

namespace Offside

variable {a b x y : Offset} {f : Offset → Offset}

/-- The nearest position between two others. -/
def Offset.clamp (a b o : Offset) : Offset := if o < a then a else if b < o then b else o

def Span.Inside (a b : Offset) (p : Span) : Prop :=
  (a ≤ p.start ∧ p.start ≤ b) ∧ a ≤ p.stop ∧ p.stop ≤ b

theorem Offset.clamp_of_inside (h : a ≤ x ∧ x ≤ b) : Offset.clamp a b x = x := by
  simp only [UInt32.le_iff_toNat_le] at h
  rw [Offset.clamp, if_neg, if_neg]
  · rw [UInt32.lt_iff_toNat_lt]
    omega
  · rw [UInt32.lt_iff_toNat_lt]
    omega

theorem Offset.clamp_inside (h : a ≤ b) (x : Offset) :
    a ≤ Offset.clamp a b x ∧ Offset.clamp a b x ≤ b := by
  simp only [Offset.clamp, UInt32.le_iff_toNat_le, UInt32.lt_iff_toNat_lt] at h ⊢
  split
  · omega
  · split <;> omega

theorem Offset.clamp_le_clamp (hab : a ≤ b) (h : x ≤ y) :
    Offset.clamp a b x ≤ Offset.clamp a b y := by
  simp only [Offset.clamp, UInt32.le_iff_toNat_le, UInt32.lt_iff_toNat_lt] at hab h ⊢
  split
  · split
    · omega
    · split <;> omega
  · split
    · split
      · omega
      · split <;> omega
    · split
      · omega
      · split <;> omega

theorem Offset.max_le {x y o : Offset} (hx : x ≤ o) (hy : y ≤ o) : max x y ≤ o := by
  change (if x ≤ y then y else x) ≤ o
  split
  · exact hy
  · exact hx

theorem Offset.le_max_right (x y : Offset) : y ≤ max x y := by
  change y ≤ if x ≤ y then y else x
  split
  · exact UInt32.le_refl y
  · exact (UInt32.le_total x y).resolve_left ‹_›

theorem map_max_of_monotone (hf : ∀ x y, x ≤ y → f x ≤ f y) (x y : Offset) :
    f (max x y) = max (f x) (f y) := by
  change f (if x ≤ y then y else x) = if f x ≤ f y then f y else f x
  by_cases h : x ≤ y
  · rw [if_pos h, if_pos (hf x y h)]
  · rw [if_neg h]
    have hle : f y ≤ f x := hf y x (by
      rw [UInt32.le_iff_toNat_le] at h ⊢
      omega)
    split
    · next h' => exact UInt32.le_antisymm h' hle
    · rfl

theorem Span.Inside.relocate_clamp {p : Span} (h : p.Inside a b) :
    relocate (Offset.clamp a b) p = p := by
  change Span.mk _ _ = p
  rw [Offset.clamp_of_inside h.1, Offset.clamp_of_inside h.2]

theorem Span.inside_of_relocate_clamp (hab : a ≤ b) {p : Span}
    (h : relocate (Offset.clamp a b) p = p) : p.Inside a b := by
  rw [← h]
  exact ⟨Offset.clamp_inside hab _, Offset.clamp_inside hab _⟩

def Span.Between (a b : Nat) (p : Span) : Prop :=
  ∃ i j, a ≤ i ∧ i ≤ j ∧ j ≤ b ∧ p = Span.ofNat i j

theorem Span.between_point {a b i : Nat} (ha : a ≤ i) (hb : i ≤ b) : (Span.ofNat i i).Between a b :=
  ⟨i, i, ha, Nat.le_refl i, hb, rfl⟩

theorem Span.Between.mono {a a' b b' : Nat} {p : Span} (h : p.Between a b) (ha : a' ≤ a)
    (hb : b ≤ b') : p.Between a' b' := by
  obtain ⟨i, j, hi, hij, hj, rfl⟩ := h
  exact ⟨i, j, Nat.le_trans ha hi, hij, Nat.le_trans hj hb, rfl⟩

theorem Offset.toNat_ofNat {n : Nat} (h : n < UInt32.size) : (UInt32.ofNat n).toNat = n :=
  UInt32.toNat_ofNat_of_lt' h

theorem Span.Between.inside {a b : Nat} {p : Span} (h : p.Between a b) (hb : b < UInt32.size) :
    p.Inside (UInt32.ofNat a) (UInt32.ofNat b) := by
  obtain ⟨i, j, hi, hij, hj, rfl⟩ := h
  have hle {m n : Nat} (h : m ≤ n) (hn : n ≤ b) : UInt32.ofNat m ≤ UInt32.ofNat n := by
    rw [UInt32.le_iff_toNat_le, Offset.toNat_ofNat (by omega), Offset.toNat_ofNat (by omega)]
    exact h
  exact ⟨⟨hle hi (by omega), hle (by omega) (by omega)⟩, hle (by omega) hj, hle hj (by omega)⟩

theorem Span.Between.start_le {a b : Nat} {p : Span} (h : p.Between a b) (hb : b < UInt32.size) :
    p.start ≤ p.stop := by
  obtain ⟨i, j, -, hij, hj, rfl⟩ := h
  exact (Span.Between.inside ⟨i, j, Nat.le_refl i, hij, Nat.le_refl j, rfl⟩ (by omega)).1.2

/-- What stands before a position ends before what stands behind it starts. -/
theorem Span.Between.stop_le_start {a m b : Nat} {p q : Span} (h : p.Between a m)
    (h' : q.Between m b) (hm : m < UInt32.size) (hb : b < UInt32.size) : p.stop ≤ q.start :=
  UInt32.le_trans (h.inside hm).2.2 (h'.inside hb).1.1

/-- A shift takes positions to the ones that many bytes further on. -/
theorem Offset.shift_ofNat {m n : Nat} {delta : Int} (h : (n : Int) = m + delta) :
    Offset.shift (UInt32.ofNat m) delta = UInt32.ofNat n := by
  apply UInt32.toNat.inj
  simp only [Offset.shift, UInt32.ofInt, UInt32.toNat_add, UInt32.toNat_ofNat']
  omega

theorem Offset.toNat_shift {delta : Int} (h : 0 ≤ x.toNat + delta)
    (h' : x.toNat + delta < UInt32.size) : ((Offset.shift x delta).toNat : Int) = x.toNat + delta := by
  have hx := x.toNat_lt
  have hsize : (UInt32.size : Int) = 4294967296 := rfl
  simp only [Offset.shift, UInt32.ofInt, UInt32.toNat_add, UInt32.toNat_ofNat']
  omega

/-- Within bounds that stay positions, a shift keeps the order. -/
theorem Offset.shift_le_shift_iff {delta : Int} (ha : 0 ≤ a.toNat + delta)
    (hb : b.toNat + delta < UInt32.size) (hx : a ≤ x ∧ x ≤ b) (hy : a ≤ y ∧ y ≤ b) :
    Offset.shift x delta ≤ Offset.shift y delta ↔ x ≤ y := by
  simp only [UInt32.le_iff_toNat_le] at hx hy ⊢
  have hx' : ((Offset.shift x delta).toNat : Int) = x.toNat + delta :=
    Offset.toNat_shift (by omega) (by omega)
  have hy' : ((Offset.shift y delta).toNat : Int) = y.toNat + delta :=
    Offset.toNat_shift (by omega) (by omega)
  omega

structure InOrder (ts : List Token) : Prop where
  start_le : ∀ t ∈ ts, t.span.start ≤ t.span.stop
  disjoint : ts.Pairwise fun t u => t.span.stop ≤ u.span.start

namespace InOrder

variable {ts us : List Token} {t : Token}

theorem sublist (h : InOrder ts) (hs : us.Sublist ts) : InOrder us :=
  ⟨fun t ht => h.start_le t (hs.subset ht), h.disjoint.sublist hs⟩

theorem nil : InOrder [] := ⟨List.forall_mem_nil _, .nil⟩

theorem singleton (h : t.span.start ≤ t.span.stop) : InOrder [t] :=
  ⟨List.forall_mem_singleton.mpr h, List.pairwise_singleton _ t⟩

theorem replicate (n : Nat) (h : t.span.start = t.span.stop) : InOrder (List.replicate n t) where
  start_le u hu := by
    rw [List.eq_of_mem_replicate hu, h]
    exact UInt32.le_refl _
  disjoint := List.pairwise_replicate.mpr (Or.inr (h ▸ UInt32.le_refl _))

theorem append (h : InOrder ts) (h' : InOrder us)
    (hcross : ∀ t ∈ ts, ∀ u ∈ us, t.span.stop ≤ u.span.start) : InOrder (ts ++ us) where
  start_le := List.forall_mem_append.mpr ⟨h.start_le, h'.start_le⟩
  disjoint := List.pairwise_append.mpr ⟨h.disjoint, h'.disjoint, hcross⟩

theorem starts (h : InOrder ts) : (ts.map fun t => t.span.start).Pairwise (· ≤ ·) :=
  List.pairwise_map.mpr <| h.disjoint.imp_of_mem fun ht _ hle => UInt32.le_trans (h.start_le _ ht) hle

end InOrder

end Offside
