import Mathlib.Algebra.Group.Int.Defs
import Mathlib.Tactic.Common
import Offside.Proofs.Tree.Spanwise

namespace Offside

section Positions

variable (o : Offset) (d e : Int)

theorem Offset.toNat_shift_emod : ((Offset.shift o d).toNat : Int) = (o.toNat + d) % 2 ^ 32 := by
  simp only [Offset.shift, UInt32.ofInt, UInt32.toNat_add, UInt32.toNat_ofNat']
  omega

theorem Offset.eq_shift_iff (o' : Offset) :
    (o'.toNat : Int) = (o.toNat + d) % 2 ^ 32 ↔ o' = Offset.shift o d := by
  rw [← Offset.toNat_shift_emod, Int.natCast_inj, UInt32.toNat_inj]

theorem Offset.shift_shift : Offset.shift (Offset.shift o d) e = Offset.shift o (d + e) := by
  rw [← Offset.eq_shift_iff, Offset.toNat_shift_emod, Offset.toNat_shift_emod]
  omega

theorem Offset.shift_zero : Offset.shift o 0 = o := UInt32.add_zero o

end Positions

section Spans

variable (d e : Int)

/-- Both ends of a span moved, modulo 2^32. -/
structure Span.Shifted (p q : Span) : Prop where
  start : (q.start.toNat : Int) = (p.start.toNat + d) % 2 ^ 32
  stop : (q.stop.toNat : Int) = (p.stop.toNat + d) % 2 ^ 32

theorem Span.shifted_iff (p q : Span) : Span.Shifted d p q ↔ q = p.shift d := by
  obtain ⟨a, b⟩ := q
  rw [Span.shift, Span.mk.injEq, ← Offset.eq_shift_iff, ← Offset.eq_shift_iff]
  constructor
  · rintro ⟨ha, hb⟩
    exact ⟨ha, hb⟩
  · rintro ⟨ha, hb⟩
    exact ⟨ha, hb⟩

theorem Span.shift_shift (p : Span) : (p.shift d).shift e = p.shift (d + e) := by
  simp only [Span.shift, Offset.shift_shift]

theorem Span.shift_zero (p : Span) : p.shift 0 = p := by
  simp only [Span.shift, Offset.shift_zero]

end Spans

section Statements

variable (d e : Int) (s : Stmt)

theorem Stmt.shifted_iff (t : Stmt) : Stmt.Spanwise (Span.Shifted d) s t ↔ t = s.shift d := by
  have hgraph : Span.Shifted d = graph fun p : Span => p.shift d := by
    funext p q
    exact propext (Span.shifted_iff d p q)
  rw [hgraph]
  exact s.spanwise_iff t

theorem Stmt.shift_shift : (s.shift d).shift e = s.shift (d + e) := by
  have hcomp : (fun p : Span => p.shift e) ∘ (fun p : Span => p.shift d) =
      fun p : Span => p.shift (d + e) := funext (Span.shift_shift d e)
  rw [Stmt.shift, Stmt.shift, Stmt.mapSpans_mapSpans, hcomp, Stmt.shift]

theorem Stmt.shift_zero : s.shift 0 = s := by
  have hid : (fun p : Span => p.shift 0) = id := funext Span.shift_zero
  rw [Stmt.shift, hid, Stmt.mapSpans_id]

/-- A shift moves each span of a statement once and changes nothing else. Shifts add up, and what is
shifted there and back is as it was. -/
theorem Stmt.shift_action :
    (∀ t, Stmt.Spanwise (Span.Shifted d) s t ↔ t = s.shift d) ∧
      (s.shift d).shift e = s.shift (d + e) ∧ s.shift 0 = s ∧ (s.shift d).shift (-d) = s := by
  refine ⟨s.shifted_iff d, s.shift_shift d e, s.shift_zero, ?_⟩
  rw [Stmt.shift_shift, Int.add_right_neg, Stmt.shift_zero]

end Statements

end Offside
