import Offside.Grammar.Simple
import Offside.Proofs.Writing.Type

namespace Offside

mutual

def Pattern.expr : Pattern → Expr
  | .symbol s name => .symbol s name
  | .tuple s elements => .tuple s (Pattern.exprAll elements)
  | .list s elements => .list s (Pattern.exprAll elements)
  | .member s object name => .member s object name
  | .subscript s object indices => .subscript s object indices

def Pattern.exprAll : List Pattern → List Expr
  | [] => []
  | p :: ps => p.expr :: Pattern.exprAll ps

end

def Pattern.Proper (p : Pattern) : Prop := p.expr.Proper

def Pattern.pieces (p : Pattern) : List Piece := (p.expr.written .free).pieces

theorem Pattern.trailer_le (p : Pattern) : .trailer ≤ p.expr.level := by
  cases p <;> exact Nat.le_of_ble_eq_true rfl

section Plain

variable {f : Span → Span}

mutual

theorem Pattern.plain_mapSpans : ∀ p : Pattern, (p.mapSpans f).plain = p.plain
  | .symbol .. => rfl
  | .tuple _ ps => congrArg (Pattern.tuple default) (Pattern.plainAll_mapSpansAll ps)
  | .list _ ps => congrArg (Pattern.list default) (Pattern.plainAll_mapSpansAll ps)
  | .member _ object _ => congrArg (Pattern.member default · _) (Expr.plain_mapSpans object)
  | .subscript _ object indices => by
    have hindices : (indices.map (Expr.mapSpans f)).map Expr.plain = indices.map Expr.plain := by
      rw [List.map_map]
      exact List.map_congr_left fun e _ => Expr.plain_mapSpans e
    exact congrArg₂ (Pattern.subscript default) (Expr.plain_mapSpans object) hindices

theorem Pattern.plainAll_mapSpansAll : ∀ ps : List Pattern,
    Pattern.plainAll (Pattern.mapSpansAll f ps) = Pattern.plainAll ps
  | [] => rfl
  | p :: ps => congrArg₂ List.cons (Pattern.plain_mapSpans p) (Pattern.plainAll_mapSpansAll ps)

end

end Plain

mutual

theorem Pattern.Proper.read : ∀ {p : Pattern}, p.Proper →
    ∃ p', Pattern.ofExpr p.expr.enclosed = .ok p' ∧ p'.plain = p.plain
  | .symbol s name, _ => ⟨.symbol s name, rfl, rfl⟩
  | .tuple s ps, h => by
    have hparts : ∀ e ∈ Pattern.exprAll ps, e.Proper := fun e he => by
      cases h.shaped with
      | tuple hshaped hplaced => exact ⟨hshaped e he, hplaced e he⟩
    obtain ⟨ps', hps, hplain⟩ := Pattern.read_all hparts
    refine ⟨.tuple s ps', ?_, congrArg (Pattern.tuple default) hplain⟩
    change Pattern.ofExpr (.tuple s (Expr.mapPartsAll Place.enclose (Pattern.exprAll ps))) = _
    rw [Pattern.ofExpr, hps]
  | .list s ps, h => by
    have hparts : ∀ e ∈ Pattern.exprAll ps, e.Proper := fun e he => by
      cases h.shaped with
      | list hshaped hplaced => exact ⟨hshaped e he, hplaced e he⟩
    obtain ⟨ps', hps, hplain⟩ := Pattern.read_all hparts
    refine ⟨.list s ps', ?_, congrArg (Pattern.list default) hplain⟩
    change Pattern.ofExpr (.list s (Expr.mapPartsAll Place.enclose (Pattern.exprAll ps))) = _
    rw [Pattern.ofExpr, hps]
  | .member s object name, h => by
    have hobject : object.Proper := by
      cases h.shaped with
      | member hshaped hplaced => exact ⟨hshaped, hplaced⟩
    exact ⟨.member s (object.written .object) name, rfl,
      congrArg (Pattern.member default · name) (hobject.plain_written .object)⟩
  | .subscript s object indices, h => by
    have hsubscript := h.shaped.plain_enclosed
    change (Expr.subscript s (object.written .object) (Expr.mapPartsAll Place.enclose indices)).plain = _
      at hsubscript
    change _ = (Expr.subscript s object indices).plain at hsubscript
    rw [Expr.plain_subscript, Expr.plain_subscript] at hsubscript
    obtain ⟨-, hobject, hindices⟩ := Expr.subscript.inj hsubscript
    exact ⟨.subscript s (object.written .object) (Expr.mapPartsAll Place.enclose indices), rfl,
      congrArg₂ (Pattern.subscript default) hobject hindices⟩

theorem Pattern.read_all : ∀ {ps : List Pattern}, (∀ e ∈ Pattern.exprAll ps, e.Proper) →
    ∃ ps', Pattern.ofExprs (Expr.mapPartsAll Place.enclose (Pattern.exprAll ps)) = .ok ps' ∧
      Pattern.plainAll ps' = Pattern.plainAll ps
  | [], _ => ⟨[], rfl, rfl⟩
  | p :: ps, h => by
    obtain ⟨hp, hps⟩ := List.forall_mem_cons.mp h
    obtain ⟨p', hp', hplain⟩ := Pattern.Proper.read (p := p) hp
    obtain ⟨ps', hps', hplains⟩ := Pattern.read_all hps
    refine ⟨p' :: ps', ?_, congrArg₂ List.cons hplain hplains⟩
    change Pattern.ofExprs (p.expr.enclosed :: Expr.mapPartsAll Place.enclose (Pattern.exprAll ps)) = _
    rw [Pattern.ofExprs, hp', hps']

end

namespace Grammar

open Rule

variable {c d : Cursor} {p : Pattern} {e e' : Expr}

/-- An expression that was read where a target is written reads as that target. -/
theorem target_ok (h : p.Proper) (he : e'.spanless = (p.expr.written .free).spanless) (c : Cursor) :
    ∃ p', target e' c = .ok p' c ∧ p'.plain = p.plain := by
  obtain ⟨p₀, hp₀, hplain₀⟩ := h.read
  have hread (e : Expr) := Pattern.ofExpr_relocate (f := fun _ => 0) e
  have heq : Pattern.ofExpr (relocate (fun _ => 0) e') = .ok (relocate (fun _ => 0) p₀) := by
    change Pattern.ofExpr e'.spanless = _
    rw [he]
    change Pattern.ofExpr (relocate (fun _ => 0) p.expr.enclosed) = _
    rw [hread, hp₀]
  rw [hread] at heq
  unfold target
  cases hp' : Pattern.ofExpr e' with
  | error s =>
    rw [hp'] at heq
    cases heq
  | ok p' =>
    rw [hp'] at heq
    have hplain := congrArg Pattern.plain (Except.ok.inj heq)
    refine ⟨p', rfl, ?_⟩
    rw [← hplain₀, ← Pattern.plain_mapSpans p', ← Pattern.plain_mapSpans p₀]
    exact hplain

/-- An expression alone, where a list of expressions may stand. -/
theorem exprList_ok (h : e.Proper) (hread : c.Read (e.written .free).pieces d)
    (hclear : Clear (e.written .free).pieces) (hd : d.kind.endsExpr = true) (hcomma : d.kind ≠ .comma) :
    ∃ e', exprList c = .ok e' d ∧ e'.spanless = (e.written .free).spanless := by
  obtain ⟨e', he, hφ⟩ := expr_free h hread hclear hd
  refine ⟨e', ?_, hφ⟩
  rw [exprList, bind_ok he, kind_run, if_neg hcomma]
  rfl

theorem exprList_plain (h : e.Proper) (hread : c.Read (e.written .free).pieces d)
    (hclear : Clear (e.written .free).pieces) (hd : d.kind.endsExpr = true) (hcomma : d.kind ≠ .comma) :
    ∃ e', exprList c = .ok e' d ∧ e'.plain = e.plain := by
  obtain ⟨e', he, hφ⟩ := exprList_ok h hread hclear hd hcomma
  exact ⟨e', he, (Expr.plain_eq_of_spanless hφ).trans (h.plain_written .free)⟩

end Grammar

end Offside
