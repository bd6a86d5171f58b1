import Offside.Proofs.Tree.MapSpans
import Offside.Proofs.Tree.Region

namespace Offside

namespace Region

mutual

def map (f : Span → Span) : Region → Region
  | mk s ps => mk (f s) (mapAll f ps)

def mapAll (f : Span → Span) : List Region → List Region
  | [] => []
  | r :: rs => r.map f :: mapAll f rs

end

/-- A region, or one inside it at whatever depth, has this span. -/
inductive Holds (p : Span) : Region → Prop where
  | here {ps} : Holds p (mk p ps)
  | inner {s ps r} : r ∈ ps → Holds p r → Holds p (mk s ps)

variable {f : Span → Span} {g : Offset → Offset} {a b : Offset} {r : Region} {p : Span}

theorem mapAll_eq_map (rs : List Region) : mapAll f rs = rs.map (map f) := by
  induction rs with
  | nil => rfl
  | cons r rs ih => rw [mapAll, ih, List.map_cons]

theorem map_mk (s : Span) (ps : List Region) : (mk s ps).map f = mk (f s) (ps.map (map f)) := by
  rw [map, mapAll_eq_map]

@[simp] theorem span_map (r : Region) : (r.map f).span = f r.span := by
  cases r
  rw [map_mk]
  rfl

/-- What lies in a nested region lies between its ends. -/
theorem Nested.inside (h : r.Nested) (hp : r.Holds p) : p.Inside r.span.start r.span.stop := by
  induction hp with
  | here => exact ⟨⟨UInt32.le_refl _, h.le⟩, h.le, UInt32.le_refl _⟩
  | inner hmem hp ih =>
    cases h with
    | mk hle hinside hapart hnested =>
      obtain ⟨⟨hstart, hstop⟩, hstart', hstop'⟩ := ih (hnested _ hmem)
      obtain ⟨hlow, hhigh⟩ := hinside _ hmem
      exact ⟨⟨UInt32.le_trans hlow hstart, UInt32.le_trans hstop hhigh⟩,
        UInt32.le_trans hlow hstart', UInt32.le_trans hstop' hhigh⟩

/-- Regions stay nested under a move that keeps the order of the positions in them. -/
theorem Nested.map (h : r.Nested) (ha : a ≤ r.span.start) (hb : r.span.stop ≤ b)
    (hg : ∀ x y, a ≤ x → x ≤ y → y ≤ b → g x ≤ g y) : (r.map (relocate g)).Nested := by
  induction h with
  | @mk s ps hle hinside hapart hnested ih =>
    have hlow : ∀ p ∈ ps, a ≤ p.span.start := fun p hp => UInt32.le_trans ha (hinside p hp).1
    have hhigh : ∀ p ∈ ps, p.span.stop ≤ b := fun p hp => UInt32.le_trans (hinside p hp).2 hb
    rw [map_mk]
    refine .mk (hg _ _ ha hle hb) (List.forall_mem_map.mpr fun p hp => ?_)
      (List.pairwise_map.mpr (hapart.imp_of_mem fun {p q} hp hq hpq => ?_))
      (List.forall_mem_map.mpr fun p hp => ih p hp (hlow p hp) (hhigh p hp))
    · rw [span_map]
      have hspan := (hnested p hp).le
      exact ⟨hg _ _ ha (hinside p hp).1 (UInt32.le_trans hspan (hhigh p hp)),
        hg _ _ (UInt32.le_trans (hlow p hp) hspan) (hinside p hp).2 hb⟩
    · rw [span_map, span_map]
      exact hg _ _ (UInt32.le_trans (hlow p hp) (hnested p hp).le) hpq
        (UInt32.le_trans (hnested q hq).le (hhigh q hq))

theorem map_optional {α : Type} {region : α → Region} {move : α → α}
    (h : ∀ a, region (move a) = (region a).map f) (o : Option α) :
    optional region (o.map move) = (optional region o).map (map f) := by
  cases o with
  | none => rfl
  | some a => exact congrArg (fun r => [r]) (h a)

/-- The regions of changed parts are the changed regions of the parts. -/
theorem map_list {α : Type} {region : α → Region} {move : α → α}
    (h : ∀ a, region (move a) = (region a).map f) (as : List α) :
    (as.map move).map region = (as.map region).map (map f) := by
  rw [List.map_map, List.map_map]
  exact List.map_congr_left fun a _ => h a

end Region

open Region

variable (f : Span → Span)

section Expressions

mutual

theorem Expr.region_mapSpans : ∀ e : Expr, (e.mapSpans f).region = e.region.map f
  | .integer .. | .float .. | .string .. | .boolean .. | .noneLiteral .. | .symbol .. => rfl
  | .list s es | .tuple s es | .set s es => congrArg (Region.mk (f s)) (Expr.regions_mapSpans es)
  | .dict s es => congrArg (Region.mk (f s)) (Expr.entryRegions_mapSpans es)
  | .parenthesized s e | .member s e _ | .transfer s e | .unary s _ e =>
    congrArg (fun r => Region.mk (f s) [r]) (Expr.region_mapSpans e)
  | .call s e as =>
    congrArg₂ (fun r rs => Region.mk (f s) (r :: rs)) (Expr.region_mapSpans e) (Argument.regions_mapSpans as)
  | .genericCall s e ts as => by
    rw [Expr.mapSpans, Expr.region, Expr.region, Expr.region_mapSpans e, Argument.regions_mapSpans ts,
      Argument.regions_mapSpans as, map, mapAll, mapAll_eq_map, mapAll_eq_map, mapAll_eq_map, List.map_append]
  | .subscript s e es =>
    congrArg₂ (fun r rs => Region.mk (f s) (r :: rs)) (Expr.region_mapSpans e) (Expr.regions_mapSpans es)
  | .slice s lower upper step => by
    rw [Expr.mapSpans, Expr.region, Expr.region, Expr.optionRegions_mapSpans lower,
      Expr.optionRegions_mapSpans upper, Expr.optionRegions_mapSpans step, map_mk]
    simp only [mapAll_eq_map, List.map_append]
  | .binary s _ x y => by
    rw [Expr.mapSpans, Expr.region, Expr.region_mapSpans x, Expr.region_mapSpans y]
    rfl
  | .comparison s e links =>
    congrArg₂ (fun r rs => Region.mk (f s) (r :: rs)) (Expr.region_mapSpans e) (Expr.linkRegions_mapSpans links)
  | .conditional s x c y => by
    rw [Expr.mapSpans, Expr.region, Expr.region_mapSpans x, Expr.region_mapSpans c, Expr.region_mapSpans y]
    rfl

theorem Argument.region_mapSpans : ∀ a : Argument, (a.mapSpans f).region = a.region.map f
  | .positional e => Expr.region_mapSpans e
  | .keyword s _ e => congrArg (fun r => Region.mk (f s) [r]) (Expr.region_mapSpans e)

theorem Expr.regions_mapSpans : ∀ es : List Expr,
    Expr.regions (Expr.mapSpansAll f es) = mapAll f (Expr.regions es)
  | [] => rfl
  | e :: es => congrArg₂ List.cons (Expr.region_mapSpans e) (Expr.regions_mapSpans es)

theorem Expr.entryRegions_mapSpans : ∀ es : List (Expr × Expr),
    Expr.entryRegions (Expr.mapSpansEntries f es) = mapAll f (Expr.entryRegions es)
  | [] => rfl
  | (key, value) :: es => congrArg₂ List.cons (Expr.region_mapSpans key)
    (congrArg₂ List.cons (Expr.region_mapSpans value) (Expr.entryRegions_mapSpans es))

theorem Expr.linkRegions_mapSpans : ∀ ls : List (ComparisonOp × Expr),
    Expr.linkRegions (Expr.mapSpansLinks f ls) = mapAll f (Expr.linkRegions ls)
  | [] => rfl
  | (_, e) :: ls => congrArg₂ List.cons (Expr.region_mapSpans e) (Expr.linkRegions_mapSpans ls)

theorem Expr.optionRegions_mapSpans : ∀ o : Option Expr,
    Expr.optionRegions (Expr.mapSpansOpt f o) = mapAll f (Expr.optionRegions o)
  | none => rfl
  | some e => congrArg (fun r => [r]) (Expr.region_mapSpans e)

theorem Argument.regions_mapSpans : ∀ as : List Argument,
    Argument.regions (Argument.mapSpansAll f as) = mapAll f (Argument.regions as)
  | [] => rfl
  | a :: as => congrArg₂ List.cons (Argument.region_mapSpans a) (Argument.regions_mapSpans as)

end

mutual

theorem TypeExpr.region_mapSpans : ∀ t : TypeExpr, (t.mapSpans f).region = t.region.map f
  | .symbol .. => rfl
  | .qualified s t _ => congrArg (fun r => Region.mk (f s) [r]) (TypeExpr.region_mapSpans t)
  | .generic s t as => congrArg₂ (fun r rs => Region.mk (f s) (r :: rs)) (TypeExpr.region_mapSpans t)
    (TypeArgument.regions_mapSpans as)

theorem TypeArgument.region_mapSpans : ∀ a : TypeArgument, (a.mapSpans f).region = a.region.map f
  | .type t => TypeExpr.region_mapSpans t
  | .value e => Expr.region_mapSpans f e
  | .keyword s _ a => congrArg (fun r => Region.mk (f s) [r]) (TypeArgument.region_mapSpans a)

theorem TypeArgument.regions_mapSpans : ∀ as : List TypeArgument,
    TypeArgument.regions (TypeArgument.mapSpansAll f as) = mapAll f (TypeArgument.regions as)
  | [] => rfl
  | a :: as => congrArg₂ List.cons (TypeArgument.region_mapSpans a) (TypeArgument.regions_mapSpans as)

end

mutual

theorem Pattern.region_mapSpans : ∀ p : Pattern, (p.mapSpans f).region = p.region.map f
  | .symbol .. => rfl
  | .tuple s ps | .list s ps => congrArg (Region.mk (f s)) (Pattern.regions_mapSpans ps)
  | .member s e _ => congrArg (fun r => Region.mk (f s) [r]) (Expr.region_mapSpans f e)
  | .subscript s e es => by
    rw [Pattern.mapSpans, Pattern.region, Pattern.region, Expr.region_mapSpans, ← Expr.mapSpansAll_eq_map,
      Expr.regions_mapSpans]
    rfl

theorem Pattern.regions_mapSpans : ∀ ps : List Pattern,
    Pattern.regions (Pattern.mapSpansAll f ps) = mapAll f (Pattern.regions ps)
  | [] => rfl
  | p :: ps => congrArg₂ List.cons (Pattern.region_mapSpans p) (Pattern.regions_mapSpans ps)

end

end Expressions

section Statements

theorem ImportName.region_mapSpans (n : ImportName) : (n.mapSpans f).region = n.region.map f := rfl

theorem ImportTargets.regions_mapSpans (t : ImportTargets) :
    (t.mapSpans f).regions = t.regions.map (Region.map f) := by
  cases t with
  | wildcard => rfl
  | listed names => exact map_list (ImportName.region_mapSpans f) names

theorem TypeParameter.region_mapSpans (t : TypeParameter) : (t.mapSpans f).region = t.region.map f := by
  cases t with
  | named s name declaredType value =>
    rw [TypeParameter.mapSpans, TypeParameter.region, TypeParameter.region,
      map_optional (TypeExpr.region_mapSpans f), map_optional (Expr.region_mapSpans f), map_mk, List.map_append]
  | inferOnly s => rfl

theorem Parameter.region_mapSpans (p : Parameter) : (p.mapSpans f).region = p.region.map f := by
  rw [Parameter.mapSpans, Parameter.region, Parameter.region,
    map_optional (TypeExpr.region_mapSpans f), map_optional (Expr.region_mapSpans f), map_mk, List.map_append]

theorem FunctionHead.regions_mapSpans (h : FunctionHead) :
    (h.mapSpans f).regions = h.regions.map (Region.map f) := by
  rw [FunctionHead.mapSpans, FunctionHead.regions, FunctionHead.regions,
    map_list (TypeParameter.region_mapSpans f), map_list (Parameter.region_mapSpans f),
    map_optional (TypeExpr.region_mapSpans f), List.map_append, List.map_append]

theorem TypeHead.regions_mapSpans (h : TypeHead) :
    (h.mapSpans f).regions = h.regions.map (Region.map f) := by
  rw [TypeHead.mapSpans, TypeHead.regions, TypeHead.regions, map_list (TypeParameter.region_mapSpans f),
    map_list (TypeExpr.region_mapSpans f), List.map_append]

theorem Decorator.region_mapSpans (d : Decorator) : (d.mapSpans f).region = d.region.map f := by
  rw [Decorator.mapSpans, Decorator.region, Decorator.region, map_mk]
  cases d.arguments with
  | none => rfl
  | some as => exact congrArg (Region.mk (f d.span)) (map_list (Argument.region_mapSpans f) as)

theorem AliasValue.region_mapSpans (v : AliasValue) : (v.mapSpans f).region = v.region.map f := by
  cases v with
  | type t => exact TypeExpr.region_mapSpans f t
  | value e => exact Expr.region_mapSpans f e

mutual

/-- The region of a statement with its spans changed is its region with the spans changed. -/
theorem Stmt.region_mapSpans : ∀ s : Stmt, (s.mapSpans f).region = s.region.map f
  | .importModules s names => by
    rw [Stmt.mapSpans, Stmt.region, Stmt.region, map_mk,
      map_list (ImportName.region_mapSpans f)]
  | .importFrom s _ _ targets => by
    rw [Stmt.mapSpans, Stmt.region, Stmt.region, map_mk, ImportTargets.regions_mapSpans]
  | .expression s e => congrArg (fun r => Region.mk (f s) [r]) (Expr.region_mapSpans f e)
  | .assignment s _ target declaredType value => by
    rw [Stmt.mapSpans, Stmt.region, Stmt.region, Pattern.region_mapSpans,
      map_optional (TypeExpr.region_mapSpans f), Expr.region_mapSpans, map_mk, List.map_cons, List.map_append,
      List.map_singleton]
  | .augmented s _ target value => by
    rw [Stmt.mapSpans, Stmt.region, Pattern.region_mapSpans, Expr.region_mapSpans]
    rfl
  | .declaration s _ _ declaredType => by
    rw [Stmt.mapSpans, Stmt.region, Stmt.region, map_optional (TypeExpr.region_mapSpans f), map_mk]
  | .aliasing s _ typeParameters value => by
    rw [Stmt.mapSpans, Stmt.region, Stmt.region, map_list (TypeParameter.region_mapSpans f),
      AliasValue.region_mapSpans, map_mk, List.map_append, List.map_singleton]
  | .leave s _ value => by
    rw [Stmt.mapSpans, Stmt.region, Stmt.region, map_optional (Expr.region_mapSpans f), map_mk]
  | .bare .. | .error _ => rfl
  | .function s head body => by
    rw [Stmt.mapSpans, Stmt.region, Stmt.region, FunctionHead.regions_mapSpans, Block.region_mapSpans body,
      map_mk, List.map_append, List.map_singleton]
  | .typeDecl s head body => by
    rw [Stmt.mapSpans, Stmt.region, Stmt.region, TypeHead.regions_mapSpans, Block.region_mapSpans body,
      map_mk, List.map_append, List.map_singleton]
  | .conditional s condition body elifs otherwise => by
    rw [Stmt.mapSpans, Stmt.region, Stmt.region, Expr.region_mapSpans, Block.region_mapSpans body,
      ElifClause.regions_mapSpans elifs, Block.optionRegions_mapSpans otherwise, map_mk]
    simp only [List.map_cons, List.map_append, mapAll_eq_map]
  | .forLoop s target iterable body => by
    rw [Stmt.mapSpans, Stmt.region, Pattern.region_mapSpans, Expr.region_mapSpans, Block.region_mapSpans body]
    rfl
  | .whileLoop s condition body => by
    rw [Stmt.mapSpans, Stmt.region, Expr.region_mapSpans, Block.region_mapSpans body]
    rfl
  | .decorated s decorators definition => by
    rw [Stmt.mapSpans, Stmt.region, Stmt.region, map_list (Decorator.region_mapSpans f),
      Stmt.region_mapSpans definition, map_mk, List.map_append, List.map_singleton]

theorem Block.region_mapSpans : ∀ b : Block, (b.mapSpans f).region = b.region.map f
  | .mk s _ body => congrArg (Region.mk (f s)) (Stmt.regions_mapSpans body)

theorem ElifClause.region_mapSpans : ∀ c : ElifClause, (c.mapSpans f).region = c.region.map f
  | .mk s condition body => by
    rw [ElifClause.mapSpans, ElifClause.region, Expr.region_mapSpans, Block.region_mapSpans body]
    rfl

theorem Stmt.regions_mapSpans : ∀ ss : List Stmt,
    Stmt.regions (Stmt.mapSpansAll f ss) = mapAll f (Stmt.regions ss)
  | [] => rfl
  | s :: ss => congrArg₂ List.cons (Stmt.region_mapSpans s) (Stmt.regions_mapSpans ss)

theorem ElifClause.regions_mapSpans : ∀ cs : List ElifClause,
    ElifClause.regions (ElifClause.mapSpansAll f cs) = mapAll f (ElifClause.regions cs)
  | [] => rfl
  | c :: cs => congrArg₂ List.cons (ElifClause.region_mapSpans c) (ElifClause.regions_mapSpans cs)

theorem Block.optionRegions_mapSpans : ∀ o : Option Block,
    Block.optionRegions (Block.mapSpansOpt f o) = mapAll f (Block.optionRegions o)
  | none => rfl
  | some b => congrArg (fun r => [r]) (Block.region_mapSpans b)

end

end Statements

end Offside
