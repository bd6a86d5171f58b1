import Offside.Tree.Spans

namespace Offside

variable (f g : Span → Span)

theorem Expr.mapSpansAll_eq_map (es : List Expr) :
    Expr.mapSpansAll f es = es.map (Expr.mapSpans f) := by
  induction es with
  | nil => rfl
  | cons e es ih => rw [Expr.mapSpansAll, ih, List.map_cons]

theorem Expr.mapSpansOpt_eq_map (e : Option Expr) :
    Expr.mapSpansOpt f e = e.map (Expr.mapSpans f) := by
  cases e <;> rfl

theorem Expr.mapSpansEntries_eq_map (entries : List (Expr × Expr)) :
    Expr.mapSpansEntries f entries =
      entries.map fun entry => (entry.1.mapSpans f, entry.2.mapSpans f) := by
  induction entries with
  | nil => rfl
  | cons entry entries ih => rw [Expr.mapSpansEntries, ih, List.map_cons]

theorem Expr.mapSpansLinks_eq_map (links : List (ComparisonOp × Expr)) :
    Expr.mapSpansLinks f links = links.map fun link => (link.1, link.2.mapSpans f) := by
  induction links with
  | nil => rfl
  | cons link links ih => rw [Expr.mapSpansLinks, ih, List.map_cons]

theorem Argument.mapSpansAll_eq_map (as : List Argument) :
    Argument.mapSpansAll f as = as.map (Argument.mapSpans f) := by
  induction as with
  | nil => rfl
  | cons a as ih => rw [Argument.mapSpansAll, ih, List.map_cons]

theorem TypeArgument.mapSpansAll_eq_map (as : List TypeArgument) :
    TypeArgument.mapSpansAll f as = as.map (TypeArgument.mapSpans f) := by
  induction as with
  | nil => rfl
  | cons a as ih => rw [TypeArgument.mapSpansAll, ih, List.map_cons]

theorem Pattern.mapSpansAll_eq_map (ps : List Pattern) :
    Pattern.mapSpansAll f ps = ps.map (Pattern.mapSpans f) := by
  induction ps with
  | nil => rfl
  | cons p ps ih => rw [Pattern.mapSpansAll, ih, List.map_cons]

theorem Stmt.mapSpansAll_eq_map (ss : List Stmt) :
    Stmt.mapSpansAll f ss = ss.map (Stmt.mapSpans f) := by
  induction ss with
  | nil => rfl
  | cons s ss ih => rw [Stmt.mapSpansAll, ih, List.map_cons]

theorem ElifClause.mapSpansAll_eq_map (cs : List ElifClause) :
    ElifClause.mapSpansAll f cs = cs.map (ElifClause.mapSpans f) := by
  induction cs with
  | nil => rfl
  | cons c cs ih => rw [ElifClause.mapSpansAll, ih, List.map_cons]

theorem Block.mapSpansOpt_eq_map (b : Option Block) :
    Block.mapSpansOpt f b = b.map (Block.mapSpans f) := by
  cases b <;> rfl

@[simp]
theorem Expr.span_mapSpans (e : Expr) : (e.mapSpans f).span = f e.span := by
  cases e <;> rfl

@[simp]
theorem TypeExpr.span_mapSpans (t : TypeExpr) : (t.mapSpans f).span = f t.span := by
  cases t <;> rfl

@[simp]
theorem Pattern.span_mapSpans (p : Pattern) : (p.mapSpans f).span = f p.span := by
  cases p <;> rfl

@[simp]
theorem Stmt.span_mapSpans (s : Stmt) : (s.mapSpans f).span = f s.span := by
  cases s <;> rfl

@[simp]
theorem Block.span_mapSpans (b : Block) : (b.mapSpans f).span = f b.span := by
  cases b; rfl

@[simp]
theorem ElifClause.span_mapSpans (c : ElifClause) : (c.mapSpans f).span = f c.span := by
  cases c; rfl

mutual

theorem Expr.mapSpans_mapSpans : ∀ e : Expr, (e.mapSpans f).mapSpans g = e.mapSpans (g ∘ f)
  | .integer .. | .float .. | .string .. | .boolean .. | .noneLiteral .. | .symbol .. => rfl
  | .list _ es => by simp only [Expr.mapSpans, Expr.mapSpansAll_mapSpansAll es, Function.comp]
  | .tuple _ es => by simp only [Expr.mapSpans, Expr.mapSpansAll_mapSpansAll es, Function.comp]
  | .set _ es => by simp only [Expr.mapSpans, Expr.mapSpansAll_mapSpansAll es, Function.comp]
  | .dict _ es => by
    simp only [Expr.mapSpans, Expr.mapSpansEntries_mapSpansEntries es, Function.comp]
  | .parenthesized _ e => by simp only [Expr.mapSpans, Expr.mapSpans_mapSpans e, Function.comp]
  | .call _ e as => by
    simp only [Expr.mapSpans, Expr.mapSpans_mapSpans e, Argument.mapSpansAll_mapSpansAll as,
      Function.comp]
  | .genericCall _ e ts as => by
    simp only [Expr.mapSpans, Expr.mapSpans_mapSpans e, Argument.mapSpansAll_mapSpansAll ts,
      Argument.mapSpansAll_mapSpansAll as, Function.comp]
  | .member _ e _ => by simp only [Expr.mapSpans, Expr.mapSpans_mapSpans e, Function.comp]
  | .subscript _ e es => by
    simp only [Expr.mapSpans, Expr.mapSpans_mapSpans e, Expr.mapSpansAll_mapSpansAll es,
      Function.comp]
  | .slice _ lower upper step => by
    simp only [Expr.mapSpans, Expr.mapSpansOpt_mapSpansOpt lower,
      Expr.mapSpansOpt_mapSpansOpt upper, Expr.mapSpansOpt_mapSpansOpt step, Function.comp]
  | .transfer _ e => by simp only [Expr.mapSpans, Expr.mapSpans_mapSpans e, Function.comp]
  | .unary _ _ e => by simp only [Expr.mapSpans, Expr.mapSpans_mapSpans e, Function.comp]
  | .binary _ _ a b => by
    simp only [Expr.mapSpans, Expr.mapSpans_mapSpans a, Expr.mapSpans_mapSpans b, Function.comp]
  | .comparison _ e links => by
    simp only [Expr.mapSpans, Expr.mapSpans_mapSpans e, Expr.mapSpansLinks_mapSpansLinks links,
      Function.comp]
  | .conditional _ a b c => by
    simp only [Expr.mapSpans, Expr.mapSpans_mapSpans a, Expr.mapSpans_mapSpans b,
      Expr.mapSpans_mapSpans c, Function.comp]

theorem Argument.mapSpans_mapSpans :
    ∀ a : Argument, (a.mapSpans f).mapSpans g = a.mapSpans (g ∘ f)
  | .positional e => by simp only [Argument.mapSpans, Expr.mapSpans_mapSpans e]
  | .keyword _ _ e => by simp only [Argument.mapSpans, Expr.mapSpans_mapSpans e, Function.comp]

theorem Expr.mapSpansAll_mapSpansAll : ∀ es : List Expr,
    Expr.mapSpansAll g (Expr.mapSpansAll f es) = Expr.mapSpansAll (g ∘ f) es
  | [] => rfl
  | e :: es => by
    simp only [Expr.mapSpansAll, Expr.mapSpans_mapSpans e, Expr.mapSpansAll_mapSpansAll es]

theorem Expr.mapSpansEntries_mapSpansEntries : ∀ es : List (Expr × Expr),
    Expr.mapSpansEntries g (Expr.mapSpansEntries f es) = Expr.mapSpansEntries (g ∘ f) es
  | [] => rfl
  | (key, value) :: es => by
    simp only [Expr.mapSpansEntries, Expr.mapSpans_mapSpans key, Expr.mapSpans_mapSpans value,
      Expr.mapSpansEntries_mapSpansEntries es]

theorem Expr.mapSpansLinks_mapSpansLinks : ∀ ls : List (ComparisonOp × Expr),
    Expr.mapSpansLinks g (Expr.mapSpansLinks f ls) = Expr.mapSpansLinks (g ∘ f) ls
  | [] => rfl
  | (_, e) :: ls => by
    simp only [Expr.mapSpansLinks, Expr.mapSpans_mapSpans e, Expr.mapSpansLinks_mapSpansLinks ls]

theorem Expr.mapSpansOpt_mapSpansOpt : ∀ e : Option Expr,
    Expr.mapSpansOpt g (Expr.mapSpansOpt f e) = Expr.mapSpansOpt (g ∘ f) e
  | none => rfl
  | some e => by simp only [Expr.mapSpansOpt, Expr.mapSpans_mapSpans e]

theorem Argument.mapSpansAll_mapSpansAll : ∀ as : List Argument,
    Argument.mapSpansAll g (Argument.mapSpansAll f as) = Argument.mapSpansAll (g ∘ f) as
  | [] => rfl
  | a :: as => by
    simp only [Argument.mapSpansAll, Argument.mapSpans_mapSpans a,
      Argument.mapSpansAll_mapSpansAll as]

end

mutual

theorem Expr.mapSpans_id : ∀ e : Expr, e.mapSpans id = e
  | .integer .. | .float .. | .string .. | .boolean .. | .noneLiteral .. | .symbol .. => rfl
  | .list _ es => by simp only [Expr.mapSpans, Expr.mapSpansAll_id es, id]
  | .tuple _ es => by simp only [Expr.mapSpans, Expr.mapSpansAll_id es, id]
  | .set _ es => by simp only [Expr.mapSpans, Expr.mapSpansAll_id es, id]
  | .dict _ es => by simp only [Expr.mapSpans, Expr.mapSpansEntries_id es, id]
  | .parenthesized _ e => by simp only [Expr.mapSpans, Expr.mapSpans_id e, id]
  | .call _ e as => by
    simp only [Expr.mapSpans, Expr.mapSpans_id e, Argument.mapSpansAll_id as, id]
  | .genericCall _ e ts as => by
    simp only [Expr.mapSpans, Expr.mapSpans_id e, Argument.mapSpansAll_id ts,
      Argument.mapSpansAll_id as, id]
  | .member _ e _ => by simp only [Expr.mapSpans, Expr.mapSpans_id e, id]
  | .subscript _ e es => by
    simp only [Expr.mapSpans, Expr.mapSpans_id e, Expr.mapSpansAll_id es, id]
  | .slice _ lower upper step => by
    simp only [Expr.mapSpans, Expr.mapSpansOpt_id lower, Expr.mapSpansOpt_id upper,
      Expr.mapSpansOpt_id step, id]
  | .transfer _ e => by simp only [Expr.mapSpans, Expr.mapSpans_id e, id]
  | .unary _ _ e => by simp only [Expr.mapSpans, Expr.mapSpans_id e, id]
  | .binary _ _ a b => by
    simp only [Expr.mapSpans, Expr.mapSpans_id a, Expr.mapSpans_id b, id]
  | .comparison _ e links => by
    simp only [Expr.mapSpans, Expr.mapSpans_id e, Expr.mapSpansLinks_id links, id]
  | .conditional _ a b c => by
    simp only [Expr.mapSpans, Expr.mapSpans_id a, Expr.mapSpans_id b, Expr.mapSpans_id c, id]

theorem Argument.mapSpans_id : ∀ a : Argument, a.mapSpans id = a
  | .positional e => by simp only [Argument.mapSpans, Expr.mapSpans_id e]
  | .keyword _ _ e => by simp only [Argument.mapSpans, Expr.mapSpans_id e, id]

theorem Expr.mapSpansAll_id : ∀ es : List Expr, Expr.mapSpansAll id es = es
  | [] => rfl
  | e :: es => by simp only [Expr.mapSpansAll, Expr.mapSpans_id e, Expr.mapSpansAll_id es]

theorem Expr.mapSpansEntries_id : ∀ es : List (Expr × Expr), Expr.mapSpansEntries id es = es
  | [] => rfl
  | (key, value) :: es => by
    simp only [Expr.mapSpansEntries, Expr.mapSpans_id key, Expr.mapSpans_id value,
      Expr.mapSpansEntries_id es]

theorem Expr.mapSpansLinks_id : ∀ ls : List (ComparisonOp × Expr), Expr.mapSpansLinks id ls = ls
  | [] => rfl
  | (_, e) :: ls => by simp only [Expr.mapSpansLinks, Expr.mapSpans_id e, Expr.mapSpansLinks_id ls]

theorem Expr.mapSpansOpt_id : ∀ e : Option Expr, Expr.mapSpansOpt id e = e
  | none => rfl
  | some e => by simp only [Expr.mapSpansOpt, Expr.mapSpans_id e]

theorem Argument.mapSpansAll_id : ∀ as : List Argument, Argument.mapSpansAll id as = as
  | [] => rfl
  | a :: as => by
    simp only [Argument.mapSpansAll, Argument.mapSpans_id a, Argument.mapSpansAll_id as]

end

mutual

theorem TypeExpr.mapSpans_mapSpans :
    ∀ t : TypeExpr, (t.mapSpans f).mapSpans g = t.mapSpans (g ∘ f)
  | .symbol .. => rfl
  | .qualified _ t _ => by simp only [TypeExpr.mapSpans, TypeExpr.mapSpans_mapSpans t, Function.comp]
  | .generic _ t as => by
    simp only [TypeExpr.mapSpans, TypeExpr.mapSpans_mapSpans t,
      TypeArgument.mapSpansAll_mapSpansAll as, Function.comp]

theorem TypeArgument.mapSpans_mapSpans :
    ∀ a : TypeArgument, (a.mapSpans f).mapSpans g = a.mapSpans (g ∘ f)
  | .type t => by simp only [TypeArgument.mapSpans, TypeExpr.mapSpans_mapSpans t]
  | .value e => by simp only [TypeArgument.mapSpans, Expr.mapSpans_mapSpans]
  | .keyword _ _ a => by
    simp only [TypeArgument.mapSpans, TypeArgument.mapSpans_mapSpans a, Function.comp]

theorem TypeArgument.mapSpansAll_mapSpansAll : ∀ as : List TypeArgument,
    TypeArgument.mapSpansAll g (TypeArgument.mapSpansAll f as) =
      TypeArgument.mapSpansAll (g ∘ f) as
  | [] => rfl
  | a :: as => by
    simp only [TypeArgument.mapSpansAll, TypeArgument.mapSpans_mapSpans a,
      TypeArgument.mapSpansAll_mapSpansAll as]

end

mutual

theorem TypeExpr.mapSpans_id : ∀ t : TypeExpr, t.mapSpans id = t
  | .symbol .. => rfl
  | .qualified _ t _ => by simp only [TypeExpr.mapSpans, TypeExpr.mapSpans_id t, id]
  | .generic _ t as => by
    simp only [TypeExpr.mapSpans, TypeExpr.mapSpans_id t, TypeArgument.mapSpansAll_id as, id]

theorem TypeArgument.mapSpans_id : ∀ a : TypeArgument, a.mapSpans id = a
  | .type t => by simp only [TypeArgument.mapSpans, TypeExpr.mapSpans_id t]
  | .value e => by simp only [TypeArgument.mapSpans, Expr.mapSpans_id]
  | .keyword _ _ a => by simp only [TypeArgument.mapSpans, TypeArgument.mapSpans_id a, id]

theorem TypeArgument.mapSpansAll_id : ∀ as : List TypeArgument, TypeArgument.mapSpansAll id as = as
  | [] => rfl
  | a :: as => by
    simp only [TypeArgument.mapSpansAll, TypeArgument.mapSpans_id a,
      TypeArgument.mapSpansAll_id as]

end

section Comp

theorem Expr.mapSpans_comp : Expr.mapSpans g ∘ Expr.mapSpans f = Expr.mapSpans (g ∘ f) :=
  funext (Expr.mapSpans_mapSpans f g)

theorem Argument.mapSpans_comp :
    Argument.mapSpans g ∘ Argument.mapSpans f = Argument.mapSpans (g ∘ f) :=
  funext (Argument.mapSpans_mapSpans f g)

theorem TypeExpr.mapSpans_comp :
    TypeExpr.mapSpans g ∘ TypeExpr.mapSpans f = TypeExpr.mapSpans (g ∘ f) :=
  funext (TypeExpr.mapSpans_mapSpans f g)

theorem ImportName.mapSpans_comp :
    ImportName.mapSpans g ∘ ImportName.mapSpans f = ImportName.mapSpans (g ∘ f) := rfl

theorem TypeParameter.mapSpans_comp :
    TypeParameter.mapSpans g ∘ TypeParameter.mapSpans f = TypeParameter.mapSpans (g ∘ f) := by
  funext p
  cases p with
  | inferOnly => rfl
  | named _ _ t d =>
    simp only [Function.comp, TypeParameter.mapSpans, Option.map_map, TypeExpr.mapSpans_mapSpans,
      Expr.mapSpans_mapSpans, Function.comp_def]

theorem Parameter.mapSpans_comp :
    Parameter.mapSpans g ∘ Parameter.mapSpans f = Parameter.mapSpans (g ∘ f) := by
  funext p
  simp only [Function.comp_apply, Parameter.mapSpans, Option.map_map, TypeExpr.mapSpans_comp,
    Expr.mapSpans_comp]

theorem Decorator.mapSpans_comp :
    Decorator.mapSpans g ∘ Decorator.mapSpans f = Decorator.mapSpans (g ∘ f) := by
  funext d
  simp only [Function.comp_apply, Decorator.mapSpans, Option.map_map, Function.comp_def,
    List.map_map, Argument.mapSpans_mapSpans]

end Comp

mutual

theorem Pattern.mapSpans_mapSpans :
    ∀ p : Pattern, (p.mapSpans f).mapSpans g = p.mapSpans (g ∘ f)
  | .symbol .. => rfl
  | .tuple _ ps => by
    simp only [Pattern.mapSpans, Pattern.mapSpansAll_mapSpansAll ps, Function.comp]
  | .list _ ps => by
    simp only [Pattern.mapSpans, Pattern.mapSpansAll_mapSpansAll ps, Function.comp]
  | .member _ e _ => by simp only [Pattern.mapSpans, Expr.mapSpans_mapSpans, Function.comp]
  | .subscript _ e es => by
    simp only [Pattern.mapSpans, Expr.mapSpans_mapSpans, List.map_map, Expr.mapSpans_comp,
      Function.comp_apply]

theorem Pattern.mapSpansAll_mapSpansAll : ∀ ps : List Pattern,
    Pattern.mapSpansAll g (Pattern.mapSpansAll f ps) = Pattern.mapSpansAll (g ∘ f) ps
  | [] => rfl
  | p :: ps => by
    simp only [Pattern.mapSpansAll, Pattern.mapSpans_mapSpans p,
      Pattern.mapSpansAll_mapSpansAll ps]

end

mutual

theorem Pattern.mapSpans_id : ∀ p : Pattern, p.mapSpans id = p
  | .symbol .. => rfl
  | .tuple _ ps => by simp only [Pattern.mapSpans, Pattern.mapSpansAll_id ps, id]
  | .list _ ps => by simp only [Pattern.mapSpans, Pattern.mapSpansAll_id ps, id]
  | .member _ e _ => by simp only [Pattern.mapSpans, Expr.mapSpans_id, id]
  | .subscript _ e es => by
    simp only [Pattern.mapSpans, Expr.mapSpans_id, funext Expr.mapSpans_id, List.map_id', id]

theorem Pattern.mapSpansAll_id : ∀ ps : List Pattern, Pattern.mapSpansAll id ps = ps
  | [] => rfl
  | p :: ps => by simp only [Pattern.mapSpansAll, Pattern.mapSpans_id p, Pattern.mapSpansAll_id ps]

end

section Id

theorem ImportName.mapSpans_id : ImportName.mapSpans id = id := rfl

theorem TypeParameter.mapSpans_id : TypeParameter.mapSpans id = id := by
  funext p
  cases p with
  | inferOnly => rfl
  | named _ _ t d =>
    simp only [TypeParameter.mapSpans, funext TypeExpr.mapSpans_id, funext Expr.mapSpans_id,
      Option.map_id', id]

theorem Parameter.mapSpans_id : Parameter.mapSpans id = id := by
  funext p
  simp only [Parameter.mapSpans, funext TypeExpr.mapSpans_id, funext Expr.mapSpans_id,
    Option.map_id', id]

theorem Decorator.mapSpans_id : Decorator.mapSpans id = id := by
  funext d
  simp only [Decorator.mapSpans, funext Argument.mapSpans_id, List.map_id_fun', Option.map_id_fun,
    id]

end Id

theorem ImportTargets.mapSpans_mapSpans (t : ImportTargets) :
    (t.mapSpans f).mapSpans g = t.mapSpans (g ∘ f) := by
  cases t with
  | wildcard => rfl
  | listed names => simp only [ImportTargets.mapSpans, List.map_map, ImportName.mapSpans_comp]

theorem AliasValue.mapSpans_mapSpans (v : AliasValue) :
    (v.mapSpans f).mapSpans g = v.mapSpans (g ∘ f) := by
  cases v with
  | type t => simp only [AliasValue.mapSpans, TypeExpr.mapSpans_mapSpans]
  | value e => simp only [AliasValue.mapSpans, Expr.mapSpans_mapSpans]

theorem FunctionHead.mapSpans_mapSpans (h : FunctionHead) :
    (h.mapSpans f).mapSpans g = h.mapSpans (g ∘ f) := by
  simp only [FunctionHead.mapSpans, List.map_map, Option.map_map, TypeParameter.mapSpans_comp,
    Parameter.mapSpans_comp, TypeExpr.mapSpans_comp]

theorem TypeHead.mapSpans_mapSpans (h : TypeHead) :
    (h.mapSpans f).mapSpans g = h.mapSpans (g ∘ f) := by
  simp only [TypeHead.mapSpans, List.map_map, TypeParameter.mapSpans_comp, TypeExpr.mapSpans_comp]

theorem ImportTargets.mapSpans_id (t : ImportTargets) : t.mapSpans id = t := by
  cases t with
  | wildcard => rfl
  | listed names => simp only [ImportTargets.mapSpans, ImportName.mapSpans_id, List.map_id]

theorem AliasValue.mapSpans_id (v : AliasValue) : v.mapSpans id = v := by
  cases v with
  | type t => simp only [AliasValue.mapSpans, TypeExpr.mapSpans_id]
  | value e => simp only [AliasValue.mapSpans, Expr.mapSpans_id]

theorem FunctionHead.mapSpans_id (h : FunctionHead) : h.mapSpans id = h := by
  simp only [FunctionHead.mapSpans, TypeParameter.mapSpans_id, Parameter.mapSpans_id,
    funext TypeExpr.mapSpans_id, List.map_id, Option.map_id']

theorem TypeHead.mapSpans_id (h : TypeHead) : h.mapSpans id = h := by
  simp only [TypeHead.mapSpans, TypeParameter.mapSpans_id, funext TypeExpr.mapSpans_id,
    List.map_id, List.map_id']

mutual

theorem Stmt.mapSpans_mapSpans : ∀ s : Stmt, (s.mapSpans f).mapSpans g = s.mapSpans (g ∘ f)
  | .importModules .. => by
    simp only [Stmt.mapSpans, List.map_map, ImportName.mapSpans_comp, Function.comp_apply]
  | .importFrom .. => by
    simp only [Stmt.mapSpans, ImportTargets.mapSpans_mapSpans, Function.comp_apply]
  | .expression .. => by simp only [Stmt.mapSpans, Expr.mapSpans_mapSpans, Function.comp_apply]
  | .assignment .. => by
    simp only [Stmt.mapSpans, Pattern.mapSpans_mapSpans, Option.map_map, TypeExpr.mapSpans_comp,
      Expr.mapSpans_mapSpans, Function.comp_apply]
  | .augmented .. => by
    simp only [Stmt.mapSpans, Pattern.mapSpans_mapSpans, Expr.mapSpans_mapSpans,
      Function.comp_apply]
  | .declaration .. => by
    simp only [Stmt.mapSpans, Option.map_map, TypeExpr.mapSpans_comp, Function.comp_apply]
  | .aliasing .. => by
    simp only [Stmt.mapSpans, List.map_map, TypeParameter.mapSpans_comp,
      AliasValue.mapSpans_mapSpans, Function.comp_apply]
  | .leave .. => by
    simp only [Stmt.mapSpans, Option.map_map, Expr.mapSpans_comp, Function.comp_apply]
  | .bare .. => rfl
  | .function _ _ b => by
    simp only [Stmt.mapSpans, FunctionHead.mapSpans_mapSpans, Block.mapSpans_mapSpans b,
      Function.comp_apply]
  | .typeDecl _ _ b => by
    simp only [Stmt.mapSpans, TypeHead.mapSpans_mapSpans, Block.mapSpans_mapSpans b,
      Function.comp_apply]
  | .conditional _ _ b cs o => by
    simp only [Stmt.mapSpans, Expr.mapSpans_mapSpans, Block.mapSpans_mapSpans b,
      ElifClause.mapSpansAll_mapSpansAll cs, Block.mapSpansOpt_mapSpansOpt o, Function.comp_apply]
  | .forLoop _ _ _ b => by
    simp only [Stmt.mapSpans, Pattern.mapSpans_mapSpans, Expr.mapSpans_mapSpans,
      Block.mapSpans_mapSpans b, Function.comp_apply]
  | .whileLoop _ _ b => by
    simp only [Stmt.mapSpans, Expr.mapSpans_mapSpans, Block.mapSpans_mapSpans b,
      Function.comp_apply]
  | .decorated _ _ s => by
    simp only [Stmt.mapSpans, List.map_map, Decorator.mapSpans_comp, Stmt.mapSpans_mapSpans s,
      Function.comp_apply]
  | .error _ => rfl

theorem Block.mapSpans_mapSpans : ∀ b : Block, (b.mapSpans f).mapSpans g = b.mapSpans (g ∘ f)
  | .mk _ _ body => by
    simp only [Block.mapSpans, Stmt.mapSpansAll_mapSpansAll body, Function.comp_apply]

theorem ElifClause.mapSpans_mapSpans :
    ∀ c : ElifClause, (c.mapSpans f).mapSpans g = c.mapSpans (g ∘ f)
  | .mk _ _ b => by
    simp only [ElifClause.mapSpans, Expr.mapSpans_mapSpans, Block.mapSpans_mapSpans b,
      Function.comp_apply]

theorem Stmt.mapSpansAll_mapSpansAll : ∀ ss : List Stmt,
    Stmt.mapSpansAll g (Stmt.mapSpansAll f ss) = Stmt.mapSpansAll (g ∘ f) ss
  | [] => rfl
  | s :: ss => by
    simp only [Stmt.mapSpansAll, Stmt.mapSpans_mapSpans s, Stmt.mapSpansAll_mapSpansAll ss]

theorem ElifClause.mapSpansAll_mapSpansAll : ∀ cs : List ElifClause,
    ElifClause.mapSpansAll g (ElifClause.mapSpansAll f cs) = ElifClause.mapSpansAll (g ∘ f) cs
  | [] => rfl
  | c :: cs => by
    simp only [ElifClause.mapSpansAll, ElifClause.mapSpans_mapSpans c,
      ElifClause.mapSpansAll_mapSpansAll cs]

theorem Block.mapSpansOpt_mapSpansOpt : ∀ b : Option Block,
    Block.mapSpansOpt g (Block.mapSpansOpt f b) = Block.mapSpansOpt (g ∘ f) b
  | none => rfl
  | some b => by simp only [Block.mapSpansOpt, Block.mapSpans_mapSpans b]

end

mutual

theorem Stmt.mapSpans_id : ∀ s : Stmt, s.mapSpans id = s
  | .importModules .. => by simp only [Stmt.mapSpans, ImportName.mapSpans_id, List.map_id, id]
  | .importFrom .. => by simp only [Stmt.mapSpans, ImportTargets.mapSpans_id, id]
  | .expression .. => by simp only [Stmt.mapSpans, Expr.mapSpans_id, id]
  | .assignment .. => by
    simp only [Stmt.mapSpans, Pattern.mapSpans_id, funext TypeExpr.mapSpans_id, Option.map_id',
      Expr.mapSpans_id, id]
  | .augmented .. => by simp only [Stmt.mapSpans, Pattern.mapSpans_id, Expr.mapSpans_id, id]
  | .declaration .. => by
    simp only [Stmt.mapSpans, funext TypeExpr.mapSpans_id, Option.map_id', id]
  | .aliasing .. => by
    simp only [Stmt.mapSpans, TypeParameter.mapSpans_id, List.map_id, AliasValue.mapSpans_id, id]
  | .leave .. => by simp only [Stmt.mapSpans, funext Expr.mapSpans_id, Option.map_id', id]
  | .bare .. => rfl
  | .function _ _ b => by
    simp only [Stmt.mapSpans, FunctionHead.mapSpans_id, Block.mapSpans_id b, id]
  | .typeDecl _ _ b => by simp only [Stmt.mapSpans, TypeHead.mapSpans_id, Block.mapSpans_id b, id]
  | .conditional _ _ b cs o => by
    simp only [Stmt.mapSpans, Expr.mapSpans_id, Block.mapSpans_id b, ElifClause.mapSpansAll_id cs,
      Block.mapSpansOpt_id o, id]
  | .forLoop _ _ _ b => by
    simp only [Stmt.mapSpans, Pattern.mapSpans_id, Expr.mapSpans_id, Block.mapSpans_id b, id]
  | .whileLoop _ _ b => by
    simp only [Stmt.mapSpans, Expr.mapSpans_id, Block.mapSpans_id b, id]
  | .decorated _ _ s => by
    simp only [Stmt.mapSpans, Decorator.mapSpans_id, List.map_id, Stmt.mapSpans_id s, id]
  | .error _ => rfl

theorem Block.mapSpans_id : ∀ b : Block, b.mapSpans id = b
  | .mk _ _ body => by simp only [Block.mapSpans, Stmt.mapSpansAll_id body, id]

theorem ElifClause.mapSpans_id : ∀ c : ElifClause, c.mapSpans id = c
  | .mk _ _ b => by simp only [ElifClause.mapSpans, Expr.mapSpans_id, Block.mapSpans_id b, id]

theorem Stmt.mapSpansAll_id : ∀ ss : List Stmt, Stmt.mapSpansAll id ss = ss
  | [] => rfl
  | s :: ss => by simp only [Stmt.mapSpansAll, Stmt.mapSpans_id s, Stmt.mapSpansAll_id ss]

theorem ElifClause.mapSpansAll_id : ∀ cs : List ElifClause, ElifClause.mapSpansAll id cs = cs
  | [] => rfl
  | c :: cs => by
    simp only [ElifClause.mapSpansAll, ElifClause.mapSpans_id c, ElifClause.mapSpansAll_id cs]

theorem Block.mapSpansOpt_id : ∀ b : Option Block, Block.mapSpansOpt id b = b
  | none => rfl
  | some b => by simp only [Block.mapSpansOpt, Block.mapSpans_id b]

end

end Offside
