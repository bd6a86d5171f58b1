import Offside.Document
import Offside.Proofs.Span

namespace Offside

/-- A span and the regions of what is in it. -/
inductive Region where
  | mk (span : Span) (parts : List Region)

namespace Region

def span : Region → Span
  | mk s _ => s

def parts : Region → List Region
  | mk _ ps => ps

abbrev leaf (s : Span) : Region := mk s []

/-- At every depth, a region starts before it ends, its parts are inside it, and each of them ends
before the next one starts. -/
inductive Nested : Region → Prop where
  | mk {s ps} (le : Span.start s ≤ s.stop) (inside : ∀ p ∈ ps, s.start ≤ p.span.start ∧ p.span.stop ≤ s.stop)
      (apart : ps.Pairwise fun p q => p.span.stop ≤ q.span.start) (nested : ∀ p ∈ ps, Nested p) :
      Nested (mk s ps)

theorem Nested.le {r : Region} (h : r.Nested) : r.span.start ≤ r.span.stop := by
  cases h with
  | mk hle => exact hle

theorem nested_leaf {s : Span} (h : s.start ≤ s.stop) : (leaf s).Nested :=
  .mk h (List.forall_mem_nil _) .nil (List.forall_mem_nil _)

structure Narrows (r' r : Region) : Prop where
  start : r.span.start ≤ r'.span.start
  stop : r'.span.stop ≤ r.span.stop
  nested : r'.Nested

theorem Nested.narrows {r : Region} (h : r.Nested) : r.Narrows r :=
  ⟨UInt32.le_refl _, UInt32.le_refl _, h⟩

variable {ps ps' : List Region} {s : Span}

theorem forall_narrows {P P' : Region → Prop} (h : List.Forall₂ Narrows ps' ps)
    (hP : ∀ r' r, r'.Narrows r → P r → P' r') (hps : ∀ r ∈ ps, P r) : ∀ r ∈ ps', P' r := by
  induction h with
  | nil => exact List.forall_mem_nil _
  | cons hr _ ih =>
    obtain ⟨hhead, htail⟩ := List.forall_mem_cons.mp hps
    exact List.forall_mem_cons.mpr ⟨hP _ _ hr hhead, ih htail⟩

theorem apart_narrows (h : List.Forall₂ Narrows ps' ps)
    (hps : ps.Pairwise fun p q => p.span.stop ≤ q.span.start) :
    ps'.Pairwise fun p q => p.span.stop ≤ q.span.start := by
  induction h with
  | nil => exact .nil
  | cons hr hrest ih =>
    obtain ⟨hhead, htail⟩ := List.pairwise_cons.mp hps
    refine List.pairwise_cons.mpr ⟨forall_narrows hrest (fun _ _ hq hle => ?_) hhead, ih htail⟩
    exact UInt32.le_trans hr.stop (UInt32.le_trans hle hq.start)

theorem Nested.narrow (h : (Region.mk s ps).Nested) (hps : List.Forall₂ Narrows ps' ps) :
    (Region.mk s ps').Narrows (.mk s ps) := by
  refine ⟨UInt32.le_refl _, UInt32.le_refl _, ?_⟩
  cases h with
  | mk hle hinside hapart hnested =>
    refine .mk hle (forall_narrows hps (fun _ _ hr hin => ?_) hinside) (apart_narrows hps hapart)
      (forall_narrows hps (fun _ _ hr _ => hr.nested) hnested)
    exact ⟨UInt32.le_trans hin.1 hr.start, UInt32.le_trans hr.stop hin.2⟩

theorem Nested.parts (h : (Region.mk s ps).Nested) : ∀ p ∈ ps, p.Nested := by
  cases h with
  | mk _ _ _ hnested => exact hnested

end Region

section Expressions

mutual

def Expr.region : Expr → Region
  | .integer s _ _ | .float s _ | .string s _ | .boolean s _ | .noneLiteral s | .symbol s _ => .leaf s
  | .list s es | .tuple s es | .set s es => .mk s (Expr.regions es)
  | .dict s entries => .mk s (Expr.entryRegions entries)
  | .parenthesized s inner => .mk s [inner.region]
  | .call s callee arguments => .mk s (callee.region :: Argument.regions arguments)
  | .genericCall s callee typeArguments arguments =>
    .mk s (callee.region :: (Argument.regions typeArguments ++ Argument.regions arguments))
  | .member s object _ => .mk s [object.region]
  | .subscript s object indices => .mk s (object.region :: Expr.regions indices)
  | .slice s lower upper step =>
    .mk s (Expr.optionRegions lower ++ (Expr.optionRegions upper ++ Expr.optionRegions step))
  | .transfer s value => .mk s [value.region]
  | .unary s _ operand => .mk s [operand.region]
  | .binary s _ left right => .mk s [left.region, right.region]
  | .comparison s first links => .mk s (first.region :: Expr.linkRegions links)
  | .conditional s thenValue condition elseValue =>
    .mk s [thenValue.region, condition.region, elseValue.region]

/-- An argument without a keyword stands where its value does. -/
def Argument.region : Argument → Region
  | .positional value => value.region
  | .keyword s _ value => .mk s [value.region]

def Expr.regions : List Expr → List Region
  | [] => []
  | e :: es => e.region :: Expr.regions es

def Expr.entryRegions : List (Expr × Expr) → List Region
  | [] => []
  | (key, value) :: rest => key.region :: value.region :: Expr.entryRegions rest

def Expr.linkRegions : List (ComparisonOp × Expr) → List Region
  | [] => []
  | (_, operand) :: rest => operand.region :: Expr.linkRegions rest

def Expr.optionRegions : Option Expr → List Region
  | none => []
  | some e => [e.region]

def Argument.regions : List Argument → List Region
  | [] => []
  | a :: as => a.region :: Argument.regions as

end

@[simp] theorem Expr.span_region (e : Expr) : e.region.span = e.span := by cases e <;> rfl

theorem Expr.regions_eq_map (es : List Expr) : Expr.regions es = es.map Expr.region := by
  induction es with
  | nil => rfl
  | cons e es ih => rw [Expr.regions, ih, List.map_cons]

theorem Expr.entryRegions_eq_flatMap (entries : List (Expr × Expr)) :
    Expr.entryRegions entries = entries.flatMap fun entry => [entry.1.region, entry.2.region] := by
  induction entries with
  | nil => rfl
  | cons entry entries ih => rw [Expr.entryRegions, ih, List.flatMap_cons, List.cons_append, List.cons_append,
      List.nil_append]

theorem Expr.linkRegions_eq_map (links : List (ComparisonOp × Expr)) :
    Expr.linkRegions links = links.map fun link => link.2.region := by
  induction links with
  | nil => rfl
  | cons link links ih => rw [Expr.linkRegions, ih, List.map_cons]

theorem Argument.regions_eq_map (as : List Argument) : Argument.regions as = as.map Argument.region := by
  induction as with
  | nil => rfl
  | cons a as ih => rw [Argument.regions, ih, List.map_cons]

end Expressions

section Types

mutual

def TypeExpr.region : TypeExpr → Region
  | .symbol s _ => .leaf s
  | .qualified s base _ => .mk s [base.region]
  | .generic s base arguments => .mk s (base.region :: TypeArgument.regions arguments)

def TypeArgument.region : TypeArgument → Region
  | .type t => t.region
  | .value e => e.region
  | .keyword s _ argument => .mk s [argument.region]

def TypeArgument.regions : List TypeArgument → List Region
  | [] => []
  | a :: as => a.region :: TypeArgument.regions as

end

@[simp] theorem TypeExpr.span_region (t : TypeExpr) : t.region.span = t.span := by cases t <;> rfl

theorem TypeArgument.regions_eq_map (as : List TypeArgument) :
    TypeArgument.regions as = as.map TypeArgument.region := by
  induction as with
  | nil => rfl
  | cons a as ih => rw [TypeArgument.regions, ih, List.map_cons]

mutual

/-- A type that is read from an expression stands where the expression does. -/
theorem TypeExpr.region_ofExpr? : ∀ {e : Expr} {t : TypeExpr}, TypeExpr.ofExpr? e = some t →
    t.region = e.region
  | .symbol .., _, h => by
    cases h
    rfl
  | .noneLiteral _, _, h => by
    cases h
    rfl
  | .member s object _, _, h => by
    obtain ⟨base, hbase, rfl⟩ := Option.map_eq_some_iff.mp h
    exact congrArg (fun r => Region.mk s [r]) (TypeExpr.region_ofExpr? hbase)
  | .subscript s object indices, _, h => by
    rw [TypeExpr.ofExpr?] at h
    split at h
    · cases h
    · obtain ⟨base, hbase, rfl⟩ := Option.map_eq_some_iff.mp h
      exact congrArg₂ (fun r rs => Region.mk s (r :: rs)) (TypeExpr.region_ofExpr? hbase)
        (TypeArgument.regions_ofExprs indices)

theorem TypeArgument.regions_ofExprs : ∀ es : List Expr,
    TypeArgument.regions (TypeArgument.ofExprs es) = Expr.regions es
  | [] => rfl
  | e :: es => by
    refine congrArg₂ List.cons ?_ (TypeArgument.regions_ofExprs es)
    split
    · next t ht => exact TypeExpr.region_ofExpr? ht
    · rfl

end

theorem TypeArgument.region_ofExpr (e : Expr) : (TypeArgument.ofExpr e).region = e.region := by
  unfold TypeArgument.ofExpr
  split
  · next t ht => exact TypeExpr.region_ofExpr? ht
  · rfl

end Types

section Targets

mutual

def Pattern.region : Pattern → Region
  | .symbol s _ => .leaf s
  | .tuple s ps | .list s ps => .mk s (Pattern.regions ps)
  | .member s object _ => .mk s [object.region]
  | .subscript s object indices => .mk s (object.region :: Expr.regions indices)

def Pattern.regions : List Pattern → List Region
  | [] => []
  | p :: ps => p.region :: Pattern.regions ps

end

mutual

/-- A target stands where the expression does that it is read from, without its parentheses. -/
theorem Pattern.narrows_ofExpr : ∀ {e : Expr} {p : Pattern}, Pattern.ofExpr e = .ok p →
    e.region.Nested → p.region.Narrows e.region
  | .symbol .., _, h, hnested => by
    cases h
    exact hnested.narrows
  | .member .., _, h, hnested => by
    cases h
    exact hnested.narrows
  | .subscript .., _, h, hnested => by
    cases h
    exact hnested.narrows
  | .parenthesized s inner, p, h, hnested => by
    cases hnested with
    | mk _ hinside _ hparts =>
      obtain ⟨hstart, hstop⟩ := hinside _ (List.mem_singleton_self inner.region)
      have hinner := Pattern.narrows_ofExpr (e := inner) h (hparts _ (List.mem_singleton_self _))
      exact ⟨UInt32.le_trans hstart hinner.start, UInt32.le_trans hinner.stop hstop, hinner.nested⟩
  | .tuple _ es, _, h, hnested => by
    rw [Pattern.ofExpr] at h
    split at h
    · next targets htargets =>
      cases h
      exact hnested.narrow (Pattern.narrows_ofExprs htargets hnested.parts)
    · cases h
  | .list _ es, _, h, hnested => by
    rw [Pattern.ofExpr] at h
    split at h
    · next targets htargets =>
      cases h
      exact hnested.narrow (Pattern.narrows_ofExprs htargets hnested.parts)
    · cases h

theorem Pattern.narrows_ofExprs : ∀ {es : List Expr} {ps : List Pattern}, Pattern.ofExprs es = .ok ps →
    (∀ r ∈ Expr.regions es, r.Nested) →
      List.Forall₂ Region.Narrows (Pattern.regions ps) (Expr.regions es)
  | [], _, h, _ => by
    cases h
    exact .nil
  | e :: es, _, h, hnested => by
    obtain ⟨he, hes⟩ := List.forall_mem_cons.mp hnested
    rw [Pattern.ofExprs] at h
    split at h
    · cases h
    next p hp =>
    split at h
    · cases h
    next ps hps =>
    cases h
    exact .cons (Pattern.narrows_ofExpr hp he) (Pattern.narrows_ofExprs hps hes)

end

end Targets

def Region.optional {α : Type} (region : α → Region) (o : Option α) : List Region := (o.map region).toList

section Statements

def ImportName.region (n : ImportName) : Region := .leaf n.span

def ImportTargets.regions : ImportTargets → List Region
  | wildcard => []
  | listed names => names.map ImportName.region

def TypeParameter.region : TypeParameter → Region
  | named s _ declaredType value =>
    .mk s (Region.optional TypeExpr.region declaredType ++ Region.optional Expr.region value)
  | inferOnly s => .leaf s

def Parameter.region (p : Parameter) : Region :=
  .mk p.span (Region.optional TypeExpr.region p.declaredType ++ Region.optional Expr.region p.default)

def FunctionHead.regions (h : FunctionHead) : List Region :=
  h.typeParameters.map TypeParameter.region ++ (h.parameters.map Parameter.region ++
    Region.optional TypeExpr.region h.returnType)

def TypeHead.regions (h : TypeHead) : List Region :=
  h.typeParameters.map TypeParameter.region ++ h.bases.map TypeExpr.region

def Decorator.region (d : Decorator) : Region := .mk d.span ((d.arguments.getD []).map Argument.region)

def AliasValue.region : AliasValue → Region
  | type t => t.region
  | value e => e.region

mutual

def Stmt.region : Stmt → Region
  | .importModules s names => .mk s (names.map ImportName.region)
  | .importFrom s _ _ targets => .mk s targets.regions
  | .expression s value => .mk s [value.region]
  | .assignment s _ target declaredType value =>
    .mk s (target.region :: (Region.optional TypeExpr.region declaredType ++ [value.region]))
  | .augmented s _ target value => .mk s [target.region, value.region]
  | .declaration s _ _ declaredType => .mk s (Region.optional TypeExpr.region declaredType)
  | .aliasing s _ typeParameters value =>
    .mk s (typeParameters.map TypeParameter.region ++ [value.region])
  | .leave s _ value => .mk s (Region.optional Expr.region value)
  | .bare s _ | .error s => .leaf s
  | .function s head body => .mk s (head.regions ++ [body.region])
  | .typeDecl s head body => .mk s (head.regions ++ [body.region])
  | .conditional s condition body elifs otherwise =>
    .mk s (condition.region :: body.region :: (ElifClause.regions elifs ++ Block.optionRegions otherwise))
  | .forLoop s target iterable body => .mk s [target.region, iterable.region, body.region]
  | .whileLoop s condition body => .mk s [condition.region, body.region]
  | .decorated s decorators definition =>
    .mk s (decorators.map Decorator.region ++ [definition.region])

def Block.region : Block → Region
  | .mk s _ body => .mk s (Stmt.regions body)

def ElifClause.region : ElifClause → Region
  | .mk s condition body => .mk s [condition.region, body.region]

def Stmt.regions : List Stmt → List Region
  | [] => []
  | s :: ss => s.region :: Stmt.regions ss

def ElifClause.regions : List ElifClause → List Region
  | [] => []
  | c :: cs => c.region :: ElifClause.regions cs

def Block.optionRegions : Option Block → List Region
  | none => []
  | some b => [b.region]

end

@[simp] theorem Stmt.span_region (s : Stmt) : s.region.span = s.span := by cases s <;> rfl

@[simp] theorem Block.span_region (b : Block) : b.region.span = b.span := by cases b; rfl

@[simp] theorem ElifClause.span_region (c : ElifClause) : c.region.span = c.span := by cases c; rfl

theorem Stmt.regions_eq_map (ss : List Stmt) : Stmt.regions ss = ss.map Stmt.region := by
  induction ss with
  | nil => rfl
  | cons s ss ih => rw [Stmt.regions, ih, List.map_cons]

theorem ElifClause.regions_eq_map (cs : List ElifClause) :
    ElifClause.regions cs = cs.map ElifClause.region := by
  induction cs with
  | nil => rfl
  | cons c cs ih => rw [ElifClause.regions, ih, List.map_cons]

end Statements

def Document.region (d : Document) : Region := .mk d.span (d.body.map Stmt.region)

end Offside
