import Mathlib.Data.List.Forall2
import Mathlib.Tactic.Common
import Offside.Proofs.Tree.MapSpans

namespace Offside

mutual

inductive Expr.Spanwise (R : Span → Span → Prop) : Expr → Expr → Prop where
  | integer {s s' text value} (span : R s s') :
      Expr.Spanwise R (.integer s text value) (.integer s' text value)
  | float {s s' value} (span : R s s') : Expr.Spanwise R (.float s value) (.float s' value)
  | string {s s' value} (span : R s s') : Expr.Spanwise R (.string s value) (.string s' value)
  | boolean {s s' value} (span : R s s') : Expr.Spanwise R (.boolean s value) (.boolean s' value)
  | noneLiteral {s s'} (span : R s s') : Expr.Spanwise R (.noneLiteral s) (.noneLiteral s')
  | symbol {s s' name} (span : R s s') : Expr.Spanwise R (.symbol s name) (.symbol s' name)
  | list {s s' es es'} (span : R s s') (elements : List.Forall₂ (Expr.Spanwise R) es es') :
      Expr.Spanwise R (.list s es) (.list s' es')
  | tuple {s s' es es'} (span : R s s') (elements : List.Forall₂ (Expr.Spanwise R) es es') :
      Expr.Spanwise R (.tuple s es) (.tuple s' es')
  | set {s s' es es'} (span : R s s') (elements : List.Forall₂ (Expr.Spanwise R) es es') :
      Expr.Spanwise R (.set s es) (.set s' es')
  | dict {s s' es es'} (span : R s s') (entries : List.Forall₂ (Expr.EntrySpanwise R) es es') :
      Expr.Spanwise R (.dict s es) (.dict s' es')
  | parenthesized {s s' e e'} (span : R s s') (inner : Expr.Spanwise R e e') :
      Expr.Spanwise R (.parenthesized s e) (.parenthesized s' e')
  | call {s s' e e' as as'} (span : R s s') (callee : Expr.Spanwise R e e')
      (arguments : List.Forall₂ (Argument.Spanwise R) as as') :
      Expr.Spanwise R (.call s e as) (.call s' e' as')
  | genericCall {s s' e e' ts ts' as as'} (span : R s s') (callee : Expr.Spanwise R e e')
      (typeArguments : List.Forall₂ (Argument.Spanwise R) ts ts')
      (arguments : List.Forall₂ (Argument.Spanwise R) as as') :
      Expr.Spanwise R (.genericCall s e ts as) (.genericCall s' e' ts' as')
  | member {s s' e e' name} (span : R s s') (object : Expr.Spanwise R e e') :
      Expr.Spanwise R (.member s e name) (.member s' e' name)
  | subscript {s s' e e' es es'} (span : R s s') (object : Expr.Spanwise R e e')
      (indices : List.Forall₂ (Expr.Spanwise R) es es') :
      Expr.Spanwise R (.subscript s e es) (.subscript s' e' es')
  | slice {s s' l l' u u' n n'} (span : R s s') (lower : Option.Rel (Expr.Spanwise R) l l')
      (upper : Option.Rel (Expr.Spanwise R) u u') (step : Option.Rel (Expr.Spanwise R) n n') :
      Expr.Spanwise R (.slice s l u n) (.slice s' l' u' n')
  | transfer {s s' e e'} (span : R s s') (value : Expr.Spanwise R e e') :
      Expr.Spanwise R (.transfer s e) (.transfer s' e')
  | unary {s s' op e e'} (span : R s s') (operand : Expr.Spanwise R e e') :
      Expr.Spanwise R (.unary s op e) (.unary s' op e')
  | binary {s s' op a a' b b'} (span : R s s') (left : Expr.Spanwise R a a')
      (right : Expr.Spanwise R b b') : Expr.Spanwise R (.binary s op a b) (.binary s' op a' b')
  | comparison {s s' e e' ls ls'} (span : R s s') (first : Expr.Spanwise R e e')
      (links : List.Forall₂ (Expr.LinkSpanwise R) ls ls') :
      Expr.Spanwise R (.comparison s e ls) (.comparison s' e' ls')
  | conditional {s s' a a' b b' c c'} (span : R s s') (thenValue : Expr.Spanwise R a a')
      (condition : Expr.Spanwise R b b') (elseValue : Expr.Spanwise R c c') :
      Expr.Spanwise R (.conditional s a b c) (.conditional s' a' b' c')

inductive Expr.EntrySpanwise (R : Span → Span → Prop) : Expr × Expr → Expr × Expr → Prop where
  | mk {a a' b b'} (key : Expr.Spanwise R a a') (value : Expr.Spanwise R b b') :
      Expr.EntrySpanwise R (a, b) (a', b')

inductive Expr.LinkSpanwise (R : Span → Span → Prop) :
    ComparisonOp × Expr → ComparisonOp × Expr → Prop where
  | mk {op e e'} (operand : Expr.Spanwise R e e') : Expr.LinkSpanwise R (op, e) (op, e')

inductive Argument.Spanwise (R : Span → Span → Prop) : Argument → Argument → Prop where
  | positional {e e'} (value : Expr.Spanwise R e e') :
      Argument.Spanwise R (.positional e) (.positional e')
  | keyword {s s' name e e'} (span : R s s') (value : Expr.Spanwise R e e') :
      Argument.Spanwise R (.keyword s name e) (.keyword s' name e')

end

mutual

inductive TypeExpr.Spanwise (R : Span → Span → Prop) : TypeExpr → TypeExpr → Prop where
  | symbol {s s' name} (span : R s s') : TypeExpr.Spanwise R (.symbol s name) (.symbol s' name)
  | qualified {s s' t t' name} (span : R s s') (base : TypeExpr.Spanwise R t t') :
      TypeExpr.Spanwise R (.qualified s t name) (.qualified s' t' name)
  | generic {s s' t t' as as'} (span : R s s') (base : TypeExpr.Spanwise R t t')
      (arguments : List.Forall₂ (TypeArgument.Spanwise R) as as') :
      TypeExpr.Spanwise R (.generic s t as) (.generic s' t' as')

inductive TypeArgument.Spanwise (R : Span → Span → Prop) : TypeArgument → TypeArgument → Prop where
  | type {t t'} (type : TypeExpr.Spanwise R t t') : TypeArgument.Spanwise R (.type t) (.type t')
  | value {e e'} (value : Expr.Spanwise R e e') : TypeArgument.Spanwise R (.value e) (.value e')
  | keyword {s s' name a a'} (span : R s s') (argument : TypeArgument.Spanwise R a a') :
      TypeArgument.Spanwise R (.keyword s name a) (.keyword s' name a')

end

inductive Pattern.Spanwise (R : Span → Span → Prop) : Pattern → Pattern → Prop where
  | symbol {s s' name} (span : R s s') : Spanwise R (.symbol s name) (.symbol s' name)
  | tuple {s s' ps ps'} (span : R s s') (elements : List.Forall₂ (Spanwise R) ps ps') :
      Spanwise R (.tuple s ps) (.tuple s' ps')
  | list {s s' ps ps'} (span : R s s') (elements : List.Forall₂ (Spanwise R) ps ps') :
      Spanwise R (.list s ps) (.list s' ps')
  | member {s s' e e' name} (span : R s s') (object : Expr.Spanwise R e e') :
      Spanwise R (.member s e name) (.member s' e' name)
  | subscript {s s' e e' es es'} (span : R s s') (object : Expr.Spanwise R e e')
      (indices : List.Forall₂ (Expr.Spanwise R) es es') :
      Spanwise R (.subscript s e es) (.subscript s' e' es')

section Parts

variable (R : Span → Span → Prop)

structure ImportName.Spanwise (n n' : ImportName) : Prop where
  span : R n.span n'.span
  path : n'.path = n.path
  asName : n'.asName = n.asName

inductive ImportTargets.Spanwise : ImportTargets → ImportTargets → Prop where
  | wildcard : Spanwise .wildcard .wildcard
  | listed {ns ns'} (names : List.Forall₂ (ImportName.Spanwise R) ns ns') :
      Spanwise (.listed ns) (.listed ns')

inductive TypeParameter.Spanwise : TypeParameter → TypeParameter → Prop where
  | named {s s' name t t' e e'} (span : R s s')
      (declaredType : Option.Rel (TypeExpr.Spanwise R) t t')
      (default : Option.Rel (Expr.Spanwise R) e e') :
      Spanwise (.named s name t e) (.named s' name t' e')
  | inferOnly {s s'} (span : R s s') : Spanwise (.inferOnly s) (.inferOnly s')

structure Parameter.Spanwise (p p' : Parameter) : Prop where
  span : R p.span p'.span
  convention : p'.convention = p.convention
  name : p'.name = p.name
  declaredType : Option.Rel (TypeExpr.Spanwise R) p.declaredType p'.declaredType
  default : Option.Rel (Expr.Spanwise R) p.default p'.default
  variadic : p'.variadic = p.variadic

structure FunctionHead.Spanwise (h h' : FunctionHead) : Prop where
  word : h'.word = h.word
  name : h'.name = h.name
  typeParameters : List.Forall₂ (TypeParameter.Spanwise R) h.typeParameters h'.typeParameters
  parameters : List.Forall₂ (Parameter.Spanwise R) h.parameters h'.parameters
  returnConvention : h'.returnConvention = h.returnConvention
  returnType : Option.Rel (TypeExpr.Spanwise R) h.returnType h'.returnType
  raises : h'.raises = h.raises

structure TypeHead.Spanwise (h h' : TypeHead) : Prop where
  word : h'.word = h.word
  name : h'.name = h.name
  typeParameters : List.Forall₂ (TypeParameter.Spanwise R) h.typeParameters h'.typeParameters
  bases : List.Forall₂ (TypeExpr.Spanwise R) h.bases h'.bases

structure Decorator.Spanwise (d d' : Decorator) : Prop where
  span : R d.span d'.span
  path : d'.path = d.path
  arguments : Option.Rel (List.Forall₂ (Argument.Spanwise R)) d.arguments d'.arguments

inductive AliasValue.Spanwise : AliasValue → AliasValue → Prop where
  | type {t t'} (type : TypeExpr.Spanwise R t t') : Spanwise (.type t) (.type t')
  | value {e e'} (value : Expr.Spanwise R e e') : Spanwise (.value e) (.value e')

end Parts

mutual

inductive Stmt.Spanwise (R : Span → Span → Prop) : Stmt → Stmt → Prop where
  | importModules {s s' ns ns'} (span : R s s')
      (names : List.Forall₂ (ImportName.Spanwise R) ns ns') :
      Stmt.Spanwise R (.importModules s ns) (.importModules s' ns')
  | importFrom {s s' level path ts ts'} (span : R s s')
      (targets : ImportTargets.Spanwise R ts ts') :
      Stmt.Spanwise R (.importFrom s level path ts) (.importFrom s' level path ts')
  | expression {s s' e e'} (span : R s s') (value : Expr.Spanwise R e e') :
      Stmt.Spanwise R (.expression s e) (.expression s' e')
  | assignment {s s' isVar p p' t t' e e'} (span : R s s') (target : Pattern.Spanwise R p p')
      (declaredType : Option.Rel (TypeExpr.Spanwise R) t t') (value : Expr.Spanwise R e e') :
      Stmt.Spanwise R (.assignment s isVar p t e) (.assignment s' isVar p' t' e')
  | augmented {s s' op p p' e e'} (span : R s s') (target : Pattern.Spanwise R p p')
      (value : Expr.Spanwise R e e') :
      Stmt.Spanwise R (.augmented s op p e) (.augmented s' op p' e')
  | declaration {s s' isVar name t t'} (span : R s s')
      (declaredType : Option.Rel (TypeExpr.Spanwise R) t t') :
      Stmt.Spanwise R (.declaration s isVar name t) (.declaration s' isVar name t')
  | aliasing {s s' name ps ps' v v'} (span : R s s')
      (typeParameters : List.Forall₂ (TypeParameter.Spanwise R) ps ps')
      (value : AliasValue.Spanwise R v v') :
      Stmt.Spanwise R (.aliasing s name ps v) (.aliasing s' name ps' v')
  | leave {s s' word e e'} (span : R s s') (value : Option.Rel (Expr.Spanwise R) e e') :
      Stmt.Spanwise R (.leave s word e) (.leave s' word e')
  | bare {s s' word} (span : R s s') : Stmt.Spanwise R (.bare s word) (.bare s' word)
  | function {s s' h h' b b'} (span : R s s') (head : FunctionHead.Spanwise R h h')
      (body : Block.Spanwise R b b') : Stmt.Spanwise R (.function s h b) (.function s' h' b')
  | typeDecl {s s' h h' b b'} (span : R s s') (head : TypeHead.Spanwise R h h')
      (body : Block.Spanwise R b b') : Stmt.Spanwise R (.typeDecl s h b) (.typeDecl s' h' b')
  | conditional {s s' e e' b b' cs cs' o o'} (span : R s s') (condition : Expr.Spanwise R e e')
      (body : Block.Spanwise R b b') (elifs : List.Forall₂ (ElifClause.Spanwise R) cs cs')
      (otherwise : Option.Rel (Block.Spanwise R) o o') :
      Stmt.Spanwise R (.conditional s e b cs o) (.conditional s' e' b' cs' o')
  | forLoop {s s' p p' e e' b b'} (span : R s s') (target : Pattern.Spanwise R p p')
      (iterable : Expr.Spanwise R e e') (body : Block.Spanwise R b b') :
      Stmt.Spanwise R (.forLoop s p e b) (.forLoop s' p' e' b')
  | whileLoop {s s' e e' b b'} (span : R s s') (condition : Expr.Spanwise R e e')
      (body : Block.Spanwise R b b') : Stmt.Spanwise R (.whileLoop s e b) (.whileLoop s' e' b')
  | decorated {s s' ds ds' t t'} (span : R s s')
      (decorators : List.Forall₂ (Decorator.Spanwise R) ds ds')
      (definition : Stmt.Spanwise R t t') :
      Stmt.Spanwise R (.decorated s ds t) (.decorated s' ds' t')
  | error {s s'} (span : R s s') : Stmt.Spanwise R (.error s) (.error s')

inductive Block.Spanwise (R : Span → Span → Prop) : Block → Block → Prop where
  | mk {s s' inline ss ss'} (span : R s s') (body : List.Forall₂ (Stmt.Spanwise R) ss ss') :
      Block.Spanwise R (.mk s inline ss) (.mk s' inline ss')

inductive ElifClause.Spanwise (R : Span → Span → Prop) : ElifClause → ElifClause → Prop where
  | mk {s s' e e' b b'} (span : R s s') (condition : Expr.Spanwise R e e')
      (body : Block.Spanwise R b b') : ElifClause.Spanwise R (.mk s e b) (.mk s' e' b')

end

section Graphs

abbrev graph {α : Type} (g : α → α) : α → α → Prop := fun a b => b = g a

section Containers

variable {α : Type} {r : α → α → Prop} {g : α → α}

theorem forall₂_iff_map (h : ∀ a b, r a b ↔ b = g a) (as bs : List α) :
    List.Forall₂ r as bs ↔ bs = as.map g := by
  induction as generalizing bs with
  | nil => simp
  | cons a as ih =>
    cases bs with
    | nil => simp
    | cons b bs => rw [List.forall₂_cons, h, ih, List.map_cons, List.cons.injEq]

theorem optionRel_iff_map (h : ∀ a b, r a b ↔ b = g a) (o o' : Option α) :
    Option.Rel r o o' ↔ o' = o.map g := by
  cases o with
  | none => cases o' <;> simp
  | some a => cases o' <;> simp [h]

end Containers

variable {f : Span → Span}

-- both directions follow the recursion of the change of spans, list by list
mutual

theorem Expr.spanwise_mapSpans : ∀ e : Expr, Expr.Spanwise (graph f) e (e.mapSpans f)
  | .integer .. => .integer rfl
  | .float .. => .float rfl
  | .string .. => .string rfl
  | .boolean .. => .boolean rfl
  | .noneLiteral _ => .noneLiteral rfl
  | .symbol .. => .symbol rfl
  | .list _ es => .list rfl (Expr.spanwise_mapSpansAll es)
  | .tuple _ es => .tuple rfl (Expr.spanwise_mapSpansAll es)
  | .set _ es => .set rfl (Expr.spanwise_mapSpansAll es)
  | .dict _ es => .dict rfl (Expr.spanwise_mapSpansEntries es)
  | .parenthesized _ e => .parenthesized rfl e.spanwise_mapSpans
  | .call _ e as => .call rfl e.spanwise_mapSpans (Argument.spanwise_mapSpansAll as)
  | .genericCall _ e ts as =>
    .genericCall rfl e.spanwise_mapSpans (Argument.spanwise_mapSpansAll ts)
      (Argument.spanwise_mapSpansAll as)
  | .member _ e _ => .member rfl e.spanwise_mapSpans
  | .subscript _ e es => .subscript rfl e.spanwise_mapSpans (Expr.spanwise_mapSpansAll es)
  | .slice _ l u n =>
    .slice rfl (Expr.spanwise_mapSpansOpt l) (Expr.spanwise_mapSpansOpt u)
      (Expr.spanwise_mapSpansOpt n)
  | .transfer _ e => .transfer rfl e.spanwise_mapSpans
  | .unary _ _ e => .unary rfl e.spanwise_mapSpans
  | .binary _ _ a b => .binary rfl a.spanwise_mapSpans b.spanwise_mapSpans
  | .comparison _ e ls => .comparison rfl e.spanwise_mapSpans (Expr.spanwise_mapSpansLinks ls)
  | .conditional _ a b c =>
    .conditional rfl a.spanwise_mapSpans b.spanwise_mapSpans c.spanwise_mapSpans

theorem Argument.spanwise_mapSpans : ∀ a : Argument, Argument.Spanwise (graph f) a (a.mapSpans f)
  | .positional e => .positional e.spanwise_mapSpans
  | .keyword _ _ e => .keyword rfl e.spanwise_mapSpans

theorem Expr.spanwise_mapSpansAll : ∀ es : List Expr,
    List.Forall₂ (Expr.Spanwise (graph f)) es (Expr.mapSpansAll f es)
  | [] => .nil
  | e :: es => .cons e.spanwise_mapSpans (Expr.spanwise_mapSpansAll es)

theorem Expr.spanwise_mapSpansEntries : ∀ es : List (Expr × Expr),
    List.Forall₂ (Expr.EntrySpanwise (graph f)) es (Expr.mapSpansEntries f es)
  | [] => .nil
  | (key, value) :: es =>
    .cons ⟨key.spanwise_mapSpans, value.spanwise_mapSpans⟩ (Expr.spanwise_mapSpansEntries es)

theorem Expr.spanwise_mapSpansLinks : ∀ ls : List (ComparisonOp × Expr),
    List.Forall₂ (Expr.LinkSpanwise (graph f)) ls (Expr.mapSpansLinks f ls)
  | [] => .nil
  | (_, e) :: ls => .cons ⟨e.spanwise_mapSpans⟩ (Expr.spanwise_mapSpansLinks ls)

theorem Expr.spanwise_mapSpansOpt : ∀ e : Option Expr,
    Option.Rel (Expr.Spanwise (graph f)) e (Expr.mapSpansOpt f e)
  | none => .none
  | some e => .some e.spanwise_mapSpans

theorem Argument.spanwise_mapSpansAll : ∀ as : List Argument,
    List.Forall₂ (Argument.Spanwise (graph f)) as (Argument.mapSpansAll f as)
  | [] => .nil
  | a :: as => .cons a.spanwise_mapSpans (Argument.spanwise_mapSpansAll as)

end

mutual

theorem Expr.Spanwise.eq_mapSpans : ∀ {e e' : Expr}, Expr.Spanwise (graph f) e e' →
    e' = e.mapSpans f
  | .integer .., _, .integer rfl => rfl
  | .float .., _, .float rfl => rfl
  | .string .., _, .string rfl => rfl
  | .boolean .., _, .boolean rfl => rfl
  | .noneLiteral .., _, .noneLiteral rfl => rfl
  | .symbol .., _, .symbol rfl => rfl
  | .list .., _, .list rfl hs => congrArg _ (Expr.eq_mapSpansAll hs)
  | .tuple .., _, .tuple rfl hs => congrArg _ (Expr.eq_mapSpansAll hs)
  | .set .., _, .set rfl hs => congrArg _ (Expr.eq_mapSpansAll hs)
  | .dict .., _, .dict rfl hs => congrArg _ (Expr.eq_mapSpansEntries hs)
  | .parenthesized .., _, .parenthesized rfl h => congrArg _ h.eq_mapSpans
  | .call .., _, .call rfl h hs => congrArg₂ _ h.eq_mapSpans (Argument.eq_mapSpansAll hs)
  | .genericCall .., _, .genericCall rfl h hts has => by
    rw [Expr.mapSpans, h.eq_mapSpans, Argument.eq_mapSpansAll hts, Argument.eq_mapSpansAll has]
  | .member .., _, .member rfl h => by rw [Expr.mapSpans, h.eq_mapSpans]
  | .subscript .., _, .subscript rfl h hs => congrArg₂ _ h.eq_mapSpans (Expr.eq_mapSpansAll hs)
  | .slice .., _, .slice rfl hl hu hn => by
    rw [Expr.mapSpans, Expr.eq_mapSpansOpt hl, Expr.eq_mapSpansOpt hu, Expr.eq_mapSpansOpt hn]
  | .transfer .., _, .transfer rfl h => congrArg _ h.eq_mapSpans
  | .unary .., _, .unary rfl h => congrArg _ h.eq_mapSpans
  | .binary .., _, .binary rfl ha hb => congrArg₂ _ ha.eq_mapSpans hb.eq_mapSpans
  | .comparison .., _, .comparison rfl h hs =>
    congrArg₂ _ h.eq_mapSpans (Expr.eq_mapSpansLinks hs)
  | .conditional .., _, .conditional rfl ha hb hc => by
    rw [Expr.mapSpans, ha.eq_mapSpans, hb.eq_mapSpans, hc.eq_mapSpans]

theorem Argument.Spanwise.eq_mapSpans : ∀ {a a' : Argument}, Argument.Spanwise (graph f) a a' →
    a' = a.mapSpans f
  | .positional .., _, .positional h => congrArg _ h.eq_mapSpans
  | .keyword .., _, .keyword rfl h => congrArg _ h.eq_mapSpans

theorem Expr.eq_mapSpansAll : ∀ {es es' : List Expr},
    List.Forall₂ (Expr.Spanwise (graph f)) es es' → es' = Expr.mapSpansAll f es
  | [], _, .nil => rfl
  | _ :: _, _, .cons h hs => congrArg₂ _ h.eq_mapSpans (Expr.eq_mapSpansAll hs)

theorem Expr.eq_mapSpansEntries : ∀ {es es' : List (Expr × Expr)},
    List.Forall₂ (Expr.EntrySpanwise (graph f)) es es' → es' = Expr.mapSpansEntries f es
  | [], _, .nil => rfl
  | _ :: _, _, .cons ⟨hk, hv⟩ hs => by
    rw [Expr.mapSpansEntries, hk.eq_mapSpans, hv.eq_mapSpans, Expr.eq_mapSpansEntries hs]

theorem Expr.eq_mapSpansLinks : ∀ {ls ls' : List (ComparisonOp × Expr)},
    List.Forall₂ (Expr.LinkSpanwise (graph f)) ls ls' → ls' = Expr.mapSpansLinks f ls
  | [], _, .nil => rfl
  | _ :: _, _, .cons ⟨h⟩ hs => by
    rw [Expr.mapSpansLinks, h.eq_mapSpans, Expr.eq_mapSpansLinks hs]

theorem Expr.eq_mapSpansOpt : ∀ {e e' : Option Expr}, Option.Rel (Expr.Spanwise (graph f)) e e' →
    e' = Expr.mapSpansOpt f e
  | none, _, .none => rfl
  | some _, _, .some h => congrArg _ h.eq_mapSpans

theorem Argument.eq_mapSpansAll : ∀ {as as' : List Argument},
    List.Forall₂ (Argument.Spanwise (graph f)) as as' → as' = Argument.mapSpansAll f as
  | [], _, .nil => rfl
  | _ :: _, _, .cons h hs => congrArg₂ _ h.eq_mapSpans (Argument.eq_mapSpansAll hs)

end

theorem Expr.spanwise_iff (e e' : Expr) : Expr.Spanwise (graph f) e e' ↔ e' = e.mapSpans f :=
  ⟨Expr.Spanwise.eq_mapSpans, fun h => h ▸ e.spanwise_mapSpans⟩

theorem Argument.spanwise_iff (a a' : Argument) :
    Argument.Spanwise (graph f) a a' ↔ a' = a.mapSpans f :=
  ⟨Argument.Spanwise.eq_mapSpans, fun h => h ▸ a.spanwise_mapSpans⟩

theorem Expr.spanwiseAll_iff {es es' : List Expr} :
    List.Forall₂ (Expr.Spanwise (graph f)) es es' ↔ es' = es.map (Expr.mapSpans f) :=
  forall₂_iff_map Expr.spanwise_iff _ _

theorem Expr.spanwiseOpt_iff {e e' : Option Expr} :
    Option.Rel (Expr.Spanwise (graph f)) e e' ↔ e' = e.map (Expr.mapSpans f) :=
  optionRel_iff_map Expr.spanwise_iff _ _

mutual

theorem TypeExpr.spanwise_mapSpans : ∀ t : TypeExpr, TypeExpr.Spanwise (graph f) t (t.mapSpans f)
  | .symbol .. => .symbol rfl
  | .qualified _ t _ => .qualified rfl t.spanwise_mapSpans
  | .generic _ t as => .generic rfl t.spanwise_mapSpans (TypeArgument.spanwise_mapSpansAll as)

theorem TypeArgument.spanwise_mapSpans : ∀ a : TypeArgument,
    TypeArgument.Spanwise (graph f) a (a.mapSpans f)
  | .type t => .type t.spanwise_mapSpans
  | .value e => .value e.spanwise_mapSpans
  | .keyword _ _ a => .keyword rfl a.spanwise_mapSpans

theorem TypeArgument.spanwise_mapSpansAll : ∀ as : List TypeArgument,
    List.Forall₂ (TypeArgument.Spanwise (graph f)) as (TypeArgument.mapSpansAll f as)
  | [] => .nil
  | a :: as => .cons a.spanwise_mapSpans (TypeArgument.spanwise_mapSpansAll as)

end

mutual

theorem TypeExpr.Spanwise.eq_mapSpans : ∀ {t t' : TypeExpr}, TypeExpr.Spanwise (graph f) t t' →
    t' = t.mapSpans f
  | .symbol .., _, .symbol rfl => rfl
  | .qualified .., _, .qualified rfl h => by rw [TypeExpr.mapSpans, h.eq_mapSpans]
  | .generic .., _, .generic rfl h hs => congrArg₂ _ h.eq_mapSpans (TypeArgument.eq_mapSpansAll hs)

theorem TypeArgument.Spanwise.eq_mapSpans : ∀ {a a' : TypeArgument},
    TypeArgument.Spanwise (graph f) a a' → a' = a.mapSpans f
  | .type .., _, .type h => congrArg _ h.eq_mapSpans
  | .value .., _, .value h => congrArg _ h.eq_mapSpans
  | .keyword .., _, .keyword rfl h => congrArg _ h.eq_mapSpans

theorem TypeArgument.eq_mapSpansAll : ∀ {as as' : List TypeArgument},
    List.Forall₂ (TypeArgument.Spanwise (graph f)) as as' → as' = TypeArgument.mapSpansAll f as
  | [], _, .nil => rfl
  | _ :: _, _, .cons h hs => congrArg₂ _ h.eq_mapSpans (TypeArgument.eq_mapSpansAll hs)

end

theorem TypeExpr.spanwise_iff (t t' : TypeExpr) :
    TypeExpr.Spanwise (graph f) t t' ↔ t' = t.mapSpans f :=
  ⟨TypeExpr.Spanwise.eq_mapSpans, fun h => h ▸ t.spanwise_mapSpans⟩

theorem TypeExpr.spanwiseAll_iff {ts ts' : List TypeExpr} :
    List.Forall₂ (TypeExpr.Spanwise (graph f)) ts ts' ↔ ts' = ts.map (TypeExpr.mapSpans f) :=
  forall₂_iff_map TypeExpr.spanwise_iff _ _

theorem TypeExpr.spanwiseOpt_iff {t t' : Option TypeExpr} :
    Option.Rel (TypeExpr.Spanwise (graph f)) t t' ↔ t' = t.map (TypeExpr.mapSpans f) :=
  optionRel_iff_map TypeExpr.spanwise_iff _ _

mutual

theorem Pattern.spanwise_mapSpans : ∀ p : Pattern, Pattern.Spanwise (graph f) p (p.mapSpans f)
  | .symbol .. => .symbol rfl
  | .tuple _ ps => .tuple rfl (Pattern.spanwise_mapSpansAll ps)
  | .list _ ps => .list rfl (Pattern.spanwise_mapSpansAll ps)
  | .member _ e _ => .member rfl e.spanwise_mapSpans
  | .subscript _ e _ => .subscript rfl e.spanwise_mapSpans (Expr.spanwiseAll_iff.mpr rfl)

theorem Pattern.spanwise_mapSpansAll : ∀ ps : List Pattern,
    List.Forall₂ (Pattern.Spanwise (graph f)) ps (Pattern.mapSpansAll f ps)
  | [] => .nil
  | p :: ps => .cons p.spanwise_mapSpans (Pattern.spanwise_mapSpansAll ps)

end

mutual

theorem Pattern.Spanwise.eq_mapSpans : ∀ {p p' : Pattern}, Pattern.Spanwise (graph f) p p' →
    p' = p.mapSpans f
  | .symbol .., _, .symbol rfl => rfl
  | .tuple .., _, .tuple rfl hs => congrArg _ (Pattern.eq_mapSpansAll hs)
  | .list .., _, .list rfl hs => congrArg _ (Pattern.eq_mapSpansAll hs)
  | .member .., _, .member rfl h => by rw [Pattern.mapSpans, h.eq_mapSpans]
  | .subscript .., _, .subscript rfl h hs =>
    congrArg₂ _ h.eq_mapSpans (Expr.spanwiseAll_iff.mp hs)

theorem Pattern.eq_mapSpansAll : ∀ {ps ps' : List Pattern},
    List.Forall₂ (Pattern.Spanwise (graph f)) ps ps' → ps' = Pattern.mapSpansAll f ps
  | [], _, .nil => rfl
  | _ :: _, _, .cons h hs => congrArg₂ _ h.eq_mapSpans (Pattern.eq_mapSpansAll hs)

end

theorem Pattern.spanwise_iff (p p' : Pattern) :
    Pattern.Spanwise (graph f) p p' ↔ p' = p.mapSpans f :=
  ⟨Pattern.Spanwise.eq_mapSpans, fun h => h ▸ p.spanwise_mapSpans⟩

theorem ImportName.spanwise_iff (n n' : ImportName) :
    n.Spanwise (graph f) n' ↔ n' = n.mapSpans f := by
  obtain ⟨s', path', asName'⟩ := n'
  rw [ImportName.mapSpans, ImportName.mk.injEq]
  constructor
  · rintro ⟨hs, hpath, has⟩
    exact ⟨hs, hpath, has⟩
  · rintro ⟨hs, hpath, has⟩
    exact ⟨hs, hpath, has⟩

theorem ImportName.spanwiseAll_iff {ns ns' : List ImportName} :
    List.Forall₂ (ImportName.Spanwise (graph f)) ns ns' ↔ ns' = ns.map (ImportName.mapSpans f) :=
  forall₂_iff_map ImportName.spanwise_iff _ _

theorem ImportTargets.spanwise_iff (ts ts' : ImportTargets) :
    ts.Spanwise (graph f) ts' ↔ ts' = ts.mapSpans f := by
  constructor
  · rintro (_ | hs)
    · rfl
    · exact congrArg _ (ImportName.spanwiseAll_iff.mp hs)
  · rintro rfl
    cases ts with
    | wildcard => exact .wildcard
    | listed ns => exact .listed (ImportName.spanwiseAll_iff.mpr rfl)

theorem TypeParameter.spanwise_iff (p p' : TypeParameter) :
    p.Spanwise (graph f) p' ↔ p' = p.mapSpans f := by
  constructor
  · rintro (⟨rfl, ht, he⟩ | ⟨rfl⟩)
    · exact congrArg₂ _ (TypeExpr.spanwiseOpt_iff.mp ht) (Expr.spanwiseOpt_iff.mp he)
    · rfl
  · rintro rfl
    cases p with
    | named s name t e =>
      exact .named rfl (TypeExpr.spanwiseOpt_iff.mpr rfl) (Expr.spanwiseOpt_iff.mpr rfl)
    | inferOnly s => exact .inferOnly rfl

theorem Parameter.spanwise_iff (p p' : Parameter) :
    p.Spanwise (graph f) p' ↔ p' = p.mapSpans f := by
  obtain ⟨s', convention', name', t', e', variadic'⟩ := p'
  rw [Parameter.mapSpans, Parameter.mk.injEq, ← TypeExpr.spanwiseOpt_iff, ← Expr.spanwiseOpt_iff]
  constructor
  · rintro ⟨hs, hc, hname, ht, he, hv⟩
    exact ⟨hs, hc, hname, ht, he, hv⟩
  · rintro ⟨hs, hc, hname, ht, he, hv⟩
    exact ⟨hs, hc, hname, ht, he, hv⟩

theorem TypeParameter.spanwiseAll_iff {ps ps' : List TypeParameter} :
    List.Forall₂ (TypeParameter.Spanwise (graph f)) ps ps' ↔
      ps' = ps.map (TypeParameter.mapSpans f) :=
  forall₂_iff_map TypeParameter.spanwise_iff _ _

theorem FunctionHead.spanwise_iff (h h' : FunctionHead) :
    h.Spanwise (graph f) h' ↔ h' = h.mapSpans f := by
  obtain ⟨word', name', ts', ps', convention', t', raises'⟩ := h'
  rw [FunctionHead.mapSpans, FunctionHead.mk.injEq, ← TypeParameter.spanwiseAll_iff,
    ← forall₂_iff_map Parameter.spanwise_iff, ← TypeExpr.spanwiseOpt_iff]
  constructor
  · rintro ⟨hw, hname, hts, hps, hc, ht, hr⟩
    exact ⟨hw, hname, hts, hps, hc, ht, hr⟩
  · rintro ⟨hw, hname, hts, hps, hc, ht, hr⟩
    exact ⟨hw, hname, hts, hps, hc, ht, hr⟩

theorem TypeHead.spanwise_iff (h h' : TypeHead) : h.Spanwise (graph f) h' ↔ h' = h.mapSpans f := by
  obtain ⟨word', name', ts', bases'⟩ := h'
  rw [TypeHead.mapSpans, TypeHead.mk.injEq, ← TypeParameter.spanwiseAll_iff,
    ← TypeExpr.spanwiseAll_iff]
  constructor
  · rintro ⟨hw, hname, hts, hbs⟩
    exact ⟨hw, hname, hts, hbs⟩
  · rintro ⟨hw, hname, hts, hbs⟩
    exact ⟨hw, hname, hts, hbs⟩

theorem Decorator.spanwise_iff (d d' : Decorator) :
    d.Spanwise (graph f) d' ↔ d' = d.mapSpans f := by
  obtain ⟨s', path', as'⟩ := d'
  rw [Decorator.mapSpans, Decorator.mk.injEq,
    ← optionRel_iff_map (forall₂_iff_map Argument.spanwise_iff)]
  constructor
  · rintro ⟨hs, hpath, has⟩
    exact ⟨hs, hpath, has⟩
  · rintro ⟨hs, hpath, has⟩
    exact ⟨hs, hpath, has⟩

theorem Decorator.spanwiseAll_iff {ds ds' : List Decorator} :
    List.Forall₂ (Decorator.Spanwise (graph f)) ds ds' ↔ ds' = ds.map (Decorator.mapSpans f) :=
  forall₂_iff_map Decorator.spanwise_iff _ _

theorem AliasValue.spanwise_iff (v v' : AliasValue) :
    v.Spanwise (graph f) v' ↔ v' = v.mapSpans f := by
  constructor
  · rintro (ht | he)
    · exact congrArg _ ((TypeExpr.spanwise_iff _ _).mp ht)
    · exact congrArg _ ((Expr.spanwise_iff _ _).mp he)
  · rintro rfl
    cases v with
    | type t => exact .type ((TypeExpr.spanwise_iff _ _).mpr rfl)
    | value e => exact .value ((Expr.spanwise_iff _ _).mpr rfl)

mutual

theorem Stmt.spanwise_mapSpans : ∀ s : Stmt, Stmt.Spanwise (graph f) s (s.mapSpans f)
  | .importModules .. => .importModules rfl (ImportName.spanwiseAll_iff.mpr rfl)
  | .importFrom .. => .importFrom rfl ((ImportTargets.spanwise_iff _ _).mpr rfl)
  | .expression _ e => .expression rfl e.spanwise_mapSpans
  | .assignment _ _ p _ e =>
    .assignment rfl p.spanwise_mapSpans (TypeExpr.spanwiseOpt_iff.mpr rfl) e.spanwise_mapSpans
  | .augmented _ _ p e => .augmented rfl p.spanwise_mapSpans e.spanwise_mapSpans
  | .declaration .. => .declaration rfl (TypeExpr.spanwiseOpt_iff.mpr rfl)
  | .aliasing .. =>
    .aliasing rfl (TypeParameter.spanwiseAll_iff.mpr rfl) ((AliasValue.spanwise_iff _ _).mpr rfl)
  | .leave .. => .leave rfl (Expr.spanwiseOpt_iff.mpr rfl)
  | .bare .. => .bare rfl
  | .function _ _ b => .function rfl ((FunctionHead.spanwise_iff _ _).mpr rfl) b.spanwise_mapSpans
  | .typeDecl _ _ b => .typeDecl rfl ((TypeHead.spanwise_iff _ _).mpr rfl) b.spanwise_mapSpans
  | .conditional _ e b cs o =>
    .conditional rfl e.spanwise_mapSpans b.spanwise_mapSpans (ElifClause.spanwise_mapSpansAll cs)
      (Block.spanwise_mapSpansOpt o)
  | .forLoop _ p e b => .forLoop rfl p.spanwise_mapSpans e.spanwise_mapSpans b.spanwise_mapSpans
  | .whileLoop _ e b => .whileLoop rfl e.spanwise_mapSpans b.spanwise_mapSpans
  | .decorated _ _ s =>
    .decorated rfl (Decorator.spanwiseAll_iff.mpr rfl) s.spanwise_mapSpans
  | .error _ => .error rfl

theorem Block.spanwise_mapSpans : ∀ b : Block, Block.Spanwise (graph f) b (b.mapSpans f)
  | .mk _ _ body => .mk rfl (Stmt.spanwise_mapSpansAll body)

theorem ElifClause.spanwise_mapSpans : ∀ c : ElifClause,
    ElifClause.Spanwise (graph f) c (c.mapSpans f)
  | .mk _ e b => .mk rfl e.spanwise_mapSpans b.spanwise_mapSpans

theorem Stmt.spanwise_mapSpansAll : ∀ ss : List Stmt,
    List.Forall₂ (Stmt.Spanwise (graph f)) ss (Stmt.mapSpansAll f ss)
  | [] => .nil
  | s :: ss => .cons s.spanwise_mapSpans (Stmt.spanwise_mapSpansAll ss)

theorem ElifClause.spanwise_mapSpansAll : ∀ cs : List ElifClause,
    List.Forall₂ (ElifClause.Spanwise (graph f)) cs (ElifClause.mapSpansAll f cs)
  | [] => .nil
  | c :: cs => .cons c.spanwise_mapSpans (ElifClause.spanwise_mapSpansAll cs)

theorem Block.spanwise_mapSpansOpt : ∀ b : Option Block,
    Option.Rel (Block.Spanwise (graph f)) b (Block.mapSpansOpt f b)
  | none => .none
  | some b => .some b.spanwise_mapSpans

end

mutual

theorem Stmt.Spanwise.eq_mapSpans : ∀ {s s' : Stmt}, Stmt.Spanwise (graph f) s s' →
    s' = s.mapSpans f
  | .importModules .., _, .importModules rfl hs =>
    congrArg _ (ImportName.spanwiseAll_iff.mp hs)
  | .importFrom .., _, .importFrom rfl h => congrArg _ ((ImportTargets.spanwise_iff _ _).mp h)
  | .expression .., _, .expression rfl h => congrArg _ h.eq_mapSpans
  | .assignment .., _, .assignment rfl hp ht he => by
    rw [Stmt.mapSpans, hp.eq_mapSpans, TypeExpr.spanwiseOpt_iff.mp ht, he.eq_mapSpans]
  | .augmented .., _, .augmented rfl hp he => congrArg₂ _ hp.eq_mapSpans he.eq_mapSpans
  | .declaration .., _, .declaration rfl ht => congrArg _ (TypeExpr.spanwiseOpt_iff.mp ht)
  | .aliasing .., _, .aliasing rfl hs hv =>
    congrArg₂ _ (TypeParameter.spanwiseAll_iff.mp hs) ((AliasValue.spanwise_iff _ _).mp hv)
  | .leave .., _, .leave rfl h => congrArg _ (Expr.spanwiseOpt_iff.mp h)
  | .bare .., _, .bare rfl => rfl
  | .function .., _, .function rfl hh hb =>
    congrArg₂ _ ((FunctionHead.spanwise_iff _ _).mp hh) hb.eq_mapSpans
  | .typeDecl .., _, .typeDecl rfl hh hb =>
    congrArg₂ _ ((TypeHead.spanwise_iff _ _).mp hh) hb.eq_mapSpans
  | .conditional .., _, .conditional rfl he hb hcs ho => by
    rw [Stmt.mapSpans, he.eq_mapSpans, hb.eq_mapSpans, ElifClause.eq_mapSpansAll hcs,
      Block.eq_mapSpansOpt ho]
  | .forLoop .., _, .forLoop rfl hp he hb => by
    rw [Stmt.mapSpans, hp.eq_mapSpans, he.eq_mapSpans, hb.eq_mapSpans]
  | .whileLoop .., _, .whileLoop rfl he hb => congrArg₂ _ he.eq_mapSpans hb.eq_mapSpans
  | .decorated .., _, .decorated rfl hds hs =>
    congrArg₂ _ (Decorator.spanwiseAll_iff.mp hds) hs.eq_mapSpans
  | .error .., _, .error rfl => rfl

theorem Block.Spanwise.eq_mapSpans : ∀ {b b' : Block}, Block.Spanwise (graph f) b b' →
    b' = b.mapSpans f
  | .mk .., _, .mk rfl hs => congrArg _ (Stmt.eq_mapSpansAll hs)

theorem ElifClause.Spanwise.eq_mapSpans : ∀ {c c' : ElifClause},
    ElifClause.Spanwise (graph f) c c' → c' = c.mapSpans f
  | .mk .., _, .mk rfl he hb => congrArg₂ _ he.eq_mapSpans hb.eq_mapSpans

theorem Stmt.eq_mapSpansAll : ∀ {ss ss' : List Stmt},
    List.Forall₂ (Stmt.Spanwise (graph f)) ss ss' → ss' = Stmt.mapSpansAll f ss
  | [], _, .nil => rfl
  | _ :: _, _, .cons h hs => congrArg₂ _ h.eq_mapSpans (Stmt.eq_mapSpansAll hs)

theorem ElifClause.eq_mapSpansAll : ∀ {cs cs' : List ElifClause},
    List.Forall₂ (ElifClause.Spanwise (graph f)) cs cs' → cs' = ElifClause.mapSpansAll f cs
  | [], _, .nil => rfl
  | _ :: _, _, .cons h hs => congrArg₂ _ h.eq_mapSpans (ElifClause.eq_mapSpansAll hs)

theorem Block.eq_mapSpansOpt : ∀ {b b' : Option Block}, Option.Rel (Block.Spanwise (graph f)) b b' →
    b' = Block.mapSpansOpt f b
  | none, _, .none => rfl
  | some _, _, .some h => congrArg _ h.eq_mapSpans

end

/-- Over a function, a statement is related to the one with all its spans changed and to no other. -/
theorem Stmt.spanwise_iff (s s' : Stmt) : Stmt.Spanwise (graph f) s s' ↔ s' = s.mapSpans f :=
  ⟨Stmt.Spanwise.eq_mapSpans, fun h => h ▸ s.spanwise_mapSpans⟩

end Graphs

end Offside
