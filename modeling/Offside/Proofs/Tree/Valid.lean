import Offside.Proofs.Reading.Expr
import Offside.Proofs.Writing.Listing

namespace Offside

def Expr.isConditional : Expr → Bool
  | .conditional .. => true
  | _ => false

/-- What can be a part of an expression. An argument is no conditional, and only an index is a
slice. -/
def Place.allows : Place → Expr → Prop
  | value, e => e.isSlice = false ∧ e.isConditional = false
  | _, e => e.isSlice = false

structure Expr.Valid (e : Expr) : Prop where
  shaped : e.Shaped Place.allows
  whole : e.isSlice = false

structure Argument.Valid (a : Argument) : Prop where
  value : a.value.Valid
  unconditional : a.value.isConditional = false

mutual

inductive TypeExpr.Valid : TypeExpr → Prop where
  | symbol {s name} : TypeExpr.Valid (.symbol s name)
  | qualified {s base member} (valid : TypeExpr.Valid base) : TypeExpr.Valid (.qualified s base member)
  | generic {s base arguments} (valid : TypeExpr.Valid base) (ne_nil : arguments ≠ [])
      (inside : ∀ a ∈ arguments, TypeArgument.Valid a) : TypeExpr.Valid (.generic s base arguments)

inductive TypeArgument.Valid : TypeArgument → Prop where
  | type {t} (valid : TypeExpr.Valid t) : TypeArgument.Valid (.type t)
  | value {e} (valid : Expr.Valid e) : TypeArgument.Valid (.value e)
  | keyword {s name argument} (valid : TypeArgument.Valid argument) :
      TypeArgument.Valid (.keyword s name argument)

end

inductive Pattern.Valid : Pattern → Prop where
  | symbol {s name} : Valid (.symbol s name)
  | tuple {s elements} (inside : ∀ p ∈ elements, Valid p) : Valid (.tuple s elements)
  | list {s elements} (inside : ∀ p ∈ elements, Valid p) : Valid (.list s elements)
  | member {s object name} (valid : Expr.Valid object) : Valid (.member s object name)
  | subscript {s object indices} (valid : Expr.Valid object) (ne_nil : indices ≠ [])
      (inside : ∀ e ∈ indices, Expr.Shaped Place.allows e) : Valid (.subscript s object indices)

def ImportTargets.Valid (targets : ImportTargets) : Prop := targets ≠ .listed []

def TypeParameter.Valid : TypeParameter → Prop
  | named _ _ declaredType value => (∀ t ∈ declaredType, t.Valid) ∧ ∀ e ∈ value, e.Valid
  | inferOnly _ => True

def AliasValue.Valid : AliasValue → Prop
  | type t => t.Valid
  | value e => e.Valid

structure Parameter.Valid (allowed : ConventionSet) (p : Parameter) : Prop where
  accepted : ∀ c ∈ p.convention, allowed.accepts c = true
  declared : ∀ t ∈ p.declaredType, t.Valid
  default : ∀ e ∈ p.default, e.Valid
  variadic : p.variadic = true → p.convention = none ∧ p.default = none

structure FunctionHead.Valid (allowed : ConventionSet) (h : FunctionHead) : Prop where
  typeParameters : ∀ p ∈ h.typeParameters, p.Valid
  parameters : ∀ p ∈ h.parameters, p.Valid allowed
  accepted : ∀ c ∈ h.returnConvention, allowed.accepts c = true
  returnType : ∀ t ∈ h.returnType, t.Valid

structure TypeHead.Valid (h : TypeHead) : Prop where
  typeParameters : ∀ p ∈ h.typeParameters, p.Valid
  bases : ∀ t ∈ h.bases, t.Valid

def Decorator.Valid (d : Decorator) : Prop := ∀ as ∈ d.arguments, ∀ a ∈ as, a.Valid

mutual

inductive Stmt.Valid (allowed : ConventionSet) : Stmt → Prop where
  | importModules {s names} : Stmt.Valid allowed (.importModules s names)
  | importFrom {s level path targets} (origin : 0 < level ∨ path ≠ [])
      (taken : ImportTargets.Valid targets) : Stmt.Valid allowed (.importFrom s level path targets)
  | expression {s value} (valid : Expr.Valid value) : Stmt.Valid allowed (.expression s value)
  | assignment {s isVar target declaredType value} (assigned : Pattern.Valid target)
      (declared : ∀ t ∈ declaredType, TypeExpr.Valid t) (valid : Expr.Valid value) :
      Stmt.Valid allowed (.assignment s isVar target declaredType value)
  | augmented {s op target value} (assigned : Pattern.Valid target)
      (single : Pattern.isSequence target = false) (valid : Expr.Valid value) :
      Stmt.Valid allowed (.augmented s op target value)
  | declaration {s isVar name declaredType} (declared : ∀ t ∈ declaredType, TypeExpr.Valid t)
      (typed : isVar = false → declaredType ≠ none) :
      Stmt.Valid allowed (.declaration s isVar name declaredType)
  | aliasing {s name typeParameters value} (parameters : ∀ p ∈ typeParameters, TypeParameter.Valid p)
      (valid : AliasValue.Valid value) : Stmt.Valid allowed (.aliasing s name typeParameters value)
  | leave {s word value} (valid : ∀ e ∈ value, Expr.Valid e) : Stmt.Valid allowed (.leave s word value)
  | bare {s word} : Stmt.Valid allowed (.bare s word)
  | function {s head body} (header : FunctionHead.Valid allowed head)
      (inside : Block.Valid allowed body) : Stmt.Valid allowed (.function s head body)
  | typeDecl {s head body} (header : TypeHead.Valid head) (inside : Block.Valid allowed body) :
      Stmt.Valid allowed (.typeDecl s head body)
  | conditional {s condition body elifs otherwise} (decided : Expr.Valid condition)
      (inside : Block.Valid allowed body) (clauses : ∀ c ∈ elifs, ElifClause.Valid allowed c)
      (last : ∀ b ∈ otherwise, Block.Valid allowed b) :
      Stmt.Valid allowed (.conditional s condition body elifs otherwise)
  | forLoop {s target iterable body} (assigned : Pattern.Valid target) (iterated : Expr.Valid iterable)
      (inside : Block.Valid allowed body) : Stmt.Valid allowed (.forLoop s target iterable body)
  | whileLoop {s condition body} (decided : Expr.Valid condition) (inside : Block.Valid allowed body) :
      Stmt.Valid allowed (.whileLoop s condition body)
  | decorated {s decorators definition} (ne_nil : decorators ≠ [])
      (decorating : ∀ d ∈ decorators, Decorator.Valid d)
      (defines : Stmt.isDefinition definition = true) (valid : Stmt.Valid allowed definition) :
      Stmt.Valid allowed (.decorated s decorators definition)
  | error {s} : Stmt.Valid allowed (.error s)

inductive Block.Valid (allowed : ConventionSet) : Block → Prop where
  | mk {s inline body} (inside : ∀ t ∈ body, Stmt.Valid allowed t)
      (simple : inline = true → body ≠ [] ∧ ∀ t ∈ body, Stmt.isSimple t = true) :
      Block.Valid allowed (.mk s inline body)

inductive ElifClause.Valid (allowed : ConventionSet) : ElifClause → Prop where
  | mk {s condition body} (decided : Expr.Valid condition) (inside : Block.Valid allowed body) :
      ElifClause.Valid allowed (.mk s condition body)

end

namespace Expr

variable {ok ok' : Place → Expr → Prop} {e : Expr}

/-- What all parts of an expression keep to, by a rule for places, they keep to by a weaker one. -/
theorem Shaped.mono (h : e.Shaped ok) (hok : ∀ place e, place ≠ .left .lowest → ok place e → ok' place e) :
    e.Shaped ok' := by
  have hleft (op : BinaryOp) : op.leftPlace ≠ .left .lowest := by cases op <;> decide
  have hright (op : BinaryOp) : op.rightPlace ≠ .left .lowest := by cases op <;> decide
  have hunary (op : UnaryOp) : op.place ≠ .left .lowest := by cases op <;> decide
  have hsame {place : Place} {e : Expr} (hne : place ≠ .left .lowest) : ok place e → ok' place e :=
    hok place e hne
  induction h with
  | integer => exact .integer
  | float => exact .float
  | string => exact .string
  | boolean => exact .boolean
  | noneLiteral => exact .noneLiteral
  | symbol => exact .symbol
  | list _ hp ih => exact .list ih fun e he => hsame (by decide) (hp e he)
  | tuple _ hp ih => exact .tuple ih fun e he => hsame (by decide) (hp e he)
  | set hne _ hp ih => exact .set hne ih fun e he => hsame (by decide) (hp e he)
  | dict _ _ hp ihk ihv =>
    exact .dict ihk ihv fun entry he => (hp entry he).imp (hsame (by decide)) (hsame (by decide))
  | parenthesized _ hp ih => exact .parenthesized ih (hsame (by decide) hp)
  | call _ hp _ hps ih ihs =>
    exact .call ih (hsame (by decide) hp) ihs fun a ha => hsame (by decide) (hps a ha)
  | genericCall _ hp hne _ hpt _ hps ih iht ihs =>
    exact .genericCall ih (hsame (by decide) hp) hne iht (fun a ha => hsame (by decide) (hpt a ha)) ihs
      fun a ha => hsame (by decide) (hps a ha)
  | member _ hp ih => exact .member ih (hsame (by decide) hp)
  | subscript _ hp hne _ hps ih ihs =>
    exact .subscript ih (hsame (by decide) hp) hne ihs fun e he hs => hsame (by decide) (hps e he hs)
  | slice _ hp ih => exact .slice ih fun bound hb e he => hsame (by decide) (hp bound hb e he)
  | transfer _ hp ih => exact .transfer ih (hsame (by decide) hp)
  | unary _ hp ih => exact .unary ih (hsame (hunary _) hp)
  | binary _ _ hl hr ihl ihr => exact .binary ihl ihr (hsame (hleft _) hl) (hsame (hright _) hr)
  | comparison hne _ _ hp hps ih ihs =>
    exact .comparison hne ih ihs (hsame (by decide) hp) fun link hl => hsame (by decide) (hps link hl)
  | conditional _ _ _ ht hc he iht ihc ihe =>
    exact .conditional iht ihc ihe (hsame (by decide) ht) (hsame (by decide) hc) (hsame (by decide) he)

theorem isSlice_of_lt (h : .lowest < e.level) : e.isSlice = false := by
  cases e with
  | slice => exact absurd h (Nat.lt_irrefl 0)
  | _ => rfl

theorem isConditional_of_lt (h : .conditional < e.level) : e.isConditional = false := by
  cases e with
  | conditional => exact absurd h (Nat.lt_irrefl 1)
  | _ => rfl

/-- What precedence lets stand in a place is allowed there. -/
theorem allows_of_takes {place : Place} (hne : place ≠ .left .lowest) (h : place.takes e) :
    place.allows e := by
  have hprefix (h : e.isPrefix = true) : .lowest < e.level :=
    Nat.lt_trans (by decide) (conditional_lt_level h)
  have hbehind {level : Level} (h : e.isPrefix = true ∨ level < e.level) : e.isSlice = false :=
    isSlice_of_lt (h.elim hprefix (Nat.lt_of_le_of_lt (Nat.zero_le _)))
  cases place with
  | left level =>
    have hpos : .lowest < level := by
      revert hne
      cases level <;> decide
    exact isSlice_of_lt (Nat.lt_of_lt_of_le hpos h)
  | right level => exact hbehind h
  | base => exact isSlice_of_lt (Nat.lt_of_lt_of_le (by decide) h)
  | exponent => exact isSlice_of_lt (h.elim hprefix (Nat.lt_of_lt_of_le (by decide)))
  | first => exact hbehind (.inr h)
  | compared => exact hbehind h
  | negated => exact hbehind h
  | signed => exact hbehind h
  | object | callee => exact isSlice_of_lt (Nat.lt_of_lt_of_le (by decide) h)
  | value => exact ⟨hbehind (.inr h), isConditional_of_lt h⟩
  | free => exact hbehind (.inr h)

/-- An expression that is shaped by precedence is valid if it is no slice. -/
theorem Shaped.valid (h : e.Shaped Place.takes) (hlevel : .lowest < e.level) : e.Valid :=
  ⟨h.mono fun _ _ => allows_of_takes, isSlice_of_lt hlevel⟩

end Expr

mutual

theorem Expr.Valid.type : ∀ {e : Expr} {t : TypeExpr}, e.Valid → TypeExpr.ofExpr? e = some t → t.Valid
  | .symbol .., _, _, h => by
    cases h
    exact .symbol
  | .noneLiteral _, _, _, h => by
    cases h
    exact .symbol
  | .member _ object _, _, hvalid, h => by
    obtain ⟨base, hbase, rfl⟩ := Option.map_eq_some_iff.mp h
    cases hvalid.shaped with
    | member hshaped hplaced => exact .qualified (Expr.Valid.type ⟨hshaped, hplaced⟩ hbase)
  | .subscript _ object indices, _, hvalid, h => by
    rw [TypeExpr.ofExpr?] at h
    split at h
    · cases h
    next hslices =>
    obtain ⟨base, hbase, rfl⟩ := Option.map_eq_some_iff.mp h
    have hwhole : ∀ e ∈ indices, e.isSlice = false := by simpa using hslices
    cases hvalid.shaped with
    | subscript hshaped hplaced hne hparts hpartsPlaced =>
      refine .generic (Expr.Valid.type ⟨hshaped, hplaced⟩ hbase) ?_
        (Expr.Valid.types fun e he => ⟨hparts e he, hwhole e he⟩)
      cases indices with
      | nil => exact absurd rfl hne
      | cons e es => exact List.cons_ne_nil _ _

theorem Expr.Valid.types : ∀ {es : List Expr}, (∀ e ∈ es, e.Valid) →
    ∀ a ∈ TypeArgument.ofExprs es, a.Valid
  | [], _ => List.forall_mem_nil _
  | e :: es, h => by
    obtain ⟨he, hes⟩ := List.forall_mem_cons.mp h
    refine List.forall_mem_cons.mpr ⟨?_, Expr.Valid.types hes⟩
    split
    · next t ht => exact .type (Expr.Valid.type he ht)
    · exact .value he

end

theorem Expr.Valid.typeArgument {e : Expr} (h : e.Valid) : (TypeArgument.ofExpr e).Valid := by
  unfold TypeArgument.ofExpr
  split
  · next t ht => exact .type (h.type ht)
  · exact .value h

mutual

theorem Expr.Valid.target : ∀ {e : Expr} {p : Pattern}, e.Valid → Pattern.ofExpr e = .ok p → p.Valid
  | .symbol .., _, _, h => by
    cases h
    exact .symbol
  | .member _ object _, _, hvalid, h => by
    cases h
    cases hvalid.shaped with
    | member hshaped hplaced => exact .member ⟨hshaped, hplaced⟩
  | .subscript _ object indices, _, hvalid, h => by
    cases h
    cases hvalid.shaped with
    | subscript hshaped hplaced hne hparts _ => exact .subscript ⟨hshaped, hplaced⟩ hne hparts
  | .parenthesized _ inner, _, hvalid, h => by
    cases hvalid.shaped with
    | parenthesized hshaped hplaced => exact Expr.Valid.target ⟨hshaped, hplaced⟩ h
  | .tuple _ es, _, hvalid, h => by
    rw [Pattern.ofExpr] at h
    split at h
    · next targets htargets =>
      cases h
      cases hvalid.shaped with
      | tuple hshaped hplaced =>
        exact .tuple (Expr.Valid.targets (fun e he => ⟨hshaped e he, hplaced e he⟩) htargets)
    · cases h
  | .list _ es, _, hvalid, h => by
    rw [Pattern.ofExpr] at h
    split at h
    · next targets htargets =>
      cases h
      cases hvalid.shaped with
      | list hshaped hplaced =>
        exact .list (Expr.Valid.targets (fun e he => ⟨hshaped e he, hplaced e he⟩) htargets)
    · cases h

theorem Expr.Valid.targets : ∀ {es : List Expr} {ps : List Pattern}, (∀ e ∈ es, e.Valid) →
    Pattern.ofExprs es = .ok ps → ∀ p ∈ ps, p.Valid
  | [], _, _, h => by
    cases h
    exact List.forall_mem_nil _
  | e :: es, _, hvalid, h => by
    obtain ⟨he, hes⟩ := List.forall_mem_cons.mp hvalid
    rw [Pattern.ofExprs] at h
    split at h
    · cases h
    next p hp =>
    split at h
    · cases h
    next ps hps =>
    cases h
    exact List.forall_mem_cons.mpr ⟨Expr.Valid.target he hp, Expr.Valid.targets hes hps⟩

end

end Offside
