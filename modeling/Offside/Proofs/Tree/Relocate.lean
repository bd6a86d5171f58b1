import Offside.Grammar.Level
import Offside.Proofs.Simulation
import Offside.Proofs.Tree.MapSpans

namespace Offside

instance : Relocate Unit := ⟨fun _ => id⟩

instance : Relocate Bool := ⟨fun _ => id⟩

instance : Relocate String := ⟨fun _ => id⟩

instance : Relocate Kind := ⟨fun _ => id⟩

instance : Relocate ComparisonOp := ⟨fun _ => id⟩

instance : Relocate Convention := ⟨fun _ => id⟩

instance : Relocate Level := ⟨fun _ => id⟩

instance : Relocate Offset := ⟨fun f => f⟩

instance : Relocate Span := ⟨fun f s => ⟨f s.start, f s.stop⟩⟩

instance : Relocate Token := ⟨fun f t => ⟨t.kind, t.text, relocate f t.span⟩⟩

instance : Relocate Expr := ⟨fun f => Expr.mapSpans (relocate f)⟩

instance : Relocate Argument := ⟨fun f => Argument.mapSpans (relocate f)⟩

instance : Relocate TypeExpr := ⟨fun f => TypeExpr.mapSpans (relocate f)⟩

instance : Relocate TypeArgument := ⟨fun f => TypeArgument.mapSpans (relocate f)⟩

instance : Relocate Pattern := ⟨fun f => Pattern.mapSpans (relocate f)⟩

instance : Relocate ImportName := ⟨fun f => ImportName.mapSpans (relocate f)⟩

instance : Relocate ImportTargets := ⟨fun f => ImportTargets.mapSpans (relocate f)⟩

instance : Relocate TypeParameter := ⟨fun f => TypeParameter.mapSpans (relocate f)⟩

instance : Relocate Parameter := ⟨fun f => Parameter.mapSpans (relocate f)⟩

instance : Relocate FunctionHead := ⟨fun f => FunctionHead.mapSpans (relocate f)⟩

instance : Relocate TypeHead := ⟨fun f => TypeHead.mapSpans (relocate f)⟩

instance : Relocate AliasValue := ⟨fun f => AliasValue.mapSpans (relocate f)⟩

instance : Relocate Decorator := ⟨fun f => Decorator.mapSpans (relocate f)⟩

instance : Relocate Stmt := ⟨fun f => Stmt.mapSpans (relocate f)⟩

instance : Relocate Block := ⟨fun f => Block.mapSpans (relocate f)⟩

instance : Relocate ElifClause := ⟨fun f => ElifClause.mapSpans (relocate f)⟩

instance {α β : Type} [Relocate α] [Relocate β] : Relocate (α × β) :=
  ⟨fun f a => (relocate f a.1, relocate f a.2)⟩

section

variable {α : Type} [Relocate α] (f : Offset → Offset)

@[simp]
theorem relocate_none : relocate f (none : Option α) = none := rfl

@[simp]
theorem relocate_some (a : α) : relocate f (some a) = some (relocate f a) := rfl

@[simp]
theorem relocate_nil : relocate f ([] : List α) = [] := rfl

@[simp]
theorem relocate_cons (a : α) (as : List α) :
    relocate f (a :: as) = relocate f a :: relocate f as := rfl

/-- Data without positions stay as they are. -/
@[simp]
theorem relocate_texts (texts : List String) : relocate f texts = texts := List.map_id texts

@[simp]
theorem relocate_text? (text : Option String) : relocate f text = text := Option.map_id'

@[simp]
theorem relocate_convention? (convention : Option Convention) :
    relocate f convention = convention := Option.map_id'

@[simp]
theorem relocate_append (as bs : List α) :
    relocate f (as ++ bs) = relocate f as ++ relocate f bs := List.map_append

@[simp]
theorem length_relocate (as : List α) : (relocate f as).length = as.length := List.length_map _

theorem getLastD_relocate (as : List α) (a : α) :
    (relocate f as).getLastD (relocate f a) = relocate f (as.getLastD a) := by
  rw [List.getLastD_eq_getLast?, List.getLastD_eq_getLast?]
  simp only [relocate, List.getLast?_map, Option.getD_map]

@[simp]
theorem kind_relocate (t : Token) : (relocate f t).kind = t.kind := rfl

@[simp]
theorem text_relocate (t : Token) : (relocate f t).text = t.text := rfl

@[simp]
theorem span_relocate (t : Token) : (relocate f t).span = relocate f t.span := rfl

@[simp]
theorem start_relocate (s : Span) : (relocate f s).start = f s.start := rfl

@[simp]
theorem stop_relocate (s : Span) : (relocate f s).stop = f s.stop := rfl

@[simp]
theorem relocate_through (a b : Span) :
    relocate f (a.through b) = (relocate f a).through (relocate f b) := rfl

@[simp]
theorem relocate_pair {β : Type} [Relocate β] (a : α) (b : β) :
    relocate f (a, b) = (relocate f a, relocate f b) := rfl

@[simp]
theorem relocate_fst {β : Type} [Relocate β] (a : α × β) : (relocate f a).1 = relocate f a.1 := rfl

@[simp]
theorem relocate_snd {β : Type} [Relocate β] (a : α × β) : (relocate f a).2 = relocate f a.2 := rfl

end

section Trees

variable (f : Offset → Offset)

@[simp]
theorem Expr.span_relocate (e : Expr) : (relocate f e).span = relocate f e.span :=
  Expr.span_mapSpans _ e

@[simp]
theorem TypeExpr.span_relocate (t : TypeExpr) : (relocate f t).span = relocate f t.span :=
  TypeExpr.span_mapSpans _ t

@[simp]
theorem Pattern.span_relocate (p : Pattern) : (relocate f p).span = relocate f p.span :=
  Pattern.span_mapSpans _ p

@[simp]
theorem Stmt.span_relocate (s : Stmt) : (relocate f s).span = relocate f s.span :=
  Stmt.span_mapSpans _ s

@[simp]
theorem Block.span_relocate (b : Block) : (relocate f b).span = relocate f b.span :=
  Block.span_mapSpans _ b

@[simp]
theorem ElifClause.span_relocate (c : ElifClause) : (relocate f c).span = relocate f c.span :=
  ElifClause.span_mapSpans _ c

@[simp]
theorem relocate_list (s : Span) (es : List Expr) :
    relocate f (Expr.list s es) = .list (relocate f s) (relocate f es) :=
  congrArg _ (Expr.mapSpansAll_eq_map _ es)

@[simp]
theorem relocate_tuple (s : Span) (es : List Expr) :
    relocate f (Expr.tuple s es) = .tuple (relocate f s) (relocate f es) :=
  congrArg _ (Expr.mapSpansAll_eq_map _ es)

@[simp]
theorem relocate_set (s : Span) (es : List Expr) :
    relocate f (Expr.set s es) = .set (relocate f s) (relocate f es) :=
  congrArg _ (Expr.mapSpansAll_eq_map _ es)

@[simp]
theorem relocate_dict (s : Span) (es : List (Expr × Expr)) :
    relocate f (Expr.dict s es) = .dict (relocate f s) (relocate f es) :=
  congrArg _ (Expr.mapSpansEntries_eq_map _ es)

@[simp]
theorem relocate_call (s : Span) (e : Expr) (as : List Argument) :
    relocate f (Expr.call s e as) = .call (relocate f s) (relocate f e) (relocate f as) :=
  congrArg _ (Argument.mapSpansAll_eq_map _ as)

@[simp]
theorem relocate_genericCall (s : Span) (e : Expr) (ts as : List Argument) :
    relocate f (Expr.genericCall s e ts as) =
      .genericCall (relocate f s) (relocate f e) (relocate f ts) (relocate f as) :=
  congr (congrArg _ (Argument.mapSpansAll_eq_map _ ts)) (Argument.mapSpansAll_eq_map _ as)

@[simp]
theorem relocate_subscript (s : Span) (e : Expr) (es : List Expr) :
    relocate f (Expr.subscript s e es) = .subscript (relocate f s) (relocate f e) (relocate f es) :=
  congrArg _ (Expr.mapSpansAll_eq_map _ es)

@[simp]
theorem relocate_slice (s : Span) (lower upper step : Option Expr) :
    relocate f (Expr.slice s lower upper step) =
      .slice (relocate f s) (relocate f lower) (relocate f upper) (relocate f step) := by
  cases lower <;> cases upper <;> cases step <;> rfl

@[simp]
theorem relocate_comparison (s : Span) (e : Expr) (links : List (ComparisonOp × Expr)) :
    relocate f (Expr.comparison s e links) =
      .comparison (relocate f s) (relocate f e) (relocate f links) :=
  congrArg _ (Expr.mapSpansLinks_eq_map _ links)

@[simp]
theorem relocate_operation (op : BinaryOp) (a b : Expr) :
    relocate f (Expr.operation op a b) = .operation op (relocate f a) (relocate f b) := by
  simp only [Expr.operation, Expr.span_relocate]
  rfl

@[simp]
theorem relocate_generic (s : Span) (t : TypeExpr) (as : List TypeArgument) :
    relocate f (TypeExpr.generic s t as) = .generic (relocate f s) (relocate f t) (relocate f as) :=
  congrArg _ (TypeArgument.mapSpansAll_eq_map _ as)

@[simp]
theorem relocate_block (s : Span) (inline : Bool) (body : List Stmt) :
    relocate f (Block.mk s inline body) = .mk (relocate f s) inline (relocate f body) :=
  congrArg _ (Stmt.mapSpansAll_eq_map _ body)

@[simp]
theorem relocate_conditional (s : Span) (e : Expr) (body : Block) (elifs : List ElifClause)
    (otherwise : Option Block) :
    relocate f (Stmt.conditional s e body elifs otherwise) =
      .conditional (relocate f s) (relocate f e) (relocate f body) (relocate f elifs)
        (relocate f otherwise) :=
  congr (congrArg _ (ElifClause.mapSpansAll_eq_map _ elifs)) (Block.mapSpansOpt_eq_map _ otherwise)

end Trees

section Readings

variable (f : Offset → Offset)

theorem any_isSlice_relocate (es : List Expr) :
    (relocate f es).any Expr.isSlice = es.any Expr.isSlice := by
  induction es with
  | nil => rfl
  | cons e es ih =>
    rw [relocate_cons, List.any_cons, List.any_cons, ih]
    cases e <;> rfl

mutual

/-- What an expression reads as does not hang on its positions. -/
theorem TypeExpr.ofExpr?_relocate (e : Expr) :
    TypeExpr.ofExpr? (relocate f e) = relocate f (TypeExpr.ofExpr? e) := by
  cases e with
  | member s object name =>
    have ih := TypeExpr.ofExpr?_relocate object
    change (TypeExpr.ofExpr? (relocate f object)).map _ = relocate f ((TypeExpr.ofExpr? object).map _)
    rw [ih]
    cases TypeExpr.ofExpr? object <;> rfl
  | subscript s object indices =>
    have ih := TypeExpr.ofExpr?_relocate object
    have ihs := TypeArgument.ofExprs_relocate indices
    rw [relocate_subscript, TypeExpr.ofExpr?, TypeExpr.ofExpr?, any_isSlice_relocate, ih, ihs]
    split
    · rfl
    · cases TypeExpr.ofExpr? object with
      | none => rfl
      | some t => simp
  | _ => rfl

theorem TypeArgument.ofExprs_relocate (es : List Expr) :
    TypeArgument.ofExprs (relocate f es) = relocate f (TypeArgument.ofExprs es) := by
  match es with
  | [] => rfl
  | e :: es =>
    have ih := TypeExpr.ofExpr?_relocate e
    have ihs := TypeArgument.ofExprs_relocate es
    rw [relocate_cons, TypeArgument.ofExprs, TypeArgument.ofExprs, ih, ihs]
    cases TypeExpr.ofExpr? e <;> rfl

end

theorem TypeArgument.ofExpr_relocate (e : Expr) :
    TypeArgument.ofExpr (relocate f e) = relocate f (TypeArgument.ofExpr e) := by
  rw [TypeArgument.ofExpr, TypeArgument.ofExpr, TypeExpr.ofExpr?_relocate]
  cases TypeExpr.ofExpr? e <;> rfl

mutual

theorem Pattern.ofExpr_relocate (e : Expr) :
    Pattern.ofExpr (relocate f e) =
      match Pattern.ofExpr e with
      | .ok p => .ok (relocate f p)
      | .error s => .error (relocate f s) := by
  cases e with
  | parenthesized s inner => exact Pattern.ofExpr_relocate inner
  | subscript s object indices =>
    rw [relocate_subscript]
    rfl
  | tuple s es =>
    have ihs := Pattern.ofExprs_relocate es
    rw [relocate_tuple, Pattern.ofExpr, Pattern.ofExpr, ihs]
    cases Pattern.ofExprs es with
    | error s => rfl
    | ok ps => exact congrArg _ (congrArg _ (Pattern.mapSpansAll_eq_map _ ps).symm)
  | list s es =>
    have ihs := Pattern.ofExprs_relocate es
    rw [relocate_list, Pattern.ofExpr, Pattern.ofExpr, ihs]
    cases Pattern.ofExprs es with
    | error s => rfl
    | ok ps => exact congrArg _ (congrArg _ (Pattern.mapSpansAll_eq_map _ ps).symm)
  | _ => rfl

theorem Pattern.ofExprs_relocate (es : List Expr) :
    Pattern.ofExprs (relocate f es) =
      match Pattern.ofExprs es with
      | .ok ps => .ok (relocate f ps)
      | .error s => .error (relocate f s) := by
  match es with
  | [] => rfl
  | e :: es =>
    have ih := Pattern.ofExpr_relocate e
    have ihs := Pattern.ofExprs_relocate es
    rw [relocate_cons, Pattern.ofExprs, Pattern.ofExprs, ih, ihs]
    cases Pattern.ofExpr e with
    | error s => rfl
    | ok p => cases Pattern.ofExprs es <;> rfl

end

end Readings

end Offside
