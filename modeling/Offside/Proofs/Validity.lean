import Offside.Proofs.Moves.Stmt
import Offside.Proofs.Tree.Valid

namespace Offside

theorem Option.forall_mem_none {α : Type} {V : α → Prop} : ∀ a ∈ (none : Option α), V a :=
  fun a h => absurd h (Option.not_mem_none a)

theorem Option.forall_mem_some {α : Type} {V : α → Prop} {a : α} (h : V a) : ∀ b ∈ some a, V b :=
  fun _ hb => Option.some.inj hb ▸ h

section Logic

variable {σ α β : Type} {C : σ → Prop} {V V' : α → Prop} {W : β → Prop}

/-- From states that keep to a condition, a rule returns values of a sort, and keeps to it. -/
abbrev Makes (C : σ → Prop) (V : α → Prop) (x : EStateM Diagnostic σ α) : Prop :=
  Yields C x fun a t => C t ∧ V a

namespace Makes

variable {x : EStateM Diagnostic σ α} {g : α → EStateM Diagnostic σ β} {size : σ → Nat}

theorem of (h : Makes C V x) (hV : ∀ a, V a → V' a) : Makes C V' x :=
  h.weaken fun a _ ht => ht.imp_right (hV a)

theorem pure {a : α} (h : V a) : Makes C V (Pure.pure a) := Yields.pure fun _ hs => ⟨hs, h⟩

theorem bind (hx : Makes C V x) (hg : ∀ a, V a → Makes C W (g a)) : Makes C W (x >>= g) :=
  Yields.bind_known hx hg

theorem map {φ : α → β} (hx : Makes C V x) (h : ∀ a, V a → W (φ a)) : Makes C W (φ <$> x) :=
  Yields.map (hx.weaken fun a _ ht => ht.imp_right (h a))

theorem many {step : EStateM Diagnostic σ (Option α)} (h : Makes C (fun o => ∀ a ∈ o, V a) step) :
    Makes C (fun as => ∀ a ∈ as, V a) (Offside.many size step) := by
  refine (Yields.many_list (J := fun as t => C t ∧ ∀ a ∈ as, V a) (fun as => ?_) []).before fun _ hs =>
    ⟨hs, List.forall_mem_nil _⟩
  intro s r t hs hr
  obtain ⟨ht, hnew⟩ := h s r t hs.1 hr
  exact ⟨ht, List.forall_mem_append.mpr ⟨hs.2, fun a ha => hnew a (Option.mem_toList.mp ha)⟩⟩

theorem iterate {step : α → EStateM Diagnostic σ (Option α)}
    (h : ∀ a, V a → Makes C (fun o => ∀ b ∈ o, V b) (step a)) {a : α} (ha : V a) :
    Makes C V (Offside.iterate size step a) := by
  refine (Yields.iterate (I := fun a t => C t ∧ V a) (fun a s o t hs hr => ?_) a).before fun _ hs =>
    ⟨hs, ha⟩
  obtain ⟨ht, ho⟩ := h a hs.2 s o t hs.1 hr
  cases o with
  | none => exact ⟨ht, hs.2⟩
  | some b => exact ⟨ht, ho b rfl⟩

end Makes

end Logic

def Cursor.Live (c : Cursor) : Prop := c.last.kind = .eof

namespace Rule

open Cursor

variable {α β : Type} {V : α → Prop} {W : β → Prop} {x : Rule α} {k : Kind}

section Tokens

/-- A rule that only moves over tokens. -/
theorem makes_of_moves (h : Moves Ahead Live x) : Makes Live (fun _ => True) x := by
  intro c a d hc hr
  have hmove := h c hc
  rw [hr] at hmove
  obtain ⟨us, ht⟩ := hmove
  exact ⟨(congrArg Token.kind ht.last_eq).trans hc, trivial⟩

theorem Inner.makes (h : Inner x) : Makes Live (fun _ => True) x :=
  makes_of_moves (h.anywhere.along track_ahead)

/-- What comes after a rule that may return anything. -/
theorem makes_after {g : α → Rule β} (hx : Makes Live (fun _ => True) x)
    (hg : ∀ a, Makes Live W (g a)) : Makes Live W (x >>= g) :=
  hx.bind fun a _ => hg a

theorem advance_makes : Makes Live (fun _ => True) Rule.advance :=
  makes_of_moves fun c _ => c.ahead_advance

theorem eat_makes : Makes Live (fun _ => True) (Rule.eat k) := by
  refine makes_of_moves fun c _ => ?_
  unfold Rule.eat
  split
  · exact c.ahead_advance
  · exact Std.Refl.refl c

theorem expect_makes : Makes Live (fun _ => True) (Rule.expect k) := by
  refine makes_of_moves fun c _ => ?_
  unfold Rule.expect
  split
  · exact c.ahead_advance
  · exact Std.Refl.refl c

theorem expectDetailed_makes {message : String} :
    Makes Live (fun _ => True) (Rule.expectDetailed k message) := by
  refine makes_of_moves fun c _ => ?_
  unfold Rule.expectDetailed
  split
  · exact c.ahead_advance
  · exact Std.Refl.refl c

theorem atKeyword_makes : Makes Live (fun _ => True) Grammar.atKeyword :=
  makes_of_moves fun c _ => Std.Refl.refl c

end Tokens

section Lists

variable {item : Rule α}

theorem introduced_makes (h : Makes Live V item) :
    Makes Live (fun o => ∀ a ∈ o, V a) (Rule.introduced k item) :=
  makes_after eat_makes fun _ => Yields.ite
    (fun _ => Makes.map h fun _ => Option.forall_mem_some) fun _ => Makes.pure Option.forall_mem_none

theorem commaTail_makes (stop : Kind → Bool) (h : Makes Live V item) :
    Makes Live (fun as => ∀ a ∈ as, V a) (Rule.commaTail stop item) := by
  refine Makes.many (makes_after eat_makes fun _ => Yields.ite (fun _ => ?_) fun _ => ?_)
  · refine yields_kind fun _ => Yields.ite (fun _ => Makes.pure Option.forall_mem_none) fun _ => ?_
    exact Makes.map h fun _ => Option.forall_mem_some
  · exact Makes.pure Option.forall_mem_none

theorem commaList_makes (stop : Kind → Bool) (h : Makes Live V item) :
    Makes Live (fun as => as ≠ [] ∧ ∀ a ∈ as, V a) (Rule.commaList stop item) :=
  Makes.bind h fun _ ha => (commaTail_makes stop h).bind fun _ has =>
    Makes.pure ⟨List.cons_ne_nil _ _, List.forall_mem_cons.mpr ⟨ha, has⟩⟩

theorem listUpTo_makes (close : Kind) (h : Makes Live V item) :
    Makes Live (fun as => ∀ a ∈ as, V a) (Rule.listUpTo close item) :=
  yields_kind fun _ => Yields.ite (fun _ => Makes.pure (List.forall_mem_nil _)) fun _ =>
    (commaList_makes _ h).of fun _ has => has.2

end Lists

end Rule

namespace Grammar

open Rule Cursor

section Expressions

theorem expr_makes (level : Level) : Makes Live Expr.Valid (expr level) := by
  intro c e d hc hr
  obtain ⟨hread, htaken⟩ := expr_reading level c hc [] c e d (.refl c) hr
  have hlowest : e.Fits .lowest :=
    htaken.fits.imp_right (Or.imp_right (Nat.lt_of_le_of_lt (Nat.zero_le _)))
  exact ⟨(congrArg Token.kind hread.last_eq).trans hc, htaken.shaped.valid hlowest.free⟩

theorem callArguments_makes : Makes Live (fun as => ∀ a ∈ as, a.Valid) (callArguments expr) := by
  intro c as d hc hr
  obtain ⟨hread, has⟩ := callArguments_reads expr_reading c hc [] c as d (.refl c) hr
  refine ⟨(congrArg Token.kind hread.last_eq).trans hc, fun a ha => ?_⟩
  obtain ⟨hshaped, hplaced⟩ := has a ha
  exact ⟨hshaped.valid (Nat.lt_trans (by decide) hplaced), Expr.isConditional_of_lt hplaced⟩

/-- Expressions with commas between them are a tuple. -/
theorem tuple_valid {s : Span} {es : List Expr} (h : ∀ e ∈ es, e.Valid) : (Expr.tuple s es).Valid :=
  ⟨.tuple (fun e he => (h e he).shaped) fun e he => (h e he).whole, rfl⟩

theorem exprList_makes : Makes Live Expr.Valid exprList := by
  refine (expr_makes .lowest).bind fun first hfirst => ?_
  refine yields_kind fun _ => Yields.ite (fun _ => ?_) fun _ => Makes.pure hfirst
  refine (commaTail_makes _ (expr_makes .lowest)).bind fun rest hrest => ?_
  refine yields_previousEnd_bind fun _ => Makes.pure ?_
  exact tuple_valid (List.forall_mem_cons.mpr ⟨hfirst, hrest⟩)

theorem target_makes {e : Expr} (h : e.Valid) : Makes Live Pattern.Valid (target e) := by
  unfold target
  split
  · next p hp => exact Makes.pure (h.target hp)
  · exact yields_fail

end Expressions

section Types

theorem symbolType_makes : Makes Live TypeExpr.Valid symbolType := by
  refine makes_after advance_makes fun t => ?_
  unfold symbolTypeBy
  split
  · exact Makes.pure .symbol
  · exact Makes.pure .symbol
  · exact yields_fail

theorem typeArgument_makes : Makes Live TypeArgument.Valid typeArgument := by
  refine makes_after atKeyword_makes fun _ => Yields.ite (fun _ => ?_) fun _ => ?_
  · refine makes_after advance_makes fun _ => makes_after advance_makes fun _ => ?_
    exact (expr_makes _).bind fun _ he => Makes.pure (.keyword he.typeArgument)
  · exact (expr_makes _).bind fun _ he => Makes.pure he.typeArgument

theorem genericType_makes {left : TypeExpr} (h : left.Valid) :
    Makes Live TypeExpr.Valid (genericType left) := by
  refine makes_after advance_makes fun _ => yields_kind fun _ => ?_
  refine Yields.ite (fun _ => yields_unexpectedDetailed) fun _ => ?_
  refine (commaList_makes _ typeArgument_makes).bind fun _ has => ?_
  exact makes_after expect_makes fun _ => Makes.pure (.generic h has.1 has.2)

theorem extendType?_makes (level : Level) {left : TypeExpr} (h : left.Valid) :
    Makes Live (fun o => ∀ t ∈ o, t.Valid) (extendType? level left) := by
  refine Yields.ite (fun _ => yields_kind fun _ => ?_) fun _ => Makes.pure Option.forall_mem_none
  unfold typeTrailerAt
  split
  · refine Makes.map (makes_after advance_makes fun _ => ?_) fun _ => Option.forall_mem_some
    exact makes_after expect_makes fun _ => Makes.pure (.qualified h)
  · exact Makes.map (genericType_makes h) fun _ => Option.forall_mem_some
  · exact Makes.pure Option.forall_mem_none

theorem typeExpr_makes (level : Level) : Makes Live TypeExpr.Valid (typeExpr level) := by
  refine yields_kind fun _ => ?_
  split
  · exact symbolType_makes.bind fun _ ht => Makes.iterate (fun _ => extendType?_makes level) ht
  · exact symbolType_makes.bind fun _ ht => Makes.iterate (fun _ => extendType?_makes level) ht
  · exact yields_unexpectedDetailed

theorem declaredType?_makes : Makes Live (fun o => ∀ t ∈ o, t.Valid) declaredType? :=
  introduced_makes (typeExpr_makes .lowest)

theorem default?_makes : Makes Live (fun o => ∀ e ∈ o, e.Valid) default? :=
  introduced_makes (expr_makes .lowest)

theorem typeParameter_makes : Makes Live TypeParameter.Valid typeParameter := by
  refine yields_kind fun _ => Yields.ite (fun _ => ?_) fun _ => ?_
  · exact makes_after advance_makes fun _ => Makes.pure trivial
  · refine makes_after expectDetailed_makes fun _ => declaredType?_makes.bind fun _ ht => ?_
    refine default?_makes.bind fun _ he => yields_previousEnd_bind fun _ => ?_
    exact Makes.pure ⟨ht, he⟩

theorem typeParameters?_makes : Makes Live (fun ps => ∀ p ∈ ps, p.Valid) typeParameters? := by
  refine yields_kind fun _ => Yields.ite (fun _ => ?_) fun _ => Makes.pure (List.forall_mem_nil _)
  refine makes_after expect_makes fun _ => yields_kind fun _ => Yields.ite (fun _ => ?_) fun _ => ?_
  · exact makes_after advance_makes fun _ => yields_fail
  · refine (commaList_makes _ typeParameter_makes).bind fun _ hps => ?_
    exact makes_after expect_makes fun _ => Makes.pure hps.2

end Types

end Grammar

end Offside
