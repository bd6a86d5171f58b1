import Mathlib
import Offside.Proofs.Annotation
import Offside.Proofs.Blocks.Recovery
import Offside.Proofs.Scan.Word

namespace Offside

def TypeArgument.isKeyword : TypeArgument → Bool
  | .keyword .. => true
  | _ => false

/-- A type without keywords in its own brackets, and in those of what it is a member of. -/
def TypeExpr.Unkeyed : TypeExpr → Prop
  | .symbol .. => True
  | .qualified _ base _ => base.Unkeyed
  | .generic _ base arguments => base.Unkeyed ∧ ∀ a ∈ arguments, a.isKeyword = false

def Expr.Unconditional : Expr → Prop
  | .member _ object _ => object.Unconditional
  | .subscript _ object indices => object.Unconditional ∧ ∀ e ∈ indices, e.isConditional = false
  | _ => True

namespace TypeExpr

theorem ofExprs_eq_map (es : List Expr) : TypeArgument.ofExprs es = es.map TypeArgument.ofExpr := by
  induction es with
  | nil => rfl
  | cons e es ih =>
    rw [TypeArgument.ofExprs, ih]
    rfl

theorem ofExpr?_subscript {s : Span} {object : Expr} {indices : List Expr}
    (h : ∀ e ∈ indices, e.isSlice = false) : ofExpr? (.subscript s object indices) =
      (ofExpr? object).map fun base => .generic s base (indices.map TypeArgument.ofExpr) := by
  have hslices : indices.any Expr.isSlice = false := by simpa using h
  rw [ofExpr?, if_neg (by simp [hslices]), ofExprs_eq_map]

/-- A type has the span of the expression it is read from. -/
theorem ofExpr?_span {e : Expr} {t : TypeExpr} (h : ofExpr? e = some t) : t.span = e.span := by
  cases e with
  | symbol | noneLiteral =>
    cases h
    rfl
  | member s object name =>
    obtain ⟨base, -, rfl⟩ := Option.map_eq_some_iff.mp h
    rfl
  | subscript s object indices =>
    rw [ofExpr?] at h
    split at h
    · cases h
    · obtain ⟨base, -, rfl⟩ := Option.map_eq_some_iff.mp h
      rfl
  | _ => cases h

end TypeExpr

namespace Grammar

open TypeExpr (ofExpr?)

variable {c d u : Cursor} {t t' : TypeExpr} {e e' left : Expr}

section Items

theorem level_behind_item (hd : d.kind = .comma ∨ d.kind = .closeBracket) : d.level = .lowest := by
  rcases hd with hd | hd <;> rw [level_eq_ofKind (by simp [hd]) (by simp [hd]), hd] <;> rfl

/-- No expression starts with a colon. -/
theorem kind_ne_colon {level : Level} (h : expr level c = .ok e d) : c.kind ≠ .colon := by
  intro hk
  rw [expr_eq_climb] at h
  obtain ⟨left, u, hleft, -⟩ := bind_eq_ok.mp h
  unfold operand at hleft
  rw [Rule.kind_run, hk] at hleft
  cases hleft

theorem atKeyword_cases (c : Cursor) : atKeyword c = .ok true c ∨ atKeyword c = .ok false c := by
  rcases Bool.eq_false_or_eq_true (decide (c.kind = .identifier) && decide (c.peek 1 = .assignment)) with h | h
  · exact Or.inl (congrArg (EStateM.Result.ok · c) h)
  · exact Or.inr (congrArg (EStateM.Result.ok · c) h)

/-- With a colon an index becomes a slice. -/
theorem sliceTail_isSlice {start : Offset} {lower : Option Expr} {b : Argument}
    (h : sliceTail expr start lower c = .ok b d) : ∃ e, b = .positional e ∧ e.isSlice = true := by
  obtain ⟨_, _, -, h⟩ := bind_eq_ok.mp h
  obtain ⟨upper, _, -, h⟩ := bind_eq_ok.mp h
  obtain ⟨eaten, _, -, h⟩ := bind_eq_ok.mp h
  cases eaten with
  | true =>
    obtain ⟨step, _, -, h⟩ := bind_eq_ok.mp h
    cases h
    exact ⟨_, rfl, rfl⟩
  | false =>
    cases h
    exact ⟨_, rfl, rfl⟩

/-- An index that is no slice is an expression. -/
theorem bracketItem_positional (h : bracketItem expr c = .ok (.positional e) d)
    (hslice : e.isSlice = false) : atKeyword c = .ok false c ∧ expr .lowest c = .ok e d := by
  -- with a colon in it or in front of it, it would have been a slice
  have hwhole {start : Offset} {lower : Option Expr} {v : Cursor} :
      sliceTail expr start lower v ≠ .ok (.positional e) d := by
    intro htail
    obtain ⟨e', he, hs⟩ := sliceTail_isSlice htail
    cases he
    rw [hslice] at hs
    contradiction
  rcases atKeyword_cases c with hkeyed | hkeyed
  · rw [bracketItem, bind_ok hkeyed, if_pos rfl, argument, bind_ok hkeyed, if_pos rfl] at h
    obtain ⟨_, _, -, h⟩ := bind_eq_ok.mp h
    obtain ⟨_, _, -, h⟩ := bind_eq_ok.mp h
    obtain ⟨_, _, -, h⟩ := bind_eq_ok.mp h
    cases h
  · refine ⟨hkeyed, ?_⟩
    rw [bracketItem, bind_ok hkeyed, if_neg Bool.false_ne_true, Rule.here_run, Rule.kind_run] at h
    by_cases hcolon : c.kind = .colon
    · rw [if_pos hcolon] at h
      exact absurd h hwhole
    · rw [if_neg hcolon] at h
      obtain ⟨e', v, he, h⟩ := bind_eq_ok.mp h
      rw [Rule.kind_run] at h
      by_cases hcolon : v.kind = .colon
      · rw [if_pos hcolon] at h
        exact absurd h hwhole
      · rw [if_neg hcolon] at h
        cases h
        exact he

/-- An index and the type argument that it is. -/
def Indexed (b : Argument) (a : TypeArgument) : Prop :=
  ∃ e, b = .positional e ∧ a = .ofExpr e ∧ e.isSlice = false

/-- An argument of a type that has no keyword is an index. -/
theorem typeArgument_bracketItem {a : TypeArgument} (hl : c.last.kind = .eof)
    (hkeyword : a.isKeyword = false) (h : typeArgument c = .ok a d)
    (hd : d.kind = .comma ∨ d.kind = .closeBracket) :
    ∃ b, bracketItem expr c = .ok b d ∧ Indexed b a := by
  rcases atKeyword_cases c with hkeyed | hkeyed
  · rw [typeArgument, bind_ok hkeyed] at h
    obtain ⟨_, _, -, h⟩ := bind_eq_ok.mp h
    obtain ⟨_, _, -, h⟩ := bind_eq_ok.mp h
    obtain ⟨_, _, -, h⟩ := bind_eq_ok.mp h
    cases h
    contradiction
  · rw [typeArgument, bind_ok hkeyed] at h
    obtain ⟨e, v, he, h⟩ := bind_eq_ok.mp h
    cases h
    have hfits := (expr_reading .conditional c hl [] c _ _ (.refl c) he).2.fits
    have hloose : expr .lowest c = .ok e d :=
      expr_looser hl he (Nat.zero_le _) (Nat.le_of_eq (congrArg Level.rank (level_behind_item hd)))
    refine ⟨.positional e, ?_, e, rfl, rfl, Expr.isSlice_of_lt (Nat.lt_trans (by decide) hfits.value)⟩
    rw [bracketItem, bind_ok hkeyed, if_neg Bool.false_ne_true, Rule.here_run, Rule.kind_run,
      if_neg (kind_ne_colon he), bind_ok hloose, Rule.kind_run, if_neg (by rcases hd with hd | hd <;> simp [hd])]
    rfl

/-- An index that is neither a slice nor a conditional is an argument of a type. -/
theorem bracketItem_typeArgument (hl : c.last.kind = .eof) (hslice : e.isSlice = false)
    (hconditional : e.isConditional = false) (h : bracketItem expr c = .ok (.positional e) d) :
    typeArgument c = .ok (.ofExpr e) d := by
  obtain ⟨hkeyed, he⟩ := bracketItem_positional h hslice
  rw [typeArgument, bind_ok hkeyed]
  exact bind_ok (expr_value hl he hconditional)

theorem indices_positional (es : List Expr) : indices (es.map .positional) = .ok es := by
  induction es with
  | nil => rfl
  | cons e es ih => rw [List.map_cons, indices, ih]

end Items

section Brackets

/-- Behind a token that was consumed the consumed tokens end with it. -/
theorem previousEnd_advance (hl : c.last.kind = .eof) (hk : c.kind ≠ .eof) :
    c.advance.previousEnd = c.current.span.stop := by
  have hprevious : c.advance.previous = some c.current := (Cursor.took_current hl hk).previous_eq
  rw [Cursor.previousEnd, hprevious]

theorem genericType_eq_ok (h : genericType t c = .ok t' d) : ∃ v arguments,
    c.advance.kind ≠ .closeBracket ∧
      Rule.commaList (· == .closeBracket) typeArgument c.advance = .ok arguments v ∧
      v.kind = .closeBracket ∧ d = v.advance ∧
      t' = .generic (t.span.through v.current.span) t arguments := by
  rw [genericType, Rule.advance_run, Rule.kind_run] at h
  split at h
  · cases h
  · next hk =>
    obtain ⟨arguments, v, harguments, h⟩ := bind_eq_ok.mp h
    obtain ⟨closing, w, hclosing, h⟩ := bind_eq_ok.mp h
    unfold Rule.expect at hclosing
    split at hclosing
    · next hv =>
      cases hclosing
      cases h
      exact ⟨v, arguments, hk, harguments, hv, rfl, rfl⟩
    · cases hclosing

/-- Brackets without parentheses behind them are a subscript. -/
theorem bracket_eq_ok (h : bracket expr left c = .ok e d) (hd : (ofExpr? e).isSome) : ∃ v es,
    c.advance.kind ≠ .closeBracket ∧
      Rule.commaList (· == .closeBracket) (bracketItem expr) c.advance = .ok (es.map .positional) v ∧
      v.kind = .closeBracket ∧ d = v.advance ∧ e = .subscript ⟨left.span.start, d.previousEnd⟩ left es := by
  rw [bracket, Rule.advance_run, Rule.kind_run] at h
  split at h
  · cases h
  · next hk =>
    obtain ⟨items, v, hitems, h⟩ := bind_eq_ok.mp h
    obtain ⟨closing, w, hclosing, h⟩ := bind_eq_ok.mp h
    unfold Rule.expect at hclosing
    split at hclosing
    · next hv =>
      cases hclosing
      rw [bracketed, Rule.kind_run] at h
      by_cases hcall : v.advance.kind = .openParen
      · rw [if_pos hcall] at h
        cases hfault : items.findSome? typeArgumentFault? with
        | some fault =>
          rw [hfault] at h
          cases h
        | none =>
          rw [hfault] at h
          obtain ⟨_, _, -, h⟩ := bind_eq_ok.mp h
          cases h
          contradiction
      · rw [if_neg hcall] at h
        cases hindices : indices items with
        | error fault =>
          rw [hindices] at h
          cases h
        | ok es =>
          rw [hindices] at h
          cases h
          exact ⟨v, es, hk, indices_eq_ok hindices ▸ hitems, hv, rfl, rfl⟩
    · cases hclosing

theorem indexed_lists {bs : List Argument} {as : List TypeArgument}
    (h : List.Forall₂ (fun a b => Indexed b a) as bs) :
    ∃ es : List Expr, bs = es.map .positional ∧ as = es.map .ofExpr ∧ ∀ e ∈ es, e.isSlice = false := by
  induction h with
  | nil => exact ⟨[], rfl, rfl, List.forall_mem_nil _⟩
  | cons hab _ ih =>
    obtain ⟨e, rfl, rfl, he⟩ := hab
    obtain ⟨es, rfl, rfl, hes⟩ := ih
    exact ⟨e :: es, rfl, rfl, List.forall_mem_cons.mpr ⟨he, hes⟩⟩

/-- Type arguments without keywords are the indices of a subscript. -/
theorem genericType_bracket (hl : c.last.kind = .eof) (hleft : ofExpr? left = some t)
    (h : genericType t c = .ok t' d) (hkeyed : t'.Unkeyed) (hd : d.kind ≠ .openParen) :
    ∃ e, bracket expr left c = .ok e d ∧ ofExpr? e = some t' := by
  obtain ⟨v, arguments, hk, harguments, hv, rfl, rfl⟩ := genericType_eq_ok h
  have hl' : c.advance.last.kind = .eof := c.last_advance ▸ hl
  obtain ⟨items, hitems, hrel⟩ := commaList_transfer (W := fun a => a.isKeyword = false)
    (R := fun a b => Indexed b a)
    (fun hl hwant h hd => typeArgument_bracketItem hl hwant h hd) hl' hkeyed.2 harguments hv
  obtain ⟨es, rfl, rfl, hslices⟩ := indexed_lists hrel
  have hlast : v.last.kind = .eof := (Forward.of_ok harguments).last_eq ▸ hl'
  have hend : v.advance.previousEnd = v.current.span.stop := previousEnd_advance hlast (by simp [hv])
  refine ⟨.subscript ⟨left.span.start, v.advance.previousEnd⟩ left es, ?_, ?_⟩
  · rw [bracket, Rule.advance_run, Rule.kind_run, if_neg hk, bind_ok hitems, bind_ok (Rule.expect_ok hv),
      bracketed, Rule.kind_run, if_neg hd, indices_positional]
    rfl
  · rw [TypeExpr.ofExpr?_subscript hslices, hleft, hend, ← TypeExpr.ofExpr?_span hleft]
    rfl

/-- The indices of a subscript that reads as a type are type arguments, unless one is a
conditional. -/
theorem bracket_genericType (hl : c.last.kind = .eof) (h : bracket expr left c = .ok e d)
    (he : ofExpr? e = some t') (hconditional : e.Unconditional) :
    ∃ t, ofExpr? left = some t ∧ genericType t c = .ok t' d := by
  obtain ⟨v, es, hk, hitems, hv, rfl, rfl⟩ := bracket_eq_ok h (he ▸ rfl)
  have hslices : ∀ e ∈ es, e.isSlice = false := by
    intro e hmem
    by_contra hslice
    rw [ofExpr?, if_pos (List.any_eq_true.mpr ⟨e, hmem, by simpa using hslice⟩)] at he
    cases he
  rw [TypeExpr.ofExpr?_subscript hslices] at he
  obtain ⟨t, hleft, rfl⟩ := Option.map_eq_some_iff.mp he
  have hl' : c.advance.last.kind = .eof := c.last_advance ▸ hl
  obtain ⟨arguments, harguments, hrel⟩ := commaList_transfer
    (W := fun b => ∃ e, b = .positional e ∧ e.isSlice = false ∧ e.isConditional = false)
    (R := Indexed) (fun hl hwant h _ => by
      obtain ⟨e, rfl, hslice, hvalue⟩ := hwant
      exact ⟨.ofExpr e, bracketItem_typeArgument hl hslice hvalue h, e, rfl, rfl, hslice⟩)
    hl' (List.forall_mem_map.mpr fun e he => ⟨e, rfl, hslices e he, hconditional.2 e he⟩ :
      ∀ b ∈ es.map Argument.positional, _) hitems hv
  obtain ⟨es', heq, rfl, -⟩ := indexed_lists hrel.flip
  obtain rfl : es = es' := List.map_injective_iff.mpr (fun _ _ h => Argument.positional.inj h) heq
  have hlast : v.last.kind = .eof := (Forward.of_ok hitems).last_eq ▸ hl'
  have hend : v.advance.previousEnd = v.current.span.stop := previousEnd_advance hlast (by simp [hv])
  refine ⟨t, hleft, ?_⟩
  rw [genericType, Rule.advance_run, Rule.kind_run, if_neg hk, bind_ok harguments,
    bind_ok (Rule.expect_ok hv), hend, ← TypeExpr.ofExpr?_span hleft]
  rfl

/-- Members are read alike. -/
theorem qualifiedType_member (hleft : ofExpr? left = some t) (h : qualifiedType t c = .ok t' d) :
    ∃ e, member left c = .ok e d ∧ ofExpr? e = some t' := by
  rw [qualifiedType, Rule.advance_run] at h
  obtain ⟨name, v, hname, h⟩ := bind_eq_ok.mp h
  cases h
  unfold Rule.expect at hname
  split at hname
  · next hk =>
    cases hname
    refine ⟨.member (left.span.through c.advance.current.span) left c.advance.current.text, ?_, ?_⟩
    · rw [member, Rule.advance_run, bind_ok (Rule.expectDetailed_ok hk)]
      rfl
    · rw [ofExpr?, hleft, TypeExpr.ofExpr?_span hleft]
      rfl
  · cases hname

theorem member_qualifiedType (h : member left c = .ok e d) (he : ofExpr? e = some t') :
    ∃ t, ofExpr? left = some t ∧ qualifiedType t c = .ok t' d := by
  rw [member, Rule.advance_run] at h
  obtain ⟨name, v, hname, h⟩ := bind_eq_ok.mp h
  cases h
  obtain ⟨t, hleft, rfl⟩ := Option.map_eq_some_iff.mp he
  unfold Rule.expectDetailed at hname
  split at hname
  · next hk =>
    cases hname
    refine ⟨t, hleft, ?_⟩
    rw [qualifiedType, Rule.advance_run, bind_ok (Rule.expect_ok hk), TypeExpr.ofExpr?_span hleft]
    rfl
  · cases hname

end Brackets

section Chains

/-- Where the trailers of an expression end. -/
theorem level_le_power (hdot : c.kind ≠ .dot) (hbracket : c.kind ≠ .openBracket)
    (hparen : c.kind ≠ .openParen) (hcaret : c.kind = .caret → c.level ≠ .trailer) :
    c.level ≤ .power := by
  by_cases hk : c.kind = .caret
  · rw [(level_caret hk).resolve_right (hcaret hk)]
    decide
  by_cases hnot : c.kind = .kwNot
  · rw [Cursor.level, hnot]
    dsimp only
    split <;> decide
  · rw [level_eq_ofKind hk hnot]
    revert hdot hbracket hparen
    cases c.kind <;> decide

/-- A token that extends a name tightly is one of a trailer. -/
theorem kind_of_power_lt (h : .power < c.level) : c.kind = .dot ∨ c.kind = .openBracket ∨
    c.kind = .openParen ∨ c.kind = .caret ∧ c.level = .trailer := by
  by_contra hnone
  simp only [not_or, not_and] at hnone
  exact Nat.not_lt.mpr (level_le_power hnone.1 hnone.2.1 hnone.2.2.1 hnone.2.2.2) h

theorem level_of_trailer (hk : c.kind = .dot ∨ c.kind = .openBracket) : c.level = .trailer := by
  rcases hk with hk | hk <;> rw [level_eq_ofKind (by simp [hk]) (by simp [hk]), hk] <;> rfl

/-- A property that no step brings about holds of what a loop starts with, if it does of what the
loop ends with. -/
theorem iterate_back {σ α : Type} {size : σ → Nat} {step : α → EStateM Diagnostic σ (Option α)}
    {P : α → Prop} (hstep : ∀ {a b s t}, step a s = .ok (some b) t → P b → P a) {a z : α} {s u : σ}
    (h : iterate size step a s = .ok z u) (hz : P z) : P a := by
  induction s using WellFounded.induction (measure size).wf generalizing a with
  | _ s ih =>
    rw [iterate] at h
    split at h
    · cases h
    · cases h
      exact hz
    · next b t hnext =>
      split at h
      · next hlt => exact hstep hnext (ih t hlt h)
      · cases h
        exact hstep hnext hz

theorem extendType?_none (hdot : c.kind ≠ .dot) (hbracket : c.kind ≠ .openBracket) :
    extendType? .lowest t c = .ok none c := by
  rw [extendType?, if_pos (by decide), Rule.kind_run]
  generalize c.kind = k at hdot hbracket
  cases k <;> first | rfl | contradiction

theorem extendType?_eq_some (h : extendType? .lowest t c = .ok (some t') d) :
    (c.kind = .dot ∧ qualifiedType t c = .ok t' d) ∨
      (c.kind = .openBracket ∧ genericType t c = .ok t' d) := by
  by_cases hdot : c.kind = .dot
  · rw [extendType?, if_pos (by decide), Rule.kind_run, hdot] at h
    obtain ⟨b, u, hb, hsome⟩ := bind_eq_ok.mp h
    cases hsome
    exact Or.inl ⟨hdot, hb⟩
  by_cases hbracket : c.kind = .openBracket
  · rw [extendType?, if_pos (by decide), Rule.kind_run, hbracket] at h
    obtain ⟨b, u, hb, hsome⟩ := bind_eq_ok.mp h
    cases hsome
    exact Or.inr ⟨hbracket, hb⟩
  · rw [extendType?_none hdot hbracket] at h
    cases h

theorem extendType?_eq_none (h : extendType? .lowest t c = .ok none d) :
    d = c ∧ c.kind ≠ .dot ∧ c.kind ≠ .openBracket := by
  have hgoes {x : Rule TypeExpr} : (some <$> x) c ≠ .ok none d := by
    intro hx
    obtain ⟨_, _, -, hnone⟩ := bind_eq_ok.mp hx
    cases hnone
  by_cases hdot : c.kind = .dot
  · rw [extendType?, if_pos (by decide), Rule.kind_run, hdot] at h
    exact absurd h hgoes
  by_cases hbracket : c.kind = .openBracket
  · rw [extendType?, if_pos (by decide), Rule.kind_run, hbracket] at h
    exact absurd h hgoes
  · rw [extendType?_none hdot hbracket] at h
    cases h
    exact ⟨rfl, hdot, hbracket⟩

theorem extendType?_of_trailer (h : c.kind = .dot ∧ qualifiedType t c = .ok t' d ∨
    c.kind = .openBracket ∧ genericType t c = .ok t' d) :
    extendType? .lowest t c = .ok (some t') d := by
  rcases h with ⟨hk, h⟩ | ⟨hk, h⟩
  all_goals
    rw [extendType?, if_pos (by decide), Rule.kind_run, hk]
    exact bind_ok h

theorem unkeyed_of_extended (h : extendType? .lowest t c = .ok (some t') d) (ht : t'.Unkeyed) :
    t.Unkeyed := by
  rcases extendType?_eq_some h with ⟨-, h⟩ | ⟨-, h⟩
  · obtain ⟨_, _, -, h⟩ := bind_eq_ok.mp h
    obtain ⟨_, _, -, h⟩ := bind_eq_ok.mp h
    cases h
    exact ht
  · obtain ⟨_, _, _, _, _, _, rfl⟩ := genericType_eq_ok h
    exact ht.1

/-- What follows a part of a type: more of it or what follows the type. -/
theorem kind_of_chain (h : iterate Cursor.remaining (extendType? .lowest) t c = .ok t' d)
    (hl : c.last.kind = .eof) (hd : d.kind ≠ .openParen) : c.kind ≠ .openParen := by
  rcases iterate_cases hl h with ⟨hend, -⟩ | ⟨_, _, hstep, -⟩
  · rwa [(extendType?_eq_none hend).1] at hd
  · rcases extendType?_eq_some hstep with ⟨hk, -⟩ | ⟨hk, -⟩ <;> simp [hk]

theorem extend?_of_trailer (h : c.kind = .dot ∧ member left c = .ok e d ∨
    c.kind = .openBracket ∧ bracket expr left c = .ok e d) :
    extend? expr .power left c = .ok (some e) d := by
  have hlevel := level_of_trailer (h.imp And.left And.left)
  rw [extend?_of_lt (hlevel ▸ by decide)]
  refine bind_ok (a := e) ?_
  rcases h with ⟨hk, h⟩ | ⟨hk, h⟩ <;> rwa [extension, Rule.kind_run, hk]

/-- What reads as a type is extended by its last trailer. -/
theorem trailer_of_extended (h : extend? expr .power left c = .ok (some e) d)
    (he : (ofExpr? e).isSome) : c.kind = .dot ∧ member left c = .ok e d ∨
      c.kind = .openBracket ∧ bracket expr left c = .ok e d := by
  obtain ⟨hlt, h⟩ := extend?_eq_some h
  rcases kind_of_power_lt hlt with hk | hk | hk | ⟨hk, hlevel⟩ <;>
    rw [extension, Rule.kind_run, hk] at h
  · exact Or.inl ⟨hk, h⟩
  · exact Or.inr ⟨hk, h⟩
  · obtain ⟨_, _, -, h⟩ := bind_eq_ok.mp h
    cases h
    contradiction
  · rw [hlevel] at h
    obtain ⟨_, _, -, h⟩ := bind_eq_ok.mp h
    cases h
    contradiction

theorem shaped_of_extended (h : extend? expr .power left c = .ok (some e) d)
    (he : (ofExpr? e).isSome ∧ e.Unconditional) : (ofExpr? left).isSome ∧ left.Unconditional := by
  rcases trailer_of_extended h he.1 with ⟨-, h⟩ | ⟨-, h⟩
  · obtain ⟨_, _, -, h⟩ := bind_eq_ok.mp h
    obtain ⟨_, _, -, h⟩ := bind_eq_ok.mp h
    cases h
    exact ⟨Option.isSome_map ▸ he.1, he.2⟩
  · obtain ⟨_, es, _, _, _, _, rfl⟩ := bracket_eq_ok h he.1
    obtain ⟨hread, hconditional⟩ := he
    rw [ofExpr?] at hread
    split at hread
    · cases hread
    · exact ⟨Option.isSome_map ▸ hread, hconditional.1⟩

end Chains

section Agreement

/-- What reads as a type begins with a name or with `None`. -/
theorem kind_of_ofExpr? {ps : List Piece} : ∀ {e : Expr}, (ofExpr? e).isSome →
    c.Read (e.pieces ++ ps) d → c.kind = .identifier ∨ c.kind = .kwNone
  | .symbol s name, _, hread => by
    obtain ⟨t, hat, hk, -⟩ := Cursor.Read.at_name hread
    exact Or.inl (hat.kind.trans hk)
  | .noneLiteral s, _, hread => by
    obtain ⟨t, hat, hk⟩ := Cursor.Read.at_fixed hread (by decide)
    exact Or.inr (hat.kind.trans hk)
  | .member s object name, h, hread => by
    rw [Expr.pieces, List.append_assoc] at hread
    exact kind_of_ofExpr? (e := object) (Option.isSome_map ▸ h) hread
  | .subscript s object indices, h, hread => by
    rw [Expr.pieces, List.append_assoc] at hread
    rw [ofExpr?] at h
    split at h
    · cases h
    · exact kind_of_ofExpr? (e := object) (Option.isSome_map ▸ h) hread

/-- Names, as operands and as types. -/
theorem operand_name (hk : c.kind = .identifier ∨ c.kind = .kwNone)
    (htext : c.kind = .kwNone → c.current.text = "None") :
    ∃ e, operand expr c = .ok e c.advance ∧
      ofExpr? e = some (.symbol c.current.span c.current.text) ∧ e.Unconditional := by
  rcases hk with hk | hk
  · refine ⟨.symbol c.current.span c.current.text, ?_, rfl, trivial⟩
    rw [operand, Rule.kind_run, hk, operandAt_atom rfl, primary, Rule.advance_run, atom,
      show c.current.kind = .identifier from hk]
    rfl
  · refine ⟨.noneLiteral c.current.span, ?_, by rw [ofExpr?, htext hk], trivial⟩
    rw [operand, Rule.kind_run, hk, operandAt_atom rfl, primary, Rule.advance_run, atom,
      show c.current.kind = .kwNone from hk]
    rfl

theorem typeExpr_eq_iterate (hk : c.kind = .identifier ∨ c.kind = .kwNone) :
    typeExpr .lowest c = iterate Cursor.remaining (extendType? .lowest)
      (.symbol c.current.span c.current.text) c.advance := by
  have hsymbol : symbolType c = .ok (.symbol c.current.span c.current.text) c.advance := by
    rw [symbolType, Rule.advance_run, symbolTypeBy]
    rcases hk with hk | hk
    · rw [show c.current.kind = .identifier from hk]
      rfl
    · rw [show c.current.kind = .kwNone from hk]
      rfl
  rw [typeExpr, Rule.kind_run]
  rcases hk with hk | hk <;> rw [hk] <;> exact bind_ok hsymbol

/-- A type behind a colon reads as an expression, which is that type. -/
theorem expr_of_typeExpr (hl : c.last.kind = .eof)
    (htext : c.kind = .kwNone → c.current.text = "None") (h : typeExpr .lowest c = .ok t d)
    (ht : t.Unkeyed) (hparen : d.kind ≠ .openParen) (hcaret : d.kind = .caret → d.level ≠ .trailer) :
    ∃ e, expr .power c = .ok e d ∧ ofExpr? e = some t := by
  have hk : c.kind = .identifier ∨ c.kind = .kwNone := by
    by_contra hk
    obtain ⟨hname, hnone⟩ := not_or.mp hk
    rw [typeExpr, Rule.kind_run] at h
    generalize c.kind = k at h hname hnone
    cases k <;> contradiction
  rw [typeExpr_eq_iterate hk] at h
  obtain ⟨left, hleft, hread, -⟩ := operand_name hk htext
  obtain ⟨e, he, heq⟩ := iterate_transfer (R := fun t e => ofExpr? e = some t)
    (g := extend? expr .power)
    (fun {t e t' c u} hl hrel hstep hrest => by
      -- a keyword in the brackets of a part would be one of the whole
      have hunkeyed : t'.Unkeyed := iterate_back (P := TypeExpr.Unkeyed) unkeyed_of_extended hrest ht
      rcases extendType?_eq_some hstep with ⟨hk, hmember⟩ | ⟨hk, hgeneric⟩
      · obtain ⟨e', he', hread'⟩ := qualifiedType_member hrel hmember
        exact ⟨e', extend?_of_trailer (Or.inl ⟨hk, he'⟩), hread'⟩
      · have hu : u.last.kind = .eof := (Forward.of_ok hgeneric).last_eq ▸ hl
        obtain ⟨e', he', hread'⟩ :=
          genericType_bracket hl hrel hgeneric hunkeyed (kind_of_chain hrest hu hparen)
        exact ⟨e', extend?_of_trailer (Or.inr ⟨hk, he'⟩), hread'⟩)
    (fun {e c} hrel hstep => by
      obtain ⟨rfl, hdot, hbracket⟩ := extendType?_eq_none hstep
      exact extend?_of_le (level_le_power hdot hbracket hparen hcaret))
    (c.last_advance ▸ hl) hread h
  refine ⟨e, ?_, heq⟩
  rw [expr_eq_climb_expr hl]
  exact (bind_ok hleft).trans he

/-- An expression that reads as a type is that type behind a colon. -/
theorem typeExpr_of_expr (hl : c.last.kind = .eof)
    (htext : c.kind = .kwNone → c.current.text = "None") (h : expr .power c = .ok e d)
    (he : ofExpr? e = some t) (hconditional : e.Unconditional) : typeExpr .lowest c = .ok t d := by
  have hread := (expr_reading .power c hl [] c e d (.refl c) h).1
  have hk := kind_of_ofExpr? (by rw [he]; rfl) (show c.Read (e.pieces ++ []) d by simpa using hread)
  obtain ⟨left, hleft, hname, -⟩ := operand_name hk htext
  rw [expr_eq_climb_expr hl] at h
  have hclimb := (bind_ok hleft).symm.trans h
  obtain ⟨t', ht', heq⟩ := iterate_transfer (R := fun e t => ofExpr? e = some t)
    (g := extendType? .lowest)
    (fun {e t e' c u} hl hrel hstep hrest => by
      -- trailers are never taken off again, so if the whole reads as a type, so does each part
      have hshaped : (ofExpr? e').isSome ∧ e'.Unconditional :=
        iterate_back (P := fun e => (ofExpr? e).isSome ∧ e.Unconditional) shaped_of_extended hrest
          ⟨he ▸ rfl, hconditional⟩
      obtain ⟨t', ht'⟩ := Option.isSome_iff_exists.mp hshaped.1
      refine ⟨t', extendType?_of_trailer ?_, ht'⟩
      apply (trailer_of_extended hstep hshaped.1).imp
      · rintro ⟨hk, hmember⟩
        obtain ⟨s, hs, hqualified⟩ := member_qualifiedType hmember ht'
        obtain rfl := Option.some.inj (hs.symm.trans hrel)
        exact ⟨hk, hqualified⟩
      · rintro ⟨hk, hbracket⟩
        obtain ⟨s, hs, hgeneric⟩ := bracket_genericType hl hbracket ht' hshaped.2
        obtain rfl := Option.some.inj (hs.symm.trans hrel)
        exact ⟨hk, hgeneric⟩)
    (fun {t c} hrel hstep => by
      obtain ⟨hle, rfl⟩ := extend?_eq_none hstep
      refine extendType?_none (fun hk => ?_) fun hk => ?_
      · rw [level_of_trailer (Or.inl hk)] at hle
        exact absurd hle (by decide)
      · rw [level_of_trailer (Or.inr hk)] at hle
        exact absurd hle (by decide))
    (c.last_advance ▸ hl) hname hclimb
  obtain rfl := Option.some.inj (he.symm.trans heq)
  rw [typeExpr_eq_iterate hk]
  exact ht'

theorem current_mem_of_skip {ts : List Token} {i : Nat} (hk : ((Cursor.ofTokens ts).skip i).kind ≠ .eof) :
    ((Cursor.ofTokens ts).skip i).current ∈ ts := by
  have hl : ((Cursor.ofTokens ts).skip i).last.kind = .eof := by
    rw [Cursor.last_skip]
    exact Cursor.last_ofTokens ts
  obtain ⟨us, htook, -⟩ := Cursor.forth_skip i (Cursor.ofTokens ts)
  obtain ⟨rest, hrest⟩ := Cursor.exists_cons hl hk
  have hmem : ((Cursor.ofTokens ts).skip i).current ∈ (Cursor.ofTokens ts).rest := by
    rw [htook.rest_eq, hrest]
    exact List.mem_append_right us List.mem_cons_self
  refine List.Sublist.mem hmem ?_
  unfold Cursor.ofTokens
  split
  · exact List.nil_sublist ts
  · split
    · exact List.dropLast_sublist ts
    · exact List.Sublist.refl ts

/-- Wherever a type stands in a scanned stream, the rule for types and the rule for expressions
return the same type with the same spans, and end at the same token. -/
theorem typeExpr_agrees (cfg : Config) (source : String) (i : Nat) :
    let c := (Cursor.ofTokens (Scan.scan cfg source).tokens).skip i
    (∀ t d, typeExpr .lowest c = .ok t d → t.Unkeyed → d.kind ≠ .openParen →
      (d.kind = .caret → d.level ≠ .trailer) → ∃ e, expr .power c = .ok e d ∧ ofExpr? e = some t) ∧
    ∀ e t d, expr .power c = .ok e d → ofExpr? e = some t → e.Unconditional →
      typeExpr .lowest c = .ok t d := by
  intro c
  have hl : c.last.kind = .eof := by
    rw [Cursor.last_skip]
    exact Cursor.last_ofTokens _
  have htext (hk : c.kind = .kwNone) : c.current.text = "None" := by
    have hword := Scan.scan_word (current_mem_of_skip (show c.kind ≠ .eof by simp [hk]))
      (show c.kind ∈ Kind.words by rw [hk]; decide)
    rw [hword, show c.current.kind = .kwNone from hk]
    rfl
  exact ⟨fun t d => expr_of_typeExpr hl htext, fun e t d => typeExpr_of_expr hl htext⟩

/-- `A.b[None, 1]`, behind a colon and as an expression. -/
theorem typeExpr_agrees_generic :
    let c := (Cursor.ofTokens (Scan.scan {} "x: A.b[None, 1]\n").tokens).skip 2
    let t : TypeExpr := .generic ⟨3, 15⟩ (.qualified ⟨3, 6⟩ (.symbol ⟨3, 4⟩ "A") "b")
      [.type (.symbol ⟨7, 11⟩ "None"), .value (.integer ⟨13, 14⟩ "1" (some 1))]
    let e : Expr := .subscript ⟨3, 15⟩ (.member ⟨3, 6⟩ (.symbol ⟨3, 4⟩ "A") "b")
      [.noneLiteral ⟨7, 11⟩, .integer ⟨13, 14⟩ "1" (some 1)]
    t.Unkeyed ∧ e.Unconditional ∧ ∃ d, d.kind = .newline ∧ typeExpr .lowest c = .ok t d ∧
      ∃ e', expr .power c = .ok e' d ∧ ofExpr? e' = some t := by
  intro c t e
  let d : Cursor := ⟨some ⟨.closeBracket, "]", ⟨14, 15⟩⟩, [⟨.newline, "", ⟨15, 16⟩⟩], ⟨.eof, "", ⟨16, 16⟩⟩⟩
  have htokens : (Scan.scan {} "x: A.b[None, 1]\n").tokens = [⟨.identifier, "x", ⟨0, 1⟩⟩,
      ⟨.colon, ":", ⟨1, 2⟩⟩, ⟨.identifier, "A", ⟨3, 4⟩⟩, ⟨.dot, ".", ⟨4, 5⟩⟩,
      ⟨.identifier, "b", ⟨5, 6⟩⟩, ⟨.openBracket, "[", ⟨6, 7⟩⟩, ⟨.kwNone, "None", ⟨7, 11⟩⟩,
      ⟨.comma, ",", ⟨11, 12⟩⟩, ⟨.integer, "1", ⟨13, 14⟩⟩, ⟨.closeBracket, "]", ⟨14, 15⟩⟩,
      ⟨.newline, "", ⟨15, 16⟩⟩, ⟨.eof, "", ⟨16, 16⟩⟩] := by
    decide +kernel
  have he : expr .power c = .ok e d := by
    simp only [c, e, d, htokens]
    cbv
  have hunkeyed : t.Unkeyed := ⟨trivial, by simp [TypeArgument.isKeyword]⟩
  have hunconditional : e.Unconditional := ⟨trivial, by simp [Expr.isConditional]⟩
  obtain ⟨hto, hof⟩ := typeExpr_agrees {} "x: A.b[None, 1]\n" 2
  have ht : typeExpr .lowest c = .ok t d := hof e t d he rfl hunconditional
  exact ⟨hunkeyed, hunconditional, d, rfl, ht,
    hto t d ht hunkeyed Kind.noConfusion (fun h => Kind.noConfusion h)⟩

end Agreement

end Grammar

end Offside
