import Offside.Proofs.Annotation.Agree
import Offside.Proofs.Writing.Type

namespace Offside

section Trees

mutual

/-- The tokens of a type. At every depth its arguments stand in brackets, and conditionals among
them in parentheses. -/
def TypeExpr.written : TypeExpr → List Piece
  | .symbol _ name => [if name = "None" then .word .kwNone "None" else .name name]
  | .qualified _ base member => base.written ++ [.fixed .dot, .name member]
  | .generic _ base arguments =>
    base.written ++ .fixed .openBracket ::
      (Piece.commaList (TypeArgument.writtenAll arguments) ++ [.fixed .closeBracket])

def TypeArgument.written : TypeArgument → List Piece
  | .type t => t.written
  | .value e => (e.written .value).pieces
  | .keyword _ name argument => .name name :: .fixed .assignment :: argument.written

def TypeArgument.writtenAll : List TypeArgument → List (List Piece)
  | [] => []
  | a :: as => a.written :: TypeArgument.writtenAll as

end

mutual

/-- Types with one argument or more in each of their brackets. Behind `name=` stands a type or a
value, and a value that could be read as a type is one. -/
def TypeExpr.Full : TypeExpr → Prop
  | .symbol .. => True
  | .qualified _ base _ => base.Full
  | .generic _ base arguments => base.Full ∧ arguments ≠ [] ∧ TypeArgument.FullAll arguments

def TypeArgument.Full : TypeArgument → Prop
  | .type t => t.Full
  | .value e => e.Proper ∧ TypeExpr.ofExpr? e = none
  | .keyword _ _ argument => argument.Full ∧ argument.isKeyword = false

def TypeArgument.FullAll : List TypeArgument → Prop
  | [] => True
  | a :: as => a.Full ∧ TypeArgument.FullAll as

end

mutual

/-- A type with parentheses around the conditionals among its arguments. -/
def TypeExpr.guarded : TypeExpr → TypeExpr
  | .symbol s name => .symbol s name
  | .qualified s base member => .qualified s base.guarded member
  | .generic s base arguments => .generic s base.guarded (TypeArgument.guardedAll arguments)

def TypeArgument.guarded : TypeArgument → TypeArgument
  | .type t => .type t.guarded
  | .value e => .value (Place.value.enclose e)
  | .keyword s name argument => .keyword s name argument.guarded

def TypeArgument.guardedAll : List TypeArgument → List TypeArgument
  | [] => []
  | a :: as => a.guarded :: TypeArgument.guardedAll as

end

theorem TypeArgument.writtenAll_eq_map (as : List TypeArgument) :
    TypeArgument.writtenAll as = as.map TypeArgument.written := by
  induction as with
  | nil => rfl
  | cons a as ih => rw [TypeArgument.writtenAll, ih, List.map_cons]

theorem TypeArgument.guardedAll_eq_map (as : List TypeArgument) :
    TypeArgument.guardedAll as = as.map TypeArgument.guarded := by
  induction as with
  | nil => rfl
  | cons a as ih => rw [TypeArgument.guardedAll, ih, List.map_cons]

end Trees

section Guarded

mutual

theorem TypeExpr.plain_guarded : ∀ t : TypeExpr, t.guarded.plain = t.plain
  | .symbol .. => rfl
  | .qualified _ base _ => congrArg (TypeExpr.qualified default · _) (TypeExpr.plain_guarded base)
  | .generic _ base as =>
    congrArg₂ (TypeExpr.generic default) (TypeExpr.plain_guarded base)
      (TypeArgument.plainAll_guardedAll as)

theorem TypeArgument.plain_guarded : ∀ a : TypeArgument, a.guarded.plain = a.plain
  | .type t => congrArg TypeArgument.type (TypeExpr.plain_guarded t)
  | .value e => congrArg TypeArgument.value (Expr.plain_enclose .value e)
  | .keyword _ _ a => congrArg (TypeArgument.keyword default _) (TypeArgument.plain_guarded a)

theorem TypeArgument.plainAll_guardedAll : ∀ as : List TypeArgument,
    TypeArgument.plainAll (TypeArgument.guardedAll as) = TypeArgument.plainAll as
  | [] => rfl
  | a :: as => congrArg₂ List.cons (TypeArgument.plain_guarded a) (TypeArgument.plainAll_guardedAll as)

end

theorem Expr.Proper.enclose {e : Expr} (h : e.Proper) (place : Place) : (place.enclose e).Proper := by
  unfold Place.enclose
  split
  · exact h
  · exact ⟨.parenthesized h.shaped h.whole, rfl⟩

theorem TypeExpr.ofExpr?_enclose {e : Expr} (h : TypeExpr.ofExpr? e = none) (place : Place) :
    TypeExpr.ofExpr? (place.enclose e) = none := by
  unfold Place.enclose
  split
  · exact h
  · rfl

mutual

theorem TypeExpr.Nested.guarded : ∀ {t : TypeExpr}, t.Nested → t.guarded.Nested
  | .symbol .., _ => trivial
  | .qualified _ base _, h => TypeExpr.Nested.guarded (t := base) h
  | .generic _ _ as, h =>
    ⟨h.1.guarded, by simpa [TypeArgument.guardedAll_eq_map] using h.2.1, TypeArgument.nestedAll_guarded h.2.2⟩

theorem TypeArgument.Nested.guarded : ∀ {a : TypeArgument}, a.Nested → a.guarded.Nested
  | .type t, h => TypeExpr.Nested.guarded (t := t) h
  | .value _, h => ⟨h.1.enclose .value, TypeExpr.ofExpr?_enclose h.2 .value⟩

theorem TypeArgument.nestedAll_guarded : ∀ {as : List TypeArgument}, TypeArgument.NestedAll as →
    TypeArgument.NestedAll (TypeArgument.guardedAll as)
  | [], _ => trivial
  | _ :: _, h => ⟨h.1.guarded, TypeArgument.nestedAll_guarded h.2⟩

end

theorem TypeArgument.Proper.guarded : ∀ {a : TypeArgument}, a.Proper → a.guarded.Proper
  | .keyword _ _ argument, h => TypeArgument.Nested.guarded (a := argument) h
  | .type t, h => TypeArgument.Nested.guarded (a := .type t) h
  | .value e, h => TypeArgument.Nested.guarded (a := .value e) h

theorem TypeExpr.Proper.guarded : ∀ {t : TypeExpr}, t.Proper → t.guarded.Proper
  | .symbol .., _ => trivial
  | .qualified _ base _, h => TypeExpr.Proper.guarded (t := base) h
  | .generic _ base as, h => by
    refine ⟨TypeExpr.Proper.guarded (t := base) h.1, ?_, ?_⟩
    · simpa [TypeArgument.guardedAll_eq_map] using h.2.1
    · rw [TypeArgument.guardedAll_eq_map]
      exact List.forall_mem_map.mpr fun a ha => (h.2.2 a ha).guarded

/-- In parentheses where a value needs them, an expression is written the same in any place that is
as loose. -/
theorem Expr.pieces_enclose_value (e : Expr) {place : Place} (hplace : place = .value ∨ place = .free) :
    ((Place.value.enclose e).written place).pieces = (e.written .value).pieces := by
  have hadmits : place.admits (Place.value.enclose e).enclosed = true := by
    rcases hplace with rfl | rfl
    · unfold Place.enclose
      split
      · next h =>
        change decide (_ < e.enclosed.level) = true
        rw [Expr.level_enclosed]
        exact h
      · rfl
    · rfl
  rw [Expr.written, Place.enclose_of_admits hadmits]
  unfold Expr.written Place.enclose
  have hlevel : Place.value.admits e.enclosed = Place.value.admits e := by
    change decide (_ < e.enclosed.level) = decide (_ < e.level)
    rw [Expr.level_enclosed]
  rw [hlevel]
  split
  · rfl
  · rfl

end Guarded

section Refined

namespace Piece

/-- A piece that says what another does, or that and the text of the token too. -/
def Refines (p q : Piece) : Prop := p = q ∨ p = .word .kwNone "None" ∧ q = .fixed .kwNone

theorem Refines.spelled {p q : Piece} {ts : List Token} (h : p.Refines q) (hp : p.Spelled ts) :
    q.Spelled ts := by
  rcases h with rfl | ⟨rfl, rfl⟩
  · exact hp
  · cases hp with
    | word hk _ => exact .fixed hk

theorem Refines.transfer {p q : Piece} (h : p.Refines q) (hq : q = .transfer) : p = .transfer := by
  rcases h with rfl | ⟨rfl, rfl⟩
  · exact hq
  · cases hq

theorem Refines.opens {p q : Piece} (h : p.Refines q) : q.opens = p.opens := by
  rcases h with rfl | ⟨rfl, rfl⟩ <;> rfl

variable {ps qs : List Piece}

abbrev RefinesAll : List Piece → List Piece → Prop := List.Forall₂ Refines

theorem RefinesAll.refl (ps : List Piece) : RefinesAll ps ps := List.forall₂_same.mpr fun _ _ => Or.inl rfl

theorem RefinesAll.commaTail {items items' : List (List Piece)} (h : List.Forall₂ RefinesAll items items') :
    RefinesAll (Piece.commaTail items) (Piece.commaTail items') := by
  induction h with
  | nil => exact .refl _
  | cons hitem _ ih => exact .cons (Or.inl rfl) (List.rel_append hitem ih)

theorem RefinesAll.commaList {items items' : List (List Piece)} (h : List.Forall₂ RefinesAll items items') :
    RefinesAll (Piece.commaList items) (Piece.commaList items') := by
  cases h with
  | nil => exact .refl _
  | cons hitem h => exact List.rel_append hitem (RefinesAll.commaTail h)

theorem RefinesAll.spells {ts : List Token} (h : RefinesAll ps qs) (hps : Spells ps ts) : Spells qs ts := by
  induction hps generalizing qs with
  | nil =>
    cases h
    exact .nil
  | cons hp _ ih =>
    cases h with
    | cons hpq h => exact .cons (hpq.spelled hp) (ih h)

theorem RefinesAll.clear (h : RefinesAll ps qs) (hps : Clear ps) : Clear qs := by
  induction h with
  | nil => exact .nil
  | @cons p q ps qs hpq h ih =>
    cases h with
    | nil => exact .singleton _
    | cons hpq' h =>
      obtain ⟨hnext, hrest⟩ := List.isChain_cons_cons.mp hps
      refine List.isChain_cons_cons.mpr ⟨fun hq => ?_, ih hrest⟩
      rw [hpq'.opens]
      exact hnext (hpq.transfer hq)

end Piece

open Piece (RefinesAll)

theorem Place.loose_of_eq {place : Place} (h : place = .value ∨ place = .free) : place.Loose := by
  intro e he
  rcases h with rfl | rfl
  · exact decide_eq_true (Nat.lt_of_lt_of_le (by decide) he)
  · rfl

mutual

theorem TypeExpr.Nested.refines : ∀ {t : TypeExpr}, t.Nested →
    RefinesAll t.written t.guarded.expr.enclosed.pieces
  | .symbol s name, _ => by
    by_cases hname : name = "None"
    · simp only [TypeExpr.written, TypeExpr.guarded, TypeExpr.expr, if_pos hname]
      exact .cons (Or.inr ⟨rfl, rfl⟩) .nil
    · simp only [TypeExpr.written, TypeExpr.guarded, TypeExpr.expr, if_neg hname]
      exact .refl _
  | .qualified s base member, h => by
    have ih := TypeExpr.Nested.refines (t := base) h
    -- a type is a name or ends in a trailer, so no parentheses stand around what it is a part of
    have hlevel : Place.object.admits base.guarded.expr.enclosed = true :=
      decide_eq_true (TypeExpr.Nested.guarded (t := base) h).trailer_le
    change RefinesAll _ (Expr.member s (Place.enclose .object base.guarded.expr.enclosed) member).pieces
    rw [Place.enclose_of_admits hlevel]
    exact List.rel_append ih (RefinesAll.refl _)
  | .generic s base as, h => by
    obtain ⟨hbase, -, has⟩ := h
    have ih := hbase.refines
    have hlevel : Place.object.admits base.guarded.expr.enclosed = true :=
      decide_eq_true hbase.guarded.trailer_le
    change RefinesAll _ (Expr.subscript s (Place.enclose .object base.guarded.expr.enclosed)
      (Expr.mapPartsAll Place.enclose (TypeArgument.exprAll (TypeArgument.guardedAll as)))).pieces
    rw [Place.enclose_of_admits hlevel]
    refine List.rel_append ih (.cons (Or.inl rfl) (List.rel_append ?_ (RefinesAll.refl _)))
    exact RefinesAll.commaList (TypeArgument.nestedAll_refines has)

theorem TypeArgument.Nested.refines : ∀ {a : TypeArgument}, a.Nested → ∀ {place : Place},
    place = .value ∨ place = .free → RefinesAll a.written (a.guarded.expr.written place).pieces
  | .type t, h, place, hplace => by
    have hlevel : place.admits t.guarded.expr.enclosed = true :=
      Place.loose_of_eq hplace _ (TypeExpr.Nested.guarded (t := t) h).trailer_le
    change RefinesAll t.written (place.enclose t.guarded.expr.enclosed).pieces
    rw [Place.enclose_of_admits hlevel]
    exact TypeExpr.Nested.refines (t := t) h
  | .value e, _, place, hplace => by
    change RefinesAll (e.written .value).pieces ((Place.value.enclose e).written place).pieces
    rw [Expr.pieces_enclose_value e hplace]
    exact .refl _

theorem TypeArgument.nestedAll_refines : ∀ {as : List TypeArgument}, TypeArgument.NestedAll as →
    List.Forall₂ RefinesAll (TypeArgument.writtenAll as) (Expr.piecesAll
      (Expr.mapPartsAll Place.enclose (TypeArgument.exprAll (TypeArgument.guardedAll as))))
  | [], _ => .nil
  | _ :: _, h => .cons (TypeArgument.Nested.refines h.1 (Or.inr rfl)) (TypeArgument.nestedAll_refines h.2)

end

theorem TypeArgument.Proper.refines : ∀ {a : TypeArgument}, a.Proper → RefinesAll a.written a.guarded.pieces
  | .keyword _ _ argument, h =>
    .cons (Or.inl rfl) (.cons (Or.inl rfl) (TypeArgument.Nested.refines (a := argument) h (Or.inl rfl)))
  | .type t, h => TypeArgument.Nested.refines (a := .type t) h (Or.inl rfl)
  | .value e, h => TypeArgument.Nested.refines (a := .value e) h (Or.inl rfl)

theorem TypeExpr.Proper.refines : ∀ {t : TypeExpr}, t.Proper → RefinesAll t.written t.guarded.pieces
  | .symbol .., _ => .refl _
  | .qualified _ base _, h => List.rel_append (TypeExpr.Proper.refines (t := base) h) (RefinesAll.refl _)
  | .generic _ base as, h => by
    have hlists : List.Forall₂ RefinesAll (TypeArgument.writtenAll as)
        ((TypeArgument.guardedAll as).map TypeArgument.pieces) := by
      rw [TypeArgument.writtenAll_eq_map, TypeArgument.guardedAll_eq_map, List.map_map,
        List.forall₂_map_left_iff, List.forall₂_map_right_iff]
      exact List.forall₂_same.mpr fun a ha => (h.2.2 a ha).refines
    exact List.rel_append (TypeExpr.Proper.refines (t := base) h.1)
      (.cons (Or.inl rfl) (List.rel_append (RefinesAll.commaList hlists) (RefinesAll.refl _)))

end Refined

namespace Grammar

variable {c d : Cursor} {t : TypeExpr}

def TypeReadBack (t : TypeExpr) : Prop :=
  ∀ c d : Cursor, c.Read t.written d → d.kind ≠ .dot → d.kind ≠ .openBracket →
    ∃ t', typeExpr .lowest c = .ok t' d ∧ t'.plain = t.plain

/-- At every depth of a type, brackets hold type arguments. -/
theorem typeReadBack (h : t.Proper) (hclear : Clear t.written) : TypeReadBack t := by
  rintro c d ⟨ts, htook, hspells⟩ hdot hbracket
  have hrefines := h.refines
  obtain ⟨t', ht', hplain⟩ := typeExpr_ok h.guarded ⟨ts, htook, hrefines.spells hspells⟩
    (hrefines.clear hclear) hdot hbracket
  exact ⟨t', ht', hplain.trans t.plain_guarded⟩

/-- As in `A[k=B[(x if y else z)]]` at the end of a line. -/
theorem typeReadBack_conditional :
    let value : Expr := .conditional default (.symbol default "x") (.symbol default "y") (.symbol default "z")
    let t : TypeExpr := .generic default (.symbol default "A")
      [.keyword default "k" (.type (.generic default (.symbol default "B") [.value value]))]
    let ts : List Token := [⟨.identifier, "A", ⟨0, 1⟩⟩, ⟨.openBracket, "[", ⟨1, 2⟩⟩,
      ⟨.identifier, "k", ⟨2, 3⟩⟩, ⟨.assignment, "=", ⟨3, 4⟩⟩, ⟨.identifier, "B", ⟨4, 5⟩⟩,
      ⟨.openBracket, "[", ⟨5, 6⟩⟩, ⟨.openParen, "(", ⟨6, 7⟩⟩, ⟨.identifier, "x", ⟨7, 8⟩⟩,
      ⟨.kwIf, "if", ⟨9, 11⟩⟩, ⟨.identifier, "y", ⟨12, 13⟩⟩, ⟨.kwElse, "else", ⟨14, 18⟩⟩,
      ⟨.identifier, "z", ⟨19, 20⟩⟩, ⟨.closeParen, ")", ⟨20, 21⟩⟩, ⟨.closeBracket, "]", ⟨21, 22⟩⟩,
      ⟨.closeBracket, "]", ⟨22, 23⟩⟩]
    let newline : Token := ⟨.newline, "", ⟨23, 24⟩⟩
    let last : Token := ⟨.eof, "", ⟨24, 24⟩⟩
    t.Proper ∧ Clear t.written ∧ ∃ t', typeExpr .lowest ⟨none, ts ++ [newline], last⟩ =
      .ok t' ⟨ts.getLast?, [newline], last⟩ ∧ t'.plain = t := by
  intro value t ts newline last
  have hvalue : value.Proper := ⟨.conditional .symbol .symbol .symbol rfl rfl rfl, rfl⟩
  have hproper : t.Proper := by
    refine ⟨trivial, List.cons_ne_nil _ _, fun a ha => ?_⟩
    obtain rfl := List.mem_singleton.mp ha
    exact ⟨trivial, List.cons_ne_nil _ _, ⟨hvalue, rfl⟩, trivial⟩
  have hclear : Clear t.written := by decide
  have hspells : Spells t.written ts :=
    .token (.name rfl rfl) (.token (.fixed rfl) (.token (.name rfl rfl) (.token (.fixed rfl)
      (.token (.name rfl rfl) (.token (.fixed rfl) (.token (.fixed rfl) (.token (.name rfl rfl)
      (.token (.fixed rfl) (.token (.name rfl rfl) (.token (.fixed rfl) (.token (.name rfl rfl)
      (.token (.fixed rfl) (.cons .absent (.token (.fixed rfl) (.cons .absent (.token (.fixed rfl)
      .nil))))))))))))))))
  exact ⟨hproper, hclear, typeReadBack hproper hclear _ _ ⟨ts, ⟨rfl, rfl, rfl⟩, hspells⟩
    Kind.noConfusion Kind.noConfusion⟩

/-- A type is not read back if the rule for types ends otherwise at some tokens of it. -/
theorem not_typeReadBack {t : TypeExpr} {ts : List Token} {last : Token}
    {r : EStateM.Result Diagnostic Cursor TypeExpr} (hlast : last.kind = .eof)
    (hr : typeExpr .lowest ⟨none, ts, last⟩ = r) (hspells : Spells t.written ts)
    (hne : ∀ t', t'.plain = t.plain → r ≠ .ok t' ⟨ts.getLast?, [], last⟩) : ¬TypeReadBack t := by
  intro h
  have hk : (Cursor.mk ts.getLast? [] last).kind = .eof := hlast
  obtain ⟨t', ht', hplain⟩ := h ⟨none, ts, last⟩ ⟨ts.getLast?, [], last⟩
    ⟨ts, ⟨(List.append_nil ts).symm, rfl, by simp⟩, hspells⟩ (by simp [hk]) (by simp [hk])
  exact hne t' hplain (hr.symm.trans ht')

/-- Right before a sign, the caret of `A[a^ + b]` is an exclusive or; and the inner brackets of
`A[B[k=C]]` are read as those of a subscript, which may not have a keyword. -/
theorem not_typeReadBack_each :
    let given : TypeExpr := .generic default (.symbol default "A") [.value (.binary default .add
      (.transfer default (.symbol default "a")) (.symbol default "b"))]
    let keyed : TypeExpr := .generic default (.symbol default "A") [.type (.generic default
      (.symbol default "B") [.keyword default "k" (.type (.symbol default "C"))])]
    (given.Full ∧ ¬TypeReadBack given) ∧ keyed.Full ∧ ¬TypeReadBack keyed := by
  intro given keyed
  refine ⟨⟨⟨trivial, List.cons_ne_nil _ _, ⟨⟨.binary (.transfer .symbol rfl) .symbol rfl rfl, rfl⟩, rfl⟩,
    trivial⟩, ?_⟩, ⟨trivial, List.cons_ne_nil _ _, ⟨trivial, List.cons_ne_nil _ _, ⟨trivial, rfl⟩, trivial⟩,
    trivial⟩, ?_⟩
  · have hr : typeExpr .lowest ⟨none, [⟨.identifier, "A", ⟨0, 1⟩⟩, ⟨.openBracket, "[", ⟨1, 2⟩⟩,
        ⟨.identifier, "a", ⟨2, 3⟩⟩, ⟨.caret, "^", ⟨3, 4⟩⟩, ⟨.plus, "+", ⟨5, 6⟩⟩,
        ⟨.identifier, "b", ⟨7, 8⟩⟩, ⟨.closeBracket, "]", ⟨8, 9⟩⟩], ⟨.eof, "", ⟨9, 9⟩⟩⟩ =
        .ok (.generic ⟨0, 9⟩ (.symbol ⟨0, 1⟩ "A") [.value (.binary ⟨2, 8⟩ .bitXor (.symbol ⟨2, 3⟩ "a")
          (.unary ⟨5, 8⟩ .plus (.symbol ⟨7, 8⟩ "b")))])
        ⟨some ⟨.closeBracket, "]", ⟨8, 9⟩⟩, [], ⟨.eof, "", ⟨9, 9⟩⟩⟩ := by cbv
    refine not_typeReadBack rfl hr ?_ ?_
    · exact .token (.name rfl rfl) (.token (.fixed rfl) (.token (.name rfl rfl) (.token (.transfer rfl)
        (.token (.fixed rfl) (.token (.name rfl rfl) (.cons .absent (.token (.fixed rfl) .nil)))))))
    · intro t' hplain h
      cases h
      cases hplain
  · have hr : typeExpr .lowest ⟨none, [⟨.identifier, "A", ⟨0, 1⟩⟩, ⟨.openBracket, "[", ⟨1, 2⟩⟩,
        ⟨.identifier, "B", ⟨2, 3⟩⟩, ⟨.openBracket, "[", ⟨3, 4⟩⟩, ⟨.identifier, "k", ⟨4, 5⟩⟩,
        ⟨.assignment, "=", ⟨5, 6⟩⟩, ⟨.identifier, "C", ⟨6, 7⟩⟩, ⟨.closeBracket, "]", ⟨7, 8⟩⟩,
        ⟨.closeBracket, "]", ⟨8, 9⟩⟩], ⟨.eof, "", ⟨9, 9⟩⟩⟩ =
        .error ⟨.keywordArgumentOutsideCall "k", ⟨4, 7⟩⟩ ⟨some ⟨.closeBracket, "]", ⟨7, 8⟩⟩,
          [⟨.closeBracket, "]", ⟨8, 9⟩⟩], ⟨.eof, "", ⟨9, 9⟩⟩⟩ := by cbv
    refine not_typeReadBack rfl hr ?_ ?_
    · exact .token (.name rfl rfl) (.token (.fixed rfl) (.token (.name rfl rfl) (.token (.fixed rfl)
        (.token (.name rfl rfl) (.token (.fixed rfl) (.token (.name rfl rfl) (.cons .absent
        (.token (.fixed rfl) (.cons .absent (.token (.fixed rfl) .nil))))))))))
    · intro t' _ h
      cases h

end Grammar

end Offside
