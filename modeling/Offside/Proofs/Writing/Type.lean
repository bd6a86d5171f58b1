import Offside.Proofs.Tree.Relocate
import Offside.Proofs.Writing.Expr
import Offside.Proofs.Writing.Plain

namespace Offside

mutual

def TypeExpr.expr : TypeExpr → Expr
  | .symbol s name => if name = "None" then .noneLiteral s else .symbol s name
  | .qualified s base member => .member s base.expr member
  | .generic s base arguments => .subscript s base.expr (TypeArgument.exprAll arguments)

def TypeArgument.expr : TypeArgument → Expr
  | .type t => t.expr
  | .value e => e
  | .keyword _ _ argument => argument.expr

def TypeArgument.exprAll : List TypeArgument → List Expr
  | [] => []
  | a :: as => a.expr :: TypeArgument.exprAll as

end

mutual

/-- A type that can stand where an expression is read: without keywords, and a value that could be
read as a type is one. -/
def TypeExpr.Nested : TypeExpr → Prop
  | .symbol .. => True
  | .qualified _ base _ => base.Nested
  | .generic _ base arguments => base.Nested ∧ arguments ≠ [] ∧ TypeArgument.NestedAll arguments

def TypeArgument.Nested : TypeArgument → Prop
  | .type t => t.Nested
  | .value e => e.Proper ∧ TypeExpr.ofExpr? e = none
  | .keyword .. => False

def TypeArgument.NestedAll : List TypeArgument → Prop
  | [] => True
  | a :: as => a.Nested ∧ TypeArgument.NestedAll as

end

/-- An argument in brackets of a type that is no argument itself; it may have a keyword. -/
def TypeArgument.Proper : TypeArgument → Prop
  | .keyword _ _ argument => argument.Nested
  | a => a.Nested

def TypeExpr.Proper : TypeExpr → Prop
  | .symbol .. => True
  | .qualified _ base _ => base.Proper
  | .generic _ base arguments => base.Proper ∧ arguments ≠ [] ∧ ∀ a ∈ arguments, a.Proper

def TypeArgument.pieces : TypeArgument → List Piece
  | .keyword _ name argument =>
    .name name :: .fixed .assignment :: (argument.expr.written .value).pieces
  | a => (a.expr.written .value).pieces

def TypeExpr.pieces : TypeExpr → List Piece
  | .symbol _ name => [if name = "None" then .word .kwNone "None" else .name name]
  | .qualified _ base member => base.pieces ++ [.fixed .dot, .name member]
  | .generic _ base arguments =>
    base.pieces ++ .fixed .openBracket ::
      (Piece.commaList (arguments.map TypeArgument.pieces) ++ [.fixed .closeBracket])

theorem TypeArgument.exprAll_eq_map (as : List TypeArgument) :
    TypeArgument.exprAll as = as.map TypeArgument.expr := by
  induction as with
  | nil => rfl
  | cons a as ih => rw [TypeArgument.exprAll, ih, List.map_cons]

section Plain

variable {f : Span → Span}

theorem Expr.plain_mapSpans (e : Expr) : (e.mapSpans f).plain = e.plain :=
  plain_eq_of_spanless (Expr.mapSpans_mapSpans _ _ e)

mutual

theorem TypeExpr.plain_mapSpans : ∀ t : TypeExpr, (t.mapSpans f).plain = t.plain
  | .symbol .. => rfl
  | .qualified _ base _ => congrArg (TypeExpr.qualified default · _) (TypeExpr.plain_mapSpans base)
  | .generic _ base as =>
    congrArg₂ (TypeExpr.generic default) (TypeExpr.plain_mapSpans base)
      (TypeArgument.plainAll_mapSpansAll as)

theorem TypeArgument.plain_mapSpans : ∀ a : TypeArgument, (a.mapSpans f).plain = a.plain
  | .type t => congrArg TypeArgument.type (TypeExpr.plain_mapSpans t)
  | .value e => congrArg TypeArgument.value (Expr.plain_mapSpans e)
  | .keyword _ _ a => congrArg (TypeArgument.keyword default _) (TypeArgument.plain_mapSpans a)

theorem TypeArgument.plainAll_mapSpansAll : ∀ as : List TypeArgument,
    TypeArgument.plainAll (TypeArgument.mapSpansAll f as) = TypeArgument.plainAll as
  | [] => rfl
  | a :: as => congrArg₂ List.cons (TypeArgument.plain_mapSpans a)
      (TypeArgument.plainAll_mapSpansAll as)

end

end Plain

section Nested

theorem Place.enclose_of_admits {place : Place} {e : Expr} (h : place.admits e = true) :
    place.enclose e = e := if_pos h

mutual

theorem TypeExpr.Nested.proper : ∀ {t : TypeExpr}, t.Nested → t.expr.Proper ∧ .trailer ≤ t.expr.level
  | .symbol s name, _ => by
    unfold TypeExpr.expr
    split
    · exact ⟨⟨.noneLiteral, rfl⟩, Nat.le_succ _⟩
    · exact ⟨⟨.symbol, rfl⟩, Nat.le_succ _⟩
  | .qualified s base member, h => by
    obtain ⟨hbase, -⟩ := TypeExpr.Nested.proper (t := base) h
    exact ⟨⟨.member hbase.shaped hbase.whole, rfl⟩, Nat.le_refl _⟩
  | .generic s base as, h => by
    obtain ⟨hbase, hne, has⟩ := h
    have hparts := TypeArgument.nestedAll_proper has
    refine ⟨⟨.subscript hbase.proper.1.shaped hbase.proper.1.whole ?_ (fun e he => (hparts e he).shaped)
      fun e he _ => (hparts e he).whole, rfl⟩, Nat.le_refl _⟩
    simpa [TypeArgument.exprAll_eq_map] using hne

theorem TypeArgument.Nested.proper : ∀ {a : TypeArgument}, a.Nested → a.expr.Proper
  | .type _, h => (TypeExpr.Nested.proper h).1
  | .value _, h => h.1

theorem TypeArgument.nestedAll_proper : ∀ {as : List TypeArgument}, TypeArgument.NestedAll as →
    ∀ e ∈ TypeArgument.exprAll as, e.Proper
  | [], _ => List.forall_mem_nil _
  | _ :: _, h =>
    List.forall_mem_cons.mpr ⟨TypeArgument.Nested.proper h.1, TypeArgument.nestedAll_proper h.2⟩

end

theorem TypeExpr.Nested.trailer_le {t : TypeExpr} (h : t.Nested) : .trailer ≤ t.expr.enclosed.level := by
  rw [Expr.level_enclosed]
  exact h.proper.2

/-- With parentheses an expression reads as no more types than without. -/
theorem TypeExpr.ofExpr?_enclosed : ∀ {e : Expr}, TypeExpr.ofExpr? e = none → TypeExpr.ofExpr? e.enclosed = none
  | .member s object name, h => by
    have hobject : TypeExpr.ofExpr? object = none := Option.map_eq_none_iff.mp h
    change (TypeExpr.ofExpr? (Place.enclose .object object.enclosed)).map _ = none
    unfold Place.enclose
    split
    · rw [TypeExpr.ofExpr?_enclosed hobject]
      rfl
    · rfl
  | .subscript s object indices, h => by
    have hslices : (Expr.mapPartsAll Place.enclose indices).any Expr.isSlice = indices.any Expr.isSlice := by
      rw [Expr.mapPartsAll_eq_map, List.any_map]
      congr 1
      exact funext Expr.isSlice_enclosed
    change (if _ then none else (TypeExpr.ofExpr? (Place.enclose .object object.enclosed)).map _) = none
    rw [hslices]
    rw [TypeExpr.ofExpr?] at h
    split at h
    · next hslice => exact if_pos hslice
    · next hslice =>
      have hobject : TypeExpr.ofExpr? object = none := Option.map_eq_none_iff.mp h
      rw [if_neg hslice]
      unfold Place.enclose
      split
      · rw [TypeExpr.ofExpr?_enclosed hobject]
        rfl
      · rfl
  | .integer .., _ | .float .., _ | .string .., _ | .boolean .., _ | .list .., _ | .tuple .., _
  | .set .., _ | .dict .., _ | .parenthesized .., _ | .call .., _ | .genericCall .., _ | .slice .., _
  | .transfer .., _ | .unary .., _ | .binary .., _ | .comparison .., _ | .conditional .., _ => rfl

/-- Places for operands that are as tight as a name with its trailers. -/
def Place.Loose (place : Place) : Prop := ∀ e : Expr, .trailer ≤ e.level → place.admits e = true

mutual

theorem TypeExpr.Nested.read : ∀ {t : TypeExpr}, t.Nested →
    ∃ t', TypeExpr.ofExpr? t.expr.enclosed = some t' ∧ t'.plain = t.plain
  | .symbol s name, _ => by
    unfold TypeExpr.expr
    split
    · next hname =>
      subst hname
      exact ⟨.symbol s "None", rfl, rfl⟩
    · exact ⟨.symbol s name, rfl, rfl⟩
  | .qualified s base member, h => by
    obtain ⟨t', ht, hplain⟩ := TypeExpr.Nested.read (t := base) h
    have hlevel : Place.object.admits base.expr.enclosed = true :=
      decide_eq_true (TypeExpr.Nested.trailer_le (t := base) h)
    refine ⟨.qualified s t' member, ?_, congrArg (TypeExpr.qualified default · _) hplain⟩
    change (TypeExpr.ofExpr? (Place.enclose .object base.expr.enclosed)).map _ = _
    rw [Place.enclose_of_admits hlevel, ht]
    rfl
  | .generic s base as, h => by
    obtain ⟨hbase, hne, has⟩ := h
    obtain ⟨t', ht, hplain⟩ := hbase.read
    have hlevel : Place.object.admits base.expr.enclosed = true :=
      decide_eq_true hbase.trailer_le
    obtain ⟨hslices, hparts⟩ := TypeArgument.nestedAll_read has
    refine ⟨.generic s t' (TypeArgument.ofExprs (Expr.mapPartsAll Place.enclose (TypeArgument.exprAll as))),
      ?_, congrArg₂ (TypeExpr.generic default) hplain hparts⟩
    change (if _ then none else (TypeExpr.ofExpr? (Place.enclose .object base.expr.enclosed)).map _) = _
    rw [if_neg (by simp [hslices]), Place.enclose_of_admits hlevel, ht]
    rfl

theorem TypeArgument.Nested.read : ∀ {a : TypeArgument}, a.Nested → ∀ {place : Place}, place.Loose →
    (TypeArgument.ofExpr (a.expr.written place)).plain = a.plain
  | .type t, h, place, hplace => by
    obtain ⟨t', ht, hplain⟩ := TypeExpr.Nested.read (t := t) h
    have hlevel : place.admits t.expr.enclosed = true :=
      hplace _ (TypeExpr.Nested.trailer_le (t := t) h)
    change (TypeArgument.ofExpr (place.enclose t.expr.enclosed)).plain = _
    rw [Place.enclose_of_admits hlevel, TypeArgument.ofExpr, ht]
    exact congrArg TypeArgument.type hplain
  | .value e, h, place, _ => by
    have hnone : TypeExpr.ofExpr? (e.written place) = none := by
      unfold Expr.written Place.enclose
      split
      · exact TypeExpr.ofExpr?_enclosed h.2
      · rfl
    change (TypeArgument.ofExpr (e.written place)).plain = _
    rw [TypeArgument.ofExpr, hnone]
    exact congrArg TypeArgument.value (h.1.plain_written place)

theorem TypeArgument.nestedAll_read : ∀ {as : List TypeArgument}, TypeArgument.NestedAll as →
    (Expr.mapPartsAll Place.enclose (TypeArgument.exprAll as)).any Expr.isSlice = false ∧
      TypeArgument.plainAll (TypeArgument.ofExprs
        (Expr.mapPartsAll Place.enclose (TypeArgument.exprAll as))) = TypeArgument.plainAll as
  | [], _ => ⟨rfl, rfl⟩
  | a :: as, h => by
    obtain ⟨hslices, hparts⟩ := TypeArgument.nestedAll_read h.2
    have hhead := TypeArgument.Nested.read h.1 (show Place.free.Loose from fun _ _ => rfl)
    refine ⟨?_, congrArg₂ List.cons hhead hparts⟩
    change ((a.expr.written .free).isSlice || _) = false
    rw [hslices, Bool.or_false]
    exact (Expr.isSlice_enclosed _).trans (TypeArgument.Nested.proper h.1).whole

end

end Nested

namespace Grammar

open Rule

variable {c d m : Cursor} {n : Nat} {t : TypeExpr} {a : TypeArgument}

/-- What an expression reads as does not hang on its spans. -/
theorem ofExpr_of_spanless {e e' : Expr} (h : e'.spanless = e.spanless) :
    (TypeArgument.ofExpr e').plain = (TypeArgument.ofExpr e).plain := by
  have hplain (e : Expr) : (TypeArgument.ofExpr e.spanless).plain = (TypeArgument.ofExpr e).plain := by
    change (TypeArgument.ofExpr (relocate (fun _ => 0) e)).plain = _
    rw [TypeArgument.ofExpr_relocate]
    exact TypeArgument.plain_mapSpans _
  rw [← hplain e', h, hplain e]

/-- The value of a type argument. -/
theorem typeValue_ok (h : a.Nested) (hread : c.Read (a.expr.written .value).pieces d)
    (hclear : Clear (a.expr.written .value).pieces) (hd : d.kind.endsExpr = true) :
    (a.expr.written .value).Begins c d ∧
      ∃ e', expr .conditional c = .ok e' d ∧ (TypeArgument.ofExpr e').plain = a.plain := by
  obtain ⟨hshaped, hsuits⟩ := h.proper.written_suits (show Place.value ≠ .right .primary by decide)
  obtain ⟨e', he, hφ⟩ := expr_written h.proper (by decide) (of_decide_eq_true hsuits.1) hread hclear
    (Expr.ends_of_endsExpr hd) (by rw [Cursor.level_of_endsExpr hd]; exact Nat.zero_le _)
  have hloose : Place.value.Loose := fun e he => decide_eq_true (Nat.lt_of_lt_of_le (by decide) he)
  exact ⟨hshaped.begins hsuits.2 hread, e', he, (ofExpr_of_spanless hφ).trans (h.read hloose)⟩

theorem typeArgument_writes (h : a.Proper) (hclear : Clear a.pieces) :
    Writes typeArgument TypeArgument.plain TypeArgument.pieces (· == .closeBracket) n a := by
  intro c d hn hread hfollow
  obtain ⟨hd, hassignment⟩ := ends_of_closing .closeBracket rfl hfollow
  have hvalue {a : TypeArgument} (h : a.Nested) (hread : c.Read (a.expr.written .value).pieces d)
      (hclear : Clear (a.expr.written .value).pieces) :
      (c.kind == .closeBracket) = false ∧ ∃ a', typeArgument c = .ok a' d ∧ a'.plain = a.plain := by
    obtain ⟨hbegins, e', he, hplain⟩ := typeValue_ok h hread hclear hd
    refine ⟨not_closing .closeBracket hbegins.starts rfl, .ofExpr e', ?_, hplain⟩
    rw [typeArgument, bind_ok (atKeyword_not (hbegins.unnamed hassignment))]
    exact bind_ok he
  cases a with
  | type t => exact hvalue (a := .type t) h hread hclear
  | value e => exact hvalue (a := .value e) h hread hclear
  | keyword s name argument =>
    have hkeyword := atKeyword_ok hread
    obtain ⟨t, hat, ht, rfl⟩ := Cursor.Read.at_name hread
    obtain ⟨t', hat', ht'⟩ := hat.rest.at_fixed (by decide)
    obtain ⟨-, e', he, hplain⟩ := typeValue_ok (a := argument) h hat'.rest hclear.tail.tail hd
    refine ⟨by simp [hat.kind, ht], .keyword (t.span.through e'.span) t.text (.ofExpr e'), ?_,
      congrArg (TypeArgument.keyword default t.text) hplain⟩
    rw [typeArgument, bind_ok hkeyword, if_pos rfl, advance_run, advance_run, bind_ok he, hat.current]
    rfl

/-- A type that is a name is one token. -/
theorem at_typeName {s : Span} {name : String} (hread : c.Read (TypeExpr.symbol s name).pieces d) :
    ∃ t, c.At t [] d ∧ (t.kind = .identifier ∨ t.kind = .kwNone) ∧ t.text = name := by
  unfold TypeExpr.pieces at hread
  split at hread
  · next hname =>
    obtain ⟨t, hat, ht, htext⟩ := hread.at_word (by decide)
    exact ⟨t, hat, Or.inr ht, htext.trans hname.symm⟩
  · obtain ⟨t, hat, ht, htext⟩ := hread.at_name
    exact ⟨t, hat, Or.inl ht, htext⟩

/-- From where a type is written, the rule for types climbs to it. -/
theorem typeExpr_climb : ∀ {t : TypeExpr} {c d : Cursor}, t.Proper → c.Read t.pieces d →
    Clear t.pieces → ∃ t', t'.plain = t.plain ∧
      typeExpr .lowest c = iterate Cursor.remaining (extendType? .lowest) t' d
  | .symbol s name, c, d, _, hread, _ => by
    obtain ⟨t, hat, hk, rfl⟩ := at_typeName hread
    obtain rfl := hat.rest.eq_of_nil
    refine ⟨.symbol t.span t.text, rfl, ?_⟩
    have hsymbol : symbolType c = .ok (.symbol t.span t.text) c.advance := by
      rw [symbolType, advance_run, hat.current, symbolTypeBy]
      rcases hk with hk | hk <;> rw [hk] <;> rfl
    rw [typeExpr, kind_run, hat.kind]
    rcases hk with hk | hk <;> rw [hk] <;> exact bind_ok hsymbol
  | .qualified s base member, c, d, h, hread, hclear => by
    obtain ⟨m, hm, hrest⟩ := hread.split
    obtain ⟨u, hatu, hu⟩ := hrest.at_fixed (by decide)
    obtain ⟨v, hatv, hv, rfl⟩ := hatu.rest.at_name
    obtain rfl := hatv.rest.eq_of_nil
    have hk := hatu.kind.trans hu
    obtain ⟨base', hplain, hclimb⟩ := typeExpr_climb (t := base) h hm hclear.left
    refine ⟨.qualified (base'.span.through v.span) base' v.text,
      congrArg (TypeExpr.qualified default · _) hplain, hclimb.trans (iterate_some ?_ ?_)⟩
    · rw [extendType?, if_pos (by decide), kind_run, hk]
      refine bind_ok (a := TypeExpr.qualified (base'.span.through v.span) base' v.text) ?_
      rw [qualifiedType, advance_run, bind_ok (expect_ok (hatv.kind.trans hv)), hatv.current]
      rfl
    · exact Nat.lt_trans hatv.lt hatu.lt
  | .generic s base as, c, d, h, hread, hclear => by
    obtain ⟨hbase, hne, has⟩ := h
    obtain ⟨m, hm, hrest⟩ := hread.split
    obtain ⟨u, hatu, hu⟩ := hrest.at_fixed (by decide)
    obtain ⟨l, hl, hclose⟩ := hatu.rest.split
    obtain ⟨v, hatv, hv⟩ := hclose.at_fixed (by decide)
    obtain rfl := hatv.rest.eq_of_nil
    have hk := hatu.kind.trans hu
    have hk' := hatv.kind.trans hv
    have hlt := hatu.lt
    have hlt' := hatv.lt
    have hle := hl.remaining_le
    obtain ⟨base', hplain, hclimb⟩ := typeExpr_climb hbase hm hclear.left
    have hwrites : ∀ a ∈ as, Writes typeArgument TypeArgument.plain TypeArgument.pieces
        (· == .closeBracket) m.remaining a := fun a ha =>
      typeArgument_writes (has a ha) (hclear.right.tail.left.commaList _ (List.mem_map_of_mem ha))
    obtain ⟨hstart, as', has', hφ⟩ := commaList_writes hwrites hne hlt hl (by simp [hk']) (by simp [hk'])
    refine ⟨.generic (base'.span.through l.current.span) base' as', ?_,
      hclimb.trans (iterate_some ?_ (by omega))⟩
    · simp only [TypeExpr.plain, TypeArgument.plainAll_eq_map]
      exact congrArg₂ (TypeExpr.generic default) hplain hφ
    · rw [extendType?, if_pos (by decide), kind_run, hk]
      refine bind_ok (a := TypeExpr.generic (base'.span.through l.current.span) base' as') ?_
      rw [genericType, advance_run, kind_run, if_neg (by simpa using hstart), bind_ok has',
        bind_ok (expect_ok hk')]
      rfl

theorem typeExpr_ok (h : t.Proper) (hread : c.Read t.pieces d) (hclear : Clear t.pieces)
    (hdot : d.kind ≠ .dot) (hbracket : d.kind ≠ .openBracket) :
    ∃ t', typeExpr .lowest c = .ok t' d ∧ t'.plain = t.plain := by
  obtain ⟨t', hplain, hclimb⟩ := typeExpr_climb h hread hclear
  refine ⟨t', hclimb.trans (iterate_none ?_), hplain⟩
  rw [extendType?, if_pos (by decide), kind_run]
  generalize d.kind = k at hdot hbracket
  cases k <;> first | rfl | exact absurd rfl hdot | exact absurd rfl hbracket

end Grammar

end Offside
