import Mathlib.Data.List.Chain
import Offside.Proofs.Reading.Expr
import Offside.Proofs.Writing
import Offside.Proofs.Writing.Enclosed

namespace Offside

/-- Whether a token of this kind ends any expression before it. -/
def Kind.endsExpr (k : Kind) : Bool := !k.startsOperand && Level.ofKind k = .lowest

def Kind.isClosing : Kind → Bool
  | .closeParen | .closeBracket | .closeCurly => true
  | _ => false

namespace Piece

/-- A piece that a token of this kind leaves alone when it follows. -/
def Apart : Piece → Kind → Prop
  | strings _, k => k ≠ .string
  | transfer, k => k.startsOperand = false
  | _, _ => True

def opens : Piece → Bool
  | fixed k | optional k | word k _ => k.startsOperand
  | transfer => false
  | _ => true

end Piece

/-- Pieces in which no operand begins right behind a caret that gives up a value. -/
def Clear (ps : List Piece) : Prop := ps.IsChain fun p q => p = .transfer → q.opens = false

instance (ps : List Piece) : Decidable (Clear ps) := inferInstanceAs (Decidable (ps.IsChain _))

/-- An expression ends before the token at a cursor. -/
structure Expr.Ends (e : Expr) (c : Cursor) : Prop where
  capped : c.level ≤ e.level.cap
  apart : ∀ p ∈ e.pieces.getLast?, p.Apart c.kind
  uncalled : e.isSubscript = true → c.kind ≠ .openParen

structure Expr.Begins (e : Expr) (c d : Cursor) : Prop where
  starts : c.kind.startsOperand = true
  unnamed : d.kind ≠ .assignment → ¬(c.kind = .identifier ∧ c.peek 1 = .assignment)
  affirmed : .not < e.level → c.kind ≠ .kwNot

theorem BinaryOp.level_le_of_leftPlace {op : BinaryOp} {left : Expr}
    (h : op.leftPlace.admits left = true) : op.level ≤ left.level := by
  unfold BinaryOp.leftPlace at h
  split at h
  · next hop =>
    subst hop
    exact Nat.le_trans (by decide) (of_decide_eq_true h)
  · exact of_decide_eq_true h

theorem ComparisonOp.kinds_cons (op : ComparisonOp) :
    ∃ k ks, op.kinds = k :: ks ∧ k ≠ .eof ∧ k ≠ .assignment ∧ k ≠ .string ∧ k ≠ .openParen := by
  cases op <;> exact ⟨_, _, rfl, by decide⟩

namespace Cursor

variable {c d : Cursor} {e left : Expr} {ps : List Piece} {k : Kind}

theorem level_of_endsExpr (h : c.kind.endsExpr = true) : c.level = .lowest := by
  have hne : c.kind ≠ .caret ∧ c.kind ≠ .kwNot := by
    constructor <;> intro hk <;> simp [hk, Kind.endsExpr, Level.ofKind] at h
  rw [Grammar.level_eq_ofKind hne.1 hne.2]
  simp only [Kind.endsExpr, Bool.and_eq_true, decide_eq_true_eq] at h
  exact h.2

end Cursor

namespace Expr

variable {c d m : Cursor} {e left : Expr} {ps : List Piece} {k : Kind}

/-- An expression ends where none goes on. -/
theorem ends_of_endsExpr (h : c.kind.endsExpr = true) : e.Ends c where
  capped := by
    rw [Cursor.level_of_endsExpr h]
    exact Nat.zero_le _
  apart p hp := by
    simp only [Kind.endsExpr, Bool.and_eq_true, Bool.not_eq_true'] at h
    cases p with
    | strings value =>
      intro hk
      simp [hk, Kind.startsOperand] at h
    | transfer => exact h.1
    | _ => trivial
  uncalled _ hk := by simp [hk, Kind.endsExpr, Kind.startsOperand] at h

theorem Begins.of_left (h : left.Begins c m) (hm : m.kind ≠ .assignment)
    (hlevel : .not < e.level → .not < left.level) : e.Begins c d where
  starts := h.starts
  unnamed _ := h.unnamed hm
  affirmed he := h.affirmed (hlevel he)

theorem begins_of_kind (hk : c.kind.startsOperand = true) (hname : c.kind ≠ .identifier)
    (hnot : .not < e.level → c.kind ≠ .kwNot) : e.Begins c d where
  starts := hk
  unnamed _ h := hname h.1
  affirmed := hnot

theorem begins_fixed (hread : c.Read (.fixed k :: ps) d) (hk : k.startsOperand = true)
    (hname : k ≠ .identifier) (hnot : .not < e.level → k ≠ .kwNot) : e.Begins c d := by
  obtain ⟨t, hat, ht⟩ := hread.at_fixed (by rintro rfl; cases hk)
  have hkind := hat.kind.trans ht
  exact begins_of_kind (hkind ▸ hk) (hkind ▸ hname) (hkind ▸ hnot)

theorem Shaped.begins (h : e.Shaped Place.Suits) (hslice : e.isSlice = false)
    (hread : c.Read e.pieces d) : e.Begins c d := by
  have hleft {e left : Expr} {place : Place} {k : Kind} {ps : List Piece} {d : Cursor}
      (hread : c.Read (left.pieces ++ .fixed k :: ps) d) (hplaced : place.Suits left)
      (ih : ∀ {m}, left.isSlice = false → c.Read left.pieces m → left.Begins c m)
      (hk : k ≠ .eof ∧ k ≠ .assignment) (hlevel : .not < e.level → .not < left.level) :
      e.Begins c d := by
    obtain ⟨m, hm, hrest⟩ := hread.split
    obtain ⟨t, hat, ht⟩ := hrest.at_fixed hk.1
    exact (ih hplaced.2 hm).of_left (by rw [hat.kind, ht]; exact hk.2) hlevel
  have hobject {left : Expr} (h : .trailer ≤ left.level) : .not < left.level :=
    Nat.lt_of_lt_of_le (by decide) h
  induction h generalizing d with
  | integer =>
    obtain ⟨t, hat, ht, -⟩ := Cursor.Read.at_integer hread
    have hk := hat.kind.trans ht
    exact begins_of_kind (by simp [hk, Kind.startsOperand]) (by simp [hk]) (by simp [hk])
  | float =>
    obtain ⟨t, hat, ht, -⟩ := Cursor.Read.at_float hread
    have hk := hat.kind.trans ht
    exact begins_of_kind (by simp [hk, Kind.startsOperand]) (by simp [hk]) (by simp [hk])
  | string =>
    have hk := Cursor.Read.kind_strings hread
    exact begins_of_kind (by simp [hk, Kind.startsOperand]) (by simp [hk]) (by simp [hk])
  | @boolean s value =>
    cases value <;> exact begins_fixed hread rfl (by decide) (by simp)
  | noneLiteral => exact begins_fixed hread rfl (by decide) (by simp)
  | symbol =>
    obtain ⟨t, hat, ht, -⟩ := Cursor.Read.at_name hread
    have hk := hat.kind.trans ht
    obtain rfl := hat.rest.eq_of_nil
    refine ⟨by simp [hk, Kind.startsOperand], fun hd h => ?_, by simp [hk]⟩
    exact hd ((Cursor.kind_advance (by simp [hk]) (by simp [h.2])).symm.trans h.2)
  | list | tuple | set | dict | parenthesized =>
    exact begins_fixed hread rfl (by decide) (by simp)
  | call _ hp _ _ ih =>
    have hlevel : Place.admits .callee _ = true := hp.1
    refine hleft hread hp (fun h hm => ih h hm) (by decide) fun _ => hobject ?_
    simp only [Place.admits, Bool.and_eq_true, decide_eq_true_eq] at hlevel
    exact hlevel.1
  | genericCall _ hp _ _ _ _ _ ih | subscript _ hp _ _ _ ih =>
    exact hleft hread hp (fun h hm => ih h hm) (by decide) fun _ =>
      hobject (of_decide_eq_true hp.1)
  | member _ hp ih =>
    exact hleft hread hp (fun h hm => ih h hm) (by decide) fun _ =>
      hobject (of_decide_eq_true hp.1)
  | transfer _ hp ih =>
    obtain ⟨m, hm, hrest⟩ := hread.split
    obtain ⟨t, hat, ht⟩ := hrest.at_transfer
    refine (ih hp.2 hm).of_left ?_ fun _ => hobject (of_decide_eq_true hp.1)
    rw [hat.kind, ht]
    decide
  | slice => cases hslice
  | @unary s op operand =>
    have hnot : .not < op.level → op.kind ≠ .kwNot := by cases op <;> decide
    exact begins_fixed hread (by cases op <;> rfl) (by cases op <;> decide) hnot
  | @binary s op left right _ _ hpl _ ihl =>
    refine hleft hread hpl (fun h hm => ihl h hm) (by cases op <;> decide) fun hlevel => ?_
    exact Nat.lt_of_lt_of_le hlevel (BinaryOp.level_le_of_leftPlace hpl.1)
  | @comparison s first links hne _ _ hp _ ih =>
    obtain ⟨m, hm, hrest⟩ := hread.split
    refine (ih hp.2 hm).of_left ?_ fun _ => Nat.lt_trans (by decide) (of_decide_eq_true hp.1)
    obtain ⟨⟨op, operand⟩, links, rfl⟩ := List.exists_cons_of_ne_nil hne
    obtain ⟨k, ks, hkinds, heof, hassignment, -⟩ := op.kinds_cons
    rw [Expr.piecesLinks, hkinds] at hrest
    obtain ⟨t, hat, ht⟩ := Cursor.Read.at_fixed hrest heof
    rw [hat.kind, ht]
    exact hassignment
  | conditional _ _ _ hp _ _ ih =>
    exact hleft hread hp (fun h hm => ih h hm) (by decide) fun hlevel =>
      absurd hlevel (show ¬Level.not < .conditional by decide)

end Expr

section Clearing

variable {ps qs : List Piece} {items : List (List Piece)} {p : Piece}

theorem Clear.left (h : Clear (ps ++ qs)) : Clear ps := (List.isChain_append.mp h).1

theorem Clear.right (h : Clear (ps ++ qs)) : Clear qs := (List.isChain_append.mp h).2.1

theorem Clear.tail (h : Clear (p :: ps)) : Clear ps := (show Clear ([p] ++ ps) from h).right

theorem Clear.commaTail (h : Clear (Piece.commaTail items)) : ∀ item ∈ items, Clear item := by
  induction items with
  | nil => simp
  | cons item items ih => exact List.forall_mem_cons.mpr ⟨h.tail.left, ih h.tail.right⟩

theorem Clear.commaList (h : Clear (Piece.commaList items)) : ∀ item ∈ items, Clear item := by
  cases items with
  | nil => simp
  | cons item items => exact List.forall_mem_cons.mpr ⟨h.left, h.right.commaTail⟩

theorem Clear.tupleList (h : Clear (Piece.tupleList items)) : ∀ item ∈ items, Clear item := by
  match items with
  | [] => simp
  | [item] => simpa using h.left
  | item :: next :: items => exact List.forall_mem_cons.mpr ⟨h.left, h.right.commaTail⟩

end Clearing

section Levels

variable {level l : Level}

theorem Level.le_cap_of_lt (h : level < l) : level ≤ l.cap := by
  have h : level.rank < l.rank := h
  change level.rank ≤ l.cap.rank
  cases l <;> simp only [Level.cap, Level.rank] at h ⊢ <;> omega

theorem Level.rank_injective {l l' : Level} (h : l.rank = l'.rank) : l = l' := by
  revert h
  cases l <;> cases l' <;> decide

theorem Level.trailer_le_cap (h : .trailer ≤ l) : .trailer ≤ l.cap := by
  revert h
  cases l <;> decide

theorem Level.unary_le_cap (h : .unary ≤ l) : .unary ≤ l.cap := by
  revert h
  cases l <;> decide

theorem Level.not_le_cap (h : .not ≤ l) : .not ≤ l.cap := by
  revert h
  cases l <;> decide

theorem Expr.lowest_lt_level {e : Expr} (h : e.isSlice = false) : .lowest < e.level := by
  have hunary (op : UnaryOp) : .lowest < op.level := by cases op <;> decide
  have hbinary (op : BinaryOp) : .lowest < op.level := by cases op <;> decide
  cases e with
  | unary => exact hunary _
  | binary => exact hbinary _
  | slice => cases h
  | _ => exact Nat.lt_of_sub_pos (Nat.succ_pos _)

/-- At the level of signs or of `not` stand only those. -/
theorem Expr.fits_operator {op : UnaryOp} {e : Expr} (h : op.level ≤ e.level) : e.Fits op.level := by
  rcases Nat.lt_or_eq_of_le h with h | h
  · exact Or.inr (Or.inr h)
  · change op.level.rank = e.level.rank at h
    have hbinary (op : UnaryOp) (op' : BinaryOp) : op.level.rank ≠ op'.level.rank := by
      cases op <;> cases op' <;> decide
    cases e with
    | unary => exact Or.inl rfl
    | binary => exact absurd h (hbinary _ _)
    | _ => cases op <;> cases h

namespace BinaryOp

variable {op : BinaryOp} {left right : Expr}

theorem level_range (op : BinaryOp) : op.level ≠ .primary ∧ op.level.cap < .trailer := by
  cases op <;> decide

/-- All operators but powers group to the left. -/
theorem cap_level (h : op ≠ .power) : op.level.cap = op.level := by
  revert h
  cases op <;> decide

theorem level_le_cap (h : op.leftPlace.admits left = true) : op.level ≤ left.level.cap := by
  by_cases hop : op = .power
  · subst hop
    exact Level.le_cap_of_lt (Nat.lt_of_lt_of_le (by decide) (of_decide_eq_true h))
  · rcases Nat.lt_or_eq_of_le (level_le_of_leftPlace h) with hlt | heq
    · exact Level.le_cap_of_lt hlt
    · have hlevel : op.level = left.level := Level.rank_injective heq
      rw [← hlevel, cap_level hop]
      exact Nat.le_refl _

theorem fits_of_rightPlace (h : op.rightPlace.admits right = true) :
    right.Fits op.level.cap ∧ op.level.cap ≤ right.level.cap := by
  by_cases hop : op = .power
  · subst hop
    have hlevel : UnaryOp.plus.level ≤ right.level := of_decide_eq_true h
    exact ⟨Expr.fits_operator hlevel, Level.unary_le_cap hlevel⟩
  · rw [rightPlace, if_neg hop] at h
    have hlevel : op.level < right.level := of_decide_eq_true h
    rw [cap_level hop]
    exact ⟨Or.inr (Or.inr hlevel), Level.le_cap_of_lt hlevel⟩

end BinaryOp

end Levels

namespace Expr

variable {c : Cursor} {e r left : Expr} {ps : List Piece} {k : Kind} {level : Level}

theorem Shaped.pieces_required {ok : Place → Expr → Prop} (h : e.Shaped ok) :
    e.pieces.any Piece.required = true := by
  cases h with
  | comparison hne =>
    obtain ⟨⟨op, operand⟩, links, rfl⟩ := List.exists_cons_of_ne_nil hne
    obtain ⟨k, ks, hkinds, -⟩ := op.kinds_cons
    simp [pieces, piecesLinks, hkinds, Piece.required]
  | _ => simp [pieces, Piece.required]

/-- An expression ends before an operator that binds no more tightly than it allows. -/
theorem ends_left (hclear : Clear (left.pieces ++ .fixed k :: ps)) (hk : c.kind = k)
    (hcap : c.level ≤ left.level.cap) (hstring : k ≠ .string)
    (hparen : left.isSubscript = true → k ≠ .openParen) : left.Ends c where
  capped := hcap
  apart p hp := by
    have hnext := (List.isChain_append.mp hclear).2.2 p hp _ rfl
    cases p with
    | strings value => exact hk ▸ hstring
    | transfer => exact hk ▸ hnext rfl
    | _ => trivial
  uncalled h := hk ▸ hparen h

/-- The last part of an expression ends where the expression does. -/
theorem ends_right (ps : List Piece) (hends : e.Ends c) (hpieces : e.pieces = ps ++ r.pieces)
    (hlevel : c.level ≤ level) (htrailer : level < .trailer) (hcap : level ≤ r.level.cap) : r.Ends c where
  capped := Nat.le_trans hlevel hcap
  apart p hp := by
    refine hends.apart p ?_
    rw [hpieces, List.getLast?_append, Option.mem_def.mp hp]
    rfl
  uncalled _ hk := by
    have htight : c.level = .trailer := by rw [Grammar.level_eq_ofKind] <;> simp [hk, Level.ofKind]
    exact absurd (htight ▸ hlevel) (Nat.not_le_of_lt htrailer)

end Expr

end Offside
