import Offside.Proofs.Writing.Operand

namespace Offside.Grammar

open Rule Offside.Expr

variable {sub : ExprRule} {level : Level} {c d m : Cursor} {e e' left' : Expr} {n : Nat}

variable {s : Span} {left right : Expr} {k : Kind} {ps : List Piece}

theorem lt_level_of_fits (h : e.Fits level) (hoperand : e.isPrefix = false) (hlevel : e.level ≠ .primary) :
    level < e.level := by
  rcases h with h | h | h
  · rw [hoperand] at h
    cases h
  · exact absurd h hlevel
  · exact h

/-- What stands before an operator. -/
theorem Written.before (ih : Written left) (hn : c.remaining ≤ n) (hm : c.Read left.pieces m)
    (hclear : Clear (left.pieces ++ .fixed k :: ps)) (hk : m.kind = k) (hlevel : level < left.level)
    (hcap : m.level ≤ left.level.cap) (hstring : k ≠ .string)
    (hparen : left.isSubscript = true → k ≠ .openParen) :
    ∃ left', left'.spanless = left.spanless ∧
      climb (inner n) level c = iterate Cursor.remaining (extend? (inner n) level) left' m :=
  ih n level c m hn hm (Or.inr (Or.inr hlevel)) (ends_left hclear hk hcap hstring hparen) hclear.left

theorem written_member {name : String} (hplaced : Place.object.Suits left) (ih : Written left) :
    Written (.member s left name) := by
  intro n level c d hn hread hfits hends hclear
  obtain ⟨m, hm, hrest⟩ := hread.split
  obtain ⟨t, hat, ht⟩ := hrest.at_fixed (by decide)
  obtain ⟨u, hatu, hu, rfl⟩ := hat.rest.at_name
  obtain rfl := hatu.rest.eq_of_nil
  have hk := hat.kind.trans ht
  have hlevel : m.level = .trailer := by rw [level_eq_ofKind] <;> simp [hk, Level.ofKind]
  have hobject : .trailer ≤ left.level := of_decide_eq_true hplaced.1
  have htight : level < .trailer := lt_level_of_fits hfits rfl (by simp [Expr.level])
  obtain ⟨left', hleft, hclimb⟩ := ih.before hn hm hclear hk (Nat.lt_of_lt_of_le htight hobject)
    (hlevel ▸ Level.trailer_le_cap hobject) (by decide) (fun _ => by decide)
  refine ⟨.member (left'.span.through u.span) left' u.text, ?_, climb_extension hclimb (hlevel ▸ htight) ?_ ?_⟩
  · exact congrArg (Expr.member default · _) hleft
  · rw [extension, kind_run, hk]
    change member left' m = _
    rw [member, advance_run, bind_ok (expectDetailed_ok (hatu.kind.trans hu)), hatu.current]
    rfl
  · exact Nat.lt_trans hatu.lt hat.lt

theorem written_transfer (hplaced : Place.object.Suits left) (ih : Written left) :
    Written (.transfer s left) := by
  intro n level c d hn hread hfits hends hclear
  obtain ⟨m, hm, hrest⟩ := hread.split
  obtain ⟨t, hat, ht⟩ := hrest.at_transfer
  obtain rfl := hat.rest.eq_of_nil
  have hk := hat.kind.trans ht
  -- no operand can follow
  have hpeek : (m.peek 1).startsOperand = false := by
    rw [hat.peeked]
    split
    · rfl
    · exact hends.apart .transfer (by simp [Expr.pieces])
  have hlevel : m.level = .trailer := by
    rw [Cursor.level, hk]
    exact if_neg (by simp [hpeek])
  have hobject : .trailer ≤ left.level := of_decide_eq_true hplaced.1
  have htight : level < .trailer := lt_level_of_fits hfits rfl (by simp [Expr.level])
  have hleft : left.Ends m := by
    refine ⟨hlevel ▸ Level.trailer_le_cap hobject, fun p hp => ?_, fun _ => by simp [hk]⟩
    cases p with
    | strings => simp [hk, Piece.Apart]
    | transfer => simp [hk, Piece.Apart, Kind.startsOperand]
    | _ => trivial
  obtain ⟨left', hleft, hclimb⟩ := ih n level c m hn hm
    (Or.inr (Or.inr (Nat.lt_of_lt_of_le htight hobject))) hleft hclear.left
  refine ⟨.transfer (left'.span.through t.span) left', ?_, climb_extension hclimb (hlevel ▸ htight) ?_ hat.lt⟩
  · exact congrArg (Expr.transfer default) hleft
  · rw [extension, kind_run, hk]
    change caret (inner n) left' m.level m = _
    rw [caret, if_pos hlevel, advance_run, hat.current]
    rfl

theorem extension_operation {op : BinaryOp} {right' : Expr} (hk : m.kind = op.kind)
    (hinner : sub op.level.cap m.advance = .ok right' d) :
    extension sub left' op.level m = .ok (.operation op left' right') d := by
  rw [extension, kind_run, hk]
  have hcurrent : m.current.kind = op.kind := hk
  cases op with
  | power =>
    change power sub left' m = _
    rw [power, advance_run]
    exact bind_ok hinner
  | bitXor =>
    change caret sub left' .bitXor m = _
    rw [caret, if_neg (by decide), binary, advance_run, binaryBy, hcurrent]
    exact bind_ok hinner
  | _ =>
    change binary sub left' _ m = _
    rw [binary, advance_run, binaryBy, hcurrent]
    exact bind_ok hinner

theorem written_binary {op : BinaryOp} (hleft : op.leftPlace.Suits left)
    (hright : op.rightPlace.Suits right) (hshaped : right.Shaped Place.Suits) (ihl : Written left)
    (ihr : Written right) : Written (.binary s op left right) := by
  intro n level c d hn hread hfits hends hclear
  obtain ⟨m, hm, hrest⟩ := hread.split
  obtain ⟨t, hat, ht⟩ := hrest.at_fixed (by cases op <;> decide)
  have hk := hat.kind.trans ht
  have hle := hm.remaining_le
  have hlt := hat.lt
  have hrange := op.level_range
  have hlevel : m.level = op.level := by
    by_cases hcaret : op = .bitXor
    · subst hcaret
      have hstarts := (hshaped.begins hright.2 hat.rest).starts
      have hremaining := hat.rest.remaining_lt hshaped.pieces_required
      have hpeek : m.peek 1 = m.advance.kind := by rw [hat.peeked, if_neg (by omega)]
      rw [Cursor.level, hk]
      exact if_pos (hpeek ▸ hstarts)
    · rw [level_eq_ofKind, hk, BinaryOp.level]
      · rw [hk]
        cases op <;> first | decide | exact absurd rfl hcaret
      · rw [hk]
        cases op <;> decide
  have htight : level < op.level := lt_level_of_fits hfits rfl hrange.1
  have hbefore : op.level ≤ left.level := BinaryOp.level_le_of_leftPlace hleft.1
  have hcap := BinaryOp.level_le_cap hleft.1
  have hbehind := BinaryOp.fits_of_rightPlace hright.1
  obtain ⟨left', hφ₁, hclimb⟩ := ihl.before hn hm hclear hk (Nat.lt_of_lt_of_le htight hbefore)
    (hlevel ▸ hcap) (by cases op <;> decide) (fun _ => by cases op <;> decide)
  have hends' : right.Ends d := ends_right (left.pieces ++ [.fixed op.kind]) hends
    (by simp [Expr.pieces]) hends.capped hrange.2 hbehind.2
  obtain ⟨right', hφ₂, hinner⟩ := ihr.inner_ok (n := n) (by omega) hat.rest hbehind.1 hends' hclear.right.tail
    hends.capped
  have hlast := hat.rest.remaining_le
  refine ⟨.operation op left' right', ?_, climb_extension hclimb (hlevel ▸ htight) ?_ (by omega)⟩
  · exact congrArg₂ (Expr.binary default op) hφ₁ hφ₂
  · rw [hlevel]
    exact extension_operation hk hinner

section Comparisons

variable {op : ComparisonOp} {links : List (ComparisonOp × Expr)}

theorem comparisonOp_ok (hread : c.Read (op.kinds.map .fixed ++ ps) d)
    (hnot : ∀ m : Cursor, m.Read ps d → m.kind ≠ .kwNot) :
    ∃ m, comparisonOp? c = .ok (some op) m ∧ m.Read ps d ∧ m.remaining < c.remaining ∧
      c.level = .comparison := by
  cases op with
  | is =>
    obtain ⟨t, hat, ht⟩ := Cursor.Read.at_fixed hread (by decide)
    have hk := hat.kind.trans ht
    refine ⟨c.advance, ?_, hat.rest, hat.lt, by rw [level_eq_ofKind] <;> simp [hk, Level.ofKind]⟩
    rw [comparisonOp?, kind_run, hk]
    change (Rule.advance >>= _) c = _
    rw [advance_run, bind_ok (eat_not (hnot _ hat.rest))]
    rfl
  | isNot =>
    obtain ⟨t, hat, ht⟩ := Cursor.Read.at_fixed hread (by decide)
    obtain ⟨t', hat', ht'⟩ := Cursor.Read.at_fixed hat.rest (by decide)
    have hk := hat.kind.trans ht
    refine ⟨c.advance.advance, ?_, hat'.rest, Nat.lt_trans hat'.lt hat.lt,
      by rw [level_eq_ofKind] <;> simp [hk, Level.ofKind]⟩
    rw [comparisonOp?, kind_run, hk]
    change (Rule.advance >>= _) c = _
    rw [advance_run, bind_ok (eat_ok (hat'.kind.trans ht'))]
    rfl
  | notWithin =>
    obtain ⟨t, hat, ht⟩ := Cursor.Read.at_fixed hread (by decide)
    obtain ⟨t', hat', ht'⟩ := Cursor.Read.at_fixed hat.rest (by decide)
    have hk := hat.kind.trans ht
    have hpeek : c.peek 1 = .kwIn := (hat.peek_eq rfl).trans (hat'.kind.trans ht')
    refine ⟨c.advance.advance, ?_, hat'.rest, Nat.lt_trans hat'.lt hat.lt, ?_⟩
    · rw [comparisonOp?, kind_run, hk]
      change (Rule.peek 1 >>= _) c = _
      rw [peek_run, if_pos hpeek]
      rfl
    · rw [Cursor.level, hk]
      exact if_pos hpeek
  | _ =>
    obtain ⟨t, hat, ht⟩ := Cursor.Read.at_fixed hread (by decide)
    have hk := hat.kind.trans ht
    refine ⟨c.advance, ?_, hat.rest, hat.lt, by rw [level_eq_ofKind] <;> simp [hk, Level.ofKind]⟩
    rw [comparisonOp?, kind_run, hk]
    rfl

/-- No chain goes on before a token that binds more loosely. -/
theorem comparisonOp_none (h : c.level < .comparison) : comparisonOp? c = .ok none c := by
  have hne : c.level ≠ .comparison := fun hlevel => absurd h (hlevel ▸ Nat.lt_irrefl _)
  rw [Cursor.level] at hne
  rw [comparisonOp?, kind_run]
  generalize c.kind = k at hne ⊢
  cases k with
  | kwNot =>
    change (Rule.peek 1 >>= _) c = _
    rw [peek_run, if_neg fun hpeek => hne (if_pos hpeek)]
    rfl
  | _ => first | rfl | exact absurd rfl hne

def spanlessLink (link : ComparisonOp × Expr) : ComparisonOp × Expr := (link.1, link.2.spanless)

/-- Every token at the level of comparisons starts one. -/
theorem extension_comparison (hlevel : m.level = .comparison)
    (h : Rule.repeated (linkRound sub) m = .ok links d) :
    extension sub left' m.level m =
      .ok (.comparison (left'.span.through ((links.getLast?.map fun link => link.2).getD left').span)
        left' links) d := by
  have hcomparison : extension sub left' m.level m = comparison sub left' m := by
    rw [Cursor.level] at hlevel
    rw [extension, kind_run]
    generalize m.kind = k at hlevel ⊢
    cases k with
    | caret =>
      change (if _ then Level.bitXor else .trailer) = .comparison at hlevel
      split at hlevel <;> cases hlevel
    | _ => first | rfl | cases hlevel
  rw [hcomparison, comparison]
  exact bind_ok h

theorem links_ok (hshaped : ∀ link ∈ links, link.2.Shaped Place.Suits)
    (hplaced : ∀ link ∈ links, Place.compared.Suits link.2) (hwritten : ∀ link ∈ links, Written link.2)
    (hn : c.remaining ≤ n) (hread : c.Read (piecesLinks links) d) (hclear : Clear (piecesLinks links))
    (hlast : ∀ init link, links = init ++ [link] → link.2.Ends d) (hstop : d.level < .comparison) :
    (links ≠ [] → c.level = .comparison) ∧
      ∃ links', links'.map spanlessLink = links.map spanlessLink ∧
        Rule.repeated (linkRound (inner n)) c = .ok links' d := by
  induction links generalizing c with
  | nil =>
    obtain rfl := hread.eq_of_nil
    refine ⟨fun h => absurd rfl h, [], rfl, many_none ?_⟩
    rw [linkRound, bind_ok (comparisonOp_none hstop)]
    rfl
  | cons link links ih =>
    obtain ⟨op, operand⟩ := link
    obtain ⟨hshaped₁, hshaped⟩ := List.forall_mem_cons.mp hshaped
    obtain ⟨hplaced₁, hplaced⟩ := List.forall_mem_cons.mp hplaced
    obtain ⟨hwritten₁, hwritten⟩ := List.forall_mem_cons.mp hwritten
    have hlevel : .comparison < operand.level := of_decide_eq_true hplaced₁.1
    rw [piecesLinks, List.append_assoc] at hread hclear
    obtain ⟨m, hop, hm, hlt, hcomparison⟩ := comparisonOp_ok hread fun m hm => by
      obtain ⟨l, hl, -⟩ := hm.split
      exact (hshaped₁.begins hplaced₁.2 hl).affirmed (Nat.lt_trans (by decide) hlevel)
    obtain ⟨l, hl, hrest⟩ := hm.split
    have hle := hl.remaining_le
    obtain ⟨hnext, links', hlinks, hrepeated⟩ := ih hshaped hplaced hwritten (by omega) hrest
      hclear.right.right fun init link h => hlast ((op, operand) :: init) link (by rw [h]; rfl)
    -- the operand ends at the next link or where the chain does
    have hends : operand.Ends l ∧ l.level ≤ .comparison := by
      cases links with
      | nil =>
        obtain rfl := hrest.eq_of_nil
        exact ⟨hlast [] (op, operand) rfl, Nat.le_of_lt hstop⟩
      | cons next links =>
        have hnext := hnext (List.cons_ne_nil _ _)
        obtain ⟨k, ks, hkinds, heof, -, hstring, hparen⟩ := next.1.kinds_cons
        have hclear := hclear.right
        rw [piecesLinks, hkinds] at hrest hclear
        obtain ⟨t, hat, ht⟩ := Cursor.Read.at_fixed hrest heof
        exact ⟨ends_left hclear (hat.kind.trans ht) (hnext ▸ Level.le_cap_of_lt hlevel) hstring
          fun _ => hparen, hnext ▸ Nat.le_refl _⟩
    obtain ⟨operand', hφ, hinner⟩ := hwritten₁.inner_ok (n := n) (by omega) hl (Or.inr (Or.inr hlevel))
      hends.1 hclear.right.left hends.2
    refine ⟨fun _ => hcomparison, (op, operand') :: links', ?_, many_cons ?_ (by omega) hrepeated⟩
    · rw [List.map_cons, List.map_cons, hlinks, spanlessLink, spanlessLink, hφ]
    · rw [linkRound, bind_ok hop]
      exact bind_ok hinner

theorem written_comparison (hne : links ≠ []) (hshaped : ∀ link ∈ links, link.2.Shaped Place.Suits)
    (hleft : Place.first.Suits left) (hplaced : ∀ link ∈ links, Place.compared.Suits link.2)
    (ih : Written left) (hwritten : ∀ link ∈ links, Written link.2) :
    Written (.comparison s left links) := by
  intro n level c d hn hread hfits hends hclear
  obtain ⟨m, hm, hrest⟩ := hread.split
  have hbefore : .comparison < left.level := of_decide_eq_true hleft.1
  have hstop : d.level < .comparison := Nat.lt_of_le_of_lt hends.capped (show Level.not < .comparison by decide)
  have hle := hm.remaining_le
  have hlast : ∀ init link, links = init ++ [link] → link.2.Ends d := by
    rintro init link rfl
    refine ends_right (left.pieces ++ init.flatMap linkPieces ++ link.1.kinds.map .fixed) hends ?_
      (Nat.le_of_lt hstop) (by decide) ?_
    · simp [Expr.pieces, piecesLinks_eq_flatMap, linkPieces]
    · exact Level.le_cap_of_lt (of_decide_eq_true (hplaced link (by simp)).1)
  obtain ⟨hcomparison, links', hlinks, hrepeated⟩ := links_ok (n := n) hshaped hplaced hwritten
    (by omega) hrest hclear.right hlast hstop
  have hlevel := hcomparison hne
  have htight : level < .comparison := lt_level_of_fits hfits rfl (by simp [Expr.level])
  obtain ⟨next, links, rfl⟩ := List.exists_cons_of_ne_nil hne
  obtain ⟨k, ks, hkinds, heof, -, hstring, hparen⟩ := next.1.kinds_cons
  rw [Expr.pieces, piecesLinks, hkinds] at hclear
  rw [piecesLinks, hkinds] at hrest
  obtain ⟨t, hat, ht⟩ := Cursor.Read.at_fixed hrest heof
  obtain ⟨left', hφ, hclimb⟩ := ih.before hn hm hclear (hat.kind.trans ht)
    (Nat.lt_trans htight hbefore) (hlevel ▸ Level.le_cap_of_lt hbefore) hstring fun _ => hparen
  have hlt := hat.lt
  have hlast := hat.rest.remaining_le
  refine ⟨_, ?_, climb_extension hclimb (hlevel ▸ htight) (extension_comparison hlevel hrepeated) (by omega)⟩
  simp only [Expr.spanless, Expr.mapSpans, mapSpansLinks_eq_map]
  exact congrArg₂ (Expr.comparison default) hφ hlinks

end Comparisons

theorem written_conditional {condition elseValue : Expr} (hleft : Place.value.Suits left)
    (hmiddle : Place.value.Suits condition) (hright : Place.free.Suits elseValue) (ihl : Written left)
    (ihm : Written condition) (ihr : Written elseValue) :
    Written (.conditional s left condition elseValue) := by
  intro n level c d hn hread hfits hends hclear
  obtain ⟨m, hm, hrest⟩ := hread.split
  obtain ⟨t, hat, ht⟩ := hrest.at_fixed (by decide)
  obtain ⟨l, hl, hrest⟩ := hat.rest.split
  obtain ⟨t', hat', ht'⟩ := hrest.at_fixed (by decide)
  have hk := hat.kind.trans ht
  have hk' := hat'.kind.trans ht'
  have hle := hm.remaining_le
  have hlt := hat.lt
  have hle' := hl.remaining_le
  have hlt' := hat'.lt
  have hlast := hat'.rest.remaining_le
  have hlevel : m.level = .conditional := by rw [level_eq_ofKind] <;> simp [hk, Level.ofKind]
  have hbefore : .conditional < left.level := of_decide_eq_true hleft.1
  have hbetween : .conditional < condition.level := of_decide_eq_true hmiddle.1
  have htight : level < .conditional := lt_level_of_fits hfits rfl (by simp [Expr.level])
  have hstop : d.level ≤ .lowest := hends.capped
  obtain ⟨left', hφ₁, hclimb⟩ := ihl.before hn hm hclear hk (Nat.lt_trans htight hbefore)
    (hlevel ▸ Level.le_cap_of_lt hbefore) (by decide) fun _ => by decide
  have helse : l.kind.endsExpr = true := by rw [hk']; rfl
  obtain ⟨condition', hφ₂, hcondition⟩ := ihm.inner_ok (n := n) (by omega) hl (Or.inr (Or.inr hbetween))
    (ends_of_endsExpr helse) hclear.right.tail.left
    (by rw [Cursor.level_of_endsExpr helse]; exact Nat.zero_le _)
  have hends' : elseValue.Ends d :=
    ends_right (left.pieces ++ .fixed .kwIf :: (condition.pieces ++ [.fixed .kwElse])) hends
      (by simp [Expr.pieces]) hstop (by decide) (Nat.zero_le _)
  obtain ⟨else', hφ₃, helseValue⟩ := ihr.inner_ok (n := n) (by omega) hat'.rest
    (Or.inr (Or.inr (lowest_lt_level hright.2))) hends' hclear.right.tail.right.tail hstop
  refine ⟨.conditional (left'.span.through else'.span) left' condition' else', ?_,
    climb_extension hclimb (hlevel ▸ htight) ?_ (by omega)⟩
  · change Expr.conditional default left'.spanless condition'.spanless else'.spanless = _
    rw [hφ₁, hφ₂, hφ₃]
    rfl
  · rw [extension, kind_run, hk]
    change conditional (inner n) left' m = _
    rw [conditional, advance_run, bind_ok hcondition, bind_ok (expect_ok hk')]
    exact bind_ok helseValue

end Offside.Grammar
