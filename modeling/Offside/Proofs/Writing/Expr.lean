import Offside.Proofs.Writing.Operation

namespace Offside

theorem Expr.level_spanless (e : Expr) : e.spanless.level = e.level := by cases e <;> rfl

namespace Argument

def spanless (a : Argument) : Argument := a.mapSpans fun _ => default

theorem value_spanless (a : Argument) : a.spanless.value = a.value.spanless := by cases a <;> rfl

end Argument

namespace Grammar

open Rule Offside.Expr

variable {sub : ExprRule} {c d m : Cursor} {e : Expr} {a : Argument} {n : Nat} {level : Level}

section Arguments

/-- A rule for subexpressions that agrees with the rule for expressions where few tokens are left. -/
def Faithful (sub : ExprRule) (n : Nat) : Prop := ∀ level (c : Cursor), c.remaining < n → sub level c = expr level c

theorem inner_faithful (n : Nat) : Faithful (inner n) n := fun _ _ h => inner_of_lt h

theorem expr_faithful (n : Nat) : Faithful expr n := fun _ _ _ => rfl


theorem atKeyword_ok {name : String} {ps : List Piece}
    (hread : c.Read (.name name :: .fixed .assignment :: ps) d) : atKeyword c = .ok true c := by
  obtain ⟨t, hat, ht, -⟩ := hread.at_name
  obtain ⟨t', hat', ht'⟩ := hat.rest.at_fixed (by decide)
  have hpeek := (hat.peek_eq rfl).trans (hat'.kind.trans ht')
  change EStateM.Result.ok (decide (c.kind = .identifier) && decide (c.peek 1 = .assignment)) c = _
  rw [← Bool.decide_and, decide_eq_true ⟨hat.kind.trans ht, hpeek⟩]

theorem argument_writes (hsub : Faithful sub n) (h : Alone a.value) (hlevel : level < a.value.level) (hclear : Clear a.pieces)
    (close : Kind) (hclose : close.isClosing = true) :
    Writes (argument sub level) Argument.spanless Argument.pieces (· == close) n a := by
  intro c d hn hread hfollow
  obtain ⟨hd, hassignment⟩ := ends_of_closing close hclose hfollow
  have hstop : d.level ≤ level := by
    rw [Cursor.level_of_endsExpr hd]
    exact Nat.zero_le _
  cases a with
  | positional value =>
    have hbegins := h.shaped.begins h.whole hread
    obtain ⟨value', hφ, hinner⟩ := h.written.inner_ok hn hread (Or.inr (Or.inr hlevel))
      (ends_of_endsExpr hd) hclear hstop
    refine ⟨not_closing close hbegins.starts hclose, .positional value', ?_,
      congrArg Argument.positional hφ⟩
    rw [inner_of_lt hn, ← hsub _ _ hn] at hinner
    rw [argument, bind_ok (atKeyword_not (hbegins.unnamed hassignment))]
    exact bind_ok hinner
  | keyword s name value =>
    have hkeyword := atKeyword_ok hread
    obtain ⟨t, hat, ht, rfl⟩ := Cursor.Read.at_name hread
    obtain ⟨t', hat', ht'⟩ := hat.rest.at_fixed (by decide)
    have hk := hat.kind.trans ht
    have hlt := hat.lt
    have hlt' := hat'.lt
    obtain ⟨value', hφ, hinner⟩ := h.written.inner_ok (n := n) (by omega) hat'.rest
      (Or.inr (Or.inr hlevel)) (ends_of_endsExpr hd) hclear.tail.tail hstop
    rw [inner_of_lt (by omega), ← hsub _ _ (by omega)] at hinner
    refine ⟨not_closing close (by rw [hk]; rfl) hclose,
      .keyword (t.span.through value'.span) t.text value', ?_,
      congrArg (Argument.keyword default t.text) hφ⟩
    rw [argument, bind_ok hkeyword, if_pos rfl, advance_run, advance_run, bind_ok hinner, hat.current]
    rfl

variable {as : List Argument}

def Argued (a : Argument) : Prop := Alone a.value ∧ .conditional < a.value.level

theorem callArguments_ok (hsub : Faithful sub n) (h : ∀ a ∈ as, Argued a) (hn : c.remaining ≤ n)
    (hread : c.Read (.fixed .openParen :: (Piece.commaList (as.map Argument.pieces) ++ [.fixed .closeParen])) d)
    (hclear : Clear (.fixed .openParen :: (Piece.commaList (as.map Argument.pieces) ++ [.fixed .closeParen]))) :
    c.kind = .openParen ∧ ∃ as', as'.map Argument.spanless = as.map Argument.spanless ∧
      callArguments sub c = .ok as' d := by
  obtain ⟨t, hat, ht⟩ := hread.at_fixed (by decide)
  obtain ⟨m, hm, hclose⟩ := hat.rest.split
  obtain ⟨t', hat', ht'⟩ := hclose.at_fixed (by decide)
  obtain rfl := hat'.rest.eq_of_nil
  have hk := hat.kind.trans ht
  have hk' := hat'.kind.trans ht'
  have hlt := hat.lt
  have hwrites : ∀ a ∈ as, Writes (argument sub .conditional) Argument.spanless Argument.pieces
      (· == .closeParen) n a := fun a ha =>
    argument_writes hsub (h a ha).1 (h a ha).2 (hclear.tail.left.commaList _ (List.mem_map_of_mem ha)) _ rfl
  obtain ⟨as', has, hφ⟩ := listUpTo_writes hwrites (by omega) hm hk' (by decide)
  refine ⟨hk, as', hφ, ?_⟩
  rw [callArguments, bind_ok (expect_ok hk), bind_ok has, bind_ok (expect_ok hk')]
  rfl

theorem written_call {s : Span} {callee : Expr} (hplaced : Place.callee.Suits callee)
    (ih : Written callee) (h : ∀ a ∈ as, Argued a) : Written (.call s callee as) := by
  intro n level c d hn hread hfits hends hclear
  rw [Expr.pieces, Argument.piecesAll_eq_map] at hread hclear
  obtain ⟨m, hm, hrest⟩ := hread.split
  have hle := hm.remaining_le
  have hlast := hrest.remaining_lt rfl
  obtain ⟨hk, as', hφ, harguments⟩ := callArguments_ok (inner_faithful n) h (by omega) hrest hclear.right
  have hlevel : m.level = .trailer := by rw [level_eq_ofKind] <;> simp [hk, Level.ofKind]
  have hadmits : (decide (.trailer ≤ callee.level) && !callee.isSubscript) = true := hplaced.1
  simp only [Bool.and_eq_true, decide_eq_true_eq, Bool.not_eq_true'] at hadmits
  have htight : level < .trailer := lt_level_of_fits hfits rfl (by simp [Expr.level])
  obtain ⟨callee', hcallee, hclimb⟩ := ih.before hn hm hclear hk (Nat.lt_of_lt_of_le htight hadmits.1)
    (hlevel ▸ Level.trailer_le_cap hadmits.1) (by decide) fun h => by simp [hadmits.2] at h
  refine ⟨.call ⟨callee'.span.start, d.previousEnd⟩ callee' as', ?_,
    climb_extension hclimb (hlevel ▸ htight) ?_ hlast⟩
  · simp only [Expr.spanless, Expr.mapSpans, Argument.mapSpansAll_eq_map]
    exact congrArg₂ (Expr.call default) hcallee hφ
  · rw [extension, kind_run, hk]
    change call (inner n) callee' m = _
    rw [call, bind_ok harguments]
    rfl

end Arguments

section Brackets

/-- In brackets behind an operand, an expression or `name=value`. -/
theorem bracketItem_writes (h : Alone a.value) (hclear : Clear a.pieces) :
    Writes (bracketItem (inner n)) Argument.spanless Argument.pieces (· == .closeBracket) n a := by
  intro c d hn hread hfollow
  obtain ⟨hd, hassignment⟩ := ends_of_closing .closeBracket rfl hfollow
  cases a with
  | keyword s name value =>
    obtain ⟨hstop, a', hargument, hφ⟩ :=
      argument_writes (inner_faithful n) h (lowest_lt_level h.whole) hclear .closeBracket rfl c d hn hread hfollow
    exact ⟨hstop, a', by rw [bracketItem, bind_ok (atKeyword_ok hread), if_pos rfl, hargument], hφ⟩
  | positional value =>
    have hbegins := h.shaped.begins h.whole hread
    have hcolon : c.kind ≠ .colon := fun hk => by
      have hstarts := hbegins.starts
      simp [hk, Kind.startsOperand] at hstarts
    have hcolon' : d.kind ≠ .colon := fun hk => by simp [hk] at hfollow
    obtain ⟨value', hφ, hinner⟩ := h.inner_ok hn hread hclear hd
    refine ⟨not_closing .closeBracket hbegins.starts rfl, .positional value', ?_,
      congrArg Argument.positional hφ⟩
    rw [bracketItem, bind_ok (atKeyword_not (hbegins.unnamed hassignment)), if_neg Bool.false_ne_true,
      here_run, kind_run, if_neg hcolon, bind_ok hinner, kind_run, if_neg hcolon']
    rfl

variable {lower upper step : Option Expr}

theorem sliceBound_ok {bound : Option Expr} (h : ∀ e ∈ bound, Alone e) (hn : c.remaining < n)
    (hread : c.Read (piecesOpt bound) d) (hclear : Clear (piecesOpt bound))
    (hd : d.kind = .colon ∨ d.kind = .comma ∨ d.kind = .closeBracket) :
    ∃ bound', bound'.map spanless = bound.map spanless ∧ sliceBound (inner n) c = .ok bound' d := by
  cases bound with
  | none =>
    obtain rfl := hread.eq_of_nil
    refine ⟨none, rfl, ?_⟩
    rw [sliceBound, kind_run]
    rcases hd with hd | hd | hd <;> rw [hd] <;> rfl
  | some e =>
    have h := h e rfl
    have hends : d.kind.endsExpr = true := by rcases hd with hd | hd | hd <;> rw [hd] <;> rfl
    obtain ⟨e', hφ, hinner⟩ := h.inner_ok hn hread hclear hends
    refine ⟨some e', congrArg some hφ, ?_⟩
    have hstarts := (h.shaped.begins h.whole hread).starts
    rw [sliceBound, kind_run]
    generalize c.kind = k at hstarts
    cases k <;> first | exact bind_ok hinner | cases hstarts

/-- From its first colon, the rest of a slice. -/
theorem sliceTail_ok (hupper : ∀ e ∈ upper, Alone e) (hstep : ∀ e ∈ step, Alone e)
    (hn : c.remaining ≤ n) (hread : c.Read (.fixed .colon :: (piecesOpt upper ++ stepPieces step)) d)
    (hclear : Clear (.fixed .colon :: (piecesOpt upper ++ stepPieces step)))
    (hd : d.kind = .comma ∨ d.kind = .closeBracket) (start : Offset) (lower : Option Expr) :
    c.kind = .colon ∧ ∃ upper' step', upper'.map spanless = upper.map spanless ∧
      step'.map spanless = step.map spanless ∧ sliceTail (inner n) start lower c =
        .ok (.positional (.slice ⟨start, d.previousEnd⟩ lower upper' step')) d := by
  obtain ⟨t, hat, ht⟩ := hread.at_fixed (by decide)
  obtain ⟨m, hm, hrest⟩ := hat.rest.split
  have hlt := hat.lt
  have hle := hm.remaining_le
  have hnone : d.kind ≠ .colon := by rcases hd with hd | hd <;> simp [hd]
  refine ⟨hat.kind.trans ht, ?_⟩
  have hmiddle : (m = d ∧ step = none) ∨
      ∃ u, m.At u (piecesOpt step) d ∧ u.kind = .colon := by
    cases step with
    | none =>
      rcases hrest.at_optional (by decide) with h | ⟨u, hu, hk⟩
      · exact Or.inl ⟨h.eq_of_nil, rfl⟩
      · exact Or.inr ⟨u, hu, hk⟩
    | some e => exact Or.inr (Cursor.Read.at_fixed hrest (by decide))
  rcases hmiddle with ⟨rfl, rfl⟩ | ⟨u, hu, hk⟩
  · obtain ⟨upper', hφ, hbound⟩ := sliceBound_ok (n := n) hupper (by omega) hm hclear.tail.left (Or.inr hd)
    refine ⟨upper', none, hφ, rfl, ?_⟩
    rw [sliceTail, advance_run, bind_ok hbound, bind_ok (eat_not hnone)]
    rfl
  · have hlt' := hu.lt
    have hclearStep : Clear (piecesOpt step) := by
      cases step with
      | none => exact List.IsChain.nil
      | some e => exact hclear.tail.right.tail
    obtain ⟨upper', hφ, hbound⟩ := sliceBound_ok (n := n) hupper (by omega) hm hclear.tail.left
      (Or.inl (hu.kind.trans hk))
    obtain ⟨step', hφ', hbound'⟩ := sliceBound_ok (n := n) hstep (by omega) hu.rest hclearStep (Or.inr hd)
    refine ⟨upper', step', hφ, hφ', ?_⟩
    rw [sliceTail, advance_run, bind_ok hbound, bind_ok (eat_ok (hu.kind.trans hk)), if_pos rfl,
      bind_ok hbound']
    rfl

theorem slice_writes {s : Span} (hlower : ∀ e ∈ lower, Alone e) (hupper : ∀ e ∈ upper, Alone e)
    (hstep : ∀ e ∈ step, Alone e) (hclear : Clear (Expr.slice s lower upper step).pieces) :
    Writes (bracketItem (inner n)) Argument.spanless Argument.pieces (· == .closeBracket) n
      (.positional (.slice s lower upper step)) := by
  intro c d hn hread hfollow
  have hd : d.kind = .comma ∨ d.kind = .closeBracket := by simpa using hfollow
  obtain ⟨m, hm, hrest⟩ := (show c.Read (piecesOpt lower ++ _) d from hread).split
  have hle := hm.remaining_le
  have htail := sliceTail_ok (n := n) hupper hstep (by omega) hrest hclear.right hd c.current.span.start
  cases lower with
  | none =>
    obtain rfl := hm.eq_of_nil
    obtain ⟨hcolon, upper', step', hφ₂, hφ₃, htail⟩ := htail none
    refine ⟨by simp [hcolon], .positional (.slice ⟨c.current.span.start, d.previousEnd⟩ none upper' step'),
      ?_, ?_⟩
    · rw [bracketItem, bind_ok (atKeyword_not (by simp [hcolon])), if_neg Bool.false_ne_true, here_run,
        kind_run, if_pos hcolon, htail]
    · simp only [Argument.spanless, Argument.mapSpans, Expr.mapSpans, mapSpansOpt_eq_map]
      exact congrArg Argument.positional (congrArg₂ (Expr.slice default none) hφ₂ hφ₃)
  | some e =>
    have he := hlower e rfl
    have hbegins := he.shaped.begins he.whole hm
    obtain ⟨hcolon, -⟩ := htail none
    obtain ⟨e', hφ₁, hinner⟩ := he.inner_ok hn hm hclear.left (by rw [hcolon]; rfl)
    obtain ⟨-, upper', step', hφ₂, hφ₃, htail⟩ := htail (some e')
    have hfirst : c.kind ≠ .colon := fun hk => by
      have hstarts := hbegins.starts
      simp [hk, Kind.startsOperand] at hstarts
    refine ⟨not_closing .closeBracket hbegins.starts rfl,
      .positional (.slice ⟨c.current.span.start, d.previousEnd⟩ (some e') upper' step'), ?_, ?_⟩
    · rw [bracketItem, bind_ok (atKeyword_not (hbegins.unnamed (by simp [hcolon]))),
        if_neg Bool.false_ne_true, here_run, kind_run, if_neg hfirst, bind_ok hinner, kind_run,
        if_pos hcolon, htail]
    · simp only [Argument.spanless, Argument.mapSpans, Expr.mapSpans, mapSpansOpt_eq_map]
      refine congrArg Argument.positional ?_
      change Expr.slice default (some e'.spanless) _ _ = _
      rw [hφ₁, show upper'.map (Expr.mapSpans _) = _ from hφ₂, show step'.map (Expr.mapSpans _) = _ from hφ₃]
      rfl

theorem typeArgumentFault_none (h : .conditional < a.value.level) : typeArgumentFault? a = none := by
  have hslice : a.value.isSlice = false := by
    cases ha : a.value with
    | slice => rw [ha] at h; cases h
    | _ => rfl
  rw [typeArgumentFault?]
  split
  · next ha => rw [ha] at hslice; cases hslice
  · next ha => rw [ha] at h; exact absurd h (Nat.lt_irrefl _)
  · rfl

theorem indices_ok {items : List Argument} {es : List Expr}
    (h : items.map Argument.spanless = es.map fun e => .positional e.spanless) :
    ∃ es', es'.map spanless = es.map spanless ∧ indices items = .ok es' := by
  induction items generalizing es with
  | nil =>
    cases es with
    | nil => exact ⟨[], rfl, rfl⟩
    | cons => cases h
  | cons item items ih =>
    cases es with
    | nil => cases h
    | cons e es =>
      obtain ⟨hitem, hitems⟩ := List.cons.inj h
      obtain ⟨es', hes, hindices⟩ := ih hitems
      cases item with
      | keyword => cases hitem
      | positional e' =>
        have he : e'.spanless = e.spanless := Argument.positional.inj hitem
        exact ⟨e' :: es', by rw [List.map_cons, List.map_cons, hes, he], by rw [indices, hindices]⟩

variable {s : Span} {left : Expr}

theorem bracket_ok {items : List Argument} {ps : List Piece} (hne : items ≠ [])
    (hwrites : ∀ a ∈ items, Writes (bracketItem (inner n)) Argument.spanless Argument.pieces
      (· == .closeBracket) n a) (hn : c.remaining ≤ n)
    (hread : c.Read (.fixed .openBracket ::
      (Piece.commaList (items.map Argument.pieces) ++ .fixed .closeBracket :: ps)) d) :
    c.kind = .openBracket ∧ ∃ items' m, items'.map Argument.spanless = items.map Argument.spanless ∧
      m.Read ps d ∧ m.remaining < c.remaining ∧
        ∀ left : Expr, bracket (inner n) left c = bracketed (inner n) left items' m := by
  obtain ⟨t, hat, ht⟩ := hread.at_fixed (by decide)
  obtain ⟨l, hl, hclose⟩ := hat.rest.split
  obtain ⟨t', hat', ht'⟩ := hclose.at_fixed (by decide)
  have hk' := hat'.kind.trans ht'
  have hlt := hat.lt
  have hle := hl.remaining_le
  have hlt' := hat'.lt
  obtain ⟨hstart, items', hitems, hφ⟩ := commaList_writes hwrites hne (by omega) hl (by simp [hk'])
    (by simp [hk'])
  refine ⟨hat.kind.trans ht, items', l.advance, hφ, hat'.rest, by omega, fun left => ?_⟩
  rw [bracket, advance_run, kind_run, if_neg (by simpa using hstart), bind_ok hitems,
    bind_ok (expect_ok hk')]

/-- Brackets behind an operand make one step of climbing. -/
theorem climb_bracket {sub : ExprRule} {left' e' : Expr}
    (hclimb : climb sub level c = iterate Cursor.remaining (extend? sub level) left' m)
    (hk : m.kind = .openBracket) (htight : level < .trailer) (h : bracket sub left' m = .ok e' d)
    (hlt : d.remaining < m.remaining) :
    climb sub level c = iterate Cursor.remaining (extend? sub level) e' d := by
  have hlevel : m.level = .trailer := by rw [level_eq_ofKind] <;> simp [hk, Level.ofKind]
  refine climb_extension hclimb (hlevel ▸ htight) ?_ hlt
  rw [extension, kind_run, hk]
  exact h

theorem written_genericCall {types : List Argument} (hplaced : Place.object.Suits left)
    (hne : types ≠ []) (ih : Written left) (htypes : ∀ a ∈ types, Argued a) (h : ∀ a ∈ as, Argued a) :
    Written (.genericCall s left types as) := by
  intro n level c d hn hread hfits hends hclear
  rw [Expr.pieces, Argument.piecesAll_eq_map, Argument.piecesAll_eq_map] at hread hclear
  obtain ⟨m, hm, hrest⟩ := hread.split
  have hle := hm.remaining_le
  have hwrites : ∀ a ∈ types, Writes (bracketItem (inner n)) Argument.spanless Argument.pieces
      (· == .closeBracket) n a := fun a ha =>
    bracketItem_writes (htypes a ha).1
      (hclear.right.tail.left.commaList _ (List.mem_map_of_mem ha))
  obtain ⟨hk, types', l, hφ₁, hl, hlt, hbracket⟩ := bracket_ok hne hwrites (by omega) hrest
  obtain ⟨hk', as', hφ₂, harguments⟩ := callArguments_ok (inner_faithful n) h (by omega) hl
    hclear.right.tail.right.tail
  have hlast := hl.remaining_le
  have hobject : .trailer ≤ left.level := of_decide_eq_true hplaced.1
  have htight : level < .trailer := lt_level_of_fits hfits rfl (by simp [Expr.level])
  have hlevel : m.level = .trailer := by rw [level_eq_ofKind] <;> simp [hk, Level.ofKind]
  obtain ⟨left', hφ₀, hclimb⟩ := ih.before hn hm hclear hk (Nat.lt_of_lt_of_le htight hobject)
    (hlevel ▸ Level.trailer_le_cap hobject) (by decide) fun _ => by decide
  -- the entries that were read are of the same shape as those that were written
  have hfault : types'.findSome? typeArgumentFault? = none := by
    refine List.findSome?_eq_none_iff.mpr fun a' ha' => typeArgumentFault_none ?_
    obtain ⟨a, ha, heq⟩ := List.mem_map.mp (hφ₁ ▸ List.mem_map_of_mem ha')
    have hvalue := congrArg (fun a : Argument => a.value.level) heq
    simp only [Argument.value_spanless, Expr.level_spanless] at hvalue
    exact hvalue ▸ (htypes a ha).2
  refine ⟨.genericCall ⟨left'.span.start, d.previousEnd⟩ left' types' as', ?_,
    climb_bracket hclimb hk htight ?_ (by omega)⟩
  · simp only [Expr.spanless, Expr.mapSpans, Argument.mapSpansAll_eq_map]
    change Expr.genericCall default left'.spanless (types'.map Argument.spanless)
      (as'.map Argument.spanless) = _
    rw [hφ₀, hφ₁, hφ₂]
    rfl
  · rw [hbracket, bracketed, kind_run, if_pos hk', hfault]
    exact bind_ok harguments

theorem written_subscript {es : List Expr} (hplaced : Place.object.Suits left) (hne : es ≠ [])
    (ih : Written left)
    (h : ∀ e ∈ es, ∀ n, Clear e.pieces → Writes (bracketItem (inner n)) Argument.spanless Argument.pieces
      (· == .closeBracket) n (.positional e)) : Written (.subscript s left es) := by
  intro n level c d hn hread hfits hends hclear
  rw [Expr.pieces, piecesAll_eq_map,
    show es.map Expr.pieces = (es.map Argument.positional).map Argument.pieces by
      rw [List.map_map]; rfl] at hread hclear
  obtain ⟨m, hm, hrest⟩ := hread.split
  have hle := hm.remaining_le
  have hwrites : ∀ a ∈ es.map Argument.positional, Writes (bracketItem (inner n)) Argument.spanless
      Argument.pieces (· == .closeBracket) n a :=
    List.forall_mem_map.mpr fun e he => h e he n (hclear.right.tail.left.commaList _
      (List.mem_map_of_mem (List.mem_map_of_mem he)))
  obtain ⟨hk, items', l, hφ₁, hl, hlt, hbracket⟩ := bracket_ok (by simpa using hne) hwrites (by omega) hrest
  obtain rfl := hl.eq_of_nil
  have hobject : .trailer ≤ left.level := of_decide_eq_true hplaced.1
  have htight : level < .trailer := lt_level_of_fits hfits rfl (by simp [Expr.level])
  have hlevel : m.level = .trailer := by rw [level_eq_ofKind] <;> simp [hk, Level.ofKind]
  obtain ⟨left', hφ₀, hclimb⟩ := ih.before hn hm hclear hk (Nat.lt_of_lt_of_le htight hobject)
    (hlevel ▸ Level.trailer_le_cap hobject) (by decide) fun _ => by decide
  rw [List.map_map] at hφ₁
  obtain ⟨es', hes, hindices⟩ := indices_ok hφ₁
  refine ⟨.subscript ⟨left'.span.start, l.previousEnd⟩ left' es', ?_,
    climb_bracket hclimb hk htight ?_ hlt⟩
  · simp only [Expr.spanless, Expr.mapSpans, mapSpansAll_eq_map]
    exact congrArg₂ (Expr.subscript default) hφ₀ hes
  · rw [hbracket, bracketed, kind_run, if_neg (hends.uncalled rfl), hindices]
    rfl

end Brackets

/-- What is known of an expression from its parts; of a slice, which stands only in brackets, that
its bounds are read. -/
def Known : Expr → Prop
  | .slice _ lower upper step => ∀ bound ∈ [lower, upper, step], ∀ e ∈ bound, Written e
  | e => Written e

theorem Known.written (h : Known e) (hslice : e.isSlice = false) : Written e := by
  cases e with
  | slice => cases hslice
  | _ => exact h

theorem Known.alone (h : Known e) (hshaped : e.Shaped Place.Suits) (hslice : e.isSlice = false) : Alone e :=
  ⟨hshaped, hslice, h.written hslice⟩

/-- Every expression whose parts suit their places is read where it is written. -/
theorem known_of_shaped (h : e.Shaped Place.Suits) : Known e := by
  have hargued {as : List Argument} (hshaped : ∀ a ∈ as, a.value.Shaped Place.Suits)
      (hplaced : ∀ a ∈ as, Place.value.Suits a.value) (ih : ∀ a ∈ as, Known a.value) :
      ∀ a ∈ as, Argued a := fun a ha =>
    ⟨(ih a ha).alone (hshaped a ha) (hplaced a ha).2, of_decide_eq_true (hplaced a ha).1⟩
  induction h with
  | integer => exact written_integer
  | float => exact written_float
  | string => exact written_string
  | boolean => exact written_boolean
  | noneLiteral => exact written_noneLiteral
  | symbol => exact written_symbol
  | list hs hp ih => exact written_list fun e he => (ih e he).alone (hs e he) (hp e he).2
  | tuple hs hp ih => exact written_tuple fun e he => (ih e he).alone (hs e he) (hp e he).2
  | set hne hs hp ih => exact written_set hne fun e he => (ih e he).alone (hs e he) (hp e he).2
  | dict hk hv hp ihk ihv =>
    exact written_dict (fun entry he => (ihk entry he).alone (hk entry he) (hp entry he).1.2)
      fun entry he => (ihv entry he).alone (hv entry he) (hp entry he).2.2
  | parenthesized hs hp ih => exact written_parenthesized (ih.alone hs hp.2)
  | call _ hp hv hvp ih iha => exact written_call hp (ih.written hp.2) (hargued hv hvp iha)
  | genericCall _ hp hne ht htp hv hvp ih iht iha =>
    exact written_genericCall hp hne (ih.written hp.2) (hargued ht htp iht) (hargued hv hvp iha)
  | member _ hp ih => exact written_member hp (ih.written hp.2)
  | subscript _ hp hne hs hps ih ihs =>
    refine written_subscript hp hne (ih.written hp.2) fun e he n hclear => ?_
    by_cases hslice : e.isSlice = false
    · exact bracketItem_writes (a := .positional e) ((ihs e he).alone (hs e he) hslice) hclear
    · have hknown := ihs e he
      cases hs e he with
      | slice hshaped hplaced =>
        have hbound : ∀ bound ∈ _, ∀ e ∈ bound, Alone e := fun bound hb e he =>
          ⟨hshaped bound hb e he, (hplaced bound hb e he).2, hknown bound hb e he⟩
        exact slice_writes (hbound _ (by simp)) (hbound _ (by simp)) (hbound _ (by simp)) hclear
      | _ => exact absurd rfl hslice
  | slice _ hp ih => exact fun bound hb e he => (ih bound hb e he).written (hp bound hb e he).2
  | transfer _ hp ih => exact written_transfer hp (ih.written hp.2)
  | unary _ hp ih => exact written_unary hp (ih.written hp.2)
  | binary _ hs hpl hpr ihl ihr =>
    exact written_binary hpl hpr hs (ihl.written hpl.2) (ihr.written hpr.2)
  | comparison hne _ hs hp hps ih ihs =>
    exact written_comparison hne hs hp hps (ih.written hp.2) fun link hl =>
      (ihs link hl).written (hps link hl).2
  | conditional _ _ _ hpt hpc hpe iht ihc ihe =>
    exact written_conditional hpt hpc hpe (iht.written hpt.2) (ihc.written hpc.2) (ihe.written hpe.2)

/-- An expression is read from its tokens in a place by the rule for a looser level. -/
theorem expr_written {place : Place} (h : e.Proper) (hplace : place ≠ .right .primary)
    (hlevel : level < (e.written place).level) (hread : c.Read (e.written place).pieces d)
    (hclear : Clear (e.written place).pieces) (hends : (e.written place).Ends d)
    (hstop : d.level ≤ level) :
    ∃ e', expr level c = .ok e' d ∧ e'.spanless = (e.written place).spanless := by
  obtain ⟨hshaped, hsuits⟩ := h.written_suits hplace
  obtain ⟨e', hφ, hinner⟩ := ((known_of_shaped hshaped).written hsuits.2).inner_ok
    (Nat.lt_succ_self _) hread (Or.inr (Or.inr hlevel)) hends hclear hstop
  exact ⟨e', (inner_of_lt (Nat.lt_succ_self _)).symm.trans hinner, hφ⟩

/-- An expression that needs no parentheses around it. -/
theorem expr_free (h : e.Proper) (hread : c.Read (e.written .free).pieces d)
    (hclear : Clear (e.written .free).pieces) (hd : d.kind.endsExpr = true) :
    ∃ e', expr .lowest c = .ok e' d ∧ e'.spanless = (e.written .free).spanless :=
  expr_written h (by decide) (lowest_lt_level (h.written_suits (by decide)).2.2) hread hclear
    (ends_of_endsExpr hd) (by rw [Cursor.level_of_endsExpr hd]; exact Nat.le_refl _)

/-- With parentheses just where the levels of its parts need them, an expression is read back from
its tokens, if no caret that gives up a value stands right before an operand. -/
theorem expr_enclosed (h : e.Shaped fun _ e => e.isSlice = false) (hslice : e.isSlice = false)
    (hread : c.Read e.enclosed.pieces d) (hclear : Clear e.enclosed.pieces) (hd : d.kind.endsExpr = true) :
    ∃ e', expr .lowest c = .ok e' d ∧ e'.plain = e.plain := by
  obtain ⟨e', he, hφ⟩ := expr_free ⟨h, hslice⟩ hread hclear hd
  exact ⟨e', he, (plain_eq_of_spanless hφ).trans (Proper.plain_written ⟨h, hslice⟩ .free)⟩

/-- As in the product `(a + b) * c^` at the end of a line. -/
theorem expr_enclosed_product :
    ∃ e', expr .lowest (Cursor.ofTokens [⟨.openParen, "(", ⟨0, 1⟩⟩, ⟨.identifier, "a", ⟨1, 2⟩⟩,
      ⟨.plus, "+", ⟨3, 4⟩⟩, ⟨.identifier, "b", ⟨5, 6⟩⟩, ⟨.closeParen, ")", ⟨6, 7⟩⟩,
      ⟨.star, "*", ⟨8, 9⟩⟩, ⟨.identifier, "c", ⟨10, 11⟩⟩, ⟨.caret, "^", ⟨11, 12⟩⟩,
      ⟨.newline, "", ⟨12, 13⟩⟩]) = .ok e' ⟨some ⟨.caret, "^", ⟨11, 12⟩⟩, [⟨.newline, "", ⟨12, 13⟩⟩],
        .layout .eof (.point 13)⟩ ∧
      e'.plain = .binary default .multiply
        (.binary default .add (.symbol default "a") (.symbol default "b"))
        (.transfer default (.symbol default "c")) := by
  have hshaped : (Expr.binary default .multiply
      (.binary default .add (.symbol default "a") (.symbol default "b"))
      (.transfer default (.symbol default "c"))).Shaped fun _ e => e.isSlice = false :=
    .binary (.binary .symbol .symbol rfl rfl) (.transfer .symbol rfl) rfl rfl
  refine expr_enclosed hshaped rfl ⟨[⟨.openParen, "(", ⟨0, 1⟩⟩, ⟨.identifier, "a", ⟨1, 2⟩⟩,
    ⟨.plus, "+", ⟨3, 4⟩⟩, ⟨.identifier, "b", ⟨5, 6⟩⟩, ⟨.closeParen, ")", ⟨6, 7⟩⟩,
    ⟨.star, "*", ⟨8, 9⟩⟩, ⟨.identifier, "c", ⟨10, 11⟩⟩, ⟨.caret, "^", ⟨11, 12⟩⟩], ⟨rfl, rfl, rfl⟩, ?_⟩
    ?_ rfl
  · exact .token (.fixed rfl) (.token (.name rfl rfl) (.token (.fixed rfl) (.token (.name rfl rfl)
      (.token (.fixed rfl) (.token (.fixed rfl) (.token (.name rfl rfl) (.token (.transfer rfl) .nil)))))))
  · decide

/-- Right before a sign, the caret of `a^ + b` is an exclusive or. -/
theorem caret_before_sign :
    ¬∀ (e : Expr) (c d : Cursor), (e.Shaped fun _ e => e.isSlice = false) → e.isSlice = false →
      c.Read e.enclosed.pieces d → d.kind.endsExpr = true →
      ∃ e', expr .lowest c = .ok e' d ∧ e'.plain = e.plain := by
  intro h
  let tokens : List Token := [⟨.identifier, "a", ⟨0, 1⟩⟩, ⟨.caret, "^", ⟨1, 2⟩⟩, ⟨.plus, "+", ⟨3, 4⟩⟩,
    ⟨.identifier, "b", ⟨5, 6⟩⟩]
  let d : Cursor := ⟨some ⟨.identifier, "b", ⟨5, 6⟩⟩, [], .layout .eof (.point 6)⟩
  have hread : expr .lowest (Cursor.ofTokens tokens) = .ok (.binary ⟨0, 6⟩ .bitXor (.symbol ⟨0, 1⟩ "a")
      (.unary ⟨3, 6⟩ .plus (.symbol ⟨5, 6⟩ "b"))) d := by
    cbv
  obtain ⟨e', he, hplain⟩ := h (.binary default .add (.transfer default (.symbol default "a"))
    (.symbol default "b")) (Cursor.ofTokens tokens) d (.binary (.transfer .symbol rfl) .symbol rfl rfl)
    rfl ⟨tokens, ⟨rfl, rfl, rfl⟩, .token (.name rfl rfl) (.token (.transfer rfl) (.token (.fixed rfl)
      (.token (.name rfl rfl) .nil)))⟩ rfl
  rw [hread] at he
  cases he
  cases hplain

end Grammar

end Offside
