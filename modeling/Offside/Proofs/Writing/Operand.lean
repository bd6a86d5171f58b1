import Offside.Proofs.Writing.Boundary

namespace Offside

namespace Grammar

open Rule Offside.Expr

variable {sub : ExprRule} {level : Level} {c d m : Cursor} {e e' left' : Expr} {n : Nat}

theorem climb_operand (h : operand sub c = .ok e' d) :
    climb sub level c = iterate Cursor.remaining (extend? sub level) e' d := bind_ok h

theorem climb_extension
    (hclimb : climb sub level c = iterate Cursor.remaining (extend? sub level) left' m)
    (hlevel : level < m.level) (hextension : extension sub left' m.level m = .ok e' d)
    (hlt : d.remaining < m.remaining) :
    climb sub level c = iterate Cursor.remaining (extend? sub level) e' d := by
  rw [hclimb]
  refine iterate_some ?_ hlt
  unfold extend?
  rw [if_pos hlevel]
  exact bind_ok hextension

/-- From where an expression is written, the rule for expressions climbs to it, up to spans. -/
def Written (e : Expr) : Prop :=
  ∀ (n : Nat) (level : Level) (c d : Cursor), c.remaining ≤ n → c.Read e.pieces d → e.Fits level →
    e.Ends d → Clear e.pieces → ∃ e', e'.spanless = e.spanless ∧
      climb (inner n) level c = iterate Cursor.remaining (extend? (inner n) level) e' d

theorem Written.inner_ok (h : Written e) (hn : c.remaining < n) (hread : c.Read e.pieces d)
    (hfits : e.Fits level) (hends : e.Ends d) (hclear : Clear e.pieces) (hstop : d.level ≤ level) :
    ∃ e', e'.spanless = e.spanless ∧ inner n level c = .ok e' d := by
  obtain ⟨e', he, hclimb⟩ := h c.remaining level c d (Nat.le_refl _) hread hfits hends hclear
  refine ⟨e', he, ?_⟩
  rw [inner_of_lt hn, expr_eq_climb, hclimb]
  refine iterate_none ?_
  unfold extend?
  exact if_neg (show ¬level < d.level from Nat.not_lt_of_le hstop)

section Operands

theorem atKeyword_not (h : ¬(c.kind = .identifier ∧ c.peek 1 = .assignment)) :
    atKeyword c = .ok false c := by
  change EStateM.Result.ok (decide (c.kind = .identifier) && decide (c.peek 1 = .assignment)) c = _
  rw [← Bool.decide_and, decide_eq_false h]

/-- An expression that can stand alone, with what is known of its parts. -/
structure Alone (e : Expr) : Prop where
  shaped : e.Shaped Place.Suits
  whole : e.isSlice = false
  written : Written e

theorem Alone.inner_ok (h : Alone e) (hn : c.remaining < n) (hread : c.Read e.pieces d)
    (hclear : Clear e.pieces) (hd : d.kind.endsExpr = true) :
    ∃ e', e'.spanless = e.spanless ∧ inner n .lowest c = .ok e' d :=
  h.written.inner_ok hn hread (Or.inr (Or.inr (lowest_lt_level h.whole))) (ends_of_endsExpr hd) hclear
    (by rw [Cursor.level_of_endsExpr hd]; exact Nat.le_refl _)

theorem Alone.element_ok (h : Alone e) (hn : c.remaining < n) (hread : c.Read e.pieces d)
    (hclear : Clear e.pieces) (hd : d.kind.endsExpr = true) (hassignment : d.kind ≠ .assignment) :
    ∃ e', e'.spanless = e.spanless ∧ element (inner n) c = .ok e' d := by
  obtain ⟨e', he, hinner⟩ := h.inner_ok hn hread hclear hd
  refine ⟨e', he, ?_⟩
  rw [element, bind_ok (atKeyword_not ((h.shaped.begins h.whole hread).unnamed hassignment))]
  exact hinner

variable {close : Kind}

theorem ends_of_closing (close : Kind) (hclose : close.isClosing = true) {k : Kind}
    (h : k = .comma ∨ (k == close) = true) : k.endsExpr = true ∧ k ≠ .assignment := by
  rcases h with rfl | h
  · decide
  · rw [beq_iff_eq.mp h]
    revert hclose
    cases close <;> decide

theorem not_closing (close : Kind) (h : c.kind.startsOperand = true) (hclose : close.isClosing = true) :
    (c.kind == close) = false := by
  refine beq_eq_false_iff_ne.mpr fun hk => ?_
  rw [hk] at h
  revert h hclose
  cases close <;> decide

theorem Alone.element_writes (h : Alone e) (hclear : Clear e.pieces) (hclose : close.isClosing = true) :
    Writes (element (inner n)) Expr.spanless Expr.pieces (· == close) n e := by
  intro c d hn hread hfollow
  obtain ⟨hd, hassignment⟩ := ends_of_closing close hclose hfollow
  obtain ⟨e', he, helement⟩ := h.element_ok hn hread hclear hd hassignment
  exact ⟨not_closing close (h.shaped.begins h.whole hread).starts hclose, e', helement, he⟩

theorem written_of_operand
    (h : ∀ n (c d : Cursor), c.remaining ≤ n → c.Read e.pieces d → e.Ends d → Clear e.pieces →
      ∃ e', e'.spanless = e.spanless ∧ operand (inner n) c = .ok e' d) : Written e := by
  intro n level c d hn hread _ hends hclear
  obtain ⟨e', he, hoperand⟩ := h n c d hn hread hends hclear
  exact ⟨e', he, climb_operand hoperand⟩

section Literals

variable {s : Span}

theorem operand_primary (h : c.kind.isAtom = true) : operand sub c = primary c := by
  rw [operand, kind_run, operandAt_atom h]

theorem written_integer {text : String} {value : Option UInt64} : Written (.integer s text value) := by
  refine written_of_operand fun n c d hn hread _ _ => ?_
  obtain ⟨t, hat, ht, rfl, rfl⟩ := Cursor.Read.at_integer hread
  obtain rfl := hat.rest.eq_of_nil
  refine ⟨.integer t.span t.text (Literal.integer? t.text), rfl, ?_⟩
  rw [operand_primary (by rw [hat.kind, ht]; rfl), primary, advance_run, hat.current, atom, ht]
  rfl

theorem written_float {value : Literal.Binary64} : Written (.float s value) := by
  refine written_of_operand fun n c d hn hread _ _ => ?_
  obtain ⟨t, hat, ht, hvalue⟩ := Cursor.Read.at_float hread
  obtain rfl := hat.rest.eq_of_nil
  refine ⟨.float t.span value, rfl, ?_⟩
  rw [operand_primary (by rw [hat.kind, ht]; rfl), primary, advance_run, hat.current, atom, ht]
  dsimp only
  rw [floatLiteral, hvalue]
  rfl

theorem written_boolean {value : Bool} : Written (.boolean s value) := by
  refine written_of_operand fun n c d hn hread _ _ => ?_
  obtain ⟨t, hat, ht⟩ := hread.at_fixed (by cases value <;> decide)
  obtain rfl := hat.rest.eq_of_nil
  refine ⟨.boolean t.span value, rfl, ?_⟩
  cases value <;>
    rw [operand_primary (by rw [hat.kind, ht]; rfl), primary, advance_run, hat.current, atom, ht] <;> rfl

theorem written_noneLiteral : Written (.noneLiteral s) := by
  refine written_of_operand fun n c d hn hread _ _ => ?_
  obtain ⟨t, hat, ht⟩ := hread.at_fixed (by decide)
  obtain rfl := hat.rest.eq_of_nil
  refine ⟨.noneLiteral t.span, rfl, ?_⟩
  rw [operand_primary (by rw [hat.kind, ht]; rfl), primary, advance_run, hat.current, atom, ht]
  rfl

theorem written_symbol {name : String} : Written (.symbol s name) := by
  refine written_of_operand fun n c d hn hread _ _ => ?_
  obtain ⟨t, hat, ht, rfl⟩ := Cursor.Read.at_name hread
  obtain rfl := hat.rest.eq_of_nil
  refine ⟨.symbol t.span t.text, rfl, ?_⟩
  rw [operand_primary (by rw [hat.kind, ht]; rfl), primary, advance_run, hat.current, atom, ht]
  rfl

/-- Adjacent strings are read up to a token of another kind. -/
theorem strings_ok {ts : List Token} (htook : c.Took ts d) (hk : ∀ t ∈ ts, t.kind = .string)
    (hd : d.kind ≠ .string) :
    Rule.repeated stringRound c = .ok ts d := by
  induction ts generalizing c with
  | nil =>
    obtain rfl := (show c.Read [] d from ⟨[], htook, .nil⟩).eq_of_nil
    refine many_none ?_
    rw [stringRound, kind_run, if_neg hd]
    rfl
  | cons t ts ih =>
    have ht := hk t List.mem_cons_self
    obtain ⟨hcurrent, hrest, hlt⟩ := htook.uncons (by simp [ht])
    refine many_cons ?_ hlt (ih hrest fun u hu => hk u (List.mem_cons_of_mem _ hu))
    rw [stringRound, kind_run, if_pos (by rw [Cursor.kind, hcurrent, ht]), ← hcurrent]
    rfl

theorem written_string {value : String} : Written (.string s value) := by
  refine written_of_operand fun n c d hn hread hends _ => ?_
  have hd : d.kind ≠ .string := hends.apart _ rfl
  obtain ⟨ts, e, hp, htook, hrest⟩ := Cursor.Read.uncons hread
  obtain rfl := hrest.eq_of_nil
  have hk := Cursor.Read.kind_strings hread
  cases hp with
  | strings hne hkinds hvalue =>
    obtain ⟨t, ts, rfl⟩ := List.exists_cons_of_ne_nil hne
    have ht := hkinds t List.mem_cons_self
    obtain ⟨hcurrent, htook, -⟩ := htook.uncons (by simp [ht])
    refine ⟨.string (t.span.through ((t :: ts).getLastD t).span) value, rfl, ?_⟩
    rw [operand_primary (by rw [hk]; rfl), primary, advance_run, hcurrent, atom, ht]
    dsimp only
    rw [adjacentStrings, bind_ok (strings_ok htook (fun u hu => hkinds u (List.mem_cons_of_mem _ hu)) hd),
      hvalue]
    rfl

end Literals

section Brackets

variable {s : Span} {es : List Expr}

theorem elements_write (close : Kind) (h : ∀ e ∈ es, Alone e) (hclear : ∀ ps ∈ es.map Expr.pieces, Clear ps)
    (hclose : close.isClosing = true) :
    ∀ e ∈ es, Writes (element (inner n)) Expr.spanless Expr.pieces (· == close) n e :=
  fun e he => (h e he).element_writes (hclear _ (List.mem_map_of_mem he)) hclose

theorem written_list (h : ∀ e ∈ es, Alone e) : Written (.list s es) := by
  refine written_of_operand fun n c d hn hread _ hclear => ?_
  rw [Expr.pieces, piecesAll_eq_map] at hread hclear
  obtain ⟨t, hat, ht⟩ := hread.at_fixed (by decide)
  obtain ⟨m, hm, hclose⟩ := hat.rest.split
  obtain ⟨t', hat', ht'⟩ := hclose.at_fixed (by decide)
  obtain rfl := hat'.rest.eq_of_nil
  have hlt := hat.lt
  have hwrites := elements_write (n := n) .closeBracket h hclear.tail.left.commaList rfl
  obtain ⟨es', hes, hφ⟩ := listUpTo_writes hwrites (by omega) hm (hat'.kind.trans ht') (by decide)
  refine ⟨.list (c.current.span.through m.current.span) es', ?_, ?_⟩
  · simp only [Expr.spanless, Expr.mapSpans, mapSpansAll_eq_map]
    exact congrArg _ hφ
  · rw [operand, kind_run, hat.kind, ht]
    change listDisplay (inner n) c = _
    rw [listDisplay, advance_run, bind_ok hes, bind_ok (expect_ok (hat'.kind.trans ht'))]
    rfl

theorem written_set (hne : es ≠ []) (h : ∀ e ∈ es, Alone e) : Written (.set s es) := by
  refine written_of_operand fun n c d hn hread _ hclear => ?_
  rw [Expr.pieces, piecesAll_eq_map] at hread hclear
  obtain ⟨t, hat, ht⟩ := hread.at_fixed (by decide)
  obtain ⟨m, hm, hclose⟩ := hat.rest.split
  obtain ⟨t', hat', ht'⟩ := hclose.at_fixed (by decide)
  obtain rfl := hat'.rest.eq_of_nil
  have hk := hat'.kind.trans ht'
  have hlt := hat.lt
  have hwrites := elements_write (n := n) .closeCurly h hclear.tail.left.commaList rfl
  obtain ⟨first, rest, rfl⟩ := List.exists_cons_of_ne_nil hne
  obtain ⟨hfirst, hrest⟩ := List.forall_mem_cons.mp h
  obtain ⟨l, hl, htail⟩ := hm.split
  have hfollow : l.kind.endsExpr = true ∧ l.kind ≠ .assignment ∧ l.kind ≠ .colon := by
    rcases kind_commaTail htail with hl | rfl
    · simp [hl, Kind.endsExpr, Kind.startsOperand, Level.ofKind]
    · simp [hk, Kind.endsExpr, Kind.startsOperand, Level.ofKind]
  have hclearFirst := hclear.tail.left.commaList first.pieces List.mem_cons_self
  obtain ⟨first', hφ₁, helement⟩ := hfirst.element_ok (n := n) (by omega) hl hclearFirst hfollow.1 hfollow.2.1
  have hstarts := (hfirst.shaped.begins hfirst.whole hl).starts
  have hle := hl.remaining_le
  obtain ⟨rest', hrest', hφ₂⟩ := commaTail_writes (fun e he => hwrites e (List.mem_cons_of_mem _ he))
    (by omega) htail (by simp [hk]) (by simp [hk])
  refine ⟨.set (c.current.span.through m.current.span) (first' :: rest'), ?_, ?_⟩
  · simp only [Expr.spanless, Expr.mapSpans, mapSpansAll_eq_map]
    exact congrArg _ (congrArg₂ List.cons hφ₁ hφ₂)
  · rw [operand, kind_run, hat.kind, ht]
    change dictOrSet (inner n) c = _
    rw [dictOrSet, advance_run, kind_run, if_neg (by simpa using not_closing .closeCurly hstarts rfl),
      bind_ok helement, bind_ok (eat_not hfollow.2.2), if_neg Bool.false_ne_true, bind_ok hrest',
      bind_ok (expect_ok hk)]
    rfl

variable {entries : List (Expr × Expr)}

def spanlessEntry (entry : Expr × Expr) : Expr × Expr := (entry.1.spanless, entry.2.spanless)

theorem entry_writes {entry : Expr × Expr} (hkey : Alone entry.1) (hvalue : Alone entry.2)
    (hclear : Clear (Expr.entryPieces entry)) :
    Writes (Grammar.entry (inner n)) spanlessEntry Expr.entryPieces (· == .closeCurly) n entry := by
  intro c d hn hread hfollow
  obtain ⟨hd, -⟩ := ends_of_closing .closeCurly rfl hfollow
  obtain ⟨m, hm, hrest⟩ := hread.split
  obtain ⟨t, hat, ht⟩ := hrest.at_fixed (by decide)
  have hk := hat.kind.trans ht
  have hle := hm.remaining_le
  have hlt := hat.lt
  obtain ⟨key', hφ₁, helement⟩ := hkey.element_ok hn hm hclear.left (by rw [hk]; rfl) (by simp [hk])
  obtain ⟨value', hφ₂, hinner⟩ := hvalue.inner_ok (n := n) (by omega) hat.rest hclear.right.tail hd
  refine ⟨not_closing .closeCurly (hkey.shaped.begins hkey.whole hm).starts rfl,
    (key', value'), ?_, Prod.ext hφ₁ hφ₂⟩
  rw [Grammar.entry, bind_ok helement, bind_ok (expect_ok hk), bind_ok hinner]
  rfl

theorem written_dict (hkeys : ∀ entry ∈ entries, Alone entry.1)
    (hvalues : ∀ entry ∈ entries, Alone entry.2) : Written (.dict s entries) := by
  refine written_of_operand fun n c d hn hread _ hclear => ?_
  rw [Expr.pieces, piecesEntries_eq_map] at hread hclear
  obtain ⟨t, hat, ht⟩ := hread.at_fixed (by decide)
  obtain ⟨m, hm, hclose⟩ := hat.rest.split
  obtain ⟨t', hat', ht'⟩ := hclose.at_fixed (by decide)
  obtain rfl := hat'.rest.eq_of_nil
  have hk := hat'.kind.trans ht'
  have hlt := hat.lt
  have hclears := hclear.tail.left.commaList
  cases entries with
  | nil =>
    obtain rfl := Cursor.Read.eq_of_nil hm
    refine ⟨.dict (c.current.span.through c.advance.current.span) [], rfl, ?_⟩
    rw [operand, kind_run, hat.kind, ht]
    change dictOrSet (inner n) c = _
    rw [dictOrSet, advance_run, kind_run, if_pos hk]
    rfl
  | cons entry rest =>
    obtain ⟨key, value⟩ := entry
    obtain ⟨hkey, hkeys⟩ := List.forall_mem_cons.mp hkeys
    obtain ⟨hvalue, hvalues⟩ := List.forall_mem_cons.mp hvalues
    have hclearFirst : Clear (key.pieces ++ .fixed .colon :: value.pieces) :=
      hclears _ List.mem_cons_self
    obtain ⟨l, hl, htail⟩ := hm.split
    obtain ⟨j, hj, hcolon⟩ := hl.split
    obtain ⟨u, hatu, hu⟩ := hcolon.at_fixed (by decide)
    have hkj := hatu.kind.trans hu
    have hfollow : l.kind.endsExpr = true := by
      rcases kind_commaTail htail with hl | rfl
      · simp [hl, Kind.endsExpr, Kind.startsOperand, Level.ofKind]
      · simp [hk, Kind.endsExpr, Kind.startsOperand, Level.ofKind]
    have hlej := hj.remaining_le
    have hltj := hatu.lt
    have hlel := hatu.rest.remaining_le
    obtain ⟨key', hφ₁, helement⟩ := hkey.element_ok (n := n) (by omega) hj hclearFirst.left
      (by rw [hkj]; rfl) (by simp [hkj])
    obtain ⟨value', hφ₂, hinner⟩ := hvalue.inner_ok (n := n) (by omega) hatu.rest hclearFirst.right.tail hfollow
    have hstarts := (hkey.shaped.begins hkey.whole hj).starts
    have hwrites : ∀ entry ∈ rest, Writes (Grammar.entry (inner n)) spanlessEntry Expr.entryPieces
        (· == .closeCurly) n entry := fun entry he =>
      entry_writes (hkeys entry he) (hvalues entry he)
        (hclears _ (List.mem_cons_of_mem _ (List.mem_map_of_mem he)))
    obtain ⟨rest', hrest', hφ₃⟩ := commaTail_writes hwrites (by omega) htail (by simp [hk]) (by simp [hk])
    refine ⟨.dict (c.current.span.through m.current.span) ((key', value') :: rest'), ?_, ?_⟩
    · simp only [Expr.spanless, Expr.mapSpans, mapSpansEntries_eq_map]
      exact congrArg _ (congrArg₂ List.cons (Prod.ext hφ₁ hφ₂) hφ₃)
    · rw [operand, kind_run, hat.kind, ht]
      change dictOrSet (inner n) c = _
      rw [dictOrSet, advance_run, kind_run, if_neg (by simpa using not_closing .closeCurly hstarts rfl),
        bind_ok helement, bind_ok (eat_ok hkj), if_pos rfl, bind_ok hinner, bind_ok hrest',
        bind_ok (expect_ok hk)]
      rfl

theorem written_tuple (h : ∀ e ∈ es, Alone e) : Written (.tuple s es) := by
  refine written_of_operand fun n c d hn hread _ hclear => ?_
  rw [Expr.pieces, piecesAll_eq_map] at hread hclear
  obtain ⟨t, hat, ht⟩ := hread.at_fixed (by decide)
  obtain ⟨m, hm, hclose⟩ := hat.rest.split
  obtain ⟨t', hat', ht'⟩ := hclose.at_fixed (by decide)
  obtain rfl := hat'.rest.eq_of_nil
  have hk := hat'.kind.trans ht'
  have hlt := hat.lt
  have hwrites := elements_write (n := n) .closeParen h hclear.tail.left.tupleList rfl
  cases es with
  | nil =>
    obtain rfl := Cursor.Read.eq_of_nil hm
    refine ⟨.tuple (c.current.span.through c.advance.current.span) [], rfl, ?_⟩
    rw [operand, kind_run, hat.kind, ht]
    change grouping (inner n) c = _
    rw [grouping, advance_run, kind_run, if_pos hk]
    rfl
  | cons first rest =>
    obtain ⟨hfirst, hrest⟩ := List.forall_mem_cons.mp h
    obtain ⟨l, hl, htail⟩ := hm.split
    obtain ⟨hcomma, htail⟩ := read_tupleTail htail
    have hclearFirst := hclear.tail.left.tupleList first.pieces List.mem_cons_self
    obtain ⟨first', hφ₁, helement⟩ := hfirst.element_ok (n := n) (by omega) hl hclearFirst
      (by rw [hcomma]; rfl) (by simp [hcomma])
    have hstarts := (hfirst.shaped.begins hfirst.whole hl).starts
    have hle := hl.remaining_le
    obtain ⟨rest', hrest', hφ₂⟩ := commaTail_writes (fun e he => hwrites e (List.mem_cons_of_mem _ he))
      (by omega) htail (by simp [hk]) (by simp [hk])
    refine ⟨.tuple (c.current.span.through m.current.span) (first' :: rest'), ?_, ?_⟩
    · simp only [Expr.spanless, Expr.mapSpans, mapSpansAll_eq_map]
      exact congrArg _ (congrArg₂ List.cons hφ₁ hφ₂)
    · rw [operand, kind_run, hat.kind, ht]
      change grouping (inner n) c = _
      rw [grouping, advance_run, kind_run, if_neg (by simpa using not_closing .closeParen hstarts rfl),
        bind_ok helement, kind_run, if_pos hcomma, bind_ok hrest', bind_ok (expect_ok hk)]
      rfl

theorem written_parenthesized (h : Alone e) : Written (.parenthesized s e) := by
  refine written_of_operand fun n c d hn hread _ hclear => ?_
  obtain ⟨t, hat, ht⟩ := hread.at_fixed (by decide)
  obtain ⟨m, hm, hclose⟩ := hat.rest.split
  obtain ⟨t', hat', ht'⟩ := hclose.at_fixed (by decide)
  obtain rfl := hat'.rest.eq_of_nil
  have hlt := hat.lt
  have hk := hat'.kind.trans ht'
  obtain ⟨e', he, helement⟩ := h.element_ok (n := n) (by omega) hm hclear.tail.left (by rw [hk]; rfl)
    (by simp [hk])
  have hbegins := h.shaped.begins h.whole hm
  refine ⟨.parenthesized (c.current.span.through m.current.span) e', ?_, ?_⟩
  · exact congrArg (Expr.parenthesized default) he
  · rw [operand, kind_run, hat.kind, ht]
    change grouping (inner n) c = _
    rw [grouping, advance_run, kind_run, if_neg (by simpa using not_closing .closeParen hbegins.starts rfl),
      bind_ok helement, kind_run, if_neg (by simp [hk]), bind_ok (expect_ok hk)]
    rfl

end Brackets

theorem written_unary {s : Span} {op : UnaryOp} (hplaced : op.place.Suits e) (ih : Written e) :
    Written (.unary s op e) := by
  refine written_of_operand fun n c d hn hread hends hclear => ?_
  have heof : op.kind ≠ .eof := by cases op <;> decide
  obtain ⟨t, hat, ht⟩ := hread.at_fixed heof
  have hlevel : op.level ≤ e.level := by
    cases op <;> exact of_decide_eq_true hplaced.1
  have hcap : op.level ≤ e.level.cap := by
    cases op <;> first | exact Level.unary_le_cap hlevel | exact Level.not_le_cap hlevel
  have hstop : d.level ≤ op.level := by
    have hcapped : d.level ≤ op.level.cap := hends.capped
    cases op <;> exact hcapped
  have hlt := hat.lt
  have hright : e.Ends d := ends_right [.fixed op.kind] hends rfl hstop
    (by cases op <;> decide) hcap
  obtain ⟨e', he, hinner⟩ := ih.inner_ok (n := n) (by omega) hat.rest (fits_operator hlevel) hright
    hclear.tail hstop
  refine ⟨.unary (c.current.span.through e'.span) op e', congrArg (Expr.unary default op) he, ?_⟩
  have hk := hat.kind.trans ht
  have hcurrent : c.current.kind = op.kind := hk
  cases op with
  | not =>
    rw [operand, kind_run, hk]
    change negation (inner n) c = _
    rw [negation, advance_run]
    exact bind_ok hinner
  | plus | minus | invert =>
    rw [operand, kind_run, hk]
    change sign (inner n) c = _
    rw [sign, advance_run, hcurrent]
    exact bind_ok hinner

end Operands

end Grammar

end Offside
