import Offside.Proofs.Extent.Expr
import Offside.Proofs.Reading.Shape

namespace Offside

/-- Where expressions stand that have been read. An operand that begins with a sign or `not` reaches
as far as its own operator does, however tightly the operator before it binds. -/
def Place.takes : Place → Expr → Prop
  | left level, e => level ≤ e.level
  | right level, e => e.isPrefix = true ∨ level < e.level
  | base, e => .trailer ≤ e.level
  | exponent, e => e.isPrefix = true ∨ .power ≤ e.level
  | first, e => .comparison < e.level
  | compared, e => e.isPrefix = true ∨ .comparison < e.level
  | negated, e => e.isPrefix = true ∨ .not < e.level
  | signed, e => e.isPrefix = true ∨ .unary < e.level
  | object, e | callee, e => .trailer ≤ e.level
  | value, e => .conditional < e.level
  | free, e => .lowest < e.level

/-- What a rule for a level returns: an operand, or an operation that binds more tightly. -/
def Expr.Fits (e : Expr) (level : Level) : Prop :=
  e.isPrefix = true ∨ e.level = .primary ∨ level < e.level

/-- How tightly the token behind an operation of a level can bind at most. -/
def Level.cap : Level → Level
  | trailer => primary
  | power => unary
  | comparison => not
  | conditional => lowest
  | level => level

section Levels

variable {e : Expr} {level l : Level}

theorem Level.le_of_le_cap (h : level ≤ l.cap) (hlevel : level ≤ .trailer) : level ≤ l := by
  cases l with
  | trailer => exact hlevel
  | power | comparison | conditional => exact Nat.le_trans h (by decide)
  | _ => exact h

theorem Level.trailer_le (h : .power ≤ l.cap) : .trailer ≤ l := by
  revert h
  cases l <;> decide

theorem Level.comparison_lt (h : .comparison ≤ l.cap) : .comparison < l := by
  revert h
  cases l <;> decide

theorem Level.conditional_lt (h : .conditional ≤ l.cap) : .conditional < l := by
  revert h
  cases l <;> decide

theorem Level.conditional_lt_of_ne (h : .lowest < l) (hne : l ≠ .conditional) : .conditional < l := by
  revert h hne
  cases l <;> decide

theorem Level.le_not_of_ne (h : l ≤ .comparison) (hne : l ≠ .comparison) : l ≤ .not := by
  revert h hne
  cases l <;> decide

theorem Cursor.level_le (c : Cursor) : c.level ≤ .trailer := by
  have hofKind (k : Kind) : Level.ofKind k ≤ .trailer := by cases k <;> decide
  unfold Cursor.level
  split
  · split <;> decide
  · split <;> decide
  · exact hofKind _

/-- A prefix binds more tightly than a conditional. -/
theorem Expr.conditional_lt_level (h : e.isPrefix = true) : .conditional < e.level := by
  cases e with
  | unary s op operand =>
    change .conditional < op.level
    cases op <;> decide
  | _ => cases h

theorem Expr.Fits.above (h : e.Fits level) (hlevel : level < .primary) :
    e.isPrefix = true ∨ level < e.level := by
  rcases h with h | h | h
  · exact Or.inl h
  · exact Or.inr (h ▸ hlevel)
  · exact Or.inr h

theorem Expr.Fits.value (h : e.Fits .conditional) : .conditional < e.level :=
  (h.above (by decide)).elim Expr.conditional_lt_level id

theorem Expr.Fits.free (h : e.Fits .lowest) : .lowest < e.level :=
  (h.above (by decide)).elim (fun hp => Nat.lt_trans (by decide) (conditional_lt_level hp)) id

end Levels

namespace Grammar

open Rule Cursor

variable {sub : ExprRule} {c₀ : Cursor} {ps : List Piece} {k : Kind}

/-- What is known of an expression that has been read at a level, and of where its rule stops. -/
structure Taken (level : Level) (e : Expr) (d : Cursor) : Prop where
  shaped : e.Shaped Place.takes
  fits : e.Fits level
  stops : d.level ≤ level

def Reading (sub : ExprRule) : Prop := ∀ level, Reads (sub level) Expr.pieces (Taken level)

/-- What is known of an operand that has been read, and of the token behind it. -/
structure Leading (e : Expr) (d : Cursor) : Prop where
  shaped : e.Shaped Place.takes
  whole : e.isPrefix = true ∨ e.level = .primary
  capped : d.level ≤ e.level.cap

theorem Leading.of_primary {e : Expr} {d : Cursor} (shaped : e.Shaped Place.takes)
    (h : e.level = .primary) : Leading e d where
  shaped := shaped
  whole := Or.inr h
  capped := h ▸ Nat.le_succ_of_le d.level_le

def Part (place : Place) (e : Expr) : Prop := e.Shaped Place.takes ∧ place.takes e

section Operands

/-- Strings that follow one another are one. -/
theorem spelled_strings {v : String} {vs : List String} {ts : List Token}
    (h : Spells ((v :: vs).map .strings) ts) : (Piece.strings (String.join (v :: vs))).Spelled ts := by
  induction vs generalizing v ts with
  | nil =>
    cases h with
    | cons hp hnil =>
      cases hnil
      simpa [String.join] using hp
  | cons u vs ih =>
    cases h with
    | cons hp hrest =>
      have hrest := ih hrest
      cases hp with
      | strings hne hk hv =>
        cases hrest with
        | strings hne₂ hk₂ hv₂ =>
          refine .strings (by simp [hne]) (List.forall_mem_append.mpr ⟨hk, hk₂⟩) ?_
          rw [List.map_append, String.join_append, hv, hv₂, ← String.join_cons]

theorem spelled_string {t : Token} (hk : t.kind = .string) :
    (Piece.strings (Literal.contents t.text)).Spelled [t] :=
  .strings (List.cons_ne_nil _ _) (by simpa using hk) (by simp [String.join])

theorem adjacentStrings_reads {t : Token} (hl : c₀.last.kind = .eof) :
    Yields (fun c => c₀.Read (ps ++ [.strings (Literal.contents t.text)]) c) (adjacentStrings t)
      fun e d => c₀.Read (ps ++ e.pieces) d ∧ Leading e d := by
  have hothers : Yields (fun c => c₀.Read (ps ++ [.strings (Literal.contents t.text)]) c ∧ True)
      (Rule.repeated stringRound) fun ts d => c₀.Read (ps ++ [.strings (Literal.contents t.text)] ++
        ts.flatMap (fun t => [Piece.strings (Literal.contents t.text)]) ++ []) d ∧ True ∧
          ∀ t ∈ ts, True := by
    refine repeated_reads (fun _ => rfl) (fun c₀ hl ps => ?_) hl
    refine yields_kind_bind fun k => Yields.ite (fun hk => ?_) fun _ => ?_
    · subst hk
      refine Yields.map (((reads_advance hl (by decide)).before fun c hc => ⟨hc.1.1, hc.2⟩).weaken ?_)
      exact fun u d hd => ⟨hd.1 _ (spelled_string hd.2), trivial, trivial⟩
    · exact Yields.pure fun c hc => ⟨by simpa using hc.1.1, trivial⟩
  refine (hothers.before fun c hc => ⟨hc, trivial⟩).bind fun ts => Yields.pure fun d hd => ?_
  refine ⟨?_, .of_primary .string rfl⟩
  rw [List.append_nil, List.append_assoc] at hd
  obtain ⟨u, hps, us, htook, hspells⟩ := hd.1.split
  refine hps.trans ⟨us, htook, Piece.Spelled.spells ?_⟩
  rw [List.map_cons]
  apply spelled_strings
  rwa [List.map_cons, List.map_map, List.map_eq_flatMap]

theorem primary_reads (hl : c₀.last.kind = .eof) (hk : k ≠ .eof) :
    Yields (fun c => c₀.Read ps c ∧ c.kind = k) primary fun e d =>
      c₀.Read (ps ++ e.pieces) d ∧ Leading e d := by
  refine Yields.bind_known (reads_advance hl hk) fun t ht => ?_
  cases t using atom_cases with
  | integer t hk => exact Yields.pure fun c hc => ⟨hc _ (.integer hk rfl rfl), .of_primary .integer rfl⟩
  | float t hk =>
    unfold floatLiteral
    split
    · next value hv => exact Yields.pure fun c hc => ⟨hc _ (.float hk hv), .of_primary .float rfl⟩
    · exact yields_fail
  | string t hk => exact (adjacentStrings_reads hl).before fun c hc => hc _ (spelled_string hk)
  | symbol t hk => exact Yields.pure fun c hc => ⟨hc _ (.name hk rfl), .of_primary .symbol rfl⟩
  | boolean t b hk => exact Yields.pure fun c hc => ⟨hc _ (.fixed hk), .of_primary .boolean rfl⟩
  | noneLiteral t hk => exact Yields.pure fun c hc => ⟨hc _ (.fixed hk), .of_primary .noneLiteral rfl⟩
  | other => exact yields_fail

variable (hsub : Reading sub)

include hsub

theorem element_reads : Reads (element sub) Expr.pieces fun e _ => Part .free e := by
  intro c₀ hl ps
  refine yields_atKeyword_bind ?_ ?_
  · rw [if_pos rfl]
    exact yields_current_bind fun _ => yields_fail
  · exact (hsub .lowest c₀ hl ps).weaken fun e d hd => ⟨hd.1, hd.2.shaped, hd.2.fits.free⟩

theorem entry_reads :
    Reads (entry sub) Expr.entryPieces fun entry _ => Part .free entry.1 ∧ Part .free entry.2 := by
  intro c₀ hl ps
  refine Yields.bind_known (element_reads hsub c₀ hl ps) fun key hkey => ?_
  refine (reads_expect hl (by decide)).bind fun _ => ?_
  refine (hsub .lowest c₀ hl _).bind fun value => Yields.pure fun d hd => ?_
  refine ⟨?_, hkey, hd.2.shaped, hd.2.fits.free⟩
  simpa [Expr.entryPieces] using hd.1

variable (hl : c₀.last.kind = .eof)

include hl

theorem sign_reads (hk : k = .dash ∨ k = .plus ∨ k = .tilde) :
    Yields (fun c => c₀.Read ps c ∧ c.kind = k) (sign sub) fun e d =>
      c₀.Read (ps ++ e.pieces) d ∧ Leading e d := by
  have hsign {op : UnaryOp} (hop : op.kind = k) (hlevel : op.level = .unary)
      (hplace : op.place = .signed) {t : Token} :
      Yields (c₀.Read (ps ++ [.fixed k])) (do
        let operand ← sub .unary
        return .unary (t.span.through operand.span) op operand) fun e d =>
        c₀.Read (ps ++ e.pieces) d ∧ Leading e d := by
    refine (hsub .unary c₀ hl _).bind fun operand => Yields.pure fun d hd => ⟨?_, ?_, Or.inl rfl, ?_⟩
    · simpa [Expr.pieces, hop] using hd.1
    · refine .unary hd.2.shaped ?_
      rw [hplace]
      exact hd.2.fits.above (by decide)
    · rw [Expr.level, hlevel]
      exact hd.2.stops
  refine Yields.bind_known (reads_fixed hl ?_) fun t ht => ?_
  · rcases hk with rfl | rfl | rfl <;> decide
  · rcases hk with rfl | rfl | rfl <;> rw [ht] <;> exact hsign rfl rfl rfl

theorem negation_reads :
    Yields (fun c => c₀.Read ps c ∧ c.kind = .kwNot) (negation sub) fun e d =>
      c₀.Read (ps ++ e.pieces) d ∧ Leading e d := by
  refine Yields.bind_known (reads_fixed hl (by decide)) fun t _ => ?_
  refine (hsub .not c₀ hl _).bind fun operand => Yields.pure fun d hd => ⟨?_, ?_, Or.inl rfl, ?_⟩
  · simpa [Expr.pieces, UnaryOp.kind] using hd.1
  · exact .unary hd.2.shaped (hd.2.fits.above (by decide))
  · exact hd.2.stops

theorem grouping_reads :
    Yields (fun c => c₀.Read ps c ∧ c.kind = .openParen) (grouping sub) fun e d =>
      c₀.Read (ps ++ e.pieces) d ∧ Leading e d := by
  have helement := element_reads hsub
  refine Yields.bind_known (reads_fixed hl (by decide)) fun opening _ => ?_
  refine yields_kind_bind fun k => Yields.ite (fun hk => ?_) fun _ => ?_
  · subst hk
    refine Yields.bind_known (reads_fixed hl (by decide)) fun closing _ => Yields.pure fun d hd => ?_
    refine ⟨?_, .of_primary (.tuple (by simp) (by simp)) rfl⟩
    simpa [Expr.pieces, Expr.piecesAll, Piece.tupleList] using hd
  · refine Yields.before (P := c₀.Read (ps ++ [.fixed .openParen])) ?_ fun c hc => hc.1
    refine Yields.bind_known (helement c₀ hl _) fun first hfirst => ?_
    refine yields_kind_bind fun k => Yields.ite (fun hk => ?_) fun _ => ?_
    · subst hk
      refine Yields.bind_known (commaTail_reads_comma helement _ hl) fun rest hrest => ?_
      refine (reads_expect hl (by decide)).bind fun closing => Yields.pure fun d hd => ?_
      have helements := List.forall_mem_cons.mpr ⟨hfirst, hrest⟩
      refine ⟨?_, .of_primary (.tuple (fun e he => (helements e he).1) fun e he => (helements e he).2) rfl⟩
      simpa [Expr.pieces, Expr.piecesAll_eq_map, Piece.tupleList] using hd
    · refine Yields.before (P := c₀.Read (ps ++ [.fixed .openParen] ++ first.pieces)) ?_ fun c hc => hc.1
      refine (reads_expect hl (by decide)).bind fun closing => Yields.pure fun d hd => ?_
      refine ⟨?_, .of_primary (.parenthesized hfirst.1 hfirst.2) rfl⟩
      simpa [Expr.pieces] using hd

theorem listDisplay_reads :
    Yields (fun c => c₀.Read ps c ∧ c.kind = .openBracket) (listDisplay sub) fun e d =>
      c₀.Read (ps ++ e.pieces) d ∧ Leading e d := by
  refine Yields.bind_known (reads_fixed hl (by decide)) fun opening _ => ?_
  refine Yields.bind_known (listUpTo_reads (element_reads hsub) _ c₀ hl _) fun elements helements => ?_
  refine (reads_expect hl (by decide)).bind fun closing => Yields.pure fun d hd => ?_
  refine ⟨?_, .of_primary (.list (fun e he => (helements e he).1) fun e he => (helements e he).2) rfl⟩
  simpa [Expr.pieces, Expr.piecesAll_eq_map] using hd

theorem dictOrSet_reads :
    Yields (fun c => c₀.Read ps c ∧ c.kind = .openCurly) (dictOrSet sub) fun e d =>
      c₀.Read (ps ++ e.pieces) d ∧ Leading e d := by
  refine Yields.bind_known (reads_fixed hl (by decide)) fun opening _ => ?_
  refine yields_kind_bind fun k => Yields.ite (fun hk => ?_) fun _ => ?_
  · subst hk
    refine Yields.bind_known (reads_fixed hl (by decide)) fun closing _ => Yields.pure fun d hd => ?_
    refine ⟨?_, .of_primary (.dict (by simp) (by simp) (by simp)) rfl⟩
    simpa [Expr.pieces, Expr.piecesEntries, Piece.commaList] using hd
  · refine Yields.before (P := c₀.Read (ps ++ [.fixed .openCurly])) ?_ fun c hc => hc.1
    refine Yields.bind_known (element_reads hsub c₀ hl _) fun first hfirst => ?_
    refine reads_eat_bind hl (by decide) ?_ ?_
    · refine Yields.bind_known ((hsub .lowest c₀ hl _).weaken fun e d hd =>
        ⟨hd.1, (⟨hd.2.shaped, hd.2.fits.free⟩ : Part .free e)⟩) fun value hvalue => ?_
      refine Yields.bind_known (commaTail_reads (entry_reads hsub) _ c₀ hl _) fun rest hrest => ?_
      refine (reads_expect hl (by decide)).bind fun closing => Yields.pure fun d hd => ?_
      have hentries : ∀ entry ∈ (first, value) :: rest, Part .free entry.1 ∧ Part .free entry.2 :=
        List.forall_mem_cons.mpr ⟨⟨hfirst, hvalue⟩, hrest⟩
      refine ⟨?_, .of_primary (.dict (fun e he => (hentries e he).1.1) (fun e he => (hentries e he).2.1)
        fun e he => ⟨(hentries e he).1.2, (hentries e he).2.2⟩) rfl⟩
      simpa [Expr.pieces, Expr.piecesEntries_eq_map, Piece.commaList, Expr.entryPieces] using hd
    · refine Yields.bind_known (commaTail_reads (element_reads hsub) _ c₀ hl _) fun rest hrest => ?_
      refine (reads_expect hl (by decide)).bind fun closing => Yields.pure fun d hd => ?_
      have helements := List.forall_mem_cons.mpr ⟨hfirst, hrest⟩
      refine ⟨?_, .of_primary (.set (by simp) (fun e he => (helements e he).1)
        fun e he => (helements e he).2) rfl⟩
      simpa [Expr.pieces, Expr.piecesAll_eq_map, Piece.commaList] using hd

theorem operand_reads :
    Yields (c₀.Read ps) (operand sub) fun e d => c₀.Read (ps ++ e.pieces) d ∧ Leading e d := by
  refine yields_kind_bind fun k => ?_
  cases k using operand_cases with
  | primary k hk => exact primary_reads hl (Kind.ne_of_inner (Kind.isBoundary_of_isAtom hk) rfl)
  | sign op hop => exact sign_reads hsub hl (by cases op <;> simp_all [UnaryOp.kind])
  | negation => exact negation_reads hsub hl
  | grouping => exact grouping_reads hsub hl
  | list => exact listDisplay_reads hsub hl
  | braces => exact dictOrSet_reads hsub hl
  | other => exact yields_unexpected

end Operands

section Extensions

theorem binaryOp?_kind {op : BinaryOp} (h : binaryOp? k = some op) : op.kind = k := by
  cases k <;> first | cases h; done | (cases h; rfl)

theorem level_eq_ofKind {c : Cursor} (hcaret : c.kind ≠ .caret) (hnot : c.kind ≠ .kwNot) :
    c.level = .ofKind c.kind := by
  unfold Cursor.level
  split
  · contradiction
  · contradiction
  · rfl

theorem level_eq_comparison {c : Cursor} (hk : Level.ofKind c.kind = .comparison)
    (h : .lowest < c.level) : c.level = .comparison := by
  unfold Cursor.level at h ⊢
  split
  · next hcaret => cases hcaret ▸ hk
  · next hnot =>
    split
    · rfl
    · next hin =>
      rw [hnot] at h
      exact absurd h (by simp [hin, show ¬Level.lowest < .lowest by decide])
  · exact hk

theorem ofKind_of_comparison {c : Cursor} (h : c.level = .comparison) : Level.ofKind c.kind = .comparison := by
  unfold Cursor.level at h
  split at h
  · split at h <;> cases h
  · next hnot =>
    rw [hnot]
    rfl
  · exact h

theorem level_caret {c : Cursor} (hk : c.kind = .caret) : c.level = .bitXor ∨ c.level = .trailer := by
  unfold Cursor.level
  rw [hk]
  dsimp only
  split
  · exact Or.inl rfl
  · exact Or.inr rfl

structure Extended (c₀ : Cursor) (ps : List Piece) (left : Expr) (level : Level) (e : Expr)
    (d : Cursor) : Prop where
  shaped : e.Shaped Place.takes
  level_eq : e.level = level
  capped : d.level ≤ level.cap
  read : ∃ qs, e.pieces = left.pieces ++ qs ∧ qs.any Piece.required = true ∧ c₀.Read (ps ++ qs) d

variable {left : Expr} {level : Level}

theorem comparisonOp?_reads (hl : c₀.last.kind = .eof) :
    Yields (c₀.Read ps) comparisonOp? fun r d =>
      match r with
      | none => c₀.Read ps d ∧ d.level ≠ .comparison
      | some op => c₀.Read (ps ++ op.kinds.map .fixed) d := by
  have htaking {k : Kind} {op : ComparisonOp} (hk : k ≠ .eof) (hop : op.kinds = [k]) :
      Yields (fun c => c₀.Read ps c ∧ c.kind = k) (taking op)
        fun r d => match r with
          | none => c₀.Read ps d ∧ d.level ≠ .comparison
          | some op => c₀.Read (ps ++ op.kinds.map .fixed) d :=
    (reads_fixed hl hk).bind fun _ => Yields.pure fun d hd => by simpa [hop] using hd.1
  refine yields_kind_bind fun k => ?_
  cases k using comparisonOp_cases with
  | taking op k hop =>
    have hk := Kind.isBoundary_of_comparison (ComparisonOp.level_of_kinds hop)
    exact htaking (Kind.ne_of_inner hk rfl) hop
  | is =>
    refine Yields.bind_known (reads_fixed hl (by decide)) fun _ _ => reads_eat_bind hl (by decide) ?_ ?_
    · exact Yields.pure fun d hd => by simpa [ComparisonOp.kinds] using hd
    · exact Yields.pure fun d hd => hd
  | notWithin =>
    refine yields_peek fun n => Yields.ite (fun hn => ?_) fun hn => ?_
    · subst hn
      intro c r d hc hr
      obtain ⟨_, u, hu, hr⟩ := bind_eq_ok.mp hr
      cases hu
      have hk : c.kind ≠ .eof := by simp [hc.1.2]
      have hnext := (Cursor.kind_advance hk (by simp [hc.2])).symm.trans hc.2
      obtain ⟨_, v, hv, hr⟩ := bind_eq_ok.mp hr
      cases hv
      cases hr
      have hread := (hc.1.1.advance hl hk (.fixed hc.1.2)).advance hl (by simp [hnext]) (.fixed hnext)
      simpa [ComparisonOp.kinds] using hread
    · refine Yields.pure fun c hc => ⟨hc.1.1, ?_⟩
      have hlevel : c.level = .lowest := by
        unfold Cursor.level
        rw [hc.1.2]
        exact if_neg (hc.2.symm ▸ hn)
      rw [hlevel]
      decide
  | other k hk =>
    refine Yields.pure fun c hc => ⟨hc.1, fun hlevel => hk ?_⟩
    rw [← hc.2]
    exact ofKind_of_comparison hlevel

variable (hsub : Reading sub) (hl : c₀.last.kind = .eof)

include hsub hl

theorem binary_reads (hleft : left.Shaped Place.takes) (hcap : level ≤ left.level.cap)
    (hk : k ≠ .eof) (hlevel : level = .ofKind k) (hpower : k ≠ .starStar) :
    Yields (fun c => c₀.Read ps c ∧ c.kind = k) (binary sub left level)
      (Extended c₀ ps left level) := by
  refine Yields.bind_known (reads_fixed hl hk) fun t ht => ?_
  unfold binaryBy
  split
  · next op hop =>
    have hkind : op.kind = k := ht ▸ binaryOp?_kind hop
    have hop : op ≠ .power := fun h => hpower (by rw [← hkind, h]; rfl)
    have heq : level = op.level := by rw [hlevel, ← hkind, BinaryOp.level]
    have hrange : level ≤ .trailer ∧ level < .primary ∧ level.cap = level := by
      rw [heq]
      revert hop
      cases op <;> decide
    refine (hsub level c₀ hl _).bind fun right => Yields.pure fun d hd => ?_
    refine ⟨.binary hleft hd.2.shaped ?_ ?_, heq.symm, by rw [hrange.2.2]; exact hd.2.stops,
      .fixed k :: right.pieces, ?_, rfl, ?_⟩
    · rw [BinaryOp.leftPlace, if_neg hop, ← heq]
      exact Level.le_of_le_cap hcap hrange.1
    · rw [BinaryOp.rightPlace, if_neg hop, ← heq]
      exact hd.2.fits.above hrange.2.1
    · rw [Expr.operation, Expr.pieces, hkind]
    · simpa using hd.1
  · exact yields_fail

theorem power_reads (hleft : left.Shaped Place.takes) (hcap : .power ≤ left.level.cap) :
    Yields (fun c => c₀.Read ps c ∧ c.kind = .starStar) (power sub left)
      (Extended c₀ ps left .power) := by
  refine Yields.bind_known (reads_fixed hl (by decide)) fun t ht => ?_
  refine (hsub .unary c₀ hl _).bind fun right => Yields.pure fun d hd => ?_
  refine ⟨.binary hleft hd.2.shaped (Level.trailer_le hcap) (hd.2.fits.above (by decide)), rfl,
    hd.2.stops, .fixed .starStar :: right.pieces, rfl, rfl, ?_⟩
  simpa using hd.1

theorem caret_reads (hleft : left.Shaped Place.takes) (hcap : level ≤ left.level.cap)
    (hlevel : level = .bitXor ∨ level = .trailer) :
    Yields (fun c => c₀.Read ps c ∧ c.kind = .caret) (caret sub left level)
      (Extended c₀ ps left level) := by
  refine Yields.ite (fun h => ?_) fun h => ?_
  · subst h
    refine Yields.bind_known (reads_advance hl (by decide)) fun t ht => Yields.pure fun d hd => ?_
    refine ⟨.transfer hleft (Level.trailer_le (Nat.le_trans (by decide) hcap)), rfl,
      Nat.le_succ_of_le d.level_le, [.transfer], rfl, rfl, hd _ (.transfer ht)⟩
  · exact binary_reads hsub hl hleft hcap (by decide) (hlevel.resolve_right h) (by decide)

theorem conditional_reads (hleft : left.Shaped Place.takes) (hcap : .conditional ≤ left.level.cap) :
    Yields (fun c => c₀.Read ps c ∧ c.kind = .kwIf) (conditional sub left)
      (Extended c₀ ps left .conditional) := by
  refine Yields.bind_known (reads_fixed hl (by decide)) fun t ht => ?_
  refine Yields.bind_known ((hsub .conditional c₀ hl _).weaken fun e d hd =>
    ⟨hd.1, (⟨hd.2.shaped, hd.2.fits.value⟩ : Part .value e)⟩) fun condition hcondition => ?_
  refine (reads_expect hl (by decide)).bind fun _ => ?_
  refine (hsub .lowest c₀ hl _).bind fun elseValue => Yields.pure fun d hd => ?_
  refine ⟨.conditional hleft hcondition.1 hd.2.shaped (Level.conditional_lt hcap) hcondition.2
    hd.2.fits.free, rfl, hd.2.stops,
    .fixed .kwIf :: (condition.pieces ++ .fixed .kwElse :: elseValue.pieces), rfl, rfl, ?_⟩
  simpa using hd.1

omit hl in
/-- The operators of a comparison end where none stands. -/
theorem link_reads (hl : c₀.last.kind = .eof) (ps : List Piece) :
    Yields (fun c => c₀.Read ps c ∧ c.level ≤ .comparison) (linkRound sub)
      (Stepped c₀ ps Expr.linkPieces [] (fun c => c.level ≤ .comparison) (fun c => c.level ≤ .not)
        fun link => Part .compared link.2) := by
  intro c r d hc hr
  obtain ⟨op, u, hop, hr⟩ := bind_eq_ok.mp hr
  have hread := comparisonOp?_reads hl c op u hc.1 hop
  cases op with
  | none =>
    cases hr
    have hlevel := comparisonOp?_none (P := fun c => c.level ≤ .comparison) c none d hc.2 hop rfl
    exact ⟨by simpa using hread.1, Level.le_not_of_ne hlevel hread.2⟩
  | some op =>
    obtain ⟨operand, v, hv, hr⟩ := bind_eq_ok.mp hr
    cases hr
    have htaken := hsub .comparison c₀ hl _ u operand d hread hv
    refine ⟨by simpa [Expr.linkPieces] using htaken.1, htaken.2.stops, htaken.2.shaped, ?_⟩
    exact htaken.2.fits.above (by decide)

theorem comparison_reads (hleft : left.Shaped Place.takes) (hcap : .comparison ≤ left.level.cap) :
    Yields (fun c => c₀.Read ps c ∧ c.level = .comparison) (comparison sub left)
      (Extended c₀ ps left .comparison) := by
  intro c e d hc hr
  obtain ⟨links, u, hlinks, hr⟩ := bind_eq_ok.mp hr
  cases hr
  have hpieces (link : ComparisonOp × Expr) : (Expr.linkPieces link).any Piece.required = true := by
    obtain ⟨op, operand⟩ := link
    cases op <;> rfl
  obtain ⟨hread, hstops, hparts⟩ := repeated_reads hpieces (fun _ => link_reads hsub) hl c links d
    ⟨hc.1, Nat.le_of_eq (congrArg Level.rank hc.2)⟩ hlinks
  have hne : links ≠ [] := by
    -- at the level of comparisons an operator is taken
    rintro rfl
    obtain ⟨op, v, hop, hr⟩ := bind_eq_ok.mp (many_eq_nil hlinks)
    have hoperator := comparisonOp?_reads hl c op v hc.1 hop
    cases op with
    | none => exact hoperator.2 (comparisonOp?_none (P := fun c => c.level = .comparison) c none v hc.2 hop rfl)
    | some op =>
      obtain ⟨operand, v, hv, hr⟩ := bind_eq_ok.mp hr
      cases hr
  refine ⟨.comparison hne hleft (fun link h => (hparts link h).1) (Level.comparison_lt hcap)
    (fun link h => (hparts link h).2), rfl, hstops, Expr.piecesLinks links, rfl, ?_, ?_⟩
  · obtain ⟨link, rest, rfl⟩ := List.exists_cons_of_ne_nil hne
    simp [Expr.piecesLinks_eq_flatMap, hpieces]
  · rw [Expr.piecesLinks_eq_flatMap]
    simpa using hread

omit hsub in
theorem member_reads (hleft : left.Shaped Place.takes) (hcap : .trailer ≤ left.level.cap) :
    Yields (fun c => c₀.Read ps c ∧ c.kind = .dot) (member left) (Extended c₀ ps left .trailer) := by
  refine Yields.bind_known (reads_fixed hl (by decide)) fun _ _ => ?_
  refine (reads_expectDetailed hl).bind fun t => Yields.pure fun d hd => ?_
  refine ⟨.member hleft (Level.trailer_le (Nat.le_trans (by decide) hcap)), rfl,
    Nat.le_succ_of_le d.level_le, [.fixed .dot, .name t.text], rfl, rfl, ?_⟩
  simpa using hd

omit hl in
theorem argument_reads (level : Level) :
    Reads (argument sub level) Argument.pieces fun a _ =>
      a.value.Shaped Place.takes ∧ a.value.Fits level := by
  intro c₀ hl ps
  refine yields_atKeyword_bind ?_ ?_
  · refine (reads_keyword hl).bind fun name => ?_
    refine Yields.bind_known (reads_fixed hl (by decide)) fun _ _ => ?_
    refine (hsub level c₀ hl _).bind fun value => Yields.pure fun d hd => ?_
    exact ⟨by simpa [Argument.pieces] using hd.1, hd.2.shaped, hd.2.fits⟩
  · exact (hsub level c₀ hl ps).bind fun value => Yields.pure fun d hd =>
      ⟨hd.1, hd.2.shaped, hd.2.fits⟩

omit hl in
theorem callArguments_reads :
    Reads (callArguments sub)
      (fun as => .fixed .openParen :: (Piece.commaList (as.map Argument.pieces) ++ [.fixed .closeParen]))
      fun as _ => ∀ a ∈ as, Part .value a.value := by
  intro c₀ hl ps
  have hargument : Reads (argument sub .conditional) Argument.pieces fun a _ => Part .value a.value :=
    fun c₀ hl ps => (argument_reads hsub .conditional c₀ hl ps).weaken fun a d hd =>
      ⟨hd.1, hd.2.1, hd.2.2.value⟩
  refine (reads_expect hl (by decide)).bind fun _ => ?_
  refine Yields.bind_known (listUpTo_reads hargument _ c₀ hl _) fun as has => ?_
  refine (reads_expect hl (by decide)).bind fun _ => Yields.pure fun d hd => ⟨?_, has⟩
  simpa using hd

theorem call_reads (hleft : left.Shaped Place.takes) (hcap : .trailer ≤ left.level.cap) :
    Yields (c₀.Read ps) (call sub left) (Extended c₀ ps left .trailer) := by
  refine Yields.bind_known (callArguments_reads hsub c₀ hl ps) fun as has => ?_
  refine yields_previousEnd_bind fun _ => Yields.pure fun d hd => ?_
  refine ⟨.call hleft (Level.trailer_le (Nat.le_trans (by decide) hcap)) (fun a ha => (has a ha).1)
    (fun a ha => (has a ha).2), rfl, Nat.le_succ_of_le d.level_le, _, rfl, rfl, ?_⟩
  rw [Argument.piecesAll_eq_map]
  exact hd

omit hl in
theorem sliceBound_reads :
    Reads (sliceBound sub) Expr.piecesOpt fun bound _ => ∀ e ∈ bound, Part .free e := by
  intro c₀ hl ps
  have hnone : Yields (c₀.Read ps) (pure none) fun (bound : Option Expr) d =>
      c₀.Read (ps ++ Expr.piecesOpt bound) d ∧ ∀ e ∈ bound, Part .free e :=
    Yields.pure fun c hc => ⟨by simpa [Expr.piecesOpt] using hc, by simp⟩
  refine yields_kind fun k => ?_
  cases k using sliceBound_cases with
  | absent => exact hnone
  | present =>
    refine Yields.map ((hsub .lowest c₀ hl ps).weaken fun e d hd => ⟨hd.1, fun e' he => ?_⟩)
    cases he
    exact ⟨hd.2.shaped, hd.2.fits.free⟩

omit hsub hl in
theorem slice_shaped {span : Span} {lower upper step : Option Expr}
    (hlower : ∀ e ∈ lower, Part .free e) (hupper : ∀ e ∈ upper, Part .free e)
    (hstep : ∀ e ∈ step, Part .free e) : (Expr.slice span lower upper step).Shaped Place.takes := by
  have hparts : ∀ bound ∈ [lower, upper, step], ∀ e ∈ bound, Part .free e := by
    simpa using ⟨hlower, hupper, hstep⟩
  exact .slice (fun bound hbound e he => (hparts bound hbound e he).1)
    fun bound hbound e he => (hparts bound hbound e he).2

theorem sliceTail_reads (start : Offset) {lower : Option Expr} (hlower : ∀ e ∈ lower, Part .free e) :
    Yields (fun c => c₀.Read (ps ++ Expr.piecesOpt lower) c ∧ c.kind = .colon)
      (sliceTail sub start lower) fun a d =>
        c₀.Read (ps ++ a.pieces) d ∧ a.value.Shaped Place.takes ∧ a.value.isSlice = true := by
  refine Yields.bind_known (reads_fixed hl (by decide)) fun _ _ => ?_
  refine Yields.bind_known (sliceBound_reads hsub c₀ hl _) fun upper hupper => ?_
  have hrest (step : Option Expr) (hstep : ∀ e ∈ step, Part .free e) :
      Yields (c₀.Read (ps ++ Expr.piecesOpt lower ++ [.fixed .colon] ++ Expr.piecesOpt upper ++
        Expr.stepPieces step)) (sliced start lower upper step) fun a d => c₀.Read (ps ++ a.pieces) d ∧ a.value.Shaped Place.takes ∧ a.value.isSlice = true := by
    refine yields_previousEnd_bind fun _ => Yields.pure fun d hd => ?_
    refine ⟨?_, slice_shaped hlower hupper hstep, rfl⟩
    simpa [Argument.pieces, Expr.pieces] using hd
  refine reads_eat_bind hl (by decide) ?_ ?_
  · refine Yields.bind_known (sliceBound_reads hsub c₀ hl _) fun step hstep => ?_
    refine (hrest step hstep).before fun d hd => ?_
    cases step with
    | none => exact Cursor.Read.present (by simpa [Expr.piecesOpt] using hd)
    | some e => simpa [Expr.piecesOpt, Expr.stepPieces] using hd
  · exact (hrest none (by simp)).before fun d hd => hd.absent

omit hl in
theorem bracketItem_reads :
    Reads (bracketItem sub) Argument.pieces fun a _ =>
      a.value.Shaped Place.takes ∧ (a.value.isSlice = false → .lowest < a.value.level) := by
  intro c₀ hl ps
  have hslice {start : Offset} (lower : Option Expr) (hlower : ∀ e ∈ lower, Part .free e) :
      Yields (fun c => c₀.Read (ps ++ Expr.piecesOpt lower) c ∧ c.kind = .colon)
        (sliceTail sub start lower) fun a d => c₀.Read (ps ++ a.pieces) d ∧
          a.value.Shaped Place.takes ∧ (a.value.isSlice = false → .lowest < a.value.level) :=
    (sliceTail_reads hsub hl start hlower).weaken fun a d hd =>
      ⟨hd.1, hd.2.1, fun h => absurd hd.2.2 (by simp [h])⟩
  refine yields_atKeyword_bind ?_ (yields_here fun start => yields_kind_bind fun k => ?_)
  · rw [if_pos rfl]
    refine Yields.before (P := c₀.Read ps) ?_ fun c hc => hc.1
    exact (argument_reads hsub .lowest c₀ hl ps).weaken fun a d hd => ⟨hd.1, hd.2.1, fun _ => hd.2.2.free⟩
  · refine Yields.ite (fun hk => ?_) fun _ => ?_
    · exact (hslice none (by simp)).before fun c hc =>
        ⟨by simpa [Expr.piecesOpt] using hc.1, hc.2.trans hk⟩
    · refine Yields.before (P := c₀.Read ps) ?_ fun c hc => hc.1
      refine Yields.bind_known ((hsub .lowest c₀ hl ps).weaken fun e d hd =>
        ⟨hd.1, (⟨hd.2.shaped, hd.2.fits.free⟩ : Part .free e)⟩) fun e he => ?_
      refine yields_kind_bind fun k => Yields.ite (fun hk => ?_) fun _ => Yields.pure fun d hd => ?_
      · refine (hslice (some e) fun e' he' => ?_).before fun c hc => ⟨hc.1, hc.2.trans hk⟩
        cases he'
        exact he
      · exact ⟨hd.1, he.1, fun _ => he.2⟩

omit hsub hl in
/-- An entry of brackets without a fault as a type argument is neither a slice nor a conditional. -/
theorem conditional_lt_of_fault? {a : Argument} (h : typeArgumentFault? a = none)
    (ha : a.value.isSlice = false → .lowest < a.value.level) : .conditional < a.value.level := by
  have hslice : a.value.isSlice = false := by
    unfold typeArgumentFault? at h
    split at h
    · cases h
    · cases h
    · next hslice _ => cases hvalue : a.value <;> first | rfl | exact absurd hvalue (hslice _ _ _ _)
  refine Level.conditional_lt_of_ne (ha hslice) fun hlevel => ?_
  unfold typeArgumentFault? at h
  cases hvalue : a.value with
  | unary s op operand =>
    rw [hvalue] at hlevel
    cases op <;> cases hlevel
  | binary s op left right =>
    rw [hvalue] at hlevel
    cases op <;> cases hlevel
  | _ => simp_all [Expr.level]

omit hsub hl in
theorem indices_eq_ok {items : List Argument} {es : List Expr} (h : indices items = .ok es) :
    items = es.map .positional := by
  induction items generalizing es with
  | nil =>
    cases h
    rfl
  | cons item items ih =>
    cases item with
    | keyword => cases h
    | positional e =>
      rw [indices] at h
      split at h
      · next es' hes =>
        cases h
        rw [ih hes, List.map_cons]
      · cases h

theorem bracket_reads (hleft : left.Shaped Place.takes) (hcap : .trailer ≤ left.level.cap) :
    Yields (fun c => c₀.Read ps c ∧ c.kind = .openBracket) (bracket sub left)
      (Extended c₀ ps left .trailer) := by
  have hobject := Level.trailer_le (Nat.le_trans (by decide) hcap)
  refine Yields.bind_known (reads_fixed hl (by decide)) fun _ _ => ?_
  refine yields_kind fun _ => Yields.ite (fun _ => yields_unexpected) fun _ => ?_
  refine Yields.bind_known (commaList_reads (bracketItem_reads hsub) _ c₀ hl _) fun items hitems => ?_
  refine (reads_expect hl (by decide)).bind fun _ => ?_
  refine yields_kind fun _ => Yields.ite (fun _ => ?_) fun _ => ?_
  · split
    · exact Yields.throw
    · next hfault =>
      have htypes : ∀ a ∈ items, Part .value a.value := fun a ha =>
        ⟨(hitems.2 a ha).1,
          conditional_lt_of_fault? (List.findSome?_eq_none_iff.mp hfault a ha) (hitems.2 a ha).2⟩
      refine Yields.bind_known (callArguments_reads hsub c₀ hl _) fun as has => ?_
      refine yields_previousEnd_bind fun _ => Yields.pure fun d hd => ?_
      refine ⟨.genericCall hleft hobject hitems.1 (fun a ha => (htypes a ha).1)
        (fun a ha => (htypes a ha).2) (fun a ha => (has a ha).1) (fun a ha => (has a ha).2), rfl,
        Nat.le_succ_of_le d.level_le, _, rfl, rfl, ?_⟩
      simpa [Argument.piecesAll_eq_map] using hd
  · split
    · exact Yields.throw
    · next es hes =>
      have heq := indices_eq_ok hes
      subst heq
      refine yields_previousEnd_bind fun _ => Yields.pure fun d hd => ?_
      refine ⟨.subscript hleft hobject (by simpa using hitems.1) ?_ ?_, rfl,
        Nat.le_succ_of_le d.level_le, _, rfl, rfl, ?_⟩
      · exact fun e he => (hitems.2 _ (List.mem_map_of_mem he)).1
      · exact fun e he => (hitems.2 _ (List.mem_map_of_mem he)).2
      · simpa [Expr.piecesAll_eq_map, Argument.pieces, Function.comp_def] using hd

theorem extension_reads (hleft : left.Shaped Place.takes) (hcap : level ≤ left.level.cap)
    (hlevel : .lowest < level) :
    Yields (fun c => c₀.Read ps c ∧ c.level = level) (extension sub left level)
      (Extended c₀ ps left level) := by
  refine yields_kind_bind fun k => ?_
  -- the level tells the rule, except for carets
  have hseen {k : Kind} {x : Rule Expr} (hcaret : k ≠ .caret) (hnot : k ≠ .kwNot)
      (h : level = .ofKind k → Yields (fun c => c₀.Read ps c ∧ c.kind = k) x (Extended c₀ ps left level)) :
      Yields (fun c => (c₀.Read ps c ∧ c.level = level) ∧ c.kind = k) x (Extended c₀ ps left level) := by
    refine Yields.given (p := level = .ofKind k) (fun c hc => ?_) fun heq => (h heq).before fun c hc =>
      ⟨hc.1.1, hc.2⟩
    rw [← hc.1.2, ← hc.2]
    exact level_eq_ofKind (hc.2 ▸ hcaret) (hc.2 ▸ hnot)
  have hcompared {k : Kind} (hk : Level.ofKind k = .comparison) :
      Yields (fun c => (c₀.Read ps c ∧ c.level = level) ∧ c.kind = k) (comparison sub left)
        (Extended c₀ ps left level) := by
    refine Yields.given (p := level = .comparison) (fun c hc => ?_) fun heq => ?_
    · exact hc.1.2 ▸ level_eq_comparison (hc.2 ▸ hk) (hc.1.2 ▸ hlevel)
    · subst heq
      exact (comparison_reads hsub hl hleft hcap).before fun c hc => hc.1
  cases k using extension_cases with
  | conditional =>
    refine hseen (by decide) (by decide) fun h => ?_
    subst h
    exact conditional_reads hsub hl hleft hcap
  | comparison k hk => exact hcompared hk
  | caret =>
    refine Yields.given (p := level = .bitXor ∨ level = .trailer) (fun c hc => ?_) fun h => ?_
    · exact hc.1.2 ▸ level_caret hc.2
    · exact (caret_reads hsub hl hleft hcap h).before fun c hc => ⟨hc.1.1, hc.2⟩
  | power =>
    refine hseen (by decide) (by decide) fun h => ?_
    subst h
    exact power_reads hsub hl hleft hcap
  | call =>
    refine hseen (by decide) (by decide) fun h => ?_
    subst h
    exact (call_reads hsub hl hleft hcap).before fun c hc => hc.1
  | bracket =>
    refine hseen (by decide) (by decide) fun h => ?_
    subst h
    exact bracket_reads hsub hl hleft hcap
  | member =>
    refine hseen (by decide) (by decide) fun h => ?_
    subst h
    exact member_reads hl hleft hcap
  | binary op hxor hpower =>
    refine hseen (BinaryOp.kind_ne_caret hxor) op.kind_ne_not fun h => ?_
    exact binary_reads hsub hl hleft hcap (Kind.ne_of_inner op.isBoundary_kind rfl) h (BinaryOp.kind_ne_starStar hpower)
  | other => exact yields_unexpected

end Extensions

section Climbing

structure Climbed (c₀ : Cursor) (ps : List Piece) (level : Level) (e : Expr) (d : Cursor) : Prop where
  read : c₀.Read (ps ++ e.pieces) d
  shaped : e.Shaped Place.takes
  fits : e.Fits level
  capped : d.level ≤ e.level.cap

variable (hsub : Reading sub)

include hsub

theorem extend?_reads {level : Level} (hl : c₀.last.kind = .eof) (left : Expr) (n : Nat) :
    Yields (fun c => Climbed c₀ ps level left c ∧ c.remaining = n) (extend? sub level left)
      (Yields.Iterated Cursor.remaining (Climbed c₀ ps level) (fun d => d.level ≤ level) left n) := by
  rintro c r d ⟨hc, rfl⟩ hr
  unfold extend? at hr
  split at hr
  · next hlt =>
    have hlevel : .lowest < c.level := Nat.lt_of_le_of_lt (Nat.zero_le _) hlt
    obtain ⟨e, u, he, hr⟩ := bind_eq_ok.mp hr
    cases hr
    have hlast : c.last.kind = .eof := hc.read.last_eq ▸ hl
    have hfrom := extension_reads hsub hl hc.shaped hc.capped hlevel c e d ⟨hc.read, rfl⟩ he
    obtain ⟨qs, hqs, hrequired, hread⟩ :=
      (extension_reads hsub hlast hc.shaped hc.capped hlevel c e d ⟨.refl c, rfl⟩ he).read
    refine ⟨⟨?_, hfrom.shaped, ?_, hfrom.level_eq ▸ hfrom.capped⟩, hread.remaining_lt hrequired⟩
    · rw [hqs, ← List.append_assoc]
      exact hc.read.trans hread
    · exact Or.inr (Or.inr (hfrom.level_eq ▸ hlt))
  · next hle =>
    cases hr
    exact ⟨hc, Nat.le_of_not_lt hle⟩

theorem climb_reads : Reading (climb sub) := by
  intro level c₀ hl ps
  refine (operand_reads hsub hl).bind fun left => ?_
  have hclimbed : Yields (Climbed c₀ ps level left)
      (iterate Cursor.remaining (extend? sub level) left) fun e d =>
        Climbed c₀ ps level e d ∧ d.level ≤ level :=
    Yields.iterate_until (extend?_reads hsub hl) left
  refine (hclimbed.before fun c hc => ?_).weaken fun e d hd => ?_
  · exact ⟨hc.1, hc.2.shaped, hc.2.whole.imp_right Or.inl, hc.2.capped⟩
  · exact ⟨hd.1.read, hd.1.shaped, hd.1.fits, hd.2⟩

omit hsub in
theorem expr_reading : Reading expr := by
  intro level c₀ hl ps c
  induction c using WellFounded.induction (measure Cursor.remaining).wf generalizing level c₀ ps with
  | _ c ih =>
    intro e d hc hr
    have hsub : Reading (inner c.remaining) := by
      intro level' c₁ hl₁ ps' c' e' d' hc' hr'
      unfold inner at hr'
      split at hr'
      · next hlt => exact ih c' hlt level' c₁ hl₁ ps' e' d' hc' hr'
      · cases hr'
    rw [expr_eq_climb] at hr
    exact climb_reads hsub level c₀ hl ps c e d hc hr

omit hsub in
/-- An expression that is read anywhere in a stream is written with the tokens that were consumed, and
it is shaped by precedence. -/
theorem expr_sound {tokens : List Token} {n : Nat} {level : Level} {e : Expr} {d : Cursor}
    (h : expr level ((Cursor.ofTokens tokens).skip n) = .ok e d) :
    (∃ ts, ((Cursor.ofTokens tokens).skip n).Took ts d ∧ Spells e.pieces ts) ∧
      e.Shaped Place.takes ∧ e.Fits level ∧ d.level ≤ level := by
  have hl : ((Cursor.ofTokens tokens).skip n).last.kind = .eof := by
    rw [Cursor.last_skip]
    exact Cursor.last_ofTokens tokens
  obtain ⟨hread, htaken⟩ := expr_reading level _ hl [] _ e d (.refl _) h
  exact ⟨hread, htaken.shaped, htaken.fits, htaken.stops⟩

omit hsub in
/-- In `x = not b + c`, even as an operand of a sum, the negation is of the whole sum. -/
theorem expr_sound_negation :
    ∃ e d, expr .additive ((Cursor.ofTokens [⟨.identifier, "x", ⟨0, 1⟩⟩, ⟨.assignment, "=", ⟨2, 3⟩⟩,
      ⟨.kwNot, "not", ⟨8, 11⟩⟩, ⟨.identifier, "b", ⟨12, 13⟩⟩, ⟨.plus, "+", ⟨14, 15⟩⟩,
      ⟨.identifier, "c", ⟨16, 17⟩⟩]).skip 2) = .ok e d ∧ e.Shaped Place.takes ∧ e.Fits .additive := by
  have h : expr .additive ((Cursor.ofTokens [⟨.identifier, "x", ⟨0, 1⟩⟩, ⟨.assignment, "=", ⟨2, 3⟩⟩,
      ⟨.kwNot, "not", ⟨8, 11⟩⟩, ⟨.identifier, "b", ⟨12, 13⟩⟩, ⟨.plus, "+", ⟨14, 15⟩⟩,
      ⟨.identifier, "c", ⟨16, 17⟩⟩]).skip 2) = .ok (.unary ⟨8, 17⟩ .not (.binary ⟨12, 17⟩ .add
        (.symbol ⟨12, 13⟩ "b") (.symbol ⟨16, 17⟩ "c")))
        ⟨some ⟨.identifier, "c", ⟨16, 17⟩⟩, [], .layout .eof (.point 17)⟩ := by
    cbv
  exact ⟨_, _, h, (expr_sound h).2.1, (expr_sound h).2.2.1⟩

end Climbing

end Grammar

end Offside
