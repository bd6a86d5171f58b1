import Offside.Proofs.Moves.Stmt
import Offside.Proofs.Writing.Simple

namespace Offside

def Kind.startsLine : Kind → Bool
  | .kwImport | .kwFrom | .kwVar | .kwAlias | .kwReturn | .kwRaise | .kwPass | .kwBreak
  | .kwContinue => true
  | k => k.startsOperand

def Kind.startsStmt (k : Kind) : Bool := Grammar.startsCompound k || k.startsLine

theorem Kind.startsLine_of_startsOperand {k : Kind} (h : k.startsOperand = true) : k.startsLine = true := by
  revert h
  cases k <;> decide

namespace Stmt.Proper

variable {allowed : ConventionSet} {s : Stmt} {c d : Cursor}

theorem starts_line (h : s.Proper allowed) (hsimple : s.isSimple = true) (hread : c.Read s.line d) :
    c.kind.startsLine = true := by
  have hword {k : Kind} {ps : List Piece} (hread : c.Read (.fixed k :: ps) d) (hk : k.startsLine = true) :
      c.kind.startsLine = true := by
    obtain ⟨t, hat, ht⟩ := hread.at_fixed (by rintro rfl; cases hk)
    rwa [hat.kind, ht]
  have hexpr {e : Expr} {m : Cursor} (h : e.Proper) (hread : c.Read (e.written .free).pieces m) :
      c.kind.startsLine = true := by
    obtain ⟨hshaped, hsuits⟩ := h.written_suits (show Place.free ≠ .right .primary by decide)
    exact Kind.startsLine_of_startsOperand (hshaped.begins hsuits.2 hread).starts
  cases h with
  | importModules => exact hword hread rfl
  | importFrom => exact hword hread rfl
  | expression h => exact hexpr h hread
  | @assignment s isVar target declaredType value htarget =>
    cases isVar with
    | true => exact hword hread rfl
    | false =>
      obtain ⟨m, hm, -⟩ := (show c.Read (target.pieces ++ _) d from hread).split
      exact hexpr htarget hm
  | @augmented s op target value _ htarget =>
    obtain ⟨m, hm, -⟩ := (show c.Read (target.pieces ++ _) d from hread).split
    exact hexpr htarget hm
  | @declaration s isVar name declaredType =>
    cases isVar with
    | true => exact hword hread rfl
    | false =>
      obtain ⟨t, hat, ht, -⟩ := (show c.Read (.name name :: _) d from hread).at_name
      rw [hat.kind, ht]
      rfl
  | aliasing => exact hword hread rfl
  | @leave s word => cases word <;> exact hword hread rfl
  | @bare s word => cases word <;> exact hword hread rfl
  | _ => cases hsimple

/-- A statement has a first token that no block and no clause begins or ends with. -/
theorem starts (h : s.Proper allowed) (hread : c.Read s.pieces d) :
    c.kind.startsStmt = true ∧ d.remaining < c.remaining := by
  have hword {k : Kind} {ps : List Piece} (hread : c.Read (.fixed k :: ps) d) (hk : k.startsStmt = true) :
      c.kind.startsStmt = true ∧ d.remaining < c.remaining := by
    obtain ⟨t, hat, ht⟩ := hread.at_fixed (by rintro rfl; cases hk)
    exact ⟨by rwa [hat.kind, ht], Nat.lt_of_le_of_lt hat.rest.remaining_le hat.lt⟩
  have hline (hpieces : s.pieces = s.line ++ [.fixed .newline]) (hsimple : s.isSimple = true) :
      c.kind.startsStmt = true ∧ d.remaining < c.remaining := by
    rw [hpieces] at hread
    obtain ⟨m, hm, hrest⟩ := hread.split
    refine ⟨?_, Nat.lt_of_lt_of_le (hrest.remaining_lt rfl) hm.remaining_le⟩
    rw [Kind.startsStmt, h.starts_line hsimple hm, Bool.or_true]
  have hfunction {head : FunctionHead} {ps : List Piece} (hread : c.Read (head.pieces ++ ps) d) :
      c.kind.startsStmt = true ∧ d.remaining < c.remaining :=
    hword (k := head.word.kind) hread (by cases head.word <;> rfl)
  have htype {head : TypeHead} {ps : List Piece} (hread : c.Read (head.pieces ++ ps) d) :
      c.kind.startsStmt = true ∧ d.remaining < c.remaining :=
    hword (k := head.word.kind) hread (by cases head.word <;> rfl)
  cases h with
  | function => exact hfunction hread
  | typeDecl => exact htype hread
  | conditional => exact hword hread rfl
  | forLoop => exact hword hread rfl
  | whileLoop => exact hword hread rfl
  | decorated hne =>
    obtain ⟨first, rest, rfl⟩ := List.exists_cons_of_ne_nil hne
    exact hword (k := .atSign) hread rfl
  | _ => exact hline rfl rfl

end Stmt.Proper

namespace Grammar

open Rule Seam

variable {cfg : Config} {allowed : ConventionSet} {sub : StmtRule Stmt} {n : Nat} {q : Progress}
  {c d e m : Cursor} {s : Stmt} {body : List Stmt}

/-- A rule for the statements inside a statement that agrees with the rule for statements where few
tokens are left. -/
def FaithfulStmt (cfg : Config) (sub : StmtRule Stmt) (n : Nat) : Prop :=
  ∀ q : Progress, q.remaining < n → sub q = stmt cfg q

theorem innerStmt_faithful (cfg : Config) (n : Nat) : FaithfulStmt cfg (innerStmt cfg n) n :=
  fun _ h => innerStmt_of_lt h

section Inline

theorem endOfStatement_newline (hc : c.kind = .newline) : endOfStatement c = .ok () c.advance := by
  rw [endOfStatement, kind_run, hc]
  rfl

theorem endOfStatement_semicolon (hc : c.kind = .semicolon) (hnext : c.advance.kind ≠ .newline) :
    endOfStatement c = .ok () c.advance := by
  rw [endOfStatement, kind_run, hc]
  change (advance >>= fun _ => eat .newline >>= _) c = _
  rw [advance_run, bind_ok (eat_not hnext)]
  rfl

theorem statement_line (h : s.Proper allowed) (hsimple : s.isSimple = true)
    (hread : q.cursor.Read s.line m) (hclear : Clear s.line) (hm : m.kind.endsLine = true)
    (hend : endOfStatement m = .ok () e) :
    ∃ s', statement cfg sub q = .ok s' { q with cursor := e } ∧ s'.plain = s.plain := by
  have hstarts := h.starts_line hsimple hread
  obtain ⟨s', hs, hφ⟩ := fromLine_of_proper h hsimple q.cursor m e hread hclear hm hend
  refine ⟨s', ?_, hφ⟩
  have hlifted : lifted (simpleStmt q.cursor.kind) q = .ok s' { q with cursor := e } := by
    rw [lifted, hs]
  rw [statement]
  refine (lifted_bind_ok (x := Rule.kind) rfl).trans ?_
  generalize q.cursor.kind = k at hstarts hlifted
  cases k <;> first | exact hlifted | cases hstarts

theorem inlineStmt_ok (hsub : FaithfulStmt cfg sub n) (hn : q.remaining < n) (h : s.Proper allowed)
    (hsimple : s.isSimple = true) (hread : q.cursor.Read s.line m) (hclear : Clear s.line)
    (hm : m.kind.endsLine = true) (hend : endOfStatement m = .ok () e) :
    ∃ s', inlineStmt sub q = .ok s' { q with cursor := e } ∧ s'.plain = s.plain := by
  have hcompound : startsCompound q.cursor.kind = false := by
    have hstarts := h.starts_line hsimple hread
    generalize q.cursor.kind = k at hstarts
    cases k <;> first | rfl | cases hstarts
  obtain ⟨s', hs, hφ⟩ : ∃ s', statement cfg (innerStmt cfg q.remaining) q = .ok s' { q with cursor := e } ∧
      s'.plain = s.plain := statement_line h hsimple hread hclear hm hend
  refine ⟨s', ?_, hφ⟩
  rw [inlineStmt_run hcompound, hsub q hn, stmt_eq_statement]
  exact hs

theorem previousKind?_advance (h : c.advance.remaining < c.remaining) :
    c.advance.previousKind? = some c.kind := by
  obtain ⟨previous, rest, last⟩ := c
  cases rest with
  | nil => exact absurd h (Nat.lt_irrefl _)
  | cons t ts =>
    unfold Cursor.advance at h ⊢
    dsimp only at h ⊢
    split at h
    · exact absurd h (Nat.lt_irrefl _)
    · next hk =>
      rw [if_neg hk]
      rfl

theorem read_first_line {ss : List Stmt} (hread : c.Read (Piece.lines ((s :: ss).map Stmt.line)) d) :
    ∃ m, c.Read s.line m := by
  cases ss with
  | nil =>
    obtain ⟨m, hm, -⟩ := (show c.Read (s.line ++ [.fixed .newline]) d from hread).split
    exact ⟨m, hm⟩
  | cons next ss =>
    obtain ⟨m, hm, -⟩ := (show c.Read (s.line ++ _) d from hread).split
    exact ⟨m, hm⟩

/-- On the line of a header, the first statement is read and then the others. -/
theorem inlineRest_ok {ss : List Stmt} (hsub : FaithfulStmt cfg sub n) (hn : q.remaining < n)
    (h : ∀ s' ∈ s :: ss, s'.Proper allowed ∧ s'.isSimple = true)
    (hread : q.cursor.Read (Piece.lines ((s :: ss).map Stmt.line)) d)
    (hclear : Clear (Piece.lines ((s :: ss).map Stmt.line))) :
    ∃ s' ss' r, inlineStmt sub q = .ok s' r ∧
      many Progress.remaining (bodyRound sub) r = .ok ss' { q with cursor := d } ∧
      s'.plain = s.plain ∧ ss'.map Stmt.plain = ss.map Stmt.plain ∧ r.remaining < q.remaining := by
  induction ss generalizing s q with
  | nil =>
    obtain ⟨hproper, hsimple⟩ := h s List.mem_cons_self
    obtain ⟨m, hm, hrest⟩ := (show q.cursor.Read (s.line ++ [.fixed .newline]) d from hread).split
    obtain ⟨t, hat, ht⟩ := hrest.at_fixed (by decide)
    obtain rfl := hat.rest.eq_of_nil
    have hk := hat.kind.trans ht
    obtain ⟨s', hs, hφ⟩ := inlineStmt_ok hsub hn hproper hsimple hm (Clear.left hclear)
      (by rw [hk]; rfl) (endOfStatement_newline hk)
    refine ⟨s', [], _, hs, many_none ?_, hφ, rfl, Nat.lt_of_lt_of_le hat.lt hm.remaining_le⟩
    rw [bodyRound_run, bodyRoundAt, if_pos]
    · rfl
    · rw [inlineEnds, previousKind?_advance hat.lt, hk]
      rfl
  | cons next ss ih =>
    obtain ⟨hproper, hsimple⟩ := h s List.mem_cons_self
    have hothers := fun s' hs' => h s' (List.mem_cons_of_mem _ hs')
    obtain ⟨hproper', hsimple'⟩ := hothers next List.mem_cons_self
    obtain ⟨m, hm, hrest⟩ := (show q.cursor.Read (s.line ++ .fixed .semicolon ::
      Piece.lines ((next :: ss).map Stmt.line)) d from hread).split
    obtain ⟨t, hat, ht⟩ := hrest.at_fixed (by decide)
    have hk := hat.kind.trans ht
    have hlt := hat.lt
    have hle := hm.remaining_le
    have hclear : Clear (s.line ++ .fixed .semicolon :: Piece.lines ((next :: ss).map Stmt.line)) := hclear
    obtain ⟨s₂, ss', r, hs₂, hmany, hφ₂, hφs, hr⟩ := ih (q := { q with cursor := m.advance })
      (s := next) (show m.advance.remaining < n from Nat.lt_trans (Nat.lt_of_lt_of_le hlt hle) hn) hothers
      hat.rest hclear.right.tail
    have hstarts : m.advance.kind.startsLine = true := by
      obtain ⟨l, hl⟩ := read_first_line hat.rest
      exact hproper'.starts_line hsimple' hl
    obtain ⟨s', hs, hφ⟩ := inlineStmt_ok hsub hn hproper hsimple hm hclear.left (by rw [hk]; rfl)
      (endOfStatement_semicolon hk (ne_of_apply_ne Kind.startsLine (by rw [hstarts]; decide)))
    refine ⟨s', s₂ :: ss', _, hs, many_cons ?_ hr hmany, hφ, congrArg₂ List.cons hφ₂ hφs,
      Nat.lt_of_lt_of_le hlt hle⟩
    rw [bodyRound_run, bodyRoundAt, if_neg]
    · exact bind_ok hs₂
    · have htokens : m.advance.kind ≠ .eof := ne_of_apply_ne Kind.startsLine (by rw [hstarts]; decide)
      simp [inlineEnds, previousKind?_advance hlt, hk, Cursor.hasTokens, htokens]

theorem inlineBody_ok (hsub : FaithfulStmt cfg sub n) (hn : q.remaining < n) (hne : body ≠ [])
    (h : ∀ s ∈ body, s.Proper allowed ∧ s.isSimple = true)
    (hread : q.cursor.Read (Piece.lines (body.map Stmt.line)) d)
    (hclear : Clear (Piece.lines (body.map Stmt.line))) :
    q.cursor.kind.startsLine = true ∧ ∃ b', inlineBody sub q = .ok b' { q with cursor := d } ∧
      b'.plain = .mk default true (body.map Stmt.plain) := by
  obtain ⟨first, rest, rfl⟩ := List.exists_cons_of_ne_nil hne
  obtain ⟨first', rest', r, hfirst, hrest, hφ, hφs, -⟩ := inlineRest_ok hsub hn h hread hclear
  obtain ⟨hproper, hsimple⟩ := h first List.mem_cons_self
  obtain ⟨l, hl⟩ := read_first_line hread
  refine ⟨hproper.starts_line hsimple hl, .mk ⟨q.cursor.current.span.start,
    ((first' :: rest').getLastD first').span.stop⟩ true (first' :: rest'), ?_, ?_⟩
  · refine (lifted_bind_ok (x := Rule.here) rfl).trans ?_
    refine (bind_ok hfirst).trans ((bind_ok hrest).trans ?_)
    rfl
  · rw [Block.plain, Stmt.plainAll_eq_map, List.map_cons, List.map_cons, hφ, hφs]

end Inline

/-- Behind its tokens a statement has been read, and no fault is recorded. -/
def FromPieces (cfg : Config) (s : Stmt) : Prop :=
  ∀ (sub : StmtRule Stmt) (n : Nat) (q : Progress) (d : Cursor), FaithfulStmt cfg sub n →
    q.remaining ≤ n → q.cursor.Read s.pieces d → Clear s.pieces → d.kind ≠ .kwElif → d.kind ≠ .kwElse →
      ∃ s', statement cfg sub q = .ok s' { q with cursor := d } ∧ s'.plain = s.plain

theorem FromPieces.stmt_ok (h : FromPieces cfg s) (hread : q.cursor.Read s.pieces d)
    (hclear : Clear s.pieces) (helif : d.kind ≠ .kwElif) (helse : d.kind ≠ .kwElse) :
    ∃ s', stmt cfg q = .ok s' { q with cursor := d } ∧ s'.plain = s.plain := by
  rw [stmt_eq_statement]
  exact h _ _ q d (innerStmt_faithful cfg q.remaining) (Nat.le_refl _) hread hclear helif helse

section Loop

variable {stop blank : Kind → Bool}

theorem starts_piecesAll (h : ∀ s ∈ body, s.Proper allowed) (hread : c.Read (Stmt.piecesAll body) d) :
    c.kind.startsStmt = true ∨ c = d := by
  cases body with
  | nil => exact Or.inr hread.eq_of_nil
  | cons first rest =>
    obtain ⟨m, hm, -⟩ := hread.split
    exact Or.inl ((h first List.mem_cons_self).starts hm).1

/-- Statements one after another, up to a token that stops them. -/
theorem statements_ok (hcancel : cfg.cancel = false) (hsub : FaithfulStmt cfg sub n) (hn : q.remaining < n)
    (h : ∀ s ∈ body, s.Proper allowed) (hbody : ∀ s ∈ body, FromPieces cfg s)
    (hstarts : ∀ k : Kind, k.startsStmt = true → stop k = false ∧ blank k = false)
    (hread : q.cursor.Read (Stmt.piecesAll body) d) (hclear : Clear (Stmt.piecesAll body))
    (hstop : stop d.kind = true) (helif : d.kind ≠ .kwElif) (helse : d.kind ≠ .kwElse) :
    ∃ body', statements cfg stop blank (recovering sub) q = (body', { q with cursor := d }) ∧
      body'.map Stmt.plain = body.map Stmt.plain := by
  induction body generalizing q with
  | nil =>
    obtain rfl := hread.eq_of_nil
    exact ⟨[], statements_stop hstop, rfl⟩
  | cons s ss ih =>
    obtain ⟨hs, hss⟩ := List.forall_mem_cons.mp h
    obtain ⟨hfrom, hfroms⟩ := List.forall_mem_cons.mp hbody
    obtain ⟨m, hm, hrest⟩ := hread.split
    have hfollow : m.kind ≠ .kwElif ∧ m.kind ≠ .kwElse := by
      rcases starts_piecesAll hss hrest with hk | rfl
      · exact ⟨ne_of_apply_ne Kind.startsStmt (by rw [hk]; decide),
          ne_of_apply_ne Kind.startsStmt (by rw [hk]; decide)⟩
      · exact ⟨helif, helse⟩
    obtain ⟨hk, hlt⟩ := hs.starts hm
    obtain ⟨s', hstmt, hφ⟩ := hfrom.stmt_ok hm (Clear.left hclear) hfollow.1 hfollow.2
    obtain ⟨ss', hstmts, hφs⟩ := ih (q := { q with cursor := m }) (Nat.lt_trans hlt hn) hss hfroms hrest
      (Clear.right hclear)
    have hrecovering : recovering sub q = (s', { q with cursor := m }) := by
      rw [recovering, hsub q hn, hstmt]
    refine ⟨s' :: ss', ?_, congrArg₂ List.cons hφ hφs⟩
    rw [statements_one hcancel (hstarts _ hk).1 (hstarts _ hk).2 (by rw [hrecovering]; exact hlt), hrecovering,
      hstmts]

end Loop

section Suite

/-- The body of a block, indented or on the line of its header. -/
theorem suite_ok {b : Block} (hcancel : cfg.cancel = false) (hsub : FaithfulStmt cfg sub n)
    (hn : q.remaining ≤ n) (hfilled : b.Filled) (h : ∀ s ∈ b.body, s.Proper allowed)
    (hbody : ∀ s ∈ b.body, FromPieces cfg s) (hread : q.cursor.Read b.pieces d) (hclear : Clear b.pieces) :
    ∃ b', suite cfg sub q = .ok b' { q with cursor := d } ∧ b'.plain = b.plain := by
  obtain ⟨s, inline, body⟩ := b
  obtain ⟨hne, hsimple⟩ := hfilled
  obtain ⟨t, hat, ht⟩ := hread.at_fixed (by decide)
  have hlt := hat.lt
  have hexpect : Rule.expect .colon q.cursor = .ok q.cursor.current q.cursor.advance :=
    expect_ok (hat.kind.trans ht)
  have hplain : (Block.mk s inline body).plain = .mk default inline (body.map Stmt.plain) := by
    rw [Block.plain, Stmt.plainAll_eq_map]
  rw [hplain]
  cases inline with
  | true =>
    obtain ⟨hstarts, b', hb, hφ⟩ := inlineBody_ok (q := { q with cursor := q.cursor.advance }) hsub
      (Nat.lt_of_lt_of_le hlt hn) hne (fun s hs => ⟨h s hs, hsimple rfl s hs⟩) hat.rest hclear.tail
    refine ⟨b', ?_, hφ⟩
    refine (lifted_bind_ok hexpect).trans ((lifted_bind_ok (x := Rule.kind) rfl).trans ?_)
    rw [if_neg (ne_of_apply_ne Kind.startsLine (by rw [hstarts]; decide))]
    exact hb
  | false =>
    have hrest := (show q.cursor.advance.Read (.fixed .newline :: .fixed .indent ::
      (Stmt.piecesAll body ++ [.fixed .dedent])) d from hat.rest)
    obtain ⟨t₁, hat₁, ht₁⟩ := hrest.at_fixed (by decide)
    obtain ⟨t₂, hat₂, ht₂⟩ := hat₁.rest.at_fixed (by decide)
    obtain ⟨m, hm, hclose⟩ := hat₂.rest.split
    obtain ⟨t₃, hat₃, ht₃⟩ := hclose.at_fixed (by decide)
    obtain rfl := hat₃.rest.eq_of_nil
    have hk₁ := hat₁.kind.trans ht₁
    have hk₂ := hat₂.kind.trans ht₂
    have hk₃ := hat₃.kind.trans ht₃
    have hlt₁ := hat₁.lt
    have hlt₂ := hat₂.lt
    have hclear : Clear (Stmt.piecesAll body ++ [.fixed .dedent]) := hclear.tail.tail.tail
    obtain ⟨body', hloop, hφ⟩ : ∃ body',
        blockLoop cfg sub { q with cursor := q.cursor.advance.advance.advance } =
          (body', { q with cursor := m }) ∧ body'.map Stmt.plain = body.map Stmt.plain :=
      statements_ok hcancel hsub (Nat.lt_of_lt_of_le (Nat.lt_trans hlt₂ (Nat.lt_trans hlt₁ hlt)) hn) h hbody
        (fun k hk => by cases k <;> first | exact ⟨rfl, rfl⟩ | cases hk) hm hclear.left (by rw [hk₃]; rfl)
        (by simp [hk₃]) (by simp [hk₃])
    refine ⟨blockOf false q.cursor.advance.advance.current.span.stop body', ?_, ?_⟩
    · refine (lifted_bind_ok hexpect).trans ((lifted_bind_ok (x := Rule.kind) rfl).trans ?_)
      rw [if_pos hk₁]
      refine (lifted_bind_ok (x := Rule.advance) rfl).trans ((lifted_bind_ok (x := Rule.kind) rfl).trans ?_)
      rw [if_pos hk₂]
      refine (lifted_bind_ok (x := Rule.advance) rfl).trans (bind_ok ?_)
      rw [blockBody_eq hcancel, hloop, if_pos hk₃]
      rfl
    · rw [blockOf, Block.plain, Stmt.plainAll_eq_map, hφ]

end Suite

end Grammar

end Offside
