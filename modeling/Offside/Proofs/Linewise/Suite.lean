import Offside.Proofs.Linewise.Stmt

namespace Offside.Grammar

open Rule

variable {cfg : Config} {tail rest : List Token} {t mark newline last : Token} {p : Progress}
  {e : Cursor} {r : Progress}

/-- A simple statement of a suite, with the marks behind it: a semicolon on the line of the header, and
a newline on a line of its own. -/
structure SimpleLine (cfg : Config) where
  tokens : List Token
  value : Stmt
  semicolon : Token
  newline : Token
  accepted : Accepted cfg tokens value
  semicolon_kind : semicolon.kind = .semicolon
  newline_kind : newline.kind = .newline

structure SuiteMarks where
  colon : Token
  newline : Token
  indent : Token
  dedent : Token
  semicolon : Token
  colon_kind : colon.kind = .colon
  newline_kind : newline.kind = .newline
  indent_kind : indent.kind = .indent
  dedent_kind : dedent.kind = .dedent
  semicolon_kind : semicolon.kind = .semicolon

variable {ls : List (SimpleLine cfg)}

def inlined : List (SimpleLine cfg) → List Token
  | [] => []
  | [l] => l.tokens
  | l :: l' :: ls => l.tokens ++ l.semicolon :: inlined (l' :: ls)

def indented (f : Offset → Offset) (ls : List (SimpleLine cfg)) : List Token :=
  ls.flatMap fun l => relocate f l.tokens ++ [l.newline]

/-- A statement has a first token, which is no mark. -/
theorem SimpleLine.head (l : SimpleLine cfg) :
    ∃ u us, l.tokens = u :: us ∧ startsCompound u.kind = false ∧ u.kind.isBoundary = false := by
  obtain ⟨u, us, htokens, hcompound, hboundary, -⟩ := l.accepted.simpleStmt_ok
  exact ⟨u, us, htokens, hcompound, hboundary⟩

theorem inlined_head (l : SimpleLine cfg) (ls : List (SimpleLine cfg)) :
    ∃ u us, inlined (l :: ls) = u :: us ∧ u.kind.isBoundary = false := by
  obtain ⟨u, us, htokens, -, hboundary⟩ := l.head
  cases ls with
  | nil => exact ⟨u, us, htokens, hboundary⟩
  | cons l' ls =>
    refine ⟨u, us ++ l.semicolon :: inlined (l' :: ls), ?_, hboundary⟩
    rw [inlined, htokens, List.cons_append]

section Inline

/-- A statement on its line, unmoved. -/
theorem SimpleLine.inlineStmt_ok (l : SimpleLine cfg) (t : Token) (p : Progress)
    (hmark : mark.kind = .newline ∨ mark.kind = .semicolon) (hlast : last.kind = .eof)
    (hend : ∀ w, endOfStatement ⟨some w, mark :: tail, last⟩ = .ok () e) :
    inlineStmt (stmt cfg) { p with cursor := ⟨some t, l.tokens ++ mark :: tail, last⟩ } =
      .ok l.value { p with cursor := e } := by
  have hstmt := l.accepted.stmt_ok id t p hmark hlast hend
  have hvalue : relocate id l.value = l.value := Stmt.mapSpans_id l.value
  rw [relocate_id_list fun _ => rfl, hvalue] at hstmt
  obtain ⟨u, us, htokens, hcompound, -⟩ := l.head
  rw [htokens] at hstmt ⊢
  rw [← hstmt]
  exact Seam.inlineStmt_run hcompound

/-- The statements of an inline suite, up to a mark that ends its line. -/
theorem inlined_ok (l : SimpleLine cfg) (ls : List (SimpleLine cfg)) (t : Token) (p : Progress)
    (hmark : mark.kind = .newline ∨ mark.kind = .semicolon) (hlast : last.kind = .eof)
    (hnewline : newline.kind = .newline)
    (hend : ∀ w, endOfStatement ⟨some w, mark :: tail, last⟩ = .ok () ⟨some newline, rest, last⟩) :
    ∃ r, inlineStmt (stmt cfg) { p with cursor := ⟨some t, inlined (l :: ls) ++ mark :: tail, last⟩ } =
        .ok l.value r ∧
      many Progress.remaining (bodyRound (stmt cfg)) r =
        .ok (ls.map SimpleLine.value) { p with cursor := ⟨some newline, rest, last⟩ } := by
  induction ls generalizing l t with
  | nil =>
    refine ⟨_, l.inlineStmt_ok t p hmark hlast hend, many_none ?_⟩
    -- behind a newline the suite ends
    have hends : inlineEnds ⟨some newline, rest, last⟩ = true := by
      simp [inlineEnds, Cursor.previousKind?, hnewline]
    rw [Seam.bodyRound_run, bodyRoundAt, if_pos hends]
    rfl
  | cons l' ls ih =>
    let c : Cursor := ⟨some l.semicolon, inlined (l' :: ls) ++ mark :: tail, last⟩
    have hkind : c.kind.isBoundary = false := by
      obtain ⟨u, us, htokens, hboundary⟩ := inlined_head l' ls
      change Kind.isBoundary (Cursor.kind ⟨some l.semicolon, inlined (l' :: ls) ++ mark :: tail, last⟩) = _
      rw [htokens]
      exact hboundary
    -- the next statement stands behind the semicolon, so there is no newline that belongs to it
    have hfirst := l.inlineStmt_ok t p (Or.inr l.semicolon_kind) hlast
      fun w => ends_semicolon w l.semicolon_kind (Kind.ne_of_inner hkind rfl)
    obtain ⟨r, hnext, hrest⟩ := ih l' l.semicolon
    have hlt : r.remaining < c.remaining := Consumes.lt hlast hnext
    have hgoes : inlineEnds c = false := by
      have htokens : c.kind ≠ .eof := Kind.ne_of_inner hkind rfl
      simp [inlineEnds, Cursor.previousKind?, c, l.semicolon_kind, Cursor.hasTokens, htokens]
    have hround : bodyRound (stmt cfg) { p with cursor := c } = .ok (some l'.value) r := by
      rw [Seam.bodyRound_run, bodyRoundAt, hgoes, if_neg Bool.false_ne_true]
      exact bind_ok hnext
    refine ⟨{ p with cursor := c }, ?_, many_cons hround hlt hrest⟩
    rw [inlined, List.append_assoc]
    exact hfirst

/-- The body of an inline suite, whatever ends its line. -/
theorem inlineBody_inlined (hne : ls ≠ []) : ∃ s, ∀ (t mark newline last : Token) (tail rest : List Token)
    (p : Progress), mark.kind = .newline ∨ mark.kind = .semicolon → last.kind = .eof →
      newline.kind = .newline →
      (∀ w, endOfStatement ⟨some w, mark :: tail, last⟩ = .ok () ⟨some newline, rest, last⟩) →
        inlineBody (stmt cfg) { p with cursor := ⟨some t, inlined ls ++ mark :: tail, last⟩ } =
          .ok (.mk s true (ls.map SimpleLine.value)) { p with cursor := ⟨some newline, rest, last⟩ } := by
  obtain ⟨l, ls, rfl⟩ := List.exists_cons_of_ne_nil hne
  obtain ⟨u, us, htokens, -⟩ := inlined_head l ls
  refine ⟨⟨u.span.start, ((l.value :: ls.map SimpleLine.value).getLastD l.value).span.stop⟩, ?_⟩
  intro t mark newline last tail rest p hmark hlast hnewline hend
  obtain ⟨r, hfirst, hrest⟩ := inlined_ok l ls t p hmark hlast hnewline hend
  rw [htokens] at hfirst ⊢
  unfold inlineBody
  refine (Seam.lifted_bind_ok (x := Rule.here) rfl).trans ?_
  exact (bind_ok hfirst).trans (bind_ok hrest)

end Inline

/-- The statements of a block, up to the dedent behind it. -/
theorem indented_ok (hcancel : cfg.cancel = false) (f : Offset → Offset) (ls : List (SimpleLine cfg))
    (t dedent : Token) (rest : List Token) (p : Progress) (hdedent : dedent.kind = .dedent)
    (hlast : last.kind = .eof) :
    ∃ w, Seam.blockLoop cfg (stmt cfg)
        { p with cursor := ⟨some t, indented f ls ++ dedent :: rest, last⟩ } =
      (relocate f (ls.map SimpleLine.value), { p with cursor := ⟨some w, dedent :: rest, last⟩ }) := by
  induction ls generalizing t with
  | nil =>
    refine ⟨t, Seam.statements_stop ?_⟩
    rw [show Cursor.kind _ = dedent.kind from rfl, hdedent]
    rfl
  | cons l ls ih =>
    let behind := indented f ls ++ dedent :: rest
    let q : Progress := { p with cursor := ⟨some t, relocate f l.tokens ++ l.newline :: behind, last⟩ }
    have htext : indented f (l :: ls) ++ dedent :: rest = relocate f l.tokens ++ l.newline :: behind := by
      simp [indented, behind]
    obtain ⟨w, hrest⟩ := ih l.newline
    have hkind : q.cursor.kind.isBoundary = false := by
      obtain ⟨u, us, htokens, -, hboundary⟩ := l.head
      change Kind.isBoundary (Cursor.kind ⟨some t, relocate f l.tokens ++ _, last⟩) = _
      rw [htokens]
      exact hboundary
    have hstmt : stmt cfg q = .ok (relocate f l.value) { p with cursor := ⟨some l.newline, behind, last⟩ } :=
      l.accepted.stmt_ok f t p (Or.inl l.newline_kind) hlast fun w => ends_newline w l.newline_kind
    have hone : recovering (stmt cfg) q =
        (relocate f l.value, { p with cursor := ⟨some l.newline, behind, last⟩ }) := by
      rw [recovering, hstmt]
    have hlt : (recovering (stmt cfg) q).2.remaining < q.remaining := by
      rw [hone]
      exact Consumes.lt hlast hstmt
    have hdedent : q.cursor.kind ≠ .dedent := Kind.ne_of_inner hkind rfl
    have heof : q.cursor.kind ≠ .eof := Kind.ne_of_inner hkind rfl
    have hnewline : q.cursor.kind ≠ .newline := Kind.ne_of_inner hkind rfl
    have hloop : Seam.blockLoop cfg (stmt cfg) q = _ :=
      Seam.statements_one hcancel (by simp [hdedent, heof]) (by simp [hnewline]) hlt
    refine ⟨w, ?_⟩
    rw [htext]
    refine hloop.trans ?_
    rw [hone]
    exact congrArg (fun p : List Stmt × Progress => (relocate f l.value :: p.1, p.2)) hrest

section Suites

variable (F : SuiteMarks) {previous : Option Token} {ts : List Token} {b : Block}

/-- Behind its colon, a suite begins with a statement or with a newline. -/
theorem suite_behind_colon : suite cfg (stmt cfg) { p with cursor := ⟨previous, F.colon :: ts, last⟩ } =
    suiteBody cfg (stmt cfg) { p with cursor := ⟨some F.colon, ts, last⟩ } := by
  have hexpect := expect_ok (c := ⟨previous, F.colon :: ts, last⟩) F.colon_kind
  rw [advance_cons F.colon_kind (by decide)] at hexpect
  exact Seam.lifted_bind_ok hexpect

theorem suite_inline (hnext : Cursor.kind ⟨some F.colon, ts, last⟩ ≠ .newline)
    (hbody : inlineBody (stmt cfg) { p with cursor := ⟨some F.colon, ts, last⟩ } = .ok b r) :
    suite cfg (stmt cfg) { p with cursor := ⟨previous, F.colon :: ts, last⟩ } = .ok b r := by
  rw [suite_behind_colon]
  refine (Seam.lifted_bind_ok (x := Rule.kind) rfl).trans ?_
  rw [if_neg hnext]
  exact hbody

theorem suite_indented (hcancel : cfg.cancel = false) {body : List Stmt} {w : Token}
    (hloop : Seam.blockLoop cfg (stmt cfg) { p with cursor := ⟨some F.indent, ts, last⟩ } =
      (body, { p with cursor := ⟨some w, F.dedent :: rest, last⟩ })) :
    suite cfg (stmt cfg) { p with cursor := ⟨previous, F.colon :: F.newline :: F.indent :: ts, last⟩ } =
      .ok (blockOf false F.indent.span.stop body) { p with cursor := ⟨some F.dedent, rest, last⟩ } := by
  have hnewline : Cursor.kind ⟨some F.colon, F.newline :: F.indent :: ts, last⟩ = .newline := F.newline_kind
  have hindent : Cursor.kind ⟨some F.newline, F.indent :: ts, last⟩ = .indent := F.indent_kind
  have hdedent : Cursor.kind ⟨some w, F.dedent :: rest, last⟩ = .dedent := F.dedent_kind
  rw [suite_behind_colon]
  refine (Seam.lifted_bind_ok (x := Rule.kind) rfl).trans ?_
  rw [if_pos hnewline]
  refine (Seam.lifted_bind_ok (x := Rule.advance) rfl).trans ?_
  rw [show Cursor.advance _ = _ from advance_cons F.newline_kind (by decide)]
  refine (Seam.lifted_bind_ok (x := Rule.kind) rfl).trans ?_
  rw [if_pos hindent]
  refine (Seam.lifted_bind_ok (x := Rule.advance) rfl).trans ?_
  rw [show Cursor.advance _ = _ from advance_cons F.indent_kind (by decide)]
  refine bind_ok ?_
  rw [blockBody_eq hcancel, hloop]
  dsimp only
  rw [if_pos hdedent, Progress.advance, advance_cons F.dedent_kind (by decide)]

end Suites

/-- Simple statements make the same suite on the line of its header, with or without a semicolon behind
the last, and in an indented block, wherever their tokens stand there. Each form is read up to where it
ends, whatever comes behind. -/
theorem suite_inline_indented (hcancel : cfg.cancel = false) {ls : List (SimpleLine cfg)} (hne : ls ≠ [])
    (F : SuiteMarks) (f : Offset → Offset) (previous : Option Token) (rest : List Token)
    (hlast : last.kind = .eof) (p : Progress) :
    let before (ts : List Token) : Progress := { p with cursor := ⟨previous, F.colon :: (ts ++ rest), last⟩ }
    let behind (t : Token) : Progress := { p with cursor := ⟨some t, rest, last⟩ }
    ∃ s s', suite cfg (stmt cfg) (before (inlined ls ++ [F.newline])) =
        .ok (.mk s true (ls.map SimpleLine.value)) (behind F.newline) ∧
      suite cfg (stmt cfg) (before (inlined ls ++ [F.semicolon, F.newline])) =
        .ok (.mk s true (ls.map SimpleLine.value)) (behind F.newline) ∧
      suite cfg (stmt cfg) (before (F.newline :: F.indent :: (indented f ls ++ [F.dedent]))) =
        .ok (.mk s' false (relocate f (ls.map SimpleLine.value))) (behind F.dedent) := by
  intro before behind
  obtain ⟨s, hinline⟩ := inlineBody_inlined hne
  have hnext (ts : List Token) : Cursor.kind ⟨some F.colon, inlined ls ++ ts, last⟩ ≠ .newline := by
    obtain ⟨l, ls, rfl⟩ := List.exists_cons_of_ne_nil hne
    obtain ⟨u, us, htokens, hboundary⟩ := inlined_head l ls
    rw [htokens]
    exact Kind.ne_of_inner hboundary rfl
  obtain ⟨w, hblock⟩ := indented_ok hcancel f ls F.indent F.dedent rest p F.dedent_kind hlast
  have hinlined (mark : Token) (tail : List Token) (hmark : mark.kind = .newline ∨ mark.kind = .semicolon)
      (hend : ∀ w, endOfStatement ⟨some w, mark :: tail, last⟩ = .ok () ⟨some F.newline, rest, last⟩) :
      suite cfg (stmt cfg) { p with cursor := ⟨previous, F.colon :: (inlined ls ++ mark :: tail), last⟩ } =
        .ok (.mk s true (ls.map SimpleLine.value)) (behind F.newline) := by
    have hbody := hinline F.colon mark F.newline last tail rest p hmark hlast F.newline_kind hend
    exact suite_inline F (hnext _) hbody
  have hline : suite cfg (stmt cfg) (before (inlined ls ++ [F.newline])) =
      .ok (.mk s true (ls.map SimpleLine.value)) (behind F.newline) := by
    dsimp only [before]
    rw [List.append_assoc]
    exact hinlined F.newline rest (Or.inl F.newline_kind) fun w => ends_newline w F.newline_kind
  -- with a semicolon behind the last statement, it is the semicolon that takes the newline
  have hclosed : suite cfg (stmt cfg) (before (inlined ls ++ [F.semicolon, F.newline])) =
      .ok (.mk s true (ls.map SimpleLine.value)) (behind F.newline) := by
    dsimp only [before]
    rw [List.append_assoc]
    exact hinlined F.semicolon (F.newline :: rest) (Or.inr F.semicolon_kind)
      fun w => ends_semicolon_newline w F.semicolon_kind F.newline_kind
  have hindented : suite cfg (stmt cfg) (before (F.newline :: F.indent :: (indented f ls ++ [F.dedent]))) =
      .ok (blockOf false F.indent.span.stop (relocate f (ls.map SimpleLine.value))) (behind F.dedent) := by
    dsimp only [before]
    rw [List.cons_append, List.cons_append, List.append_assoc]
    exact suite_indented F hcancel hblock
  exact ⟨s, _, hline, hclosed, hindented⟩

/-- A statement that may have a value, but has none here, and one that never has any. -/
theorem suite_return_pass :
    let leave : Token := ⟨.kwReturn, "return", ⟨1, 7⟩⟩
    let pass : Token := ⟨.kwPass, "pass", ⟨8, 12⟩⟩
    let colon : Token := ⟨.colon, ":", ⟨0, 1⟩⟩
    let semicolon : Token := ⟨.semicolon, ";", ⟨7, 8⟩⟩
    let newline : Token := .layout .newline ⟨12, 13⟩
    let indent : Token := .layout .indent ⟨13, 15⟩
    let dedent : Token := .layout .dedent ⟨28, 28⟩
    let last : Token := .layout .eof ⟨28, 28⟩
    let read (ts : List Token) := suite {} (stmt {}) { cursor := ⟨none, colon :: ts, last⟩ }
    let body : List Stmt := [.leave ⟨1, 7⟩ .kwReturn none, .bare ⟨8, 12⟩ .kwPass]
    let moved : List Stmt := [.leave ⟨15, 21⟩ .kwReturn none, .bare ⟨22, 26⟩ .kwPass]
    ∃ s s', read [leave, semicolon, pass, newline] =
        .ok (.mk s true body) { cursor := ⟨some newline, [], last⟩ } ∧
      read [leave, semicolon, pass, semicolon, newline] =
        .ok (.mk s true body) { cursor := ⟨some newline, [], last⟩ } ∧
      read [newline, indent, relocate (· + 14) leave, newline, relocate (· + 14) pass, newline, dedent] =
        .ok (.mk s' false moved) { cursor := ⟨some dedent, [], last⟩ } := by
  intro leave pass colon semicolon newline indent dedent last read body moved
  have hreturn : Accepted {} [leave] (.leave ⟨1, 7⟩ .kwReturn none) :=
    { simple := by simp [leave, startsCompound]
      undivided := by simp [leave]
      reads := ⟨none, newline, [], last, default, default, rfl, rfl, by rw [Seam.stmt_eq_statement]; rfl⟩ }
  have hpass : Accepted {} [pass] (.bare ⟨8, 12⟩ .kwPass) :=
    { simple := by simp [pass, startsCompound]
      undivided := by simp [pass]
      reads := ⟨none, newline, [], last, default, default, rfl, rfl, by rw [Seam.stmt_eq_statement]; rfl⟩ }
  exact suite_inline_indented rfl
    (List.cons_ne_nil (⟨_, _, semicolon, newline, hreturn, rfl, rfl⟩ : SimpleLine {})
      [⟨_, _, semicolon, newline, hpass, rfl, rfl⟩])
    ⟨colon, newline, indent, dedent, semicolon, rfl, rfl, rfl, rfl, rfl⟩ (· + 14) none [] rfl default

end Offside.Grammar
