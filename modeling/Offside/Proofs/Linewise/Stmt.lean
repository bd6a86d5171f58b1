import Offside.Proofs.Linewise.Rules
import Offside.Proofs.Seam.Parse
import Offside.Proofs.Writing.Block

namespace Offside.Grammar

open Rule

variable {cfg : Config} {f : Offset → Offset} {tokens tail rest : List Token} {value : Stmt}
  {t mark newline last : Token} {k k' : Kind} {c c' d e : Cursor} {q r : Progress}

section Simple

/-- A simple statement does not depend on what came before it, and it moves with its tokens. -/
theorem simpleStmt_agree (hk : c.kind = k) (hl : c.last.kind = .eof)
    (hrest : c'.rest = relocate f c.rest) (hlast : c'.last = relocate f c.last) :
    Agree f (fun d d' => d'.rest = relocate f d.rest) (fun _ _ => True) (simpleStmt k c)
      (simpleStmt k c') := by
  let S := Seam.moved f false c.last hl [] []
  have hin : S.In false ⟨c, c'⟩ (.flat 0) c c' :=
    (Seam.moved_abreast hrest rfl hlast).inside (Or.inl rfl)
  have halike : S.Alike (Where (S.In false ⟨c, c'⟩ (.flat 0)) fun c => c.kind = k) _ _ (simpleStmt k)
    (simpleStmt k) := Seam.simpleStmt_alike
  rcases halike.agree c c' ⟨hin, hk⟩ with hstrayed | hagree
  · -- streams that are compared as wholes have nothing to stray to
    exfalso
    generalize simpleStmt k c = r at hstrayed
    cases r with
    | ok s d => exact hstrayed.1 rfl
    | error e d => exact hstrayed.elim (fun h => h.1 rfl) fun h => h.1 rfl
  · refine hagree.weaken (fun d d' hedge => ?_) fun _ _ _ => trivial
    obtain ⟨done, rest, hat, -, -⟩ := hedge
    rw [hat.rest_eq', hat.rest_eq]
    change relocate f rest ++ [] = relocate f (rest ++ [])
    rw [List.append_nil, List.append_nil]

theorem simpleStmt_moved (hk : c.kind = k) (hl : c.last.kind = .eof)
    (hrest : c'.rest = relocate f c.rest) (hlast : c'.last = relocate f c.last)
    (h : simpleStmt k c = .ok value d) :
    ∃ d', simpleStmt k c' = .ok (relocate f value) d' ∧ d'.rest = relocate f d.rest := by
  have hagree := simpleStmt_agree hk hl hrest hlast
  rw [h] at hagree
  generalize simpleStmt k c' = r at hagree
  cases hagree with
  | ok hbehind => exact ⟨_, rfl, hbehind⟩

instance : Stuck expressionStmt := by unfold expressionStmt ended; infer_instance

/-- No simple statement begins with layout or with a mark that ends one. -/
theorem simpleStmt_stuck (hk : k.isBoundary = true) : Stuck (simpleStmt k) := by
  cases k <;> first | contradiction | exact inferInstanceAs (Stuck expressionStmt)

theorem remaining_advance_add (c : Cursor) : c.remaining ≤ c.advance.remaining + 1 := by
  unfold Cursor.advance
  split
  · exact Nat.le_succ _
  · next t ts hrest =>
    split
    · exact Nat.le_succ _
    · rw [Cursor.remaining, hrest]
      exact Nat.le_refl _

/-- But for a semicolon, the end of a statement takes one token at most. -/
theorem endOfStatement_remaining (hc : c.kind ≠ .semicolon) (h : endOfStatement c = .ok () e) :
    c.remaining ≤ e.remaining + 1 := by
  rw [endOfStatement, kind_run] at h
  generalize c.kind = k at h hc
  split at h
  · contradiction
  · cases h
    exact remaining_advance_add c
  · cases h
    exact Nat.le_succ _
  · cases h

/-- A simple statement that ends with the newline on the left ends with the mark on the right. -/
theorem simpleStmt_fork (F : Fork) {us : List Token} (hne : us ≠ [])
    (hundivided : ∀ u ∈ us, u.kind ≠ .semicolon) (hrest : d.rest = F.tail)
    (h : simpleStmt k (F.left t us) = .ok value d)
    (hend : ∀ w, endOfStatement (F.right w []) = .ok () e) :
    simpleStmt k (F.right t us) = .ok value e := by
  obtain ⟨body, hbody, hlinewise⟩ := simpleStmt_readsLine k
  rw [hbody] at h ⊢
  obtain ⟨value', m, hvalue, h⟩ := bind_eq_ok.mp h
  obtain ⟨_, d', hclose, h⟩ := bind_eq_ok.mp h
  cases h
  obtain ⟨w, vs, hvs, rfl, hright⟩ := hlinewise.run F t us (List.length_pos_iff.mpr hne) hvalue
  -- a token that was left over would have ended the statement
  have hnil : vs = [] := by
    cases vs with
    | nil => rfl
    | cons v vs =>
      have hv : (F.left w (v :: vs)).kind ≠ .semicolon := hundivided v (hvs.subset List.mem_cons_self)
      have hle := endOfStatement_remaining hv hclose
      rw [F.left_remaining, Cursor.remaining, hrest, List.length_cons] at hle
      omega
  subst hnil
  exact (bind_ok hright).trans (bind_ok (hend w))

end Simple

section Stmt

theorem stmt_simple (hcompound : startsCompound q.cursor.kind = false) (hindent : q.cursor.kind ≠ .indent) :
    stmt cfg q = lifted (simpleStmt q.cursor.kind) q := by
  rw [Seam.stmt_eq_statement, statement]
  refine (Seam.lifted_bind_ok (x := Rule.kind) rfl).trans ?_
  generalize q.cursor.kind = k at hcompound hindent
  cases k <;> first | rfl | contradiction

theorem stmt_indent (hindent : q.cursor.kind = .indent) : stmt cfg q ≠ .ok value r := by
  rw [Seam.stmt_eq_statement, statement]
  intro h
  replace h := (Seam.lifted_bind_ok (x := Rule.kind) rfl).symm.trans h
  rw [hindent] at h
  contradiction

theorem lifted_eq_ok {α : Type} {x : Rule α} {a : α} (h : lifted x q = .ok a r) :
    x q.cursor = .ok a r.cursor := by
  unfold lifted at h
  cases hx : x q.cursor with
  | error e c =>
    rw [hx] at h
    contradiction
  | ok b c =>
    rw [hx] at h
    cases h
    rfl

theorem lifted_ok {α : Type} {x : Rule α} {a : α} (h : x q.cursor = .ok a c) :
    lifted x q = .ok a { q with cursor := c } := by
  rw [lifted, h]

/-- Tokens without a semicolon that are read, before a newline, as one simple statement. -/
structure Accepted (cfg : Config) (tokens : List Token) (value : Stmt) : Prop where
  simple : ∀ t ∈ tokens.head?, startsCompound t.kind = false
  undivided : ∀ t ∈ tokens, t.kind ≠ .semicolon
  reads : ∃ (previous : Option Token) (newline : Token) (rest : List Token) (last : Token)
    (p p' : Progress), newline.kind = .newline ∧ last.kind = .eof ∧
      stmt cfg { p with cursor := ⟨previous, tokens ++ newline :: rest, last⟩ } =
        .ok value { p' with cursor := ⟨some newline, rest, last⟩ }

/-- The tokens of a statement begin with one that no block and no compound statement does. -/
theorem Accepted.simpleStmt_ok (h : Accepted cfg tokens value) :
    ∃ u us, tokens = u :: us ∧ startsCompound u.kind = false ∧ u.kind.isBoundary = false ∧
      ∃ previous newline rest last, newline.kind = .newline ∧ last.kind = .eof ∧
        simpleStmt u.kind ⟨previous, tokens ++ newline :: rest, last⟩ =
          .ok value ⟨some newline, rest, last⟩ := by
  obtain ⟨previous, newline, rest, last, p, p', hnewline, hlast, hstmt⟩ := h.reads
  -- the current token, which is the newline if there are no others
  have hsimple {k : Kind} (hk : Cursor.kind ⟨previous, tokens ++ newline :: rest, last⟩ = k)
      (hcompound : startsCompound k = false) : k.isBoundary = false ∧
        simpleStmt k ⟨previous, tokens ++ newline :: rest, last⟩ = .ok value ⟨some newline, rest, last⟩ := by
    subst hk
    have hindent := fun hk => stmt_indent hk hstmt
    rw [stmt_simple hcompound hindent] at hstmt
    have hok := lifted_eq_ok hstmt
    refine ⟨?_, hok⟩
    rw [Bool.eq_false_iff]
    intro hk
    exact (simpleStmt_stuck hk).ne_ok hk hok
  cases tokens with
  | nil => exact absurd (hsimple hnewline rfl).1 (by decide)
  | cons u us =>
    have hcompound := h.simple u rfl
    obtain ⟨hboundary, hok⟩ := hsimple (k := u.kind) rfl hcompound
    exact ⟨u, us, rfl, hcompound, hboundary, previous, newline, rest, last, hnewline, hlast, hok⟩

/-- A statement that is read before a newline is read before whatever ends a statement, wherever its
tokens stand. -/
theorem Accepted.stmt_ok (h : Accepted cfg tokens value) (f : Offset → Offset) (t : Token)
    (p : Progress) (hmark : mark.kind = .newline ∨ mark.kind = .semicolon)
    (hlast : last.kind = .eof) (hend : ∀ w, endOfStatement ⟨some w, mark :: tail, last⟩ = .ok () e) :
    stmt cfg { p with cursor := ⟨some t, relocate f tokens ++ mark :: tail, last⟩ } =
      .ok (relocate f value) { p with cursor := e } := by
  obtain ⟨u, us, rfl, hcompound, hboundary, previous, newline, rest, last₀, hnewline, hlast₀, hok⟩ :=
    h.simpleStmt_ok
  -- on the left, the statement stands where it was read, moved
  let F : Fork :=
    { mark := relocate f newline
      mark' := mark
      tail := relocate f rest
      tail' := tail
      last := relocate f last₀
      last' := last
      mark_kind := hnewline
      mark_kind' := hmark
      last_kind := hlast₀
      last_kind' := hlast }
  let c : Cursor := ⟨previous, u :: us ++ newline :: rest, last₀⟩
  have hrest : (F.left t (relocate f (u :: us))).rest = relocate f c.rest := by
    change relocate f (u :: us) ++ relocate f (newline :: rest) = _
    rw [← relocate_append]
  obtain ⟨d, hd, hbehind⟩ := simpleStmt_moved (c := c) rfl hlast₀ hrest rfl hok
  have hundivided : ∀ v ∈ relocate f (u :: us), v.kind ≠ .semicolon := by
    intro v hv
    obtain ⟨v₀, hv₀, rfl⟩ := List.mem_map.mp hv
    exact h.undivided v₀ hv₀
  have hsimple := simpleStmt_fork F (List.cons_ne_nil _ _) hundivided hbehind hd hend
  have hlifted : stmt cfg { p with cursor := F.right t (relocate f (u :: us)) } =
      lifted (simpleStmt u.kind) _ :=
    stmt_simple (q := { p with cursor := F.right t (relocate f (u :: us)) }) hcompound
      (Kind.ne_of_inner hboundary rfl)
  exact hlifted.trans (lifted_ok hsimple)

end Stmt

section Ends

theorem advance_cons {p : Option Token} (ht : t.kind = k) (hk : k ≠ .eof) :
    Cursor.advance ⟨p, t :: rest, last⟩ = ⟨some t, rest, last⟩ :=
  if_neg (ht ▸ hk)

variable (w : Token)

theorem ends_newline (hmark : mark.kind = .newline) :
    endOfStatement ⟨some w, mark :: tail, last⟩ = .ok () ⟨some mark, tail, last⟩ := by
  rw [← advance_cons hmark (by decide)]
  exact endOfStatement_newline hmark

theorem ends_semicolon (hmark : mark.kind = .semicolon)
    (hnext : Cursor.kind ⟨some mark, tail, last⟩ ≠ .newline) :
    endOfStatement ⟨some w, mark :: tail, last⟩ = .ok () ⟨some mark, tail, last⟩ := by
  rw [← advance_cons hmark (by decide)] at hnext ⊢
  exact endOfStatement_semicolon hmark hnext

/-- A newline behind a semicolon belongs to it. -/
theorem ends_semicolon_newline (hmark : mark.kind = .semicolon) (hnewline : newline.kind = .newline) :
    endOfStatement ⟨some w, mark :: newline :: tail, last⟩ = .ok () ⟨some newline, tail, last⟩ := by
  have heat := eat_ok (c := ⟨some mark, newline :: tail, last⟩) hnewline
  rw [endOfStatement, kind_run, show Cursor.kind _ = mark.kind from rfl, hmark]
  change (advance >>= fun _ => eat .newline >>= _) _ = _
  rw [advance_run, advance_cons hmark (by decide), bind_ok heat, advance_cons hnewline (by decide)]
  rfl

end Ends

end Offside.Grammar
