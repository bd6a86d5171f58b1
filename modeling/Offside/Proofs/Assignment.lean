import Offside.Proofs.Linewise.Stmt
import Offside.Proofs.Scan.Line

namespace Offside

def Stmt.spanless (s : Stmt) : Stmt := s.mapSpans fun _ => default

namespace Grammar

open Rule

section Rules

variable {c d : Cursor} {left value : Expr} {type type' : Option TypeExpr} {pattern : Pattern}
  {s : Span} {b isVar : Bool} {start : Offset}

/-- A target, perhaps with a type, an equals sign, a value and the end of the statement, between two
cursors. -/
inductive Assigns (c : Cursor) (pattern : Pattern) (type : Option TypeExpr) (value : Expr)
    (d : Cursor) : Prop
  | mk {left : Expr} {typed equals valued : Cursor} (target : exprList c = .ok left typed)
      (declaredType : declaredType? typed = .ok type equals) (mark : equals.kind = .assignment)
      (reads : exprList equals.advance = .ok value valued)
      (readable : Pattern.ofExpr left = .ok pattern) (ends : endOfStatement valued = .ok () d)

theorem target_eq_ok :
    target left c = .ok pattern d ↔ Pattern.ofExpr left = .ok pattern ∧ c = d := by
  unfold target
  cases Pattern.ofExpr left with
  | ok p =>
    constructor
    · intro h
      cases h
      exact ⟨rfl, rfl⟩
    · rintro ⟨h, rfl⟩
      cases h
      rfl
  | error span =>
    constructor
    · intro h
      cases h
    · rintro ⟨h, -⟩
      cases h

theorem binding_eq_ok :
    binding start isVar left type c = .ok (.assignment s b pattern type' value) d ↔
      c.kind = .assignment ∧ exprList c.advance = .ok value d ∧ Pattern.ofExpr left = .ok pattern ∧
        s = ⟨start, d.previousEnd⟩ ∧ b = isVar ∧ type' = type := by
  constructor
  · intro h
    obtain ⟨eaten, u, heat, h⟩ := bind_eq_ok.mp h
    unfold eat at heat
    split at heat
    · next hk =>
      cases heat
      obtain ⟨value', v, hvalue, h⟩ := bind_eq_ok.mp h
      obtain ⟨pattern', w, hpattern, h⟩ := bind_eq_ok.mp h
      obtain ⟨hread, rfl⟩ := target_eq_ok.mp hpattern
      cases h
      exact ⟨hk, hvalue, hread, rfl, rfl, rfl⟩
    · cases heat
      obtain ⟨name, v, -, h⟩ := bind_eq_ok.mp h
      cases h
  · rintro ⟨hk, hvalue, hpattern, rfl, rfl, rfl⟩
    rw [binding, bind_ok (eat_ok hk), if_pos rfl, bind_ok hvalue,
      bind_ok (target_eq_ok.mpr ⟨hpattern, rfl⟩)]
    rfl

theorem declaredType?_none (hk : c.kind ≠ .colon) : declaredType? c = .ok none c := by
  rw [declaredType?, introduced, bind_ok (eat_not hk)]
  rfl

theorem declaredType?_colon (hk : c.kind = .colon) :
    declaredType? c = (some <$> typeExpr .lowest) c.advance := by
  rw [declaredType?, introduced, bind_ok (eat_ok hk)]
  rfl

theorem augmented_ne_assignment {op : BinaryOp} :
    augmented start left op c ≠ .ok (.assignment s b pattern type value) d := by
  intro h
  obtain ⟨t, u, -, h⟩ := bind_eq_ok.mp h
  obtain ⟨p, v, -, h⟩ := bind_eq_ok.mp h
  unfold augmenting at h
  split at h
  · cases h
  · cases h
  · obtain ⟨e, w, -, h⟩ := bind_eq_ok.mp h
    cases h

theorem afterExprList_colon (hk : c.kind = .colon) :
    afterExprList start left c = .ok (.assignment s b pattern type value) d ↔
      ∃ u, declaredType? c = .ok type u ∧
        binding start false left type u = .ok (.assignment s b pattern type value) d := by
  have hafter : afterExprList start left c =
      (typeExpr .lowest >>= fun t => binding start false left (some t)) c.advance := by
    rw [afterExprList, kind_run, hk]
    rfl
  rw [hafter, declaredType?_colon hk]
  constructor
  · intro h
    obtain ⟨t, u, ht, h⟩ := bind_eq_ok.mp h
    obtain ⟨-, -, -, -, -, rfl⟩ := binding_eq_ok.mp h
    exact ⟨u, bind_ok ht, h⟩
  · rintro ⟨u, ht, h⟩
    obtain ⟨t, v, ht, hu⟩ := bind_eq_ok.mp ht
    cases hu
    exact (bind_ok ht).trans h

/-- Without a type, the left side is turned into a target before the value is read. An assignment
does not show this. -/
theorem afterExprList_assignment (hk : c.kind = .assignment) :
    afterExprList start left c = .ok (.assignment s b pattern type value) d ↔
      binding start false left none c = .ok (.assignment s b pattern type value) d := by
  have hafter : afterExprList start left c = (target left >>= fun p => exprList >>= fun e =>
      previousEnd >>= fun o => pure (Stmt.assignment ⟨start, o⟩ false p none e)) c.advance := by
    rw [afterExprList, kind_run, hk]
    rfl
  rw [hafter]
  constructor
  · intro h
    obtain ⟨p, u, hp, h⟩ := bind_eq_ok.mp h
    obtain ⟨hread, rfl⟩ := target_eq_ok.mp hp
    obtain ⟨e, v, he, h⟩ := bind_eq_ok.mp h
    cases h
    exact binding_eq_ok.mpr ⟨hk, he, hread, rfl, rfl, rfl⟩
  · intro h
    obtain ⟨-, he, hp, rfl, rfl, rfl⟩ := binding_eq_ok.mp h
    rw [bind_ok (target_eq_ok.mpr ⟨hp, rfl⟩), bind_ok he]
    rfl

theorem afterExprList_ne_assignment (hcolon : c.kind ≠ .colon) (hk : c.kind ≠ .assignment) :
    afterExprList start left c ≠ .ok (.assignment s b pattern type value) d := by
  intro h
  rw [afterExprList, kind_run] at h
  generalize c.kind = k at h hcolon hk
  split at h
  · exact hcolon rfl
  · exact hk rfl
  · cases hop : augmentedOp? k with
    | some op =>
      rw [hop] at h
      exact augmented_ne_assignment h
    | none =>
      rw [hop] at h
      cases h

theorem afterExprList_eq_ok :
    afterExprList start left c = .ok (.assignment s b pattern type value) d ↔
      ∃ u, declaredType? c = .ok type u ∧
        binding start false left type u = .ok (.assignment s b pattern type value) d := by
  by_cases hcolon : c.kind = .colon
  · exact afterExprList_colon hcolon
  · have huntyped : (∃ u, declaredType? c = .ok type u ∧
        binding start false left type u = .ok (.assignment s b pattern type value) d) ↔
          binding start false left none c = .ok (.assignment s b pattern type value) d := by
      constructor
      · rintro ⟨u, htype, h⟩
        rw [declaredType?_none hcolon] at htype
        cases htype
        exact h
      · intro h
        obtain ⟨-, -, -, -, -, rfl⟩ := binding_eq_ok.mp h
        exact ⟨c, declaredType?_none hcolon, h⟩
    rw [huntyped]
    by_cases hk : c.kind = .assignment
    · exact afterExprList_assignment hk
    · exact iff_of_false (afterExprList_ne_assignment hcolon hk) fun h =>
        hk (binding_eq_ok.mp h).1

theorem ended_eq_ok {α : Type} {rule : Rule α} {a : α} :
    ended rule c = .ok a d ↔ ∃ u, rule c = .ok a u ∧ endOfStatement u = .ok () d := by
  constructor
  · intro h
    obtain ⟨a', u, ha, h⟩ := bind_eq_ok.mp h
    obtain ⟨_, v, hend, h⟩ := bind_eq_ok.mp h
    cases h
    exact ⟨u, ha, hend⟩
  · rintro ⟨u, ha, hend⟩
    exact ended_ok ha hend

def bound (start : Offset) (isVar : Bool) : Rule Stmt := do
  let left ← exprList
  let declaredType ← declaredType?
  binding start isVar left declaredType

theorem bound_assigns (start : Offset) :
    (∃ s, ended (bound start isVar) c = .ok (.assignment s b pattern type value) d) ↔
      b = isVar ∧ Assigns c pattern type value d := by
  constructor
  · rintro ⟨s, h⟩
    obtain ⟨w, h, hend⟩ := ended_eq_ok.mp h
    obtain ⟨left, u, hleft, h⟩ := bind_eq_ok.mp h
    obtain ⟨t, v, ht, h⟩ := bind_eq_ok.mp h
    obtain ⟨hk, hvalue, hread, -, hb, rfl⟩ := binding_eq_ok.mp h
    exact ⟨hb, ⟨hleft, ht, hk, hvalue, hread, hend⟩⟩
  · rintro ⟨rfl, @⟨left, typed, equals, valued, hleft, ht, hk, hvalue, hread, hend⟩⟩
    refine ⟨⟨start, valued.previousEnd⟩, ended_ok ?_ hend⟩
    rw [bound, bind_ok hleft, bind_ok ht]
    exact binding_eq_ok.mpr ⟨hk, hvalue, hread, rfl, rfl, rfl⟩

theorem expressionStmt_assigns :
    (∃ s, expressionStmt c = .ok (.assignment s b pattern type value) d) ↔
      b = false ∧ Assigns c pattern type value d := by
  rw [← bound_assigns c.current.span.start]
  refine exists_congr fun s => ?_
  rw [expressionStmt, ended_eq_ok, ended_eq_ok]
  refine exists_congr fun u => and_congr_left fun _ => ?_
  rw [here_run, bound, bind_eq_ok, bind_eq_ok]
  refine exists_congr fun left => exists_congr fun v => and_congr_right fun _ => ?_
  rw [afterExprList_eq_ok, bind_eq_ok]
  constructor
  · rintro ⟨w, ht, h⟩
    exact ⟨type, w, ht, h⟩
  · rintro ⟨t, w, ht, h⟩
    obtain ⟨-, -, -, -, -, rfl⟩ := binding_eq_ok.mp h
    exact ⟨w, ht, h⟩

theorem varStmt_assigns :
    (∃ s, varStmt c = .ok (.assignment s b pattern type value) d) ↔
      b = true ∧ (c.advance.kind = .identifier ∨ c.advance.kind = .openParen) ∧
        Assigns c.advance pattern type value d := by
  rw [and_left_comm, ← bound_assigns c.current.span.start, ← exists_and_left]
  refine exists_congr fun s => ?_
  rw [varStmt, ended_eq_ok, ended_eq_ok, ← exists_and_left]
  refine exists_congr fun u => ?_
  rw [← and_assoc]
  refine and_congr_left fun _ => ?_
  rw [advance_run, kind_run]
  generalize c.advance.kind = k
  split
  · simp [varBinding, bound]
  · simp [varBinding, bound]
  · next hname hparen =>
    constructor
    · intro h
      cases h
    · rintro ⟨rfl | rfl, -⟩
      · exact absurd rfl hname
      · exact absurd rfl hparen

end Rules

section Places

variable {k : Kind} {c c' d : Cursor} {s : Stmt} {n : Nat}

/-- From a cursor, a rule reads a statement, up to spans, and leaves so many tokens behind it. -/
def Finds (rule : Rule Stmt) (c : Cursor) (s : Stmt) (n : Nat) : Prop :=
  ∃ s' d, rule c = .ok s' d ∧ s'.spanless = s ∧ d.remaining = n

def unplaced (c : Cursor) : Cursor :=
  ⟨none, relocate (fun _ => 0) c.rest, relocate (fun _ => 0) c.last⟩

theorem unplaced_eq (hrest : c'.rest.map Token.written = c.rest.map Token.written)
    (hlast : c'.last.written = c.last.written) : unplaced c' = unplaced c := by
  let place (w : Kind × String) : Token := ⟨w.1, w.2, ⟨0, 0⟩⟩
  have htokens (ts : List Token) : relocate (fun _ => 0) ts = (ts.map Token.written).map place := by
    rw [List.map_map]
    rfl
  have htoken (t : Token) : relocate (fun _ => 0) t = place t.written := rfl
  rw [unplaced, unplaced, htokens, htokens, htoken, htoken, hrest, hlast]

theorem kind_unplaced (c : Cursor) : (unplaced c).kind = c.kind := by
  obtain ⟨previous, rest, last⟩ := c
  cases rest <;> rfl

/-- A simple statement is the same, up to spans, wherever its tokens stand. -/
theorem finds_unplaced (hk : c.kind = k) (hl : c.last.kind = .eof) :
    Finds (simpleStmt k) (unplaced c) s n ↔ Finds (simpleStmt k) c s n := by
  have hrest : (unplaced c).rest = relocate (fun _ => 0) c.rest := rfl
  have hlast : (unplaced c).last = relocate (fun _ => 0) c.last := rfl
  have hagree := simpleStmt_agree hk hl hrest hlast
  have hspanless (s : Stmt) : (relocate (fun _ => 0) s).spanless = s.spanless :=
    Stmt.mapSpans_mapSpans _ _ s
  unfold Finds
  generalize simpleStmt k c = r at hagree ⊢
  generalize simpleStmt k (unplaced c) = r₀ at hagree ⊢
  cases hagree with
  | @ok a d d' hbehind =>
    have hremaining : d'.remaining = d.remaining := by
      rw [Cursor.remaining, Cursor.remaining, hbehind, length_relocate]
    constructor
    · rintro ⟨_, _, ⟨⟩, hs, hn⟩
      exact ⟨a, d, rfl, (hspanless a).symm.trans hs, hremaining.symm.trans hn⟩
    · rintro ⟨_, _, ⟨⟩, hs, hn⟩
      exact ⟨_, d', rfl, (hspanless a).trans hs, hremaining.trans hn⟩
  | error _ =>
    constructor
    · rintro ⟨_, _, ⟨⟩, -, -⟩
    · rintro ⟨_, _, ⟨⟩, -, -⟩

theorem finds_written (hk : c.kind = k) (hl : c.last.kind = .eof)
    (hrest : c'.rest.map Token.written = c.rest.map Token.written)
    (hlast : c'.last.written = c.last.written) :
    Finds (simpleStmt k) c' s n ↔ Finds (simpleStmt k) c s n := by
  have hunplaced := unplaced_eq hrest hlast
  have hk' : c'.kind = k := by rw [← kind_unplaced, hunplaced, kind_unplaced, hk]
  have hl' : c'.last.kind = .eof := (congrArg Prod.fst hlast).trans hl
  rw [← finds_unplaced hk hl, ← finds_unplaced hk' hl', hunplaced]

end Places

section Targets

variable {cfg : Config} {q : Progress} {b : Bool} {pattern : Pattern} {type : Option TypeExpr}
  {value : Expr} {s : Stmt} {n : Nat} {c : Cursor} {rule : Rule Stmt}

theorem finds_assignment : Finds rule c (.assignment default b pattern type value) n ↔
    ∃ p t e d, (∃ s, rule c = .ok (.assignment s b p t e) d) ∧
      (p.mapSpans (fun _ => default) = pattern ∧ t.map (TypeExpr.mapSpans fun _ => default) = type ∧
        e.mapSpans (fun _ => default) = value) ∧ d.remaining = n := by
  constructor
  · rintro ⟨s', d, h, hs, hn⟩
    cases s' with
    | assignment s b' p t e =>
      obtain ⟨-, rfl, hparts⟩ := Stmt.assignment.inj hs
      exact ⟨p, t, e, d, ⟨s, h⟩, hparts, hn⟩
    | _ => cases hs
  · rintro ⟨p, t, e, d, ⟨s, h⟩, ⟨rfl, rfl, rfl⟩, hn⟩
    exact ⟨_, d, h, rfl, hn⟩

/-- With `var` the assignments are those without it whose first token may stand behind the word. -/
theorem varStmt_finds : Finds varStmt c (.assignment default b pattern type value) n ↔
    b = true ∧ (c.advance.kind = .identifier ∨ c.advance.kind = .openParen) ∧
      Finds expressionStmt c.advance (.assignment default false pattern type value) n := by
  rw [finds_assignment, finds_assignment]
  simp only [varStmt_assigns, expressionStmt_assigns]
  constructor
  · rintro ⟨p, t, e, d, ⟨hb, hopens, h⟩, hparts, hn⟩
    exact ⟨hb, hopens, p, t, e, d, ⟨trivial, h⟩, hparts, hn⟩
  · rintro ⟨hb, hopens, p, t, e, d, ⟨-, h⟩, hparts, hn⟩
    exact ⟨p, t, e, d, ⟨hb, hopens, h⟩, hparts, hn⟩

/-- The statement at a position, up to spans, and how many tokens stand behind it. -/
def ReadsAs (cfg : Config) (q : Progress) (s : Stmt) (n : Nat) : Prop :=
  ∃ s' r, stmt cfg q = .ok s' r ∧ s'.spanless = s ∧ r.remaining = n

theorem readsAs_iff (hcompound : startsCompound q.cursor.kind = false)
    (hindent : q.cursor.kind ≠ .indent) :
    ReadsAs cfg q s n ↔ Finds (simpleStmt q.cursor.kind) q.cursor s n := by
  rw [ReadsAs, stmt_simple hcompound hindent]
  constructor
  · rintro ⟨s', r, h, hs, hn⟩
    exact ⟨s', r.cursor, lifted_eq_ok h, hs, hn⟩
  · rintro ⟨s', d, h, hs, hn⟩
    exact ⟨s', _, lifted_ok h, hs, hn⟩

variable {var last last' : Token} {tokens tokens' : List Token} {previous previous' : Option Token}
  {p : Progress}

/-- The assignments with `var` are those without it whose target begins with a name or an opening
parenthesis: there, the two are read from the same tokens, wherever these stand, and they have the
same target, type and value and leave the same tokens behind. -/
theorem readsAs_var (hvar : var.kind = .kwVar) (hlast : last.kind = .eof)
    (hlast' : last'.written = last.written)
    (htokens : tokens'.map Token.written = tokens.map Token.written) :
    ReadsAs cfg { q with cursor := ⟨previous', var :: tokens', last'⟩ }
        (.assignment default b pattern type value) n ↔
      b = true ∧ (∃ t ∈ tokens.head?, t.kind = .identifier ∨ t.kind = .openParen) ∧
        ReadsAs cfg { p with cursor := ⟨previous, tokens, last⟩ }
          (.assignment default false pattern type value) n := by
  let c : Cursor := ⟨previous, tokens, last⟩
  let c' : Cursor := ⟨some var, tokens', last'⟩
  have hadvance : Cursor.advance ⟨previous', var :: tokens', last'⟩ = c' :=
    advance_cons hvar (by decide)
  have hkind : c'.kind = c.kind := by
    rw [← kind_unplaced, unplaced_eq (c := c) htokens hlast', kind_unplaced]
  have hopens : (∃ t ∈ tokens.head?, t.kind = .identifier ∨ t.kind = .openParen) ↔
      c.kind = .identifier ∨ c.kind = .openParen := by
    cases tokens with
    | nil => simp [c, Cursor.kind, Cursor.current, hlast]
    | cons t ts => simp [c, Cursor.kind, Cursor.current]
  have hword : Cursor.kind ⟨previous', var :: tokens', last'⟩ = .kwVar := hvar
  rw [readsAs_iff (by rw [hword]; rfl) (by rw [hword]; decide)]
  dsimp only
  rw [hword]
  refine varStmt_finds.trans ?_
  rw [hadvance, hkind, hopens]
  refine and_congr_right fun _ => and_congr_right fun hk => ?_
  have hsimple : simpleStmt c.kind = expressionStmt := by
    rcases hk with hk | hk <;> rw [hk] <;> rfl
  have hcompound : startsCompound c.kind = false := by
    rcases hk with hk | hk <;> rw [hk] <;> rfl
  have hindent : c.kind ≠ .indent := by
    rcases hk with hk | hk <;> rw [hk] <;> decide
  rw [readsAs_iff (q := { p with cursor := c }) hcompound hindent]
  dsimp only
  -- behind the word the same tokens stand elsewhere
  have hmoved : Finds (simpleStmt c.kind) c' (.assignment default false pattern type value) n ↔
      Finds (simpleStmt c.kind) c (.assignment default false pattern type value) n :=
    finds_written rfl hlast htokens hlast'
  rw [← hmoved, hsimple]

/-- Two names, moved behind the word. -/
theorem readsAs_var_pair :
    let tokens : List Token := [⟨.identifier, "a", ⟨0, 1⟩⟩, ⟨.comma, ",", ⟨1, 2⟩⟩,
      ⟨.identifier, "b", ⟨3, 4⟩⟩, ⟨.assignment, "=", ⟨5, 6⟩⟩, ⟨.identifier, "c", ⟨7, 8⟩⟩,
      .layout .newline ⟨8, 9⟩]
    let var : Token := ⟨.kwVar, "var", ⟨0, 3⟩⟩
    ReadsAs {} { cursor := ⟨none, var :: relocate (· + 4) tokens, .layout .eof ⟨13, 13⟩⟩ }
      (.assignment default true (.tuple default [.symbol default "a", .symbol default "b"]) none
        (.symbol default "c")) 0 := by
  intro tokens var
  have hread : stmt {} { cursor := ⟨none, tokens, .layout .eof ⟨9, 9⟩⟩ } =
      .ok (.assignment ⟨0, 8⟩ false (.tuple ⟨0, 4⟩ [.symbol ⟨0, 1⟩ "a", .symbol ⟨3, 4⟩ "b"]) none
        (.symbol ⟨7, 8⟩ "c")) { cursor := ⟨some (.layout .newline ⟨8, 9⟩), [], .layout .eof ⟨9, 9⟩⟩ } := by
    rw [Seam.stmt_eq_statement]
    change lifted expressionStmt _ = _
    cbv
  have hplain : ReadsAs {} { cursor := ⟨none, tokens, .layout .eof ⟨9, 9⟩⟩ }
      (.assignment default false (.tuple default [.symbol default "a", .symbol default "b"]) none
        (.symbol default "c")) 0 := ⟨_, _, hread, rfl, rfl⟩
  have hlast : (Token.layout .eof ⟨13, 13⟩).written = (Token.layout .eof ⟨9, 9⟩).written := rfl
  have htokens : (relocate (· + 4) tokens).map Token.written = tokens.map Token.written := rfl
  exact (readsAs_var (p := default) (q := default) rfl rfl hlast htokens).mpr ⟨rfl, ⟨_, rfl, Or.inl rfl⟩, hplain⟩

/-- A list in brackets is a target, but not behind `var`. -/
theorem not_readsAs_var_each :
    ¬∀ (cfg : Config) (var : Token) (tokens : List Token) (last : Token) (pattern : Pattern)
      (type : Option TypeExpr) (value : Expr) (n : Nat), var.kind = .kwVar → last.kind = .eof →
        ReadsAs cfg { cursor := ⟨none, tokens, last⟩ } (.assignment default false pattern type value) n →
          ReadsAs cfg { cursor := ⟨none, var :: tokens, last⟩ }
            (.assignment default true pattern type value) n := by
  intro h
  let tokens : List Token := [⟨.openBracket, "[", ⟨4, 5⟩⟩, ⟨.identifier, "a", ⟨5, 6⟩⟩,
    ⟨.closeBracket, "]", ⟨6, 7⟩⟩, ⟨.assignment, "=", ⟨8, 9⟩⟩, ⟨.identifier, "b", ⟨10, 11⟩⟩,
    .layout .newline ⟨11, 12⟩]
  have hread : stmt {} { cursor := ⟨none, tokens, .layout .eof ⟨12, 12⟩⟩ } =
      .ok (.assignment ⟨4, 11⟩ false (.list ⟨4, 7⟩ [.symbol ⟨5, 6⟩ "a"]) none
        (.symbol ⟨10, 11⟩ "b"))
        { cursor := ⟨some (.layout .newline ⟨11, 12⟩), [], .layout .eof ⟨12, 12⟩⟩ } := by
    rw [Seam.stmt_eq_statement]
    change lifted expressionStmt _ = _
    cbv
  obtain ⟨s, r, hvar, -, -⟩ := h {} ⟨.kwVar, "var", ⟨0, 3⟩⟩ _ _ _ _ _ _ rfl rfl
    ⟨_, _, hread, rfl, rfl⟩
  rw [Seam.stmt_eq_statement] at hvar
  contradiction

end Targets

end Grammar

end Offside
