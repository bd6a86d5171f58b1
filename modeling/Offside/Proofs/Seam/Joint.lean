import Offside.Proofs.Extent.Stmt
import Offside.Proofs.Seam.Parse

namespace Offside

open Grammar

section Blocks

variable {n m : Nat} {p : Depth} {ts us : List Token}

/-- How many blocks are open behind tokens that close some. -/
theorem Closes.blocks_along (h : Closes m ts) (hle : m ≤ p.blocks) :
    (p.along ts).blocks = p.blocks - m := by
  induction ts generalizing m p with
  | nil =>
    obtain rfl : m = 0 := h
    rfl
  | cons t ts ih =>
    rw [Depth.along]
    by_cases hi : t.kind = .indent
    · have hblocks : (p.after t.kind).blocks = p.blocks + 1 := by rw [hi]; rfl
      rw [ih ((closes_indent hi).mp h) (by omega), hblocks]
      omega
    by_cases hd : t.kind = .dedent
    · have hblocks : (p.after t.kind).blocks = p.blocks - 1 := by rw [hd]; rfl
      obtain ⟨hpos, h⟩ := (closes_dedent hd).mp h
      rw [ih h (by omega), hblocks]
      omega
    · rw [ih ((closes_other hi hd).mp h) (by rwa [Depth.blocks_after hi hd]),
        Depth.blocks_after hi hd]

theorem Lined.sheds (h : Lined p ts) : Sheds p.blocks ts := by
  induction ts generalizing p with
  | nil => exact h
  | cons t ts ih =>
    have ih := ih h.2.2
    by_cases hi : t.kind = .indent
    · rw [hi] at ih
      exact (sheds_indent hi).mpr ih
    by_cases hd : t.kind = .dedent
    · rw [hd] at ih
      exact (sheds_dedent hd).mpr ih
    · rw [Depth.blocks_after hi hd] at ih
      exact (sheds_other hi hd).mpr ih

/-- The first part of some lines consists of lines, if its blocks are closed. -/
theorem Lined.left (h : Lined p (ts ++ us)) (hp : (p.along ts).blocks = 0) : Lined p ts := by
  induction ts generalizing p with
  | nil => exact hp
  | cons t ts ih => exact ⟨h.1, h.2.1, ih h.2.2 hp⟩

end Blocks

section Passes

variable {cfg : Config} {q r : Progress} {ss : List Stmt}

/-- Between the statements of a stream no block is open. -/
theorem passes_took (hcancel : cfg.cancel = false) (h : Passes cfg q ss r)
    (hq : q.cursor.InFlow 0) : ∃ us, q.cursor.Took us r.cursor ∧
      ∀ p : Depth, p.blocks = 0 → (p.along us).blocks = 0 := by
  induction h with
  | refl q => exact ⟨[], .refl _, fun _ hp => hp⟩
  | @blank q r ss hb h ih =>
    have hkinds : q.cursor.kind = .newline ∨ q.cursor.kind = .dedent := by
      simpa [Kind.isBlank] using hb
    have htook := Cursor.took_current hq.last_eof (by rcases hkinds with h | h <;> simp [h])
    have hflow := hq.flow
    rw [htook.rest_eq] at hflow
    have hstep : q.advance.cursor.InFlow 0 := by
      refine ⟨⟨?_, hflow.tail_ne_eof⟩, htook.last_eq ▸ hq.last_eof⟩
      rcases hkinds with hk | hk
      · exact (sheds_other (by rw [← Cursor.kind, hk]; exact Kind.noConfusion)
          (by rw [← Cursor.kind, hk]; exact Kind.noConfusion)).mp hflow.sheds
      · exact (sheds_dedent hk).mp hflow.sheds
    obtain ⟨us, hus, hblocks⟩ := ih hstep
    refine ⟨q.cursor.current :: us, htook.trans hus, fun p hp => hblocks _ ?_⟩
    change (p.after q.cursor.kind).blocks = 0
    rcases hkinds with hk | hk
    · rw [hk]
      exact hp
    · rw [hk]
      exact Nat.sub_eq_zero_of_le (Nat.le_trans (Nat.le_of_eq hp) (Nat.zero_le 1))
  | @stmt q r ss he hb h ih =>
    have hstep := recovering_moved track_steady (stmt_advances track_steady (leaves_steady hcancel)) hq
    obtain ⟨us, hus, hblocks⟩ := ih (hq.along hstep)
    obtain ⟨vs, htook, hcloses⟩ := hstep
    refine ⟨vs ++ us, htook.trans hus, fun p hp => ?_⟩
    rw [Depth.along_append]
    refine hblocks _ ?_
    rw [hcloses.blocks_along (Nat.zero_le _), Nat.sub_zero, hp]

end Passes

/-- A place between two statements of a stream: the tokens before it, the token that the second
statement begins with and those behind, and the state that the loop reads this statement in. -/
structure Joint (cfg : Config) (last : Token) (ss : List Stmt) where
  before : List Token
  first : Token
  behind : List Token
  state : Progress
  passes : Passes cfg { cursor := ⟨none, before ++ first :: behind, last⟩ } ss state
  took : (Cursor.mk none (before ++ first :: behind) last).Took before state.cursor
  lined : Lined {} before
  ends : ∀ t, before.getLast? = some t → t.kind.endsStatement = true
  ne_eof : first.kind ≠ .eof
  not_blank : first.kind.isBlank = false

namespace Joint

variable {cfg : Config} {last : Token} {ss : List Stmt}

def stream (j : Joint cfg last ss) : List Token := j.before ++ j.first :: j.behind

def next (j : Joint cfg last ss) : Stmt := (recovering (stmt cfg) j.state).1

end Joint

variable {cfg : Config} {ts : List Token} {last : Token} {ss rest : List Stmt} {s : Stmt}

/-- Between two rounds there is a joint, if a statement can begin there. -/
theorem Passes.exists_joint {r : Progress} (hcancel : cfg.cancel = false) (hl : last.kind = .eof)
    (hlined : Lined {} ts) (hr : Passes cfg { cursor := ⟨none, ts, last⟩ } ss r)
    (heof : r.cursor.kind ≠ .eof) (hb : r.cursor.kind.isBlank = false) :
    ∃ j : Joint cfg last ss, j.stream = ts ∧ j.state = r := by
  have hflow : (Cursor.mk none ts last).InFlow 0 := ⟨⟨hlined.sheds, hlined.ne_eof⟩, hl⟩
  obtain ⟨w, htook, hblocks⟩ := passes_took hcancel hr hflow
  obtain ⟨us, hrest⟩ := Cursor.exists_cons (c := r.cursor) (htook.last_eq.symm ▸ hl) heof
  obtain rfl : ts = w ++ r.cursor.current :: us := htook.rest_eq.trans (congrArg _ hrest)
  refine ⟨⟨w, r.cursor.current, us, r, hr, htook, hlined.left (hblocks {} rfl), fun t ht => ?_, heof,
    hb⟩, rfl, rfl⟩
  rcases hr.eq_or_apart hcancel hl with hsame | hapart
  · -- before the first statement there are no tokens
    have hrest' := congrArg (fun r : Progress => r.cursor.rest) hsame
    have hnil : w = [] := List.append_left_eq_self.mp (hrest'.symm.trans hrest)
    rw [hnil] at ht
    contradiction
  · rcases hapart with hk | hk | ⟨u, hu, hends⟩
    · exact absurd hk heof
    · rw [hk] at hb
      contradiction
    · rw [htook.previous_eq, ht] at hu
      rwa [Option.some.inj hu]

/-- Before each statement of a stream there is a joint. -/
theorem exists_joint (hcancel : cfg.cancel = false) (hl : last.kind = .eof) (hlined : Lined {} ts)
    (hbody : (parseRest cfg ts last).1 = ss ++ s :: rest) :
    ∃ j : Joint cfg last ss, j.stream = ts ∧ j.next = s := by
  have hpass := (passes_streamLoop (q := { cursor := ⟨none, ts, last⟩ }) hcancel hl).1
  have hall : (streamLoop cfg { cursor := ⟨none, ts, last⟩ }).1 = ss ++ s :: rest := hbody
  rw [hall] at hpass
  obtain ⟨r₀, hss, hs⟩ := hpass.split
  obtain ⟨r, hblank, heof, hb, hstmt, -⟩ := hs.cons
  have hr : Passes cfg { cursor := ⟨none, ts, last⟩ } ss r := by
    have := hss.trans hblank
    rwa [List.append_nil] at this
  obtain ⟨j, hj, rfl⟩ := hr.exists_joint hcancel hl hlined heof hb
  exact ⟨j, hj, hstmt.symm⟩

section Failing

variable {c : Cursor} {q : Progress} {k : Kind}

theorem lifted_kind_run {α : Type} (g : Kind → StmtRule α) (q : Progress) :
    ((liftM Rule.kind : StmtRule Kind) >>= g) q = g q.cursor.kind q := rfl

theorem bind_error {σ α β : Type} {x : EStateM Diagnostic σ α} {g : α → EStateM Diagnostic σ β}
    {e : Diagnostic} {s t : σ} (h : x s = .error e t) : (x >>= g) s = .error e t := by
  change EStateM.bind x g s = _
  rw [EStateM.bind, h]

/-- Kinds that no statement begins with, though they are no blanks: the statement fails at once. -/
def Kind.startsNone (k : Kind) : Bool :=
  k == .indent || k == .kwElif || k == .kwElse || k == .notEquals

theorem startsNone_iff :
    k.startsNone = true ↔ k = .indent ∨ k = .kwElif ∨ k = .kwElse ∨ k = .notEquals := by
  simp [Kind.startsNone, or_assoc]

theorem expr_unexpected (level : Level) (h : c.kind.startsNone = true) :
    expr level c = .error c.unexpected c := by
  have hoperand (sub : ExprRule) : operand sub c = .error c.unexpected c := by
    unfold operand
    rw [Rule.kind_run]
    rcases startsNone_iff.mp h with hk | hk | hk | hk <;> rw [hk] <;> rfl
  rw [expr]
  exact bind_error (hoperand _)

theorem expressionStmt_unexpected (h : c.kind.startsNone = true) :
    expressionStmt c = .error c.unexpected c := by
  have hlist : exprList c = .error c.unexpected c := bind_error (expr_unexpected .lowest h)
  have hrule : (Rule.here >>= fun start => exprList >>= afterExprList start) c =
      .error c.unexpected c := bind_error (x := exprList) hlist
  exact bind_error hrule

theorem stmt_startsNone (cfg : Config) (h : q.cursor.kind.startsNone = true) :
    ∃ e, stmt cfg q = .error e q ∧ e.span = q.cursor.current.span := by
  have hsimple : lifted expressionStmt q = .error q.cursor.unexpected q := by
    rw [lifted, expressionStmt_unexpected h]
  rw [Seam.stmt_eq_statement]
  unfold statement
  rw [lifted_kind_run]
  rcases startsNone_iff.mp h with hk | hk | hk | hk
  · rw [hk]
    exact ⟨_, rfl, rfl⟩
  all_goals
    rw [hk]
    exact ⟨_, hsimple, rfl⟩

/-- The fault of such a statement is recorded where it is passed over. -/
theorem recovering_startsNone (cfg : Config) (h : q.cursor.kind.startsNone = true) :
    ∃ e ∈ (recovering (stmt cfg) q).2.diagnostics, e.span = q.cursor.current.span := by
  obtain ⟨e, herror, hspan⟩ := stmt_startsNone cfg h
  refine ⟨e, ?_, hspan⟩
  rw [recovering, herror]
  exact List.mem_append_right _ (List.mem_singleton_self e)

end Failing

namespace Joint

variable (j : Joint cfg last ss)

theorem rest_eq : j.state.cursor.rest = j.first :: j.behind :=
  (List.append_cancel_left j.took.rest_eq).symm

theorem current_eq : j.state.cursor.current = j.first := by
  rw [Cursor.current, j.rest_eq]
  rfl

theorem kind_eq : j.state.cursor.kind = j.first.kind := congrArg Token.kind j.current_eq

/-- The second statement begins with the first token behind the joint. -/
theorem start_eq (hl : last.kind = .eof) : j.next.span.start = j.first.span.start := by
  have hstart : j.next.span.start = j.state.cursor.current.span.start :=
    recovering_starts (j.took.last_eq.symm ▸ hl)
  rwa [j.current_eq] at hstart

/-- The round of the loop that reads the second statement. -/
theorem streamLoop_eq (hcancel : cfg.cancel = false) (hl : last.kind = .eof) :
    streamLoop cfg j.state = (j.next :: (streamLoop cfg (recovering (stmt cfg) j.state).2).1,
        (streamLoop cfg (recovering (stmt cfg) j.state).2).2) ∧
      (recovering (stmt cfg) j.state).2.cursor.last = last := by
  have hlast : j.state.cursor.last.kind = .eof := j.took.last_eq.symm ▸ hl
  have heof : j.state.cursor.kind ≠ .eof := j.kind_eq ▸ j.ne_eof
  have hb : j.state.cursor.kind.isBlank = false := j.kind_eq ▸ j.not_blank
  have hstmt := Seam.stmt_lt cfg hlast heof hb
  exact ⟨Seam.statements_one hcancel (beq_false_of_ne heof) hb hstmt.1, hstmt.2.trans j.took.last_eq⟩

/-- The statements and faults of the stream are those before the joint and those behind it. -/
theorem parse_eq (hcancel : cfg.cancel = false) (hl : last.kind = .eof) :
    parseRest cfg j.stream last = (ss ++ (parseRest cfg (j.first :: j.behind) last).1,
      j.state.diagnostics ++ (parseRest cfg (j.first :: j.behind) last).2) := by
  have hlast : j.state.cursor.last = last := j.took.last_eq
  obtain ⟨hbody, hdiagnostics⟩ := Offside.streamLoop_eq (q := j.state) hcancel (hlast.symm ▸ hl)
  rw [j.rest_eq, hlast] at hbody hdiagnostics
  rw [parseRest, stream, j.passes.streamLoop_eq hcancel hl, hbody, ← hdiagnostics]

/-- No fault stands at the joint: none was found before it, and the second statement does not fail
at its first token. -/
structure Clean : Prop where
  faults : ∀ d ∈ j.state.diagnostics, d.span.start ≠ j.first.span.start
  starts : j.first.kind.startsNone = false

theorem clean (hcancel : cfg.cancel = false) (hl : last.kind = .eof)
    (hclean : ∀ d ∈ (parseRest cfg j.stream last).2, d.span.start ≠ j.first.span.start) : j.Clean where
  faults d hd := hclean d (by rw [j.parse_eq hcancel hl]; exact List.mem_append_left _ hd)
  starts := by
    by_contra hk
    rw [Bool.not_eq_false, ← j.kind_eq] at hk
    obtain ⟨e, hmem, hspan⟩ := recovering_startsNone cfg hk
    -- the fault would be among those of the stream
    obtain ⟨hloop, hlast⟩ := j.streamLoop_eq hcancel hl
    have hfaults := (Offside.streamLoop_eq (q := (recovering (stmt cfg) j.state).2) hcancel
      (hlast.symm ▸ hl)).2
    refine hclean e ?_ (by rw [hspan, j.current_eq])
    rw [parseRest, stream, j.passes.streamLoop_eq hcancel hl, hloop]
    exact hfaults ▸ List.mem_append_left _ hmem

section Clean

variable {j} (hclean : j.Clean)

include hclean

theorem Clean.startsAfresh : j.first.kind.startsAfresh = true := by
  have hnone := hclean.starts
  have hblank := j.not_blank
  revert hnone hblank
  cases j.first.kind <;> simp [Kind.startsNone, Kind.isBlank, Kind.startsAfresh]

theorem Clean.cut {next : Token} (hnext : next.kind.startsAfresh = true) : Cut j.before j.first next where
  lined := j.lined
  ends := j.ends
  left := hclean.startsAfresh
  right := hnext
  goesOn _ _ _ := j.ne_eof

variable (hcancel : cfg.cancel = false) (hl : last.kind = .eof)

include hcancel hl

/-- Other tokens behind the joint leave the statements before it alone. -/
theorem Clean.replace {us : List Token} {last' : Token} (hl' : last'.kind = .eof)
    (hnext : (us.headD last').kind.startsAfresh = true) :
    parseRest cfg (j.before ++ us) last' = (ss ++ (parseRest cfg us last').1,
      j.state.diagnostics ++ (parseRest cfg us last').2) :=
  parseRest_replace hcancel j.passes j.rest_eq hl hl' (hclean.cut hnext) hclean.faults

/-- No bracket is open at the joint. -/
theorem Clean.along_before : Depth.along {} j.before = .flat 0 := by
  have hcut : Cut j.before j.first ([j.first].headD last) := hclean.cut hclean.startsAfresh
  obtain ⟨-, done, rest, -, -, -, -, hrest, hdone, hdepth⟩ := passes_joint hcancel
    j.passes hl hl hcut (Nat.le_of_eq (congrArg List.length j.rest_eq.symm)) hclean.faults
  obtain rfl : rest = [] := List.append_left_eq_self.mp (hrest.symm.trans j.rest_eq)
  rwa [hdone, List.append_nil]

/-- The statements before the joint and their faults are those of the tokens before it. -/
theorem Clean.before_eq {last' : Token} (hl' : last'.kind = .eof) :
    parseRest cfg j.before last' = (ss, j.state.diagnostics) := by
  have hnext : (([] : List Token).headD last').kind.startsAfresh = true := by
    rw [List.headD_nil, hl']
    rfl
  have hreplace := hclean.replace hcancel hl hl' hnext
  rwa [List.append_nil, parseRest_nil hl', List.append_nil, List.append_nil] at hreplace

end Clean

end Joint

end Offside
