import Offside.Proofs.Conventions
import Offside.Proofs.Forward.Stmt
import Offside.Proofs.Seam.Joint

namespace Offside

open Grammar

def Config.unflagged (cfg : Config) : Config := { cfg with cancel := false }

theorem Config.flagOf_unflagged (cfg : Config) : cfg.unflagged.FlagOf cfg := nofun

variable {cfg : Config} {q : Progress} {s : Stmt} {ss rest : List Stmt} {ts : List Token} {last : Token}

/-- A statement that is read without finding the flag raised is read alike without the flag. -/
theorem recovering_unflagged (h : (recovering (stmt cfg) q).2.cancelled cfg = false) :
    recovering (stmt cfg.unflagged) (q.under cfg.unflagged) =
      ((recovering (stmt cfg) q).1, (recovering (stmt cfg) q).2.under cfg.unflagged) := by
  have hwidens := recovering_widens (stmt_widens cfg.flagOf_unflagged fun _ hc => hc)
  refine (hwidens.same q).resolve_left ?_
  rintro (⟨d, -, hrefuses⟩ | ⟨-, hcancelled⟩)
  · exact not_refuses_self rfl d hrefuses
  · rw [h] at hcancelled
    contradiction

/-- A flag that a parse does not find raised makes no difference to it. -/
theorem parse_uncancelled {tokens : List Token} (h : (parse cfg tokens).cancelled = false) :
    parse cfg.unflagged tokens = parse cfg tokens :=
  parse_sameSet cfg.flagOf_unflagged rfl fun _ => h

/-- Where the tokens start that are no blanks. -/
def startsOf (ts : List Token) : List Offset :=
  (ts.filter fun t => !t.kind.isBlank).map fun t => t.span.start

theorem startsOf_append (ts us : List Token) : startsOf (ts ++ us) = startsOf ts ++ startsOf us := by
  rw [startsOf, List.filter_append, List.map_append]
  rfl

section Forth

variable {c d : Cursor} (h : c.Forth d)

include h

theorem Cursor.Forth.startsOf_sublist : (startsOf d.rest).Sublist (startsOf c.rest) := by
  obtain ⟨us, htook, -⟩ := h
  rw [htook.rest_eq, startsOf_append]
  exact List.sublist_append_right _ _

theorem Cursor.Forth.startsOf_cons_sublist (hlt : d.remaining < c.remaining) (hb : c.kind.isBlank = false) :
    (c.current.span.start :: startsOf d.rest).Sublist (startsOf c.rest) := by
  have hfirst : startsOf [c.current] = [c.current.span.start] := by
    simp [startsOf, show c.current.kind.isBlank = false from hb]
  obtain ⟨us, hrest⟩ := h.exists_rest hlt
  rw [hrest, ← List.singleton_append (x := c.current), startsOf_append, startsOf_append, hfirst]
  exact (List.sublist_append_right _ _).cons_cons _

end Forth

/-- The statements that the loop reads start where tokens do, one behind the other. -/
theorem streamLoop_starts (cfg : Config) (q : Progress) (hl : q.cursor.last.kind = .eof) :
    ((streamLoop cfg q).1.map fun s => s.span.start).Sublist (startsOf q.cursor.rest) := by
  refine (List.sublist_append_left _ (startsOf (streamLoop cfg q).2.cursor.rest)).trans ?_
  refine (statements_invariant cfg q (I := fun ss p => p.cursor.last.kind = .eof ∧
    ((ss.map fun s => s.span.start) ++ startsOf p.cursor.rest).Sublist (startsOf q.cursor.rest))
    (fun ss p hp => ?_) (fun ss p hp => ?_) (fun ss p hs hb hp => ?_) [] ⟨hl, List.Sublist.refl _⟩).2
  · rwa [p.poll_cursor]
  · have hforth := p.cursor.forth_advance
    exact ⟨hforth.last_eq ▸ hp.1, (hforth.startsOf_sublist.append_left _).trans hp.2⟩
  · have hforth := forth_recovering (stmt cfg) p
    have hlt := (Seam.stmt_lt cfg hp.1 (by simpa using hs) hb).1
    have hbehind := (hforth.startsOf_cons_sublist hlt hb).append_left (ss.map fun s => s.span.start)
    rw [List.map_append, List.append_assoc, List.map_singleton, recovering_starts hp.1]
    exact ⟨hforth.last_eq ▸ hp.1, hbehind.trans hp.2⟩

/-- Once the flag has been found raised no statement is read. -/
theorem streamLoop_cancelled (h : q.cancelled cfg = true) : (streamLoop cfg q).1 = [] := by
  cases hs : q.cursor.kind == .eof with
  | true => rw [streamLoop, Seam.statements_stop hs]
  | false => rw [streamLoop, Seam.statements_cancelled hs (Progress.cancelled_poll h)]

/-- The round that a statement is read in: what comes before are rounds that the flag makes no
difference to, and the loop goes on from there. -/
theorem exists_round (ss : List Stmt) (hl : q.cursor.last.kind = .eof)
    (hs : (streamLoop cfg q).1 = ss ++ s :: rest) :
    ∃ p : Progress, Passes cfg.unflagged (q.under cfg.unflagged) ss (p.under cfg.unflagged) ∧
      p.cursor.kind ≠ .eof ∧ p.cursor.kind.isBlank = false ∧ s = (recovering (stmt cfg) (p.poll cfg)).1 ∧
      (streamLoop cfg q).2 = (streamLoop cfg p).2 ∧
      (streamLoop cfg p).2 = (streamLoop cfg (recovering (stmt cfg) (p.poll cfg)).2).2 := by
  have hpoll (q : Progress) : (q.poll cfg).under cfg.unflagged = q.under cfg.unflagged := by
    rw [← q.under_poll cfg.flagOf_unflagged, Progress.poll_eq _ rfl]
  have hnone (ss : List Stmt) (h : ([] : List Stmt) = ss ++ s :: rest) : False :=
    absurd h.symm (List.append_ne_nil_of_right_ne_nil _ (List.cons_ne_nil _ _))
  unfold streamLoop at hs ⊢
  -- the rounds before the statement are one fewer behind each of them
  revert ss
  fun_induction statements cfg _ _ _ q with
  | case1 q _ => exact fun ss hs => (hnone ss hs).elim
  | case2 q _ p _ => exact fun ss hs => (hnone ss hs).elim
  | case3 q _ p _ hb hlt ih =>
    intro ss hs
    have hcursor : p.cursor = q.cursor := q.poll_cursor cfg
    have hlast : p.advance.cursor.last.kind = .eof := by rwa [Progress.advance, Cursor.last_advance, hcursor]
    obtain ⟨r, hpasses, hr⟩ := ih hlast ss hs
    refine ⟨r, .blank ?_ ?_, hr⟩
    · rwa [q.under_cursor, ← hcursor]
    · rwa [← hpoll, Progress.under_advance]
  | case4 q _ p _ _ _ => exact fun ss hs => (hnone ss hs).elim
  | case5 q hstop p hc hb t hlt rest' ih =>
    intro ss hs
    have hb : q.cursor.kind.isBlank = false := q.poll_cursor cfg ▸ Bool.eq_false_iff.mpr hb
    have he : q.cursor.kind ≠ .eof := by simpa using hstop
    have hforth := forth_recovering (stmt cfg) p
    rw [q.poll_cursor] at hforth
    cases ss with
    | nil =>
      obtain ⟨rfl, -⟩ := List.cons.inj hs
      have hround : streamLoop cfg q = (t.1 :: rest'.1, rest'.2) :=
        Seam.statements_polled_one (Bool.eq_false_iff.mpr hstop) (Bool.eq_false_iff.mpr hc) hb hlt
      have hbehind : (streamLoop cfg q).2 = rest'.2 := by rw [hround]
      exact ⟨q, .refl _, he, hb, rfl, hbehind.symm, hbehind⟩
    | cons s' ss =>
      obtain ⟨rfl, htail⟩ := List.cons.inj hs
      -- the loop goes on behind the statement, so the flag was not found raised in it
      have huncancelled : t.2.cancelled cfg = false := by
        by_contra hcancelled
        rw [Bool.not_eq_false] at hcancelled
        have hempty : rest'.1 = [] := streamLoop_cancelled hcancelled
        exact hnone ss (hempty.symm.trans htail)
      have hone := recovering_unflagged huncancelled
      rw [hpoll] at hone
      obtain ⟨r, hpasses, hr⟩ := ih (hforth.last_eq ▸ hl) ss htail
      have hstep : Passes cfg.unflagged (recovering (stmt cfg.unflagged) (q.under cfg.unflagged)).2 ss
          (r.under cfg.unflagged) := by rwa [hone]
      have hfirst : t.1 = (recovering (stmt cfg.unflagged) (q.under cfg.unflagged)).1 := by rw [hone]
      rw [hfirst]
      refine ⟨r, .stmt ?_ ?_ hstep, hr⟩
      · rwa [q.under_cursor]
      · rwa [q.under_cursor]
  | case6 q hstop p _ hb t hlt =>
    have hcursor : p.cursor = q.cursor := q.poll_cursor cfg
    have hless := (Seam.stmt_lt (q := p) cfg (hcursor ▸ hl) (by simpa [hcursor] using hstop)
      (Bool.eq_false_iff.mpr hb)).1
    exact absurd hless (by rwa [Progress.poll_remaining])

/-- Where a statement starts that no fault stands at, there is a joint: the statements before it are
those of a parse without the flag, and the loop goes on behind it. -/
theorem exists_joint_unflagged (hl : last.kind = .eof) (hlined : Lined {} ts)
    (hs : s ∈ (parseRest cfg ts last).1)
    (hclean : ∀ d ∈ (parseRest cfg ts last).2, d.span.start ≠ s.span.start) :
    ∃ ss, ∃ j : Joint cfg.unflagged last ss, ∃ p : Progress, j.stream = ts ∧ j.Clean ∧
      s.span.start = j.first.span.start ∧ p.cursor.rest = j.first :: j.behind ∧ p.cursor.last = last ∧
      p.diagnostics = j.state.diagnostics ∧ (parseRest cfg ts last).2 = (streamLoop cfg p).2.diagnostics := by
  let q : Progress := { cursor := ⟨none, ts, last⟩ }
  have hq : q.under cfg.unflagged = q := rfl
  obtain ⟨ss, rest, hbody⟩ := List.append_of_mem hs
  obtain ⟨p, hpasses, he, hb, rfl, hloop, hround⟩ := exists_round (q := q) ss hl hbody
  rw [hq] at hpasses
  obtain ⟨j, hstream, hstate⟩ := hpasses.exists_joint rfl hl hlined
    (by rwa [p.under_cursor]) (by rwa [p.under_cursor])
  have hcursor : j.state.cursor = p.cursor := by rw [hstate, p.under_cursor]
  have hdiagnostics : p.diagnostics = j.state.diagnostics := by rw [hstate, p.under_diagnostics]
  have hlast : p.cursor.last = last := hcursor ▸ j.took.last_eq
  have hstart : (recovering (stmt cfg) (p.poll cfg)).1.span.start = j.first.span.start := by
    have hpolled : (p.poll cfg).cursor = p.cursor := p.poll_cursor cfg
    rw [recovering_starts (by rwa [hpolled, hlast]), hpolled, ← j.current_eq, hcursor]
  have hfaults : (parseRest cfg ts last).2 = (streamLoop cfg p).2.diagnostics :=
    congrArg Progress.diagnostics hloop
  rw [hstart, hfaults] at hclean
  have hkept {r : Progress} {d : Diagnostic} (hd : d ∈ r.diagnostics) :
      d ∈ (streamLoop cfg r).2.diagnostics := by
    obtain ⟨-, new, hnew⟩ := Seam.onward_statements Seam.onward_stmt r
    exact hnew ▸ List.mem_append_left _ hd
  refine ⟨ss, j, p, hstream, ⟨fun d hd => ?_, ?_⟩, hstart, hcursor ▸ j.rest_eq, hlast, hdiagnostics, hfaults⟩
  · exact hclean d (hkept (hdiagnostics ▸ hd))
  · by_contra hk
    have hcurrent : (p.poll cfg).cursor.current = j.first := by rw [p.poll_cursor, ← hcursor, j.current_eq]
    rw [Bool.not_eq_false, ← hcurrent] at hk
    -- a statement that fails at its first token has its fault there
    obtain ⟨e, he, hspan⟩ := recovering_startsNone cfg hk
    exact hclean e (hround ▸ hkept he) (by rw [hspan, hcurrent])

/-- A parse that is cancelled reads what it would read without the flag, up to the last statement: that
one may be cut. -/
theorem parse_dropLast (cfg : Config) (tokens : List Token) :
    (parse cfg tokens).body.dropLast <+: (parse cfg.unflagged tokens).body := by
  let q : Progress := { cursor := Cursor.ofTokens tokens }
  have hl : q.cursor.last.kind = .eof := Cursor.last_ofTokens tokens
  rcases List.eq_nil_or_concat (parse cfg tokens).body with hnil | ⟨ss, s, hbody⟩
  · rw [hnil]
    exact List.nil_prefix
  · rw [List.concat_eq_append] at hbody
    obtain ⟨p, hpasses, -⟩ := exists_round (q := q) ss hl hbody
    have hloop := hpasses.streamLoop_eq rfl hl
    rw [hbody, List.dropLast_concat]
    exact ⟨_, (congrArg Prod.fst hloop).symm⟩

/-- A loop is cut behind the first statement of its body. -/
example :
    let tokens := (Scan.scan {} "pass\nwhile a:\n  b\n  c\nd\n").tokens
    (parse { cancel := true, patience := 3 } tokens).body.map Stmt.span = [⟨0, 4⟩, ⟨5, 17⟩] ∧
      (parse {} tokens).body.map Stmt.span = [⟨0, 4⟩, ⟨5, 21⟩, ⟨22, 23⟩] := by
  decide +kernel

end Offside
