import Offside.Proofs.Seam.Progress

namespace Offside.Seam

open Grammar

variable {S : Seam} {α β : Type} [Relocate α] [Relocate β] {P P' Q E : Cursor → Cursor → Prop}
  {b : Bool} {N : Origin} {p : Depth} {d : Nat} {k : Kind}

section Recovering

variable {n : Nat} {sub sub' : StmtRule Stmt} {q q' : Progress}

theorem onward_recovering (h : ∀ q, Onward q (endState (sub q))) (q : Progress) :
    Onward q (recovering sub q).2 := by
  have hsub := h q
  unfold recovering
  generalize sub q = r at hsub
  cases r with
  | ok s t => exact hsub
  | error e t =>
    obtain ⟨hle, new, hnew⟩ := hsub
    refine ⟨Nat.le_trans (remaining_synchronize_le _ _) hle, new ++ [e], ?_⟩
    rw [← List.append_assoc]
    exact congrArg (· ++ [e]) hnew

/-- A statement or the error mark in its place is the same on both sides, and the run has got
ahead. -/
theorem recovering_agree (hmax : ∀ a b, S.move (max a b) = max (S.move a) (S.move b))
    (hsub : S.Statements n sub sub') (hq : S.On (S.In b N (.flat d)) q q') (hlt : q.remaining < n)
    (he : q.cursor.kind ≠ .eof) (hd : q.cursor.kind ≠ .dedent) :
    S.strayedOn.state (recovering sub q).2 ∨
      (recovering sub' q').1 = relocate S.move (recovering sub q).1 ∧
        S.On (S.Edge true ⟨q.cursor, q'.cursor⟩ d) (recovering sub q).2 (recovering sub' q').2 := by
  have hin := hq.1
  have hagree := (hsub.alike false ⟨q.cursor, q'.cursor⟩ d q.cursor.kind).agree q q'
    ⟨⟨⟨hin.restart, hlt⟩, rfl⟩, hq.2⟩
  unfold recovering
  generalize sub q = r at hagree
  generalize sub' q' = r' at hagree
  rcases hagree with hs | ha
  · left
    cases r with
    | ok s t => exact hs
    | error fault t =>
      have hle (b : Bool) : (synchronize b t.cursor).remaining ≤ t.remaining :=
        remaining_synchronize_le b t.cursor
      rcases hs with (hs | ⟨hw, hrem, e, hmem, hstart⟩) | ⟨hw, hstart, hrem⟩
      · exact Or.inl (S.strayed.kept (hle _) hs)
      · exact Or.inr ⟨hw, Nat.le_trans (hle _) hrem, e, List.mem_append_left _ hmem, hstart⟩
      · exact Or.inr ⟨hw, Nat.le_trans (hle _) hrem, fault, by simp, hstart⟩
  · cases ha with
    | ok hQ => exact Or.inr ⟨rfl, hQ.1.loosen, hQ.2⟩
    | @error fault t t' hE =>
      obtain ⟨hout, new, hnew, hnew', hpolls⟩ := hE
      obtain ⟨done₀, rest₀, hat₀, -, -⟩ := hin.restart
      obtain ⟨_, done₁, rest₁, hat₁, -⟩ := id hout
      have hprogress : decide (t'.remaining < q'.remaining) = decide (t.remaining < q.remaining) :=
        decide_eq_decide.mpr (hat₀.remaining_lt_iff hat₁).symm
      dsimp only
      rw [hprogress]
      have hb : decide (t.remaining < q.remaining) = true ↔ t.cursor.remaining < q.cursor.remaining :=
        decide_eq_true_iff
      generalize decide (t.remaining < q.remaining) = progressed at hb
      have hlt : (synchronize progressed t.cursor).remaining < q.remaining :=
        hout.synchronize_lt hb hin he hd
      rcases hout.synchronize hb with hs | ⟨done, rest, hat⟩
      · exact Or.inl (Or.inl hs)
      · have hlt' : (synchronize progressed t'.cursor).remaining < q'.remaining :=
          (hat₀.remaining_lt_iff hat).mp hlt
        have hapart := apart_synchronize progressed (by rw [hat₁.last_eq, S.last_kind])
        refine Or.inr ⟨?_, ⟨done, rest, hat, ⟨hlt, Or.inr hapart⟩, nofun⟩, new ++ [fault], ?_, ?_, hpolls⟩
        · rw [if_pos hlt', if_pos hlt, hat.previousEnd hlt, hin.current]
          exact congrArg (fun o => Stmt.error ⟨S.move q.cursor.current.span.start, o⟩) (hmax _ _).symm
        · rw [hnew, List.append_assoc]
        · rw [hnew', relocate_append, List.append_assoc]
          rfl

section Loop

variable {cfg : Config} {stop blank : Kind → Bool} {one : Progress → Stmt × Progress}

theorem statements_stop (h : stop q.cursor.kind = true) : statements cfg stop blank one q = ([], q) := by
  rw [statements, if_pos h]

theorem statements_cancelled (hs : stop q.cursor.kind = false) (hc : (q.poll cfg).cancelled cfg = true) :
    statements cfg stop blank one q = ([], q.poll cfg) := by
  rw [statements, if_neg (by simp [hs])]
  exact if_pos hc

/-- A round that passes over a token, where the flag is still down. -/
theorem statements_polled_blank (hs : stop q.cursor.kind = false)
    (hc : (q.poll cfg).cancelled cfg = false) (hb : blank q.cursor.kind = true)
    (hlt : q.advance.remaining < q.remaining) :
    statements cfg stop blank one q = statements cfg stop blank one (q.poll cfg).advance := by
  have hlt' : (q.poll cfg).advance.remaining < q.remaining := by rwa [q.poll_advance_remaining]
  rw [statements, if_neg (by simp [hs])]
  dsimp only
  rw [if_neg (by simp [hc]), if_pos (by rwa [q.poll_cursor]), if_pos hlt']

/-- A round that reads a statement, where the flag is still down. -/
theorem statements_polled_one (hs : stop q.cursor.kind = false)
    (hc : (q.poll cfg).cancelled cfg = false) (hb : blank q.cursor.kind = false)
    (hlt : (one (q.poll cfg)).2.remaining < q.remaining) :
    statements cfg stop blank one q = ((one (q.poll cfg)).1 ::
      (statements cfg stop blank one (one (q.poll cfg)).2).1,
      (statements cfg stop blank one (one (q.poll cfg)).2).2) := by
  rw [statements, if_neg (by simp [hs])]
  dsimp only
  rw [if_neg (by simp [hc]), if_neg (by rw [q.poll_cursor]; simp [hb]), if_pos hlt]

section Uncancelled

variable (hcancel : cfg.cancel = false)

include hcancel

theorem statements_blank (hs : stop q.cursor.kind = false) (hb : blank q.cursor.kind = true)
    (hlt : q.advance.remaining < q.remaining) :
    statements cfg stop blank one q = statements cfg stop blank one q.advance := by
  rw [statements_polled_blank hs (Progress.cancelled_eq _ hcancel) hb hlt, q.poll_eq hcancel]

theorem statements_one (hs : stop q.cursor.kind = false) (hb : blank q.cursor.kind = false)
    (hlt : (one q).2.remaining < q.remaining) :
    statements cfg stop blank one q = ((one q).1 :: (statements cfg stop blank one (one q).2).1,
      (statements cfg stop blank one (one q).2).2) := by
  have hpoll : q.poll cfg = q := q.poll_eq hcancel
  rw [statements_polled_one hs (Progress.cancelled_eq _ hcancel) hb (hpoll.symm ▸ hlt), hpoll]

end Uncancelled

theorem onward_statements (h : ∀ q, Onward q (one q).2) (q : Progress) :
    Onward q (statements cfg stop blank one q).2 := by
  refine statements_invariant cfg q (I := fun _ p => Onward q p) (fun _ p hp => ?_) (fun _ p hp => ?_)
    (fun _ p _ _ hp => ?_) [] (Directed.refl q)
  · exact Directed.trans hp (onward_poll cfg p)
  · exact Directed.trans hp (onward_advance p)
  · exact Directed.trans hp (h p)

/-- A loop that strays in a statement has strayed. -/
theorem statements_strays (h : ∀ q, Onward q (one q).2) (hs : stop q.cursor.kind = false)
    (hc : (q.poll cfg).cancelled cfg = false) (hb : blank q.cursor.kind = false)
    (hone : S.strayedOn.state (one (q.poll cfg)).2) :
    S.strayedOn.state (statements cfg stop blank one q).2 := by
  rw [statements, if_neg (by simp [hs])]
  dsimp only
  rw [if_neg (by simp [hc]), if_neg (by rw [q.poll_cursor]; simp [hb])]
  split
  · exact S.strayedOn.kept (onward_statements h _) hone
  · exact hone

end Loop

theorem Edge.remaining_lt_iff {compound b : Bool} {c c' e e' : Cursor} (h : S.In b N p c c')
    (h₂ : S.Edge compound ⟨c, c'⟩ d e e') : e.remaining < c.remaining ∧ e'.remaining < c'.remaining := by
  obtain ⟨done, rest, hat, -, -⟩ := h
  obtain ⟨done₂, rest₂, hat₂, ⟨hlt, -⟩, -⟩ := h₂
  exact ⟨hlt, (hat.remaining_lt_iff hat₂).mp hlt⟩

end Recovering

section Blocks

variable {n : Nat} {sub sub' : StmtRule Stmt} {q q' : Progress} {c c' : Cursor}

/-- Inside a block the window goes on. -/
theorem At.rest_ne_nil_of_blocks {done rest : List Token} (h : S.At N p done rest c c')
    (hp : p.blocks ≠ 0) : S.window ≠ none → rest ≠ [] := by
  rintro hw rfl
  obtain ⟨w, hw⟩ := Option.ne_none_iff_exists'.mp hw
  obtain ⟨rfl, hdepth, -⟩ := h.place w hw
  have hlined := (S.cut _ hw).lined.right
  rw [hdepth] at hlined
  exact hp hlined

theorem Edge.inside {compound : Bool} (h : S.Edge compound N (d + 1) c c') :
    S.In true N (.flat (d + 1)) c c' := by
  obtain ⟨done, rest, hat, ⟨hlt, -⟩, -⟩ := h
  exact ⟨done, rest, hat, hat.rest_ne_nil_of_blocks (Nat.succ_ne_zero d), fun _ => hlt⟩

theorem In.advance_indent (h : S.In b N (.flat d) c c') (hk : c.kind = .indent) :
    S.In true N (.flat (d + 1)) c.advance c'.advance := by
  obtain ⟨done, t, rest, hat, ht⟩ := h.exists_cons (by rw [hk]; nofun)
  rw [hk] at ht
  obtain ⟨hat, hlt⟩ := hat.advance (by rw [ht]; nofun)
  rw [ht] at hat
  exact ⟨done ++ [t], rest, hat, hat.rest_ne_nil_of_blocks (Nat.succ_ne_zero d), fun _ => hlt⟩

theorem In.advance_dedent (h : S.In b N (.flat (d + 1)) c c') (hk : c.kind = .dedent) :
    S.Edge true N d c.advance c'.advance := by
  obtain ⟨done, t, rest, hat₀, ht⟩ := h.exists_cons (by rw [hk]; nofun)
  rw [hk] at ht
  obtain ⟨hat, hlt⟩ := hat₀.advance (by rw [ht]; nofun)
  rw [ht] at hat
  exact ⟨done ++ [t], rest, hat, ⟨hlt, Or.inr (Cursor.apart_advance hat₀.rest_eq (by rw [ht]; rfl))⟩, nofun⟩

/-- A window has no end mark in it. -/
theorem In.kind_ne_eof (h : S.In b N p c c') (hw : S.window ≠ none) : c.kind ≠ .eof := by
  obtain ⟨done, rest, hat, hne, -⟩ := h
  obtain ⟨w, hw'⟩ := Option.ne_none_iff_exists'.mp hw
  cases rest with
  | nil => exact absurd rfl (hne hw)
  | cons t rest =>
    obtain ⟨rfl, -, -⟩ := hat.place w hw'
    rw [Cursor.kind, hat.current_cons.1]
    exact (S.cut _ hw').lined.ne_eof t (by simp)

abbrev blockLoop (cfg : Config) (sub : StmtRule Stmt) (q : Progress) : List Stmt × Progress :=
  statements cfg (fun k => k == .dedent || k == .eof) (· == .newline) (recovering sub) q

theorem blockBody_run (cfg : Config) (sub : StmtRule Stmt) (q : Progress) :
    blockBody cfg sub q = .ok (blockLoop cfg sub q).1 (closeBlock cfg (blockLoop cfg sub q).2) :=
  rfl

theorem closeBlock_eq {cfg : Config} (hcancel : cfg.cancel = false) (q : Progress) :
    closeBlock cfg q = if q.cursor.kind = .dedent then q.advance else q := by
  rw [closeBlock, q.poll_eq hcancel, q.cancelled_eq hcancel, if_neg Bool.false_ne_true]

theorem onward_closeBlock (cfg : Config) (q : Progress) : Onward q (closeBlock cfg q) := by
  refine Directed.trans (onward_poll cfg q) ?_
  unfold closeBlock
  dsimp only
  split
  · exact Directed.refl _
  · split
    · exact onward_advance _
    · exact Directed.refl _

/-- Only a whole stream ends with a block open, or a parse of one that is cancelled. -/
theorem In.edge_of_open (h : S.In true N (.flat (d + 1)) c c') (hw : S.window = none)
    (hend : S.cancels = true ∨ c.kind = .eof) : S.Edge true N d c c' := by
  obtain ⟨done, rest, hat, -, hlt⟩ := h
  exact ⟨done, rest, hat.anywhere hw, ⟨hlt rfl, hend.imp_right Or.inl⟩, nofun⟩

section Cancelled

variable {cfg : Config} (hcancel : cfg.cancel = true → S.cancels = true)

include hcancel

/-- A cancelled parse is one of streams as wholes. -/
theorem window_of_cancelled {q : Progress} (h : q.cancelled cfg = true) :
    S.cancels = true ∧ S.window = none :=
  have hcancels := hcancel (cancel_of_cancelled h)
  ⟨hcancels, S.uncut hcancels⟩

theorem blockLoop_agree (hmax : ∀ a b, S.move (max a b) = max (S.move a) (S.move b))
    (hsub : S.Statements n sub sub') (hN : N.bound ≤ n)
    (hq : S.On (S.In true N (.flat (d + 1))) q q') :
    S.strayedOn.state (blockLoop cfg sub q).2 ∨
      (blockLoop cfg sub' q').1 = relocate S.move (blockLoop cfg sub q).1 ∧
        S.On (Where (S.In true N (.flat (d + 1))) fun c =>
            c.kind = .dedent ∨ S.window = none ∧ (S.cancels = true ∨ c.kind = .eof))
          (blockLoop cfg sub q).2 (blockLoop cfg sub' q').2 := by
  induction q using WellFounded.induction (measure Progress.remaining).wf generalizing q' with
  | _ q ih =>
    have hin := hq.1
    have hlt : q.remaining < n := Nat.lt_of_lt_of_le hin.remaining_lt hN
    have hadvance (he : q.cursor.kind ≠ .eof) : q.advance.remaining < q.remaining ∧
        q'.advance.remaining < q'.remaining := by
      obtain ⟨done, t, rest, hat, ht⟩ := hin.exists_cons he
      rw [← ht] at he
      have hstep := (hat.restart.advance he)
      exact ⟨hstep.2, (hat.remaining_lt_iff hstep.1).mp hstep.2⟩
    by_cases hs : q.cursor.kind = .dedent ∨ q.cursor.kind = .eof
    · have hstop : (q.cursor.kind == .dedent || q.cursor.kind == .eof) = true := by simpa using hs
      rw [blockLoop, blockLoop, statements_stop hstop, statements_stop (by rw [hin.kind]; exact hstop)]
      refine Or.inr ⟨rfl, ⟨hin, hs.imp_right fun he => ⟨?_, Or.inr he⟩⟩, hq.2⟩
      exact by_contra fun hw => hin.kind_ne_eof hw he
    obtain ⟨hd, he⟩ := not_or.mp hs
    have hgo : (q.cursor.kind == .dedent || q.cursor.kind == .eof) = false := by simp [hd, he]
    have hgo' : (q'.cursor.kind == .dedent || q'.cursor.kind == .eof) = false := hin.kind ▸ hgo
    have hp := hq.poll cfg
    have hpolled := hp.cancelled hcancel
    cases hc : (q.poll cfg).cancelled cfg with
    | true =>
      obtain ⟨hcancels, hw⟩ := window_of_cancelled hcancel hc
      rw [blockLoop, blockLoop, statements_cancelled hgo hc, statements_cancelled hgo' (hpolled.trans hc)]
      exact Or.inr ⟨rfl, ⟨hp.1, Or.inr ⟨hw, Or.inl hcancels⟩⟩, hp.2⟩
    | false =>
      have hkind : (q.poll cfg).cursor.kind = q.cursor.kind := by rw [q.poll_cursor]
      by_cases hn : q.cursor.kind = .newline
      · have hblank : (q.cursor.kind == .newline) = true := by simp [hn]
        have hblank' : (q'.cursor.kind == .newline) = true := hin.kind ▸ hblank
        rw [blockLoop, blockLoop, statements_polled_blank hgo hc hblank (hadvance he).1,
          statements_polled_blank hgo' (hpolled.trans hc) hblank' (hadvance he).2]
        have hlt : (q.poll cfg).advance.remaining < q.remaining :=
          q.poll_advance_remaining cfg ▸ (hadvance he).1
        exact ih (q.poll cfg).advance hlt ⟨(hp.1.advance_edge (hkind.trans hn) (Or.inl rfl)).inside, hp.2⟩
      · have hblank : (q.cursor.kind == .newline) = false := by simp [hn]
        have hblank' : (q'.cursor.kind == .newline) = false := hin.kind ▸ hblank
        have honward := onward_recovering (hsub.alike false N d .eof).onward
        have hlt' : (q.poll cfg).remaining < n := q.poll_remaining cfg ▸ hlt
        rcases recovering_agree hmax hsub hp hlt' (hkind ▸ he) (hkind ▸ hd) with hstray | ⟨hvalue, hon⟩
        · exact Or.inl (statements_strays honward hgo hc hblank hstray)
        · obtain ⟨hless, hless'⟩ := hon.1.remaining_lt_iff hp.1
          have hless₂ : (recovering sub (q.poll cfg)).2.remaining < q.remaining := q.poll_remaining cfg ▸ hless
          have hless₂' : (recovering sub' (q'.poll cfg)).2.remaining < q'.remaining := q'.poll_remaining cfg ▸ hless'
          rw [blockLoop, blockLoop, statements_polled_one hgo hc hblank hless₂,
            statements_polled_one hgo' (hpolled.trans hc) hblank' hless₂']
          refine (ih _ hless₂ ⟨(hon.1.resume hp.1).inside, hon.2⟩).imp_right fun ⟨hrest, hend⟩ => ?_
          exact ⟨by rw [hvalue, hrest]; rfl, hend⟩

theorem closeBlock_agree (hq : S.On (Where (S.In true N (.flat (d + 1))) fun c =>
      c.kind = .dedent ∨ S.window = none ∧ (S.cancels = true ∨ c.kind = .eof)) q q') :
    S.On (S.Edge true N d) (closeBlock cfg q) (closeBlock cfg q') := by
  have hp := hq.poll cfg
  obtain ⟨⟨hin, hend⟩, hnew⟩ := hp
  unfold closeBlock
  dsimp only
  rw [(hq.poll cfg).cancelled hcancel, hin.kind]
  split
  · next hc =>
    obtain ⟨hcancels, hw⟩ := window_of_cancelled hcancel hc
    exact ⟨hin.edge_of_open hw (Or.inl hcancels), hnew⟩
  · split
    · next hk => exact ⟨hin.advance_dedent hk, hnew⟩
    · next hk =>
      obtain ⟨hw, hend⟩ := hend.resolve_left hk
      exact ⟨hin.edge_of_open hw hend, hnew⟩

theorem blockBody_alike (hmax : ∀ a b, S.move (max a b) = max (S.move a) (S.move b))
    (hsub : S.Statements n sub sub') (hN : N.bound ≤ n) :
    S.AlikeOn (S.In true N (.flat (d + 1))) (S.Edge true N d) E (blockBody cfg sub)
      (blockBody cfg sub') where
  onward q := by
    have hsub := onward_recovering (hsub.alike false N d .eof).onward
    exact Directed.trans (onward_statements hsub q) (onward_closeBlock cfg _)
  agree q q' hq := by
    rw [blockBody_run, blockBody_run]
    rcases blockLoop_agree hcancel hmax hsub hN hq with hs | ⟨hvalue, hon⟩
    · exact Or.inl (S.strayedOn.kept (onward_closeBlock cfg _) hs)
    · rw [hvalue]
      exact Or.inr (.ok (closeBlock_agree hcancel hon))

end Cancelled

theorem inlineStmt_alike (hsub : S.Statements n sub sub') :
    S.AlikeOn (Where (S.In b N (.flat d)) fun c => c.remaining < n) (S.Edge false N d)
      (S.Out N (Depth.flat d).blocks) (inlineStmt sub) (inlineStmt sub') := by
  refine on_kind_bind fun k => Sim.ite (fun _ => ?_) fun hk => ?_
  · exact lifted_alike (unexpectedDetailed _)
  · have h := hsub.alike b N d k
    rwa [Bool.not_eq_true _ |>.mp hk] at h

theorem inlineStmt_strays (hsub : S.Statements n sub sub') (h : S.Behind q) :
    S.strayedOn.outcome (inlineStmt sub q) := by
  change S.strayedOn.outcome ((if startsCompound q.cursor.kind then
    lifted (Rule.unexpectedDetailed "compound statements need an indented block") else sub) q)
  split
  · exact h.refuses _
  · exact hsub.strays q h

theorem inlineStmt_run (h : startsCompound q.cursor.kind = false) : inlineStmt sub q = sub q := by
  refine (lifted_bind_ok (x := Rule.kind) rfl).trans ?_
  rw [h, if_neg Bool.false_ne_true]

theorem bodyRound_run (sub : StmtRule Stmt) (q : Progress) : bodyRound sub q = bodyRoundAt q.cursor sub q :=
  rfl

/-- At the end of the window an inline body ends on both sides, or the left run strays. -/
theorem inlineEnds_behind {done : List Token} (hw : S.window ≠ none)
    (h : S.At N (.flat d) done [] c c') (hlt : c.remaining < N.bound)
    (hlast : done.getLast?.map Token.kind ≠ some .dedent) :
    inlineEnds c = true ∧ inlineEnds c' = true ∨ inlineEnds c = false := by
  obtain ⟨w, hw⟩ := Option.ne_none_iff_exists'.mp hw
  obtain ⟨rfl, -, hprev⟩ := h.place w hw
  obtain ⟨t, ht, ht'⟩ := h.moved hlt
  have hcut := S.cut _ hw
  rw [List.append_nil] at hcut
  rw [hprev hlt] at ht
  have hdedent : t.kind ≠ .dedent := fun hk => hlast (by simp [ht, hk])
  by_cases hn : t.kind = .newline
  · left
    simp [inlineEnds, Cursor.previousKind?, hprev hlt, ht, ht', hn]
  · right
    have hsemi : t.kind = .semicolon :=
      ((Kind.endsStatement_iff.mp (hcut.ends t ht)).resolve_left hn).resolve_left hdedent
    have hnext : c.kind ≠ .eof := by
      rw [Cursor.kind, Cursor.current, h.rest_eq, h.last_eq]
      exact hcut.goesOn t ht hsemi
    simp [inlineEnds, Cursor.previousKind?, hprev hlt, ht, hn, Cursor.hasTokens, hnext]

theorem bodyRound_alike (hsub : S.Statements n sub sub') (hN : N.bound ≤ n) :
    S.AlikeOn (S.Edge false N d) (S.Edge false N d) (S.Out N (Depth.flat d).blocks) (bodyRound sub)
      (bodyRound sub') := by
  have hstmt := (inlineStmt_alike (b := true) (N := N) (d := d) hsub).map (φ := some) (ψ := some)
    fun _ => rfl
  constructor
  · intro q
    rw [bodyRound_run, bodyRoundAt]
    split
    · exact Directed.refl q
    · exact hstmt.onward q
  · intro q q' hq
    obtain ⟨⟨done, rest, hat, ⟨hlt, -⟩, hlast⟩, hnew⟩ := id hq
    rw [bodyRound_run, bodyRound_run, bodyRoundAt, bodyRoundAt]
    by_cases hseam : S.window ≠ none ∧ rest = []
    · obtain ⟨hw, rfl⟩ := hseam
      rcases inlineEnds_behind hw hat hlt (hlast rfl hw rfl) with ⟨he, he'⟩ | he
      · rw [if_pos he, if_pos he']
        exact Or.inr (.ok hq)
      · left
        have hbehind : S.Behind q := ⟨hw, hat.rest_eq, hat.last_eq, hnew.imp fun _ => And.left⟩
        have hstrays := inlineStmt_strays hsub hbehind
        rw [if_neg (by simp [he])]
        change S.strayedOn.outcome (EStateM.map some (inlineStmt sub) q)
        unfold EStateM.map
        generalize inlineStmt sub q = r at hstrays
        cases r <;> exact hstrays
    · have hin : S.In true N (.flat d) q.cursor q'.cursor :=
        ⟨done, rest, hat, fun hw hr => hseam ⟨hw, hr⟩, fun _ => hlt⟩
      have hends : inlineEnds q'.cursor = inlineEnds q.cursor := by
        obtain ⟨t, ht, ht'⟩ := hat.moved hlt
        simp [inlineEnds, Cursor.previousKind?, ht, ht', Cursor.hasTokens, hin.kind]
      rw [hends]
      split
      · exact Or.inr (.ok hq)
      · exact hstmt.agree q q' ⟨⟨hin, Nat.lt_of_lt_of_le hlt hN⟩, hnew⟩

theorem Edge.remaining_iff {compound : Bool} {e e' : Cursor} (h : S.Edge compound N d c c')
    (h₂ : S.Edge compound N d e e') : e.remaining < c.remaining ↔ e'.remaining < c'.remaining := by
  obtain ⟨done, rest, hat, -, -⟩ := h
  obtain ⟨done₂, rest₂, hat₂, -, -⟩ := h₂
  exact hat.remaining_lt_iff hat₂

theorem inlineBody_alike (hsub : S.Statements n sub sub') (hN : N.bound ≤ n) :
    S.AlikeOn (S.In true N (.flat d)) (S.Edge true N d) (S.Out N (Depth.flat d).blocks)
      (inlineBody sub) (inlineBody sub') := by
  refine (lifted_alike (here_alike (P := S.In true N (.flat d)))).bind fun start => ?_
  refine Sim.bind (Q := S.On (S.Edge false N d)) ?_ fun first => ?_
  · exact (inlineStmt_alike hsub).before (On.imp fun _ _ h => ⟨h, Nat.lt_of_lt_of_le h.remaining_lt hN⟩)
  · refine ((bodyRound_alike hsub hN).many fun _ _ _ _ h h₂ => h.1.remaining_iff h₂.1).bind fun rest => ?_
    refine on_stay ?_ fun _ _ => Edge.loosen
    rw [relocate_block, ← relocate_cons, getLastD_relocate, Stmt.span_relocate]
    rfl

end Blocks

end Offside.Seam
