import Offside.Proofs.Seam.Stmt

namespace Offside

open Grammar

/-- Tokens that mean nothing between the statements of a stream. -/
def Kind.isBlank (k : Kind) : Bool := k == .newline || k == .dedent

abbrev streamLoop (cfg : Config) (q : Progress) : List Stmt × Progress :=
  statements cfg (· == .eof) Kind.isBlank (recovering (stmt cfg)) q

/-- Rounds of the loop over a stream lead from one state to another, over some statements, where the
parse is not cancelled. -/
inductive Passes (cfg : Config) : Progress → List Stmt → Progress → Prop where
  | refl (q : Progress) : Passes cfg q [] q
  | blank {q r : Progress} {ss : List Stmt} : q.cursor.kind.isBlank = true →
      Passes cfg q.advance ss r → Passes cfg q ss r
  | stmt {q r : Progress} {ss : List Stmt} : q.cursor.kind ≠ .eof → q.cursor.kind.isBlank = false →
      Passes cfg (recovering (stmt cfg) q).2 ss r →
      Passes cfg q ((recovering (stmt cfg) q).1 :: ss) r

theorem Cursor.apart_advance_blank {c : Cursor} (hl : c.last.kind = .eof)
    (hb : c.kind.isBlank = true) : c.advance.Apart := by
  rw [Cursor.kind, Cursor.current] at hb
  cases h : c.rest with
  | nil =>
    rw [h, List.headD_nil, hl] at hb
    contradiction
  | cons t ts =>
    rw [h, List.headD_cons] at hb
    refine Cursor.apart_advance h ?_
    revert hb
    cases t.kind <;> simp [Kind.isBlank, Kind.endsStatement]

theorem Cursor.remaining_advance_lt {c : Cursor} (hl : c.last.kind = .eof) (hk : c.kind ≠ .eof) :
    c.advance.remaining < c.remaining := by
  rw [Cursor.kind, Cursor.current] at hk
  unfold Cursor.advance Cursor.remaining
  cases h : c.rest with
  | nil => simp [h, hl] at hk
  | cons t ts =>
    have hk : t.kind ≠ .eof := by simpa [h] using hk
    simp [hk]

namespace Seam

def moved (f : Offset → Offset) (cancels : Bool) (last : Token) (h : last.kind = .eof)
    (D D' : List Diagnostic) : Seam where
  move := f
  window := none
  cancels
  tail := []
  tail' := []
  last
  last' := relocate f last
  faults := D
  faults' := D'
  last_kind := h
  last_kind' := h
  whole _ := ⟨rfl, rfl, rfl⟩
  uncut _ := rfl
  cut := nofun

/-- Where the loop over a stream may stand: between statements, outside blocks. -/
def Abreast (S : Seam) (c c' : Cursor) : Prop := S.Beside ⟨c, c'⟩ 0 c c'

variable {S : Seam} {N : Origin} {cfg : Config} {q r q' : Progress} {c c' : Cursor}
  {ss : List Stmt}

theorem Beside.abreast (h : S.Beside N 0 c c') : S.Abreast c c' := by
  obtain ⟨done, rest, hat⟩ := h
  exact ⟨done, rest, hat.restart⟩

theorem moved_abreast {f : Offset → Offset} {cancels : Bool} {last : Token} {hl : last.kind = .eof}
    {D D' : List Diagnostic} (hrest : c'.rest = relocate f c.rest) (hc : c.last = last)
    (hc' : c'.last = relocate f last) : (moved f cancels last hl D D').Abreast c c' := by
  refine ⟨[], c.rest, ?_⟩
  constructor
  · exact (List.append_nil _).symm
  · rw [hrest]
    exact (List.append_nil _).symm
  · exact hc
  · exact hc'
  · exact Nat.le_refl _
  · exact fun h => absurd h (Nat.lt_irrefl _)
  · exact fun _ => ⟨rfl, rfl⟩
  · nofun

/-- Away from the end of the window, the two sides are inside it. -/
theorem Abreast.inside (h : S.Abreast c c') (hne : S.window = none ∨ S.tail.length < c.remaining) :
    S.In false ⟨c, c'⟩ (.flat 0) c c' := by
  obtain ⟨done, rest, hat⟩ := h
  refine ⟨done, rest, hat, fun hw hr => ?_, nofun⟩
  have hlt := hne.resolve_left hw
  rw [Cursor.remaining, hat.rest_eq, hr] at hlt
  exact absurd hlt (Nat.lt_irrefl _)

theorem Abreast.last_eq (h : S.Abreast c c') : c.last = S.last := by
  obtain ⟨done, rest, hat⟩ := h
  exact hat.last_eq

theorem Abreast.last_eq' (h : S.Abreast c c') : c'.last = S.last' := by
  obtain ⟨done, rest, hat⟩ := h
  exact hat.last_eq'

theorem In.advance_blank {b : Bool} (h : S.In b N (.flat 0) c c') (hk : c.kind.isBlank = true) :
    S.Beside N 0 c.advance c'.advance := by
  have heof : c.kind ≠ .eof := by
    rintro he
    rw [he] at hk
    contradiction
  obtain ⟨done, t, rest, hat, ht⟩ := h.exists_cons heof
  rw [← ht] at hk heof
  have hd : Depth.after (.flat 0) t.kind = .flat 0 := by
    revert hk
    cases t.kind <;> simp [Kind.isBlank, Depth.after, Depth.flat]
  exact ⟨_, _, hd ▸ (hat.advance heof).1⟩

section

variable (hcancel : cfg.cancel = true → S.cancels = true)
  (hmax : ∀ a b, S.move (max a b) = max (S.move a) (S.move b))

include hcancel hmax

/-- One statement of a stream, inside the window or on whole streams. -/
theorem stmt_agree (hq : S.On (S.In false N (.flat 0)) q q') (he : q.cursor.kind ≠ .eof)
    (hb : q.cursor.kind.isBlank = false) :
    S.strayedOn.state (recovering (stmt cfg) q).2 ∨
      (recovering (stmt cfg) q').1 = relocate S.move (recovering (stmt cfg) q).1 ∧
        S.On S.Abreast (recovering (stmt cfg) q).2 (recovering (stmt cfg) q').2 ∧
        (recovering (stmt cfg) q).2.remaining < q.remaining ∧
        (S.cancels = true ∨ (recovering (stmt cfg) q).2.cursor.Apart) := by
  have hsub : S.Statements (q.remaining + 1) (stmt cfg) (stmt cfg) := stmt_statements hcancel hmax _
  have hd : q.cursor.kind ≠ .dedent := by
    rintro h
    rw [h] at hb
    contradiction
  refine (recovering_agree hmax hsub hq (Nat.lt_succ_self _) he hd).imp_right fun ⟨hvalue, hon⟩ => ?_
  obtain ⟨done, rest, hat, ⟨hlt, hapart⟩, -⟩ := hon.1
  exact ⟨hvalue, ⟨hon.1.beside.abreast, hon.2⟩, hlt, hapart⟩

end

theorem onward_stmt (q : Progress) : Onward q (recovering (stmt cfg) q).2 := by
  have hsub : (moved id true (.layout .eof default) rfl [] []).Statements 0 (stmt cfg) (stmt cfg) :=
    stmt_statements (fun _ => rfl) (fun _ _ => rfl) 0
  exact onward_recovering (hsub.alike false ⟨default, default⟩ 0 .eof).onward q

theorem onward_passes (h : Passes cfg q ss r) : Onward q r := by
  induction h with
  | refl q => exact Directed.refl q
  | blank _ _ ih => exact Directed.trans (onward_advance _) ih
  | stmt _ _ _ ih => exact Directed.trans (onward_stmt _) ih

/-- A stream in two copies. -/
theorem on_self (cancels : Bool) (q : Progress) (hl : q.cursor.last.kind = .eof) :
    (moved id cancels q.cursor.last hl q.diagnostics q.diagnostics).On
      (moved id cancels q.cursor.last hl q.diagnostics q.diagnostics).Abreast q q := by
  have hid (t : Token) : relocate id t = t := rfl
  refine ⟨moved_abreast ?_ rfl rfl, [], (List.append_nil _).symm, (List.append_nil _).symm, fun _ => rfl⟩
  change q.cursor.rest = q.cursor.rest.map (relocate id)
  rw [funext hid]
  exact (List.map_id' _).symm

section Rounds

variable (cfg : Config) (hl : q.cursor.last.kind = .eof) (he : q.cursor.kind ≠ .eof) (hb : q.cursor.kind.isBlank = false)

include hl he hb

/-- Each round of the loop gets ahead. -/
theorem stmt_lt : (recovering (stmt cfg) q).2.remaining < q.remaining ∧
    (recovering (stmt cfg) q).2.cursor.last = q.cursor.last := by
  have hq := on_self true q hl
  have hin := hq.1.inside (Or.inl rfl)
  rcases stmt_agree (fun _ => rfl) (fun _ _ => rfl) ⟨hin, hq.2⟩ he hb with (⟨h, -⟩ | ⟨h, -⟩) |
    ⟨-, ⟨⟨_, _, hat⟩, -⟩, hlt, -⟩
  · exact absurd rfl h
  · exact absurd rfl h
  · exact ⟨hlt, hat.last_eq⟩

/-- Without a flag, it comes to a place where another round can begin. -/
theorem stmt_apart (hcancel : cfg.cancel = false) : (recovering (stmt cfg) q).2.cursor.Apart := by
  have hq := on_self false q hl
  have hin := hq.1.inside (Or.inl rfl)
  rcases stmt_agree (never_cancelled hcancel) (fun _ _ => rfl) ⟨hin, hq.2⟩ he hb with
    (⟨h, -⟩ | ⟨h, -⟩) | ⟨-, -, -, hapart⟩
  · exact absurd rfl h
  · exact absurd rfl h
  · exact hapart.resolve_left Bool.false_ne_true

end Rounds

/-- Loops over whole streams do the same. -/
theorem streamLoop_agree (hcancel : cfg.cancel = true → S.cancels = true)
    (hmax : ∀ a b, S.move (max a b) = max (S.move a) (S.move b)) (hw : S.window = none)
    (hq : S.On S.Abreast q q') :
    (streamLoop cfg q').1 = relocate S.move (streamLoop cfg q).1 ∧
      S.On S.Abreast (streamLoop cfg q).2 (streamLoop cfg q').2 := by
  induction q using WellFounded.induction (measure Progress.remaining).wf generalizing q' with
  | _ q ih =>
    have hin := hq.1.inside (Or.inl hw)
    have hl : q.cursor.last.kind = .eof := by rw [hq.1.last_eq, S.last_kind]
    have hl' : q'.cursor.last.kind = .eof := by rw [hq.1.last_eq', S.last_kind']
    by_cases he : q.cursor.kind = .eof
    · have hstop : (q.cursor.kind == .eof) = true := by simpa using he
      have hstop' : (q'.cursor.kind == .eof) = true := by rw [hin.kind]; exact hstop
      rw [streamLoop, streamLoop, statements_stop (q := q) hstop, statements_stop (q := q') hstop']
      exact ⟨rfl, hq⟩
    have hgo : (q.cursor.kind == .eof) = false := by simpa using he
    have hgo' : (q'.cursor.kind == .eof) = false := hin.kind ▸ hgo
    have he' : q'.cursor.kind ≠ .eof := hin.kind ▸ he
    have hp := hq.poll cfg
    have hpolled := hp.cancelled hcancel
    cases hc : (q.poll cfg).cancelled cfg with
    | true =>
      rw [streamLoop, streamLoop, statements_cancelled hgo hc, statements_cancelled hgo' (hpolled.trans hc)]
      exact ⟨rfl, hp⟩
    | false =>
      have hin₂ := hp.1.inside (Or.inl hw)
      by_cases hb : q.cursor.kind.isBlank = true
      · have hlt := Cursor.remaining_advance_lt hl he
        rw [streamLoop, streamLoop, statements_polled_blank hgo hc hb hlt, statements_polled_blank hgo'
          (hpolled.trans hc) (hin.kind ▸ hb) (Cursor.remaining_advance_lt hl' he')]
        have hblank := (hin₂.advance_blank (by rwa [q.poll_cursor])).abreast
        have hlt : (q.poll cfg).advance.remaining < q.remaining := q.poll_advance_remaining cfg ▸ hlt
        exact ih (q.poll cfg).advance hlt ⟨hblank, hp.2⟩
      · rw [Bool.not_eq_true] at hb
        have he₂ : (q.poll cfg).cursor.kind ≠ .eof := by rwa [q.poll_cursor]
        have hb₂ : (q.poll cfg).cursor.kind.isBlank = false := by rwa [q.poll_cursor]
        rcases stmt_agree hcancel hmax ⟨hin₂, hp.2⟩ he₂ hb₂ with (⟨h, -⟩ | ⟨h, -⟩) | ⟨hvalue, hon, hlt, -⟩
        · exact absurd hw h
        · exact absurd hw h
        have hlt : (recovering (stmt cfg) (q.poll cfg)).2.remaining < q.remaining := q.poll_remaining cfg ▸ hlt
        have hlt' : (recovering (stmt cfg) (q'.poll cfg)).2.remaining < q'.remaining := by
          rw [← q'.poll_remaining cfg]
          refine (stmt_lt cfg ?_ ?_ ?_).1 <;> rw [q'.poll_cursor]
          · exact hl'
          · exact he'
          · exact hin.kind ▸ hb
        rw [streamLoop, streamLoop, statements_polled_one hgo hc hb hlt, statements_polled_one hgo'
          (hpolled.trans hc) (hin.kind ▸ hb) hlt']
        refine (ih _ hlt hon).imp_left fun hrest => ?_
        rw [hvalue, hrest]
        rfl

/-- Rounds on the left stray, or they are rounds on the right with the same statements. -/
theorem passes_agree (hcancel : cfg.cancel = true → S.cancels = true)
    (hmax : ∀ a b, S.move (max a b) = max (S.move a) (S.move b)) (h : Passes cfg q ss r)
    (hq : S.On S.Abreast q q') :
    S.strayedOn.state r ∨ ∃ r', Passes cfg q' (relocate S.move ss) r' ∧ S.On S.Abreast r r' := by
  -- a round that begins at the end of the window strays
  have hover {p r : Progress} {c' : Cursor} (hp : S.Abreast p.cursor c')
      (hin : ¬(S.window = none ∨ S.tail.length < p.remaining)) (hr : r.remaining < p.remaining) :
      S.strayedOn.state r := by
    obtain ⟨hw, hle⟩ := not_or.mp hin
    exact Or.inl ⟨hw, Nat.lt_of_lt_of_le hr (Nat.not_lt.mp hle)⟩
  induction h generalizing q' with
  | refl q => exact Or.inr ⟨q', .refl q', hq⟩
  | @blank q r ss hb h ih =>
    by_cases hin : S.window = none ∨ S.tail.length < q.remaining
    · have hin := hq.1.inside hin
      have hadvance : S.On S.Abreast q.advance q'.advance := ⟨(hin.advance_blank hb).abreast, hq.2⟩
      refine (ih hadvance).imp_right fun ⟨r', hr', hon⟩ => ⟨r', ?_, hon⟩
      exact .blank (by rw [hin.kind]; exact hb) hr'
    · have hlt : q.advance.remaining < q.remaining := by
        refine Cursor.remaining_advance_lt (by rw [hq.1.last_eq, S.last_kind]) ?_
        rintro he
        rw [he] at hb
        contradiction
      exact Or.inl (hover hq.1 hin (Nat.lt_of_le_of_lt (onward_passes h).1 hlt))
  | @stmt q r ss he hb h ih =>
    by_cases hin : S.window = none ∨ S.tail.length < q.remaining
    · have hin := hq.1.inside hin
      rcases stmt_agree hcancel hmax ⟨hin, hq.2⟩ he hb with hs | ⟨hvalue, hon, -⟩
      · exact Or.inl (S.strayedOn.kept (onward_passes h) hs)
      · refine (ih hon).imp_right fun ⟨r', hr', hon⟩ => ⟨r', ?_, hon⟩
        rw [relocate_cons, ← hvalue]
        exact .stmt (by rw [hin.kind]; exact he) (by rw [hin.kind]; exact hb) hr'
    · have hlt := (stmt_lt cfg (by rw [hq.1.last_eq, S.last_kind]) he hb).1
      exact Or.inl (hover hq.1 hin (Nat.lt_of_le_of_lt (onward_passes h).1 hlt))

end Seam

variable {cfg : Config} {q r s : Progress} {ss ss₂ : List Stmt}

theorem Passes.trans (h : Passes cfg q ss r) (h₂ : Passes cfg r ss₂ s) :
    Passes cfg q (ss ++ ss₂) s := by
  induction h with
  | refl q => exact h₂
  | blank hb _ ih => exact .blank hb (ih h₂)
  | stmt he hb _ ih => exact .stmt he hb (ih h₂)

/-- Rounds lead to places where another one can begin. -/
theorem Passes.eq_or_apart (hcancel : cfg.cancel = false) (h : Passes cfg q ss r)
    (hl : q.cursor.last.kind = .eof) : r = q ∨ r.cursor.Apart := by
  induction h with
  | refl q => exact Or.inl rfl
  | @blank q r ss hb h ih =>
    rcases ih (q.cursor.last_advance.symm ▸ hl) with rfl | hapart
    · exact Or.inr (Cursor.apart_advance_blank hl hb)
    · exact Or.inr hapart
  | @stmt q r ss he hb h ih =>
    rcases ih ((Seam.stmt_lt cfg hl he hb).2 ▸ hl) with rfl | hr
    · exact Or.inr (Seam.stmt_apart cfg hl he hb hcancel)
    · exact Or.inr hr

/-- Behind some of its rounds, the loop does what it does from there. -/
theorem Passes.streamLoop_eq (hcancel : cfg.cancel = false) (h : Passes cfg q ss r)
    (hl : q.cursor.last.kind = .eof) :
    streamLoop cfg q = (ss ++ (streamLoop cfg r).1, (streamLoop cfg r).2) := by
  induction h with
  | refl q => rfl
  | @blank q r ss hb h ih =>
    have he : q.cursor.kind ≠ .eof := by
      rintro he
      rw [he] at hb
      contradiction
    have hgo : (q.cursor.kind == .eof) = false := by simpa using he
    rw [streamLoop, Seam.statements_blank hcancel hgo hb (Cursor.remaining_advance_lt hl he)]
    exact ih (q.cursor.last_advance.symm ▸ hl)
  | @stmt q r ss he hb h ih =>
    obtain ⟨hlt, hlast⟩ := Seam.stmt_lt cfg hl he hb
    have hgo : (q.cursor.kind == .eof) = false := by simpa using he
    rw [streamLoop, Seam.statements_one hcancel hgo hb hlt]
    exact congrArg (fun p => ((recovering (Grammar.stmt cfg) q).1 :: p.1, p.2)) (ih (hlast ▸ hl))

/-- The loop goes on to the end of the stream. -/
theorem passes_streamLoop (hcancel : cfg.cancel = false) (hl : q.cursor.last.kind = .eof) :
    Passes cfg q (streamLoop cfg q).1 (streamLoop cfg q).2 ∧
      (streamLoop cfg q).2.cursor.kind = .eof := by
  induction q using WellFounded.induction (measure Progress.remaining).wf with
  | _ q ih =>
    by_cases he : q.cursor.kind = .eof
    · have hstop : (q.cursor.kind == .eof) = true := by simpa using he
      rw [streamLoop, Seam.statements_stop hstop]
      exact ⟨.refl q, he⟩
    have hgo : (q.cursor.kind == .eof) = false := by simpa using he
    by_cases hb : q.cursor.kind.isBlank = true
    · have hlt := Cursor.remaining_advance_lt hl he
      rw [streamLoop, Seam.statements_blank hcancel hgo hb hlt]
      exact (ih q.advance hlt (q.cursor.last_advance.symm ▸ hl)).imp_left (.blank hb)
    · rw [Bool.not_eq_true] at hb
      obtain ⟨hlt, hlast⟩ := Seam.stmt_lt cfg hl he hb
      rw [streamLoop, Seam.statements_one hcancel hgo hb hlt]
      exact (ih _ hlt (hlast ▸ hl)).imp_left (.stmt he hb)

/-- Rounds over some statements and more lead through a state between these. -/
theorem Passes.split (h : Passes cfg q (ss ++ ss₂) s) :
    ∃ r, Passes cfg q ss r ∧ Passes cfg r ss₂ s := by
  generalize hall : ss ++ ss₂ = all at h
  induction h generalizing ss with
  | refl q =>
    obtain ⟨rfl, rfl⟩ := List.append_eq_nil_iff.mp hall
    exact ⟨q, .refl q, .refl q⟩
  | blank hb _ ih =>
    obtain ⟨r, h, h₂⟩ := ih hall
    exact ⟨r, .blank hb h, h₂⟩
  | @stmt q s all he hb h ih =>
    cases ss with
    | nil =>
      rw [List.nil_append] at hall
      exact ⟨q, .refl q, hall ▸ .stmt he hb h⟩
    | cons a ss =>
      obtain ⟨rfl, hrest⟩ := List.cons.inj hall
      obtain ⟨r, h, h₂⟩ := ih hrest
      exact ⟨r, .stmt he hb h, h₂⟩

/-- The state in which a round begins that reads a statement. -/
theorem Passes.cons {a : Stmt} (h : Passes cfg q (a :: ss) s) :
    ∃ r, Passes cfg q [] r ∧ r.cursor.kind ≠ .eof ∧ r.cursor.kind.isBlank = false ∧
      a = (recovering (Grammar.stmt cfg) r).1 ∧
      Passes cfg (recovering (Grammar.stmt cfg) r).2 ss s := by
  generalize hall : a :: ss = all at h
  induction h with
  | refl q => cases hall
  | blank hb _ ih =>
    obtain ⟨r, h, hr⟩ := ih hall
    exact ⟨r, .blank hb h, hr⟩
  | @stmt q s all he hb h ih =>
    obtain ⟨rfl, rfl⟩ := List.cons.inj hall
    exact ⟨q, .refl q, he, hb, rfl, h⟩

end Offside
