import Offside.Proofs.Moves.Stmt
import Offside.Proofs.Scan.Shape

namespace Offside

open Grammar

section Closes

variable {n : Nat} {t : Token} {ts us : List Token}

theorem Closes.suffix (h : Closes n (ts ++ us)) : ∃ m, Closes m us := by
  induction ts generalizing n with
  | nil => exact ⟨n, h⟩
  | cons t ts ih =>
    rw [List.cons_append] at h
    by_cases hi : t.kind = .indent
    · exact ih ((closes_indent hi).mp h)
    by_cases hd : t.kind = .dedent
    · exact ih ((closes_dedent hd).mp h).2
    · exact ih ((closes_other hi hd).mp h)

/-- An end mark neither opens nor closes a block. -/
theorem closes_concat (ht : t.kind = .eof) : Closes n (ts ++ [t]) ↔ Closes n ts := by
  have hunit : t.kind ≠ .indent ∧ t.kind ≠ .dedent := by simp [ht]
  induction ts generalizing n with
  | nil => exact closes_other hunit.1 hunit.2
  | cons u us ih =>
    rw [List.cons_append]
    by_cases hi : u.kind = .indent
    · exact (closes_indent hi).trans (ih.trans (closes_indent hi).symm)
    by_cases hd : u.kind = .dedent
    · rw [closes_dedent hd, closes_dedent hd]
      exact and_congr_right fun _ => ih
    · exact (closes_other hi hd).trans (ih.trans (closes_other hi hd).symm)

theorem Orderly.closes {p : Depth} (h : Orderly p ts) : Closes p.blocks ts := by
  induction ts generalizing p with
  | nil => exact h
  | cons t ts ih =>
    obtain ⟨-, hdedent, hrest⟩ := h
    have hrest := ih hrest
    by_cases hi : t.kind = .indent
    · rw [hi] at hrest
      exact (closes_indent hi).mpr hrest
    by_cases hd : t.kind = .dedent
    · rw [hd] at hrest
      exact (closes_dedent hd).mpr ⟨(hdedent hd).2, hrest⟩
    · rw [Depth.blocks_after hi hd] at hrest
      exact (closes_other hi hd).mpr hrest

end Closes

/-- A balanced stream: its only end mark is its last token, and its blocks are balanced. -/
structure BlockStream (ts : List Token) : Prop where
  ends : ∃ body last, ts = body ++ [last] ∧ last.kind = .eof ∧ ∀ t ∈ body, t.kind ≠ .eof
  balanced : Balanced ts

/-- The tokens before the cursor are the last ones of a stream. -/
def Cursor.StandsIn (ts : List Token) (c : Cursor) : Prop := ∃ done, ts = done ++ c.rest ++ [c.last]

section Stream

variable {cfg : Config} {ts : List Token} {c : Cursor}

theorem Closes.flow {n : Nat} (h : Closes n ts) (hts : ∀ t ∈ ts, t.kind ≠ .eof) : Flow n ts :=
  ⟨h.sheds, hts⟩

theorem BlockStream.inFlow (h : BlockStream ts) (hc : c.StandsIn ts) : ∃ n, c.InFlow n := by
  obtain ⟨body, last, hbody, hlast, hne⟩ := h.ends
  obtain ⟨done, hdone⟩ := hc
  obtain ⟨rfl, hl⟩ := List.append_inj' (hbody.symm.trans hdone) rfl
  obtain rfl := List.singleton_inj.mp hl
  have hcloses := balanced_iff.mp h.balanced
  rw [hbody, closes_concat hlast] at hcloses
  obtain ⟨n, hn⟩ := hcloses.suffix
  exact ⟨n, hn.flow fun t ht => hne t (List.mem_append_right done ht), hlast⟩

theorem BlockStream.start (h : BlockStream ts) :
    (Cursor.ofTokens ts).InFlow 0 ∧ Closes 0 (Cursor.ofTokens ts).rest := by
  obtain ⟨body, last, hbody, hlast, hne⟩ := h.ends
  have hcursor : Cursor.ofTokens ts = ⟨none, body, last⟩ := by simp [hbody, Cursor.ofTokens, hlast]
  have hcloses := balanced_iff.mp h.balanced
  rw [hbody, closes_concat hlast] at hcloses
  rw [hcursor]
  exact ⟨⟨hcloses.flow hne, hlast⟩, hcloses⟩

theorem scan_blockStream (cfg : Config) (source : String) :
    BlockStream (Scan.scan cfg source).tokens := by
  obtain ⟨e, t, h, -, hrun⟩ := Scan.exists_end cfg (.start source)
  have hleads := h.leads (Scan.State.sound_start source)
  have horderly : Orderly {} (e.tokens ++ (Scan.finish t).tokens) :=
    hleads.orderly _ (Scan.finish_orderly hleads.sound)
  have htokens : (Scan.scan cfg source).tokens = e.tokens ++ (Scan.finish t).tokens ++
      [.layout .eof (Span.ofNat t.pos t.pos)] := by
    rw [Scan.scan, hrun, List.append_assoc]
    rfl
  rw [htokens]
  refine ⟨⟨_, _, rfl, rfl, horderly.lined.ne_eof⟩, ?_⟩
  exact balanced_iff.mpr ((closes_concat rfl).mpr horderly.closes)

/-- An indented block of a balanced stream, from its indent to the dedent that closes it. -/
theorem indented_closes (hcancel : cfg.cancel = false) {n : Nat} {q : Progress}
    (hq : q.cursor.InFlow n) (hk : q.cursor.kind = .indent) :
    ∃ block r inner closing,
      (lifted Rule.advance >>= fun indent => blockBody cfg (stmt cfg) >>= fun body =>
        pure (blockOf false indent.span.stop body)) q = .ok block r ∧
      q.cursor.rest = q.cursor.current :: inner ++ closing :: r.cursor.rest ∧ Closes 0 inner ∧
      closing.kind = .dedent := by
  obtain ⟨htook, hopen⟩ := hq.advance_indent hk
  obtain ⟨⟨inner, hinner, hcloses⟩, hstop⟩ :=
    blockLoop_moved track_steady cfg (stmt_advances track_steady (leaves_steady hcancel))
      (q := q.advance) hopen
  have hloop := hopen.along ⟨inner, hinner, hcloses⟩
  have hstop := hstop.resolve_left fun h => absurd (Progress.cancelled_eq _ hcancel) (by rw [h]; nofun)
  have hdedent := hstop.resolve_right hloop.kind_ne_eof
  have hclosing := Cursor.took_current hloop.last_eof (by simp [hdedent])
  refine ⟨_, _, inner, _, bind_eq_ok.mpr ⟨_, q.advance, rfl, bind_eq_ok.mpr
    ⟨_, _, blockBody_eq hcancel _, rfl⟩⟩, ?_, hcloses, hdedent⟩
  rw [if_pos hdedent]
  exact ((htook.trans hinner).trans hclosing).rest_eq.trans (by simp [Progress.advance])

/-- Before tokens that are balanced no dedent stands. -/
theorem Closes.kind_ne_dedent (h : Closes 0 c.rest) (hl : c.last.kind = .eof) : c.kind ≠ .dedent := by
  intro hk
  obtain ⟨ts, hr⟩ := Cursor.exists_cons hl (by simp [hk])
  rw [hr, closes_dedent hk] at h
  exact absurd h.1 (Nat.lt_irrefl 0)

/-- The loop over a balanced stream stands before balanced tokens at the end of each round. -/
theorem passes_closes (hcancel : cfg.cancel = false) {q r : Progress} {ss : List Stmt}
    (h : Passes cfg q ss r) (hq : q.cursor.InFlow 0) (hcloses : Closes 0 q.cursor.rest) :
    r.cursor.InFlow 0 ∧ Closes 0 r.cursor.rest := by
  have hright {q r : Progress} (hcloses : Closes 0 q.cursor.rest) (hs : q.Moved Cursor.Steady r) :
      Closes 0 r.cursor.rest := by
    obtain ⟨us, ht, hus⟩ := hs
    exact (ht.rest_eq ▸ hcloses).right hus
  induction h with
  | refl q => exact ⟨hq, hcloses⟩
  | @blank q r ss hb h ih =>
    have hk : q.cursor.kind = .newline := by
      rcases Bool.or_eq_true_iff.mp hb with hb | hb
      · exact beq_iff_eq.mp hb
      · exact absurd (beq_iff_eq.mp hb) (hcloses.kind_ne_dedent hq.last_eof)
    have hstep : q.Moved Cursor.Steady q.advance := track_steady.step (.inl hk)
    exact ih (hq.along hstep) (hright hcloses hstep)
  | stmt _ _ _ ih =>
    have hstep := recovering_moved track_steady (stmt_advances track_steady (leaves_steady hcancel)) hq
    exact ih (hq.along hstep) (hright hcloses hstep)

/-- Recovery keeps the structure of blocks. A statement of a balanced stream takes whole blocks,
whether it parsed or failed; a suite that has taken its indent ends by taking the dedent that closes
it; and the loop over the stream never meets a dedent. -/
theorem recovery_keeps_blocks (hcancel : cfg.cancel = false) :
    (∀ source, BlockStream (Scan.scan cfg source).tokens) ∧
    ∀ ts, BlockStream ts →
      (∀ q : Progress, q.cursor.StandsIn ts → q.cursor.kind ≠ .dedent → q.cursor.kind ≠ .eof →
        ∃ us, q.cursor.rest = us ++ (recovering (stmt cfg) q).2.cursor.rest ∧ Balanced us) ∧
      (∀ q : Progress, q.cursor.StandsIn ts → ∀ colon newline indent rest,
        q.cursor.rest = colon :: newline :: indent :: rest → colon.kind = .colon →
        newline.kind = .newline → indent.kind = .indent →
        ∃ block r inner closing, suite cfg (stmt cfg) q = .ok block r ∧
          rest = inner ++ closing :: r.cursor.rest ∧ closing.kind = .dedent ∧ Balanced inner) ∧
      ∀ ss q, Passes cfg { cursor := Cursor.ofTokens ts } ss q → q.cursor.kind ≠ .dedent := by
  refine ⟨scan_blockStream cfg, fun ts hts => ⟨?_, ?_, ?_⟩⟩
  · intro q hq _ _
    obtain ⟨n, hflow⟩ := hts.inFlow hq
    obtain ⟨us, htook, hus⟩ := recovering_moved track_steady (stmt_advances track_steady (leaves_steady hcancel)) hflow
    exact ⟨us, htook.rest_eq, balanced_iff.mpr hus⟩
  · intro q hq colon newline indent rest hrest hcolon hnewline hindent
    obtain ⟨n, hflow⟩ := hts.inFlow hq
    have hcolon' : q.cursor.kind = .colon := by rw [Cursor.kind, Cursor.current, hrest]; exact hcolon
    let q₁ : Progress := q.advance
    let q₂ : Progress := q₁.advance
    have htook₁ : q.cursor.Took [colon] q₁.cursor :=
      Cursor.took_skip hrest (List.forall_mem_singleton.mpr (by simp [hcolon]))
    have hrest₁ : q₁.cursor.rest = newline :: indent :: rest :=
      (List.cons.inj (hrest.symm.trans htook₁.rest_eq)).2.symm
    have hk₁ : q₁.cursor.kind = .newline := by rw [Cursor.kind, Cursor.current, hrest₁]; exact hnewline
    have htook₂ : q₁.cursor.Took [newline] q₂.cursor :=
      Cursor.took_skip hrest₁ (List.forall_mem_singleton.mpr (by simp [hnewline]))
    have hrest₂ : q₂.cursor.rest = indent :: rest :=
      (List.cons.inj (hrest₁.symm.trans htook₂.rest_eq)).2.symm
    have hcurrent : q₂.cursor.current = indent := by rw [Cursor.current, hrest₂]; rfl
    have hk₂ : q₂.cursor.kind = .indent := by rw [Cursor.kind, hcurrent, hindent]
    have hflow₂ : q₂.cursor.InFlow n := by
      refine (hflow.along ⟨_, htook₁, .unit ?_ ?_⟩).along ⟨_, htook₂, .unit ?_ ?_⟩
      all_goals simp [hcolon, hnewline]
    obtain ⟨block, r, inner, closing, hrun, hr, hinner, hclosing⟩ :=
      indented_closes hcancel hflow₂ hk₂
    refine ⟨block, r, inner, closing, ?_, ?_, hclosing, balanced_iff.mpr hinner⟩
    · refine bind_eq_ok.mpr ⟨q.cursor.current, q₁, ?_, ?_⟩
      · change lifted (Rule.expect .colon) q = _
        unfold lifted Rule.expect
        rw [if_pos hcolon']
        rfl
      refine bind_eq_ok.mpr ⟨q₁.cursor.kind, q₁, rfl, ?_⟩
      rw [if_pos hk₁]
      refine bind_eq_ok.mpr ⟨q₁.cursor.current, q₂, rfl, ?_⟩
      refine bind_eq_ok.mpr ⟨q₂.cursor.kind, q₂, rfl, ?_⟩
      rw [if_pos hk₂]
      exact hrun
    · rw [hrest₂, hcurrent, List.cons_append] at hr
      exact (List.cons.inj hr).2
  · intro ss q h
    obtain ⟨hflow, hcloses⟩ := passes_closes hcancel h hts.start.1 hts.start.2
    exact hcloses.kind_ne_dedent hflow.last_eof

/-- `if :` and a block: the header is broken, the block is passed over with it, and the suite read on
its own ends with the dedent of the block. -/
theorem recovery_keeps_blocks_broken_header :
    let header : Token := ⟨.kwIf, "if", .ofNat 0 2⟩
    let body : List Token := [⟨.colon, ":", .ofNat 3 4⟩, .layout .newline (.ofNat 4 5),
      .layout .indent (.ofNat 5 7), ⟨.identifier, "x", .ofNat 7 8⟩, .layout .newline (.ofNat 8 9),
      .layout .dedent (.ofNat 9 9)]
    let last : Token := .layout .eof (.ofNat 9 9)
    let ts := header :: body ++ [last]
    let q : Progress := { cursor := Cursor.ofTokens ts }
    let p : Progress := { cursor := ⟨some header, body, last⟩ }
    ({} : Config).cancel = false ∧ BlockStream ts ∧
      (q.cursor.StandsIn ts ∧ q.cursor.kind ≠ .dedent ∧ q.cursor.kind ≠ .eof ∧
        ∃ us, q.cursor.rest = us ++ (recovering (stmt {}) q).2.cursor.rest ∧ Balanced us) ∧
      (p.cursor.StandsIn ts ∧ ∃ block r inner closing, suite {} (stmt {}) p = .ok block r ∧
        body.drop 3 = inner ++ closing :: r.cursor.rest ∧ closing.kind = .dedent ∧ Balanced inner) ∧
      Passes {} q [] q ∧ q.cursor.kind ≠ .dedent := by
  intro header body last ts q p
  have hts : BlockStream ts :=
    ⟨⟨header :: body, last, rfl, rfl, by decide⟩, balanced_iff.mpr (by simp [ts, header, body, last, Closes, Token.layout])⟩
  have hq : q.cursor.StandsIn ts := ⟨[], rfl⟩
  have hp : p.cursor.StandsIn ts := ⟨[header], rfl⟩
  have hcancel : ({} : Config).cancel = false := rfl
  have hkept := (recovery_keeps_blocks hcancel).2 ts hts
  have hdedent : q.cursor.kind ≠ .dedent := Kind.noConfusion
  have heof : q.cursor.kind ≠ .eof := Kind.noConfusion
  refine ⟨rfl, hts, ⟨hq, hdedent, heof, hkept.1 q hq hdedent heof⟩, ⟨hp, ?_⟩, .refl q,
    hkept.2.2 [] q (.refl q)⟩
  exact hkept.2.1 p hp _ _ _ _ rfl rfl rfl rfl

end Stream

end Offside
