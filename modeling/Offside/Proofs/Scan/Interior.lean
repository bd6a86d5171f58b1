import Offside.Proofs.Lexeme.Line
import Offside.Proofs.Scan.Line
import Offside.Proofs.Scan.Resume

namespace Offside.Scan

open Layout (LineState Snapshot)

variable {cfg : Config} {stops : List Offset} {s s' t t' u : State} {e e' : Emission} {r : Result}
  {source : String} {l : LineState}

structure Emission.Shares (e e' : Emission) : Prop where
  tokens : e'.tokens = e.tokens
  comments : e'.comments = e.comments

theorem Emission.Shares.append {a a' b b' : Emission} (h : a.Shares a') (h₂ : b.Shares b') :
    (a ++ b).Shares (a' ++ b') where
  tokens := congrArg₂ (· ++ ·) h.tokens h₂.tokens
  comments := congrArg₂ (· ++ ·) h.comments h₂.comments

section PutsText

def State.PutsText (cfg : Config) (s : State) : Prop :=
  ∃ x xs, (run cfg [] s).tokens = x :: xs ∧ x.kind.isLayout = false

theorem State.PutsText.step (h : s.PutsText cfg) (hstep : step cfg [] s = .next e t) :
    e.tokens = [] ∧ t.PutsText cfg ∨ ∃ x, e.tokens = [x] ∧ x.kind.isLayout = false := by
  obtain ⟨x, xs, hx, hlayout⟩ := h
  rw [run_of_next hstep, Result.after, Emission.append_tokens] at hx
  cases htokens : e.tokens with
  | nil =>
    rw [htokens] at hx
    exact Or.inl ⟨rfl, x, xs, hx, hlayout⟩
  | cons y ys =>
    rw [htokens] at hx
    obtain rfl := (List.cons.inj hx).1
    right
    rcases step_content hstep with ⟨hblocks, -⟩ | ⟨z, hz, hk, -⟩ | ⟨z, hz, hk, -⟩
    · rcases hblocks y (by rw [htokens]; exact List.mem_cons_self) with hk | hk <;>
        simp [hk, Kind.isLayout] at hlayout
    · exact ⟨z, htokens.symm.trans hz, hk⟩
    · obtain rfl := (List.cons.inj (htokens.symm.trans hz)).1
      simp [hk, Kind.isLayout] at hlayout

/-- Nothing with text comes at the end of a text. -/
theorem State.PutsText.rest_ne_nil (h : s.PutsText cfg) : s.rest ≠ [] := by
  intro hrest
  obtain ⟨x, xs, hx, hlayout⟩ := h
  rw [run_of_done (step_end hrest)] at hx
  have hmem : x ∈ (finish s ++ endMark s.pos).tokens := by
    rw [hx]
    exact List.mem_cons_self
  simp only [finish, endMark, Emission.append_tokens, List.mem_append, List.mem_replicate,
    List.mem_singleton] at hmem
  rcases hmem with (hmem | ⟨-, rfl⟩) | rfl
  · split at hmem
    · obtain rfl := List.mem_singleton.mp hmem
      contradiction
    · exact absurd hmem List.not_mem_nil
  · contradiction
  · contradiction

/-- A scan without faults closes its brackets, so inside brackets a token with text comes next. -/
theorem putsText_of_openers (hs : s.Sound) (ho : s.openers ≠ []) (hclean : (run cfg [] s).diagnostics = []) :
    s.PutsText cfg := by
  induction s using WellFounded.induction (measure State.measure).wf with
  | _ s ih =>
    cases hstep : step cfg [] s with
    | done r =>
      obtain ⟨-, rfl⟩ := (step_done hstep).resolve_right fun hstop => List.not_mem_nil hstop.2.2
      rw [run_of_done hstep] at hclean
      -- at the end of the text an open bracket is a fault
      obtain ⟨o, hlast⟩ := Option.ne_none_iff_exists'.mp (mt List.getLast?_eq_none_iff.mp ho)
      simp [finish, hlast] at hclean
    | next e t =>
      rw [run_of_next hstep] at hclean
      have hrest : (run cfg [] t).diagnostics = [] := (List.append_eq_nil_iff.mp hclean).2
      have hsame (htokens : e.tokens = []) (hopeners : t.openers = s.openers) : s.PutsText cfg := by
        obtain ⟨x, xs, hx, hlayout⟩ :=
          ih t (measure_step hstep) (step_leads hs hstep).sound (hopeners ▸ ho) hrest
        refine ⟨x, xs, ?_, hlayout⟩
        rw [run_of_next hstep, Result.after, Emission.append_tokens, htokens]
        exact hx
      have htext {x : Token} (hx : e.tokens = [x]) (hk : x.kind.isLayout = false) : s.PutsText cfg := by
        refine ⟨x, (run cfg [] t).tokens, ?_, hk⟩
        rw [run_of_next hstep, Result.after, Emission.append_tokens, hx]
        rfl
      -- inside brackets no line starts, and a line feed puts nothing out
      rcases step_cases hstep with ⟨-, hl, -⟩ | ⟨cs, -, -, rfl, rfl⟩ | ⟨c, cs, -, -, -, rfl, rfl⟩
      · exact absurd (hs.openers_eq hl) ho
      · exact hsame (by rw [lineFeed_inner ho]) (by rw [lineFeed_inner ho]; rfl)
      · rcases accept_content (Lexeme.recognise_proper c cs) ((Lexeme.recognise c cs).2 + 1) s with
          ⟨htokens, -⟩ | ⟨x, hx, hk, -⟩
        · refine hsame htokens ?_
          generalize (Lexeme.recognise c cs).1 = lexeme at htokens
          cases lexeme <;> first | rfl | contradiction
        · exact htext hx hk

end PutsText

section Alike

/-- States that differ in what is known of their open brackets and of their line. -/
structure Twins (s s' : State) : Prop where
  pos : s'.pos = s.pos
  rest : s'.rest = s.rest
  levels : s'.levels = s.levels
  depth : s'.openers.length = s.openers.length
  atLineStart : s'.atLineStart = s.atLineStart
  resyncing : s'.resyncing = s.resyncing

/-- States with the same tokens and comments to come: the second knows less of its line only if a token
with text comes next. -/
structure Alike (cfg : Config) (s s' : State) : Prop extends Twins s s' where
  hasContent : s'.hasContent = s.hasContent ∨ s'.hasContent = false ∧ s.PutsText cfg

namespace Twins

theorem skip (h : Twins s s') (n : Nat) : Twins (s.skip n) (s'.skip n) where
  __ := h
  pos := by simp only [State.skip, h.pos, h.rest]
  rest := by simp only [State.skip, h.rest]

theorem openers_eq_nil (h : Twins s s') : s'.openers = [] ↔ s.openers = [] := by
  rw [← List.length_eq_zero_iff, h.depth, List.length_eq_zero_iff]

theorem accept (h : Twins s s') (lexeme : Lexeme) (n : Nat) :
    (accept lexeme n s).1.Shares (Scan.accept lexeme n s').1 ∧
      Twins (Scan.accept lexeme n s).2 (Scan.accept lexeme n s').2 := by
  have hskip := h.skip n
  have htext : s'.rest.take n = s.rest.take n := by rw [h.rest]
  have hspan : Span.ofNat s'.pos (s'.skip n).pos = Span.ofNat s.pos (s.skip n).pos := by
    rw [h.pos, hskip.pos]
  have hnoting (k : Kind) : Twins ((s.skip n).noting k) ((s'.skip n).noting k) := { hskip with }
  cases lexeme with
  | token k => exact ⟨⟨by simp only [Scan.accept, htext, hspan], rfl⟩, hnoting k⟩
  | opener k =>
    exact ⟨⟨by simp only [Scan.accept, htext, hspan], rfl⟩,
      { hnoting k with depth := congrArg (· + 1) h.depth }⟩
  | closer k =>
    refine ⟨⟨by simp only [Scan.accept, htext, hspan], rfl⟩, { hnoting k with depth := ?_ }⟩
    simp only [Scan.accept, List.length_tail, h.depth]
  | string b => exact ⟨⟨by simp only [Scan.accept, htext, hspan], rfl⟩, hnoting .string⟩
  | longString q b => exact ⟨⟨by simp only [Scan.accept, htext, hspan], rfl⟩, hnoting .string⟩
  | comment => exact ⟨⟨rfl, by simp only [Scan.accept, htext, hspan]⟩, hskip⟩
  | space => exact ⟨⟨rfl, rfl⟩, hskip⟩
  | continuation => exact ⟨⟨rfl, rfl⟩, hskip⟩
  | unknown => exact ⟨⟨rfl, rfl⟩, hskip⟩

theorem lineFeed (h : Twins s s') (hc : s.openers = [] → s'.hasContent = s.hasContent) :
    (lineFeed s).1.Shares (Scan.lineFeed s').1 ∧ Twins (Scan.lineFeed s).2 (Scan.lineFeed s').2 := by
  by_cases ho : s.openers = []
  · rw [lineFeed_outer ho, lineFeed_outer (h.openers_eq_nil.mpr ho), hc ho, h.pos]
    exact ⟨⟨rfl, rfl⟩, { h.skip 1 with atLineStart := rfl }⟩
  · rw [lineFeed_inner ho, lineFeed_inner (mt h.openers_eq_nil.mp ho)]
    exact ⟨⟨rfl, rfl⟩, h.skip 1⟩

theorem indentTo (h : Twins s s') {width width' a a' b b' : Nat} (hwidth : width' = width) (ha : a' = a)
    (hb : b' = b) : (indentTo width a b s).1.Shares (Scan.indentTo width' a' b' s').1 ∧
      Twins (Scan.indentTo width a b s).2 (Scan.indentTo width' a' b' s').2 := by
  subst hwidth ha hb
  unfold Scan.indentTo
  rw [h.resyncing, h.levels]
  split
  · exact ⟨⟨rfl, rfl⟩, h⟩
  · dsimp only
    split <;> exact ⟨⟨rfl, rfl⟩, { h with levels := rfl, resyncing := rfl }⟩

theorem lineStart (h : Twins s s') (hstep : lineStart cfg [] s = .next e t) :
    ∃ e' t', Scan.lineStart cfg [] s' = .next e' t' ∧ e.Shares e' ∧ Twins t t' := by
  have hcontent : content cfg s' = content cfg s := by rw [content, content, h.rest]
  have hinside : Twins { s with atLineStart := false } { s' with atLineStart := false } :=
    { h with atLineStart := rfl }
  rcases lineStart_cases hstep with ⟨hb, rfl, rfl⟩ | ⟨hb, hc, rfl, rfl⟩ | ⟨hb, hc, -, rfl, rfl⟩
  · exact ⟨_, _, lineStart_blank (hcontent ▸ hb), ⟨rfl, rfl⟩, { hinside with resyncing := rfl }⟩
  · exact ⟨_, _, lineStart_comment (hcontent ▸ hb) (hcontent ▸ hc), ⟨rfl, rfl⟩, hinside⟩
  · have hindent : Layout.indentation cfg.tabWidth s'.rest = Layout.indentation cfg.tabWidth s.rest := by
      rw [h.rest]
    have hentered := hinside.indentTo (congrArg Layout.Indentation.width hindent) h.pos
      (congrArg₂ (· + ·) h.pos (congrArg Layout.Indentation.length hindent))
    refine ⟨_, _, lineStart_content (hcontent ▸ hb) (hcontent ▸ hc) fun hstop => List.not_mem_nil hstop.2,
      Emission.Shares.append (Emission.Shares.append ⟨rfl, rfl⟩ ?_) hentered.1, ?_⟩
    · rw [hindent]
      split <;> exact ⟨rfl, rfl⟩
    · refine { hentered.2 with pos := ?_, rest := ?_ }
      · exact congrArg₂ (· + ·) h.pos (congrArg Layout.Indentation.length hindent)
      · exact hcontent

end Twins

def noted (b : Bool) (x : Token) : Bool := x.kind != .newline && (b || !x.kind.isLayout)

/-- What is known of a line hangs on its tokens only. -/
theorem step_noted (h : step cfg stops s = .next e t) : t.hasContent = e.tokens.foldl noted s.hasContent := by
  rcases step_content h with ⟨hblocks, hsame⟩ | ⟨x, hx, hk, hc⟩ | ⟨x, hx, hk, -, hc⟩
  · rw [hsame]
    generalize e.tokens = ts at hblocks
    induction ts with
    | nil => rfl
    | cons x xs ih =>
      obtain ⟨hx, hxs⟩ := List.forall_mem_cons.mp hblocks
      have hnoted : noted s.hasContent x = s.hasContent := by
        rcases hx with hx | hx <;> simp [noted, hx, Kind.isLayout]
      rw [List.foldl_cons, hnoted]
      exact ih hxs
  · have hline : x.kind ≠ .newline := by
      intro hnewline
      rw [hnewline] at hk
      contradiction
    simp [hx, hc, noted, hline, hk]
  · simp [hx, hc, noted, hk]

theorem Alike.step_next (h : Alike cfg s s') (hstep : step cfg [] s = .next e t) :
    ∃ e' t', step cfg [] s' = .next e' t' ∧ e.Shares e' ∧ Alike cfg t t' := by
  have hsteps : ∃ e' t', step cfg [] s' = .next e' t' ∧ e.Shares e' ∧ Twins t t' := by
    rcases step_cases hstep with ⟨hne, hl, hstart⟩ | ⟨cs, hrest, hl, rfl, rfl⟩ |
      ⟨c, cs, hrest, hl, hc, rfl, rfl⟩
    · rw [step_lineStart (h.rest ▸ hne) (h.atLineStart.trans hl)]
      exact h.toTwins.lineStart hstart
    · refine ⟨_, _, step_lineFeed (h.rest.trans hrest) (h.atLineStart.trans hl),
        h.toTwins.lineFeed fun ho => ?_⟩
      -- outside brackets a line with a token is ended by one without text
      rcases h.hasContent with hsame | ⟨hfalse, hputs⟩
      · exact hsame
      · cases hc : s.hasContent with
        | false => exact hfalse
        | true =>
          have hputs := hputs.step hstep
          rw [lineFeed_outer ho, hc] at hputs
          rcases hputs with ⟨hnil, -⟩ | ⟨x, hx, hk⟩
          · contradiction
          · obtain rfl := List.singleton_inj.mp hx
            contradiction
    · exact ⟨_, _, step_lexeme (h.rest.trans hrest) (h.atLineStart.trans hl) hc, h.toTwins.accept _ _⟩
  obtain ⟨e', t', hstep', hshares, htwins⟩ := hsteps
  refine ⟨e', t', hstep', hshares, { htwins with hasContent := ?_ }⟩
  rw [step_noted hstep, step_noted hstep', hshares.tokens]
  rcases h.hasContent with hsame | ⟨hfalse, hputs⟩
  · exact Or.inl (by rw [hsame])
  · rcases hputs.step hstep with ⟨hnil, hputs⟩ | ⟨x, hx, hk⟩
    · exact Or.inr ⟨by rw [hnil, hfalse]; rfl, hputs⟩
    · exact Or.inl (by simp [hx, noted, hk])

theorem Alike.step_done (h : Alike cfg s s') (hstep : step cfg [] s = .done r) :
    ∃ r', step cfg [] s' = .done r' ∧ r.Shares r'.toEmission := by
  obtain ⟨hrest, rfl⟩ := (Scan.step_done hstep).resolve_right fun hstop => List.not_mem_nil hstop.2.2
  have hsame : s'.hasContent = s.hasContent :=
    h.hasContent.resolve_right fun hputs => hputs.2.rest_ne_nil hrest
  refine ⟨_, step_end (h.rest.trans hrest), ⟨?_, rfl⟩⟩
  simp only [finish, endMark, Emission.append_tokens, h.pos, h.levels, hsame]

/-- Such states put out the same tokens and comments up to the end. -/
theorem run_alike (h : Alike cfg s s') :
    (run cfg [] s).toEmission.Shares (run cfg [] s').toEmission := by
  induction s using WellFounded.induction (measure State.measure).wf generalizing s' with
  | _ s ih =>
    cases hstep : step cfg [] s with
    | done r =>
      obtain ⟨r', hstep', hshares⟩ := h.step_done hstep
      rw [run_of_done hstep, run_of_done hstep']
      exact hshares
    | next e t =>
      obtain ⟨e', t', hstep', hshares, ht⟩ := h.step_next hstep
      rw [run_of_next hstep, run_of_next hstep']
      exact hshares.append (ih t (measure_step hstep) ht)

end Alike

section Blanks

def State.unspaced (s : State) : State :=
  { s with
    pos := s.limit - Text.byteSize (s.rest.dropWhile Layout.isSpace)
    rest := s.rest.dropWhile Layout.isSpace }

/-- Blanks inside a line put nothing out. -/
theorem run_unspaced (hs : s.atLineStart = false) : run cfg stops s.unspaced = run cfg stops s := by
  have hself (hrest : s.rest.dropWhile Layout.isSpace = s.rest) : s.unspaced = s := by
    unfold State.unspaced State.limit
    rw [hrest, Nat.add_sub_cancel]
  cases hrest : s.rest with
  | nil => rw [hself (by rw [hrest]; rfl)]
  | cons c cs =>
    by_cases hc : Layout.isSpace c = true
    · have hline : c ≠ '\n' := by
        rintro rfl
        contradiction
      have hsplit : c :: cs.takeWhile Layout.isSpace ++ cs.dropWhile Layout.isSpace = c :: cs :=
        congrArg (c :: ·) List.takeWhile_append_dropWhile
      have hstep : step cfg stops s = _ := step_lexeme hrest hs hline
      rw [Lexeme.recognise_blank hc] at hstep
      have hskip : s.skip ((cs.takeWhile Layout.isSpace).length + 1) = s.unspaced := by
        have hdrop : s.rest.drop ((cs.takeWhile Layout.isSpace).length + 1) =
            s.rest.dropWhile Layout.isSpace := by
          rw [hrest, List.dropWhile_cons_of_pos hc]
          nth_rewrite 1 [← hsplit]
          exact List.drop_left
        have hlimit := limit_skip s ((cs.takeWhile Layout.isSpace).length + 1)
        unfold State.unspaced
        rw [← hlimit, ← hdrop]
        exact congrArg (fun p => { s.skip _ with pos := p }) (Nat.add_sub_cancel _ _).symm
      rw [run_of_next hstep, ← hskip]
      rfl
    · rw [hself (by rw [hrest, List.dropWhile_cons_of_neg hc])]

end Blanks

section Interior

/-- A line goes on where the innermost block does, unless nothing stands on it but a comment. -/
def State.Aligned (cfg : Config) (s : State) : Prop :=
  Layout.startsBlankLine (content cfg s) = true ∨ Layout.startsCommentLine (content cfg s) = true ∨
    (Layout.indentation cfg.tabWidth s.rest).width = s.levels.headD 0

/-- The state of a scan that resumes outside brackets where another stands inside a line. -/
def State.restarted (s : State) : State :=
  { s with openers := [], atLineStart := true, hasContent := false, resyncing := false }

def State.reopened (s : State) : State :=
  { s with
    openers := List.replicate s.openers.length ⟨"", Span.ofNat s.pos s.pos⟩
    atLineStart := false
    hasContent := false
    resyncing := false }

theorem indentTo_same {width : Nat} (hw : width = s.levels.headD 0) (hr : s.resyncing = false) (a b : Nat) :
    indentTo width a b s = ({}, s) := by
  subst hw
  unfold indentTo Layout.enter
  cases s
  simp_all

theorem entering_comments (cfg : Config) (s : State) : (entering cfg s).1.comments = [] := by
  unfold entering indentTo
  dsimp only
  split <;> split <;> first | rfl | (split <;> rfl)

/-- A line at the level of its block is entered without tokens. -/
theorem step_restarted (hne : s.rest ≠ []) (haligned : s.Aligned cfg) : ∃ e t,
    step cfg [] s.restarted = .next e t ∧ e.tokens = [] ∧ e.comments = [] ∧ t.atLineStart = false ∧
      t.unspaced = { s.restarted with atLineStart := false }.unspaced := by
  have hsame : content cfg s.restarted = content cfg s := rfl
  rw [step_lineStart (show s.restarted.rest ≠ [] from hne) rfl]
  cases hb : Layout.startsBlankLine (content cfg s) with
  | true => exact ⟨_, _, lineStart_blank (hsame ▸ hb), rfl, rfl, rfl, rfl⟩
  | false =>
    cases hc : Layout.startsCommentLine (content cfg s) with
    | true => exact ⟨_, _, lineStart_comment (hsame ▸ hb) (hsame ▸ hc), rfl, rfl, rfl, rfl⟩
    | false =>
      have hwidth : (Layout.indentation cfg.tabWidth s.rest).width = s.levels.headD 0 := by
        rcases haligned with h | h | h
        · rw [hb] at h
          contradiction
        · rw [hc] at h
          contradiction
        · exact h
      have hindent := indentTo_same (s := { s.restarted with atLineStart := false }) hwidth rfl s.pos
        (s.pos + (Layout.indentation cfg.tabWidth s.rest).length)
      have hentered : (entering cfg s.restarted).2 = { s.restarted with
          atLineStart := false
          pos := s.pos + (Layout.indentation cfg.tabWidth s.rest).length
          rest := content cfg s } :=
        congrArg (fun r : Emission × State => { r.2 with
          pos := s.pos + (Layout.indentation cfg.tabWidth s.rest).length
          rest := content cfg s }) hindent
      have hlimit := (entering_covers cfg s.restarted).limit_eq
      refine ⟨_, _, lineStart_content (hsame ▸ hb) (hsame ▸ hc) fun hstop => List.not_mem_nil hstop.2,
        ?_, ?_, ?_, ?_⟩
      · rw [entering_tokens]
        exact congrArg (fun r => r.1.tokens) hindent
      · rw [entering_comments]
      · rw [hentered]
      · unfold State.unspaced
        rw [hlimit, hentered]
        dsimp only
        rw [dropWhile_content]
        rfl

/-- At the level of its block, a line goes on the same when it is taken for a new one. -/
theorem run_restarted (hl : s.atLineStart = false) (ho : s.openers = []) (hr : s.resyncing = false)
    (haligned : s.Aligned cfg) (hcontent : s.hasContent = false ∨ s.PutsText cfg) :
    (run cfg [] s).toEmission.Shares (run cfg [] s.restarted).toEmission := by
  by_cases hrest : s.rest = []
  · have hidle : s.hasContent = false := hcontent.resolve_right fun hputs => hputs.rest_ne_nil hrest
    rw [run_of_done (step_end hrest), run_of_done (step_end (show s.restarted.rest = [] from hrest))]
    refine ⟨?_, rfl⟩
    simp only [finish, endMark, Emission.append_tokens, hidle]
    rfl
  · obtain ⟨e, t, hstep, htokens, hcomments, ht, hspaces⟩ := step_restarted hrest haligned
    have hputs (h : s.PutsText cfg) : s.unspaced.PutsText cfg := by
      rwa [State.PutsText, run_unspaced hl]
    have halike : Alike cfg s.unspaced t.unspaced := by
      rw [hspaces]
      exact ⟨⟨rfl, rfl, rfl, (congrArg List.length ho).symm, hl.symm, hr.symm⟩,
        hcontent.imp (fun h => h.symm) fun h => ⟨rfl, hputs h⟩⟩
    have hrun := run_alike halike
    rw [run_unspaced hl, run_unspaced ht] at hrun
    rw [run_of_next hstep]
    refine ⟨?_, ?_⟩
    · rw [Result.after, Emission.append_tokens, htokens]
      exact hrun.tokens
    · rw [Result.after, Emission.append_comments, hcomments]
      exact hrun.comments

/-- A line start recorded inside a logical line, outside strings: it stands behind a line feed. -/
theorem step_record (hs : s.atLineStart = false) (h : step cfg [] s = .next e t) (hl : l ∈ e.lineStates)
    (hresumable : l.snapshot.isResumable = true) : l = t.lineState t.pos none ∧
      t.atLineStart = false ∧ ∃ g, s.rest = g ++ '\n' :: t.rest := by
  rcases step_cases h with ⟨-, hstart, -⟩ | ⟨cs, hrest, -, rfl, rfl⟩ | ⟨c, cs, hrest, -, -, rfl, rfl⟩
  · rw [hs] at hstart
    contradiction
  · by_cases ho : s.openers = []
    · rw [lineFeed_outer ho] at hl
      exact absurd hl List.not_mem_nil
    · rw [lineFeed_inner ho] at hl ⊢
      obtain rfl := List.mem_singleton.mp hl
      refine ⟨rfl, hs, [], ?_⟩
      simp only [State.skip, hrest]
      rfl
  · have hstart := (accept_atLineStart (Lexeme.recognise c cs).1 ((Lexeme.recognise c cs).2 + 1) s).trans hs
    have hcontinuation := @Lexeme.recognise_continuation c cs
    have hsplit := List.take_append_drop ((Lexeme.recognise c cs).2 + 1) (c :: cs)
    generalize (Lexeme.recognise c cs).1 = lexeme at hl hstart hcontinuation ⊢
    cases lexeme with
    | continuation =>
      obtain rfl := List.mem_singleton.mp hl
      refine ⟨rfl, hstart, ?_⟩
      rw [rest_accept, hrest]
      rcases hcontinuation rfl with h | h <;> rw [h] at hsplit
      · exact ⟨['\\'], hsplit.symm⟩
      · exact ⟨['\\', '\r'], hsplit.symm⟩
    | longString q terminated =>
      obtain ⟨o, -, rfl⟩ := List.mem_map.mp hl
      contradiction
    | _ => exact absurd hl List.not_mem_nil

/-- Where a scan resumes that stands behind a line feed inside a logical line. -/
theorem Reaches.resume?_inside (h : Reaches cfg stops (.start source) e t)
    {e₀ : Emission} {g : List Char} (h₀ : Reaches cfg stops (.start source) e₀ s)
    (hg : s.rest = g ++ '\n' :: t.rest) :
    State.resume? source t.pos (t.snapshot none) =
      some (if t.openers = [] then t.restarted else t.reopened) := by
  obtain ⟨p, hp, hpos⟩ := h₀.exists_prefix
  obtain ⟨q, hq, hpos'⟩ := h.exists_prefix
  have hline : q = p ++ g ++ ['\n'] := by
    have hsame : q ++ t.rest = p ++ g ++ ['\n'] ++ t.rest := by
      rw [← hq, hp, hg]
      simp
    exact List.append_cancel_right hsame
  have hlevels : t.levels.isEmpty = false := by
    rw [List.isEmpty_eq_false_iff_exists_mem]
    exact ⟨0, List.contains_iff_mem.mp (h.leads (State.sound_start source)).sound.levels.contains_zero⟩
  have hstart : t.pos = Text.byteSize q := hpos'.trans (Nat.zero_add _)
  have hfeed : q.getLast?.getD '\n' = '\n' := by rw [hline, List.getLast?_concat, Option.getD_some]
  have hsplit : Text.splitAtByte? t.pos source.toList = some (q, t.rest) := by
    rw [hstart, show source.toList = q ++ t.rest from hq, Text.splitAtByte?_append]
  rw [State.resume?, if_pos (show (t.snapshot none).isResumable = true from rfl), hsplit, Option.map_some]
  congr 1
  by_cases ho : t.openers = []
  · simp [State.snapshot, State.restarted, ho, hlevels, hfeed]
  · simp [State.snapshot, State.reopened, ho, hlevels]

/-- A line ends before the next token with text, or it has had none. -/
theorem putsText_or_newline (hl : s.atLineStart = false) (hc : s.hasContent = true) :
    s.PutsText cfg ∨ ∃ x xs, (run cfg [] s).tokens = x :: xs ∧ x.kind = .newline := by
  induction s using WellFounded.induction (measure State.measure).wf with
  | _ s ih =>
    cases hstep : step cfg [] s with
    | done r =>
      obtain ⟨-, rfl⟩ := (step_done hstep).resolve_right fun hstop => List.not_mem_nil hstop.2.2
      rw [run_of_done hstep]
      simp only [finish, hc, if_true, Emission.append_tokens, List.cons_append]
      exact Or.inr ⟨_, _, rfl, rfl⟩
    | next e t =>
      have hrun : (run cfg [] s).tokens = e.tokens ++ (run cfg [] t).tokens := by
        rw [run_of_next hstep, Result.after, Emission.append_tokens]
      have hsilent (htokens : e.tokens = []) (ht : t.atLineStart = false) (hc : t.hasContent = true) :
          s.PutsText cfg ∨ ∃ x xs, (run cfg [] s).tokens = x :: xs ∧ x.kind = .newline := by
        rw [htokens, List.nil_append] at hrun
        rw [State.PutsText, hrun]
        exact ih t (measure_step hstep) ht hc
      rcases step_cases hstep with ⟨-, hstart, -⟩ | ⟨cs, -, -, rfl, rfl⟩ | ⟨c, cs, -, -, -, rfl, rfl⟩
      · rw [hl] at hstart
        contradiction
      · by_cases ho : s.openers = []
        · rw [lineFeed_outer ho, hc] at hrun
          exact Or.inr ⟨_, _, hrun, rfl⟩
        · rw [lineFeed_inner ho] at hsilent
          exact hsilent rfl hl hc
      · have hinside := (accept_atLineStart (Lexeme.recognise c cs).1 ((Lexeme.recognise c cs).2 + 1) s).trans hl
        rcases accept_content (Lexeme.recognise_proper c cs) ((Lexeme.recognise c cs).2 + 1) s with
          ⟨htokens, hsame⟩ | ⟨x, hx, hk, -⟩
        · exact hsilent htokens hinside (hsame.trans hc)
        · rw [hx] at hrun
          exact Or.inl ⟨x, _, hrun, hk⟩

/-- A line that has had no token is not ended first. -/
theorem head_ne_newline (hc : s.hasContent = false) {x : Token} {xs : List Token}
    (hx : (run cfg [] s).tokens = x :: xs) : x.kind ≠ .newline := by
  obtain ⟨e, t, h, -, hrun⟩ := exists_end cfg s
  have hopens := h.opens hc
  rw [hrun] at hx
  cases htokens : e.tokens with
  | cons y ys =>
    rw [Emission.append_tokens, htokens] at hx
    obtain rfl := (List.cons.inj hx).1
    exact hopens.first y (by rw [htokens]; rfl)
  | nil =>
    have hmem : x ∈ (e ++ (finish t ++ endMark t.pos)).tokens := by
      rw [hx]
      exact List.mem_cons_self
    have hidle := hopens.silent htokens
    simp only [Emission.append_tokens, htokens, finish, endMark, hidle, List.nil_append, Bool.false_eq_true,
      if_false, List.mem_append, List.mem_replicate, List.mem_singleton] at hmem
    rcases hmem with ⟨-, rfl⟩ | rfl <;> exact Kind.noConfusion

/-- A width that is not that of the innermost block opens a block or closes some. -/
theorem indentTo_other {width : Nat} (hs : Layout.Nested s.levels) (hr : s.resyncing = false)
    (hw : width ≠ s.levels.headD 0) (a b : Nat) :
    ∃ x xs, (indentTo width a b s).1.tokens = x :: xs ∧ x.kind.isLayout = true := by
  have hcount (hlt : width < s.levels.headD 0) : 0 < (Layout.closeWider width s.levels).1 := by
    obtain ⟨inner, hinner, -⟩ := hs
    rw [hinner] at hlt ⊢
    match inner with
    | [] => exact absurd hlt (Nat.not_lt_zero _)
    | [l] =>
      rw [List.cons_append, List.nil_append, Layout.closeWider, if_pos (show width < l from hlt)]
      exact Nat.succ_pos _
    | l :: m :: inner =>
      rw [List.cons_append, List.cons_append, Layout.closeWider, if_pos (show width < l from hlt)]
      exact Nat.succ_pos _
  unfold indentTo Layout.enter
  simp only [hr, Bool.false_and, Bool.false_eq_true, if_false]
  by_cases hlt : s.levels.headD 0 < width
  · rw [if_pos hlt]
    exact ⟨_, _, rfl, rfl⟩
  · rw [if_neg hlt, if_neg hw]
    have hpos := hcount (by omega)
    obtain ⟨n, hn⟩ := Nat.exists_eq_succ_of_ne_zero (Nat.ne_of_gt hpos)
    dsimp only
    rw [hn]
    exact ⟨_, _, rfl, rfl⟩

/-- A line at another level than that of its block is taken for a new one. -/
theorem run_misaligned (hs : Layout.Nested s.levels) (hne : s.rest ≠ []) (haligned : ¬s.Aligned cfg) :
    ∃ x xs, (run cfg [] s.restarted).tokens = x :: xs ∧ x.kind.isLayout = true := by
  obtain ⟨hb, hother⟩ := not_or.mp haligned
  obtain ⟨hc, hw⟩ := not_or.mp hother
  have hstep : step cfg [] s.restarted = _ := (step_lineStart (show s.restarted.rest ≠ [] from hne) rfl).trans
    (lineStart_content (Bool.not_eq_true _ ▸ hb) (Bool.not_eq_true _ ▸ hc) fun hstop => List.not_mem_nil hstop.2)
  obtain ⟨x, xs, hx, hk⟩ := indentTo_other (s := { s.restarted with atLineStart := false }) hs rfl hw s.pos
    (s.pos + (Layout.indentation cfg.tabWidth s.rest).length)
  refine ⟨x, xs ++ (run cfg [] (entering cfg s.restarted).2).tokens, ?_, hk⟩
  rw [run_of_next hstep, Result.after, Emission.append_tokens, entering_tokens]
  exact congrArg (· ++ _) hx

/-- A line goes on inside brackets, or at the level of its block with a token to come if it has had one. -/
def State.Continues (cfg : Config) (s : State) : Prop :=
  s.openers ≠ [] ∨ s.Aligned cfg ∧ (s.hasContent = false ∨ s.PutsText cfg)

/-- In a text without faults, a scan that resumes inside a logical line, with what was recorded there,
goes on as the scan that recorded it if that line continues, and, once the line has had a token, only
then. -/
theorem resume_inside (hclean : (scan cfg source).diagnostics = [])
    (h : Reaches cfg [] (.start source) e s) (hs : s.atLineStart = false)
    (hstep : step cfg [] s = .next e' t) (hl : l ∈ e'.lineStates)
    (hresumable : l.snapshot.isResumable = true) :
    scan cfg source = (run cfg [] t).after (e ++ e') ∧ l.offset = UInt32.ofNat t.pos ∧
      ∃ r, State.resume? source t.pos l.snapshot = some r ∧
        (t.Continues cfg → (run cfg [] t).toEmission.Shares (run cfg [] r).toEmission) ∧
        (t.hasContent = true → (run cfg [] t).toEmission.Shares (run cfg [] r).toEmission →
          t.Continues cfg) := by
  obtain ⟨rfl, hl', g, hg⟩ := step_record hs hstep hl hresumable
  have ht : Reaches cfg [] (.start source) (e ++ e') t := .tail h hstep
  have hsound := (ht.leads (State.sound_start source)).sound
  have hrun : scan cfg source = (run cfg [] t).after (e ++ e') := ht.run_eq
  rw [hrun, Result.after, Emission.append_diagnostics, List.append_eq_nil_iff] at hclean
  have hresync : t.resyncing = false := ht.resyncing rfl fun d hd => by
    rw [hclean.1] at hd
    exact absurd hd List.not_mem_nil
  refine ⟨hrun, rfl, _, ht.resume?_inside h hg, fun hcontinues => ?_, fun hc hshares => ?_⟩
  · by_cases ho : t.openers = []
    · rw [if_pos ho]
      obtain ⟨haligned, hcontent⟩ := hcontinues.resolve_left fun h => h ho
      exact run_restarted hl' ho hresync haligned hcontent
    · rw [if_neg ho]
      have hputs := putsText_of_openers hsound ho hclean.2
      exact run_alike ⟨⟨rfl, rfl, rfl, List.length_replicate, hl'.symm, hresync.symm⟩, Or.inr ⟨rfl, hputs⟩⟩
  · -- the two scans part at an indentation of the new line, or at the end of the line before it
    by_cases ho : t.openers = []
    · rw [if_pos ho] at hshares
      have hputs : t.PutsText cfg := by
        refine (putsText_or_newline hl' hc).resolve_right ?_
        rintro ⟨x, xs, hx, hk⟩
        exact head_ne_newline (s := t.restarted) rfl (hshares.tokens.trans hx) hk
      refine Or.inr ⟨?_, Or.inr hputs⟩
      by_contra haligned
      obtain ⟨x, xs, hx, hk⟩ := run_misaligned hsound.levels hputs.rest_ne_nil haligned
      obtain ⟨y, ys, hy, hk'⟩ := hputs
      obtain rfl := (List.cons.inj (hx.symm.trans (hshares.tokens.trans hy))).1
      rw [hk] at hk'
      contradiction
    · exact Or.inl ho

/-- As on the second line of `f(a,` and `  b)`. -/
theorem resume_inside_call : ∃ e e' s t l, (scan {} "f(a,\n  b)\n").diagnostics = [] ∧
    Reaches {} [] (.start "f(a,\n  b)\n") e s ∧ s.atLineStart = false ∧ step {} [] s = .next e' t ∧
      l ∈ e'.lineStates ∧ l.snapshot.isResumable = true ∧ l.offset = 5 ∧ l.snapshot.depth = 1 ∧
      t.Continues {} ∧ ∃ r, State.resume? "f(a,\n  b)\n" t.pos l.snapshot = some r ∧
        (run {} [] t).toEmission.Shares (run {} [] r).toEmission := by
  have hclean : (scan {} "f(a,\n  b)\n").diagnostics = [] := by decide +kernel
  have h : Reaches {} [] (.start "f(a,\n  b)\n") _ _ :=
    .tail (.tail (.tail (.tail (.tail .refl rfl) rfl) rfl) rfl) rfl
  obtain ⟨-, -, r, hr, hshares, -⟩ := resume_inside hclean h rfl rfl List.mem_cons_self rfl
  exact ⟨_, _, _, _, _, hclean, h, rfl, rfl, List.mem_cons_self, rfl, rfl, rfl,
    Or.inl (List.cons_ne_nil _ _), r, hr, hshares (Or.inl (List.cons_ne_nil _ _))⟩

/-- Behind the backslash of `a = \` a line with an indentation of its own is taken for a block. -/
theorem resume_continuation_indented : ¬∀ (cfg : Config) (source : String) (e e' : Emission) (s t : State)
    (l : LineState), (scan cfg source).diagnostics = [] → Reaches cfg [] (.start source) e s →
      s.atLineStart = false → step cfg [] s = .next e' t → l ∈ e'.lineStates →
      l.snapshot.isResumable = true → ∃ r, State.resume? source t.pos l.snapshot = some r ∧
        (run cfg [] t).toEmission.Shares (run cfg [] r).toEmission := by
  intro hall
  have hclean : (scan {} "a = \\\n  b\n").diagnostics = [] := by decide +kernel
  have h : Reaches {} [] (.start "a = \\\n  b\n") _ _ :=
    .tail (.tail (.tail (.tail (.tail .refl rfl) rfl) rfl) rfl) rfl
  obtain ⟨r, hr, hshares⟩ := hall _ _ _ _ _ _ _ hclean h rfl rfl List.mem_cons_self rfl
  have hr' : State.resume? "a = \\\n  b\n" 6 ⟨[0], 0, none⟩ =
      some ⟨6, [' ', ' ', 'b', '\n'], [0], [], true, false, false⟩ := rfl
  obtain rfl := Option.some.inj (hr'.symm.trans hr)
  -- the resumed scan opens a block before the name and closes it behind the line
  have hresumed : (run {} [] ⟨6, [' ', ' ', 'b', '\n'], [0], [], true, false, false⟩).tokens.length = 5 := by
    decide +kernel
  have hfull : (run {} [] ⟨6, [' ', ' ', 'b', '\n'], [0], [], false, true, false⟩).tokens.length = 3 := by
    decide +kernel
  have hlength := hresumed.symm.trans ((congrArg List.length hshares.tokens).trans hfull)
  contradiction

end Interior

end Offside.Scan
