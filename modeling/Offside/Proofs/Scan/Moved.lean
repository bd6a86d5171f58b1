import Offside.Proofs.Scan.Reaches
import Offside.Proofs.Tree.Relocate

namespace Offside.Scan

open Layout (LineState)

instance : Relocate LineState where
  relocate f s := { s with offset := f s.offset }

instance : Relocate Opener where
  relocate f o := { o with span := ⟨f o.span.start, f o.span.stop⟩ }

instance : Relocate Emission where
  relocate f e := ⟨relocate f e.tokens, relocate f e.comments, relocate f e.diagnostics,
    relocate f e.lineStates⟩

instance : Relocate Result where
  relocate f r := ⟨relocate f r.toEmission, r.stoppedAt.map f⟩

variable {cfg : Config} {f : Offset → Offset} {s s' t : State} {e : Emission}

@[simp]
theorem relocate_emission (f : Offset → Offset) (ts cs : List Token) (ds : List Diagnostic)
    (ls : List LineState) : relocate f (⟨ts, cs, ds, ls⟩ : Emission) =
      ⟨relocate f ts, relocate f cs, relocate f ds, relocate f ls⟩ := rfl

theorem relocate_append_emission (f : Offset → Offset) (a b : Emission) :
    relocate f (a ++ b) = relocate f a ++ relocate f b := by
  cases a
  cases b
  change Emission.mk _ _ _ _ = Emission.mk _ _ _ _
  simp

/-- States that differ in their positions only. -/
structure Moved (f : Offset → Offset) (s s' : State) : Prop where
  pos : ∀ i, UInt32.ofNat (s'.pos + i) = f (UInt32.ofNat (s.pos + i))
  rest : s'.rest = s.rest
  levels : s'.levels = s.levels
  openers : s'.openers = relocate f s.openers
  atLineStart : s'.atLineStart = s.atLineStart
  hasContent : s'.hasContent = s.hasContent
  resyncing : s'.resyncing = s.resyncing

namespace Moved

theorem here (h : Moved f s s') : UInt32.ofNat s'.pos = f (UInt32.ofNat s.pos) := h.pos 0

theorem lineState (h : Moved f s s') (i : Nat) (string : Option Layout.LongQuote) :
    s'.lineState (s'.pos + i) string = relocate f (s.lineState (s.pos + i) string) := by
  simp only [State.lineState, State.snapshot, h.pos, h.levels, h.openers]
  simp [relocate]

theorem span (h : Moved f s s') (i j : Nat) : Span.ofNat (s'.pos + i) (s'.pos + j) =
    ⟨f (UInt32.ofNat (s.pos + i)), f (UInt32.ofNat (s.pos + j))⟩ := by
  simp only [Span.ofNat, h.pos]

theorem skip (h : Moved f s s') (n : Nat) : Moved f (s.skip n) (s'.skip n) where
  __ := h
  pos i := by
    simp only [State.skip, h.rest, Nat.add_assoc]
    exact h.pos _
  rest := by simp only [State.skip, h.rest]

end Moved

theorem lineStartsIn_moved {p p' : Nat} (h : ∀ i, UInt32.ofNat (p' + i) = f (UInt32.ofNat (p + i)))
    (cs : List Char) :
    (lineStartsIn p' cs).map UInt32.ofNat = (lineStartsIn p cs).map fun o => f (UInt32.ofNat o) := by
  induction cs generalizing p p' with
  | nil => rfl
  | cons c cs ih =>
    have hnext : ∀ i, UInt32.ofNat (p' + c.utf8Size + i) = f (UInt32.ofNat (p + c.utf8Size + i)) := by
      intro i
      rw [Nat.add_assoc, Nat.add_assoc]
      exact h _
    unfold lineStartsIn
    dsimp only
    split
    · rw [List.map_cons, List.map_cons, ih hnext]
      exact congrArg (· :: _) (hnext 0)
    · exact ih hnext

theorem noting_moved (h : Moved f s s') (kind : Kind) : Moved f (s.noting kind) (s'.noting kind) where
  __ := h
  hasContent := by simp only [State.noting, h.hasContent]

theorem accept_moved (h : Moved f s s') (lexeme : Lexeme) (n : Nat) :
    (accept lexeme n s').1 = relocate f (accept lexeme n s).1 ∧
      Moved f (accept lexeme n s).2 (accept lexeme n s').2 := by
  have hskip := h.skip n
  have hspan : Span.ofNat s'.pos (s'.skip n).pos = relocate f (Span.ofNat s.pos (s.skip n).pos) := by
    simp only [Span.ofNat, h.here, hskip.here]
    rfl
  have hline : s'.lineState (s'.skip n).pos none = relocate f (s.lineState (s.skip n).pos none) := by
    simp only [State.skip, h.rest]
    exact h.lineState _ none
  have hlines (quote : Option Layout.LongQuote) :
      ((lineStartsIn s'.pos (s.rest.take n)).map fun o => s'.lineState o quote) =
        relocate f ((lineStartsIn s.pos (s.rest.take n)).map fun o => s.lineState o quote) := by
    have hmap (s : State) (os : List Nat) : (os.map fun o => s.lineState o quote) =
        (os.map UInt32.ofNat).map fun o => ⟨o, s.snapshot quote⟩ := by
      rw [List.map_map]
      rfl
    have hsnapshot : s'.snapshot quote = s.snapshot quote := by
      simp only [State.snapshot, h.levels, h.openers, length_relocate]
    rw [hmap, hmap, lineStartsIn_moved h.pos, hsnapshot]
    simp only [relocate, List.map_map]
    rfl
  have hclosed (terminated : Bool) (d : Diagnostic) :
      (if terminated then [] else [relocate f d]) = relocate f (if terminated then [] else [d]) := by
    cases terminated <;> rfl
  unfold accept
  dsimp only
  rw [h.rest, hspan]
  cases lexeme with
  | token kind => exact ⟨rfl, noting_moved hskip kind⟩
  | opener kind =>
    refine ⟨rfl, { noting_moved hskip kind with openers := ?_ }⟩
    rw [h.openers]
    rfl
  | closer kind =>
    refine ⟨rfl, { noting_moved hskip kind with openers := ?_ }⟩
    rw [h.openers]
    exact List.map_tail.symm
  | string terminated =>
    refine ⟨?_, noting_moved hskip .string⟩
    cases terminated <;> rfl
  | longString quote terminated =>
    refine ⟨?_, noting_moved hskip .string⟩
    dsimp only
    rw [hlines]
    cases terminated <;> rfl
  | comment => exact ⟨rfl, hskip⟩
  | space => exact ⟨rfl, hskip⟩
  | continuation =>
    dsimp only
    rw [hline]
    exact ⟨rfl, hskip⟩
  | unknown => exact ⟨rfl, hskip⟩

theorem lineFeed_moved (h : Moved f s s') :
    (lineFeed s').1 = relocate f (lineFeed s).1 ∧ Moved f (lineFeed s).2 (lineFeed s').2 := by
  have hskip := h.skip 1
  by_cases ho : s.openers = []
  · have ho' : s'.openers = [] := by rw [h.openers, ho]; rfl
    have hspan : Span.ofNat s'.pos (s'.pos + 1) = relocate f (Span.ofNat s.pos (s.pos + 1)) :=
      h.span 0 1
    rw [lineFeed_outer ho, lineFeed_outer ho', h.hasContent, hspan]
    refine ⟨?_, { hskip with atLineStart := rfl, hasContent := rfl }⟩
    cases s.hasContent <;> rfl
  · have ho' : s'.openers ≠ [] := by
      rw [h.openers]
      simpa [relocate] using ho
    rw [lineFeed_inner ho, lineFeed_inner ho']
    refine ⟨?_, hskip⟩
    simp only [State.skip, h.rest, h.lineState]
    rfl

theorem indentTo_moved (h : Moved f s s') (width i j : Nat) :
    (indentTo width (s'.pos + i) (s'.pos + j) s').1 =
        relocate f (indentTo width (s.pos + i) (s.pos + j) s).1 ∧
      Moved f (indentTo width (s.pos + i) (s.pos + j) s).2
        (indentTo width (s'.pos + i) (s'.pos + j) s').2 := by
  unfold indentTo
  rw [h.resyncing, h.levels, h.span, h.span]
  split
  · exact ⟨rfl, h⟩
  · dsimp only
    split
    · exact ⟨rfl, { h with levels := rfl, resyncing := rfl }⟩
    · exact ⟨rfl, { h with levels := rfl, resyncing := rfl }⟩
    · next count matched levels _ =>
      refine ⟨?_, { h with levels := rfl, resyncing := rfl }⟩
      cases matched <;> simp [relocate, Token.layout, Span.ofNat]

theorem entering_moved (h : Moved f s s') :
    (entering cfg s').1 = relocate f (entering cfg s).1 ∧
      Moved f (entering cfg s).2 (entering cfg s').2 := by
  have hs : Moved f { s with atLineStart := false } { s' with atLineStart := false } :=
    { h with atLineStart := rfl }
  have hline := h.lineState 0 none
  obtain ⟨hemit, hnext⟩ := indentTo_moved hs (Layout.indentation cfg.tabWidth s.rest).width 0
    (Layout.indentation cfg.tabWidth s.rest).length
  have hspan := h.span 0 (Layout.indentation cfg.tabWidth s.rest).length
  rw [Nat.add_zero, Nat.add_zero] at hline hemit hnext hspan
  unfold entering
  dsimp only at hemit hnext ⊢
  rw [h.rest] at hemit hnext
  rw [h.rest, hemit, hline, relocate_append_emission, relocate_append_emission]
  refine ⟨?_, { hnext with pos := ?_, rest := rfl }⟩
  · rw [hspan]
    split <;> rfl
  · intro i
    simp only [Nat.add_assoc]
    exact h.pos _

theorem content_moved (h : Moved f s s') : content cfg s' = content cfg s := by
  rw [content, content, h.rest]

theorem lineStart_moved (h : Moved f s s') (hstep : lineStart cfg [] s = .next e t) :
    ∃ t', lineStart cfg [] s' = .next (relocate f e) t' ∧ Moved f t t' := by
  have hline := h.lineState 0 none
  rw [Nat.add_zero, Nat.add_zero] at hline
  rcases lineStart_cases hstep with ⟨hb, rfl, rfl⟩ | ⟨hb, hc, rfl, rfl⟩ | ⟨hb, hc, -, rfl, rfl⟩
  · refine ⟨{ s' with atLineStart := false, resyncing := false }, ?_,
      { h with atLineStart := rfl, resyncing := rfl }⟩
    rw [lineStart_blank (by rw [content_moved h, hb]), hline]
    rfl
  · refine ⟨{ s' with atLineStart := false }, ?_, { h with atLineStart := rfl }⟩
    rw [lineStart_comment (by rw [content_moved h, hb]) (by rw [content_moved h, hc]), hline]
    rfl
  · refine ⟨_, ?_, (entering_moved h).2⟩
    rw [lineStart_content (by rw [content_moved h, hb]) (by rw [content_moved h, hc]) (by simp),
      (entering_moved h).1]

theorem step_moved_next (h : Moved f s s') (hstep : step cfg [] s = .next e t) :
    ∃ t', step cfg [] s' = .next (relocate f e) t' ∧ Moved f t t' := by
  rcases step_cases hstep with ⟨hne, hl, hstep⟩ | ⟨cs, hrest, hl, rfl, rfl⟩ |
    ⟨c, cs, hrest, hl, hc, rfl, rfl⟩
  · rw [step_lineStart (by rwa [h.rest]) (by rwa [h.atLineStart])]
    exact lineStart_moved h hstep
  · obtain ⟨hemit, hnext⟩ := lineFeed_moved h
    exact ⟨_, by rw [step_lineFeed (h.rest.trans hrest) (h.atLineStart.trans hl), hemit], hnext⟩
  · obtain ⟨hemit, hnext⟩ := accept_moved h (Lexeme.recognise c cs).1 ((Lexeme.recognise c cs).2 + 1)
    exact ⟨_, by rw [step_lexeme (h.rest.trans hrest) (h.atLineStart.trans hl) hc, hemit], hnext⟩

theorem finish_moved (h : Moved f s s') : finish s' = relocate f (finish s) := by
  have hspan : Span.ofNat s'.pos s'.pos = relocate f (Span.ofNat s.pos s.pos) := h.span 0 0
  have hlast : s'.openers.getLast? = s.openers.getLast?.map (relocate f) := by
    rw [h.openers]
    exact List.getLast?_map
  unfold finish
  dsimp only
  rw [hspan, h.hasContent, h.levels, hlast]
  have htokens : ((if s.hasContent = true then
        [Token.layout .newline (relocate f (Span.ofNat s.pos s.pos))] else []) ++
      List.replicate (s.levels.length - 1)
        (Token.layout .dedent (relocate f (Span.ofNat s.pos s.pos)))) =
      relocate f ((if s.hasContent = true then
          [Token.layout .newline (Span.ofNat s.pos s.pos)] else []) ++
        List.replicate (s.levels.length - 1) (Token.layout .dedent (Span.ofNat s.pos s.pos))) := by
    rw [relocate_append]
    cases s.hasContent <;> simp [relocate, Token.layout]
  rw [htokens, relocate_emission]
  cases s.openers.getLast? <;> rfl

/-- An end of the text is one wherever the text stands. -/
theorem step_moved_done {r : Result} (h : Moved f s s') (hstep : step cfg [] s = .done r) :
    step cfg [] s' = .done (relocate f r) := by
  obtain ⟨hend, rfl⟩ : s.rest = [] ∧ r = ⟨finish s ++ endMark s.pos, none⟩ :=
    (step_done hstep).resolve_right fun hstop => List.not_mem_nil hstop.2.2
  rw [step_end (h.rest.trans hend), finish_moved h]
  have hmark : endMark s'.pos = relocate f (endMark s.pos) := by
    have hspan : Span.ofNat s'.pos s'.pos = relocate f (Span.ofNat s.pos s.pos) := h.span 0 0
    rw [endMark, endMark, hspan]
    rfl
  rw [hmark, ← relocate_append_emission]
  rfl

theorem run_moved (h : Moved f s s') : run cfg [] s' = relocate f (run cfg [] s) := by
  induction s using WellFounded.induction (measure State.measure).wf generalizing s' with
  | _ s ih =>
    cases hstep : step cfg [] s with
    | done r => rw [run_of_done hstep, run_of_done (step_moved_done h hstep)]
    | next e t =>
      obtain ⟨t', hstep', ht⟩ := step_moved_next h hstep
      rw [run_of_next hstep, run_of_next hstep', ih t (measure_step hstep) ht]
      exact congrArg (Result.mk · _) (relocate_append_emission f _ _).symm

end Offside.Scan
