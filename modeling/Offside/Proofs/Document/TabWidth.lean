import Offside.Document
import Offside.Proofs.Conventions
import Offside.Proofs.Layout.Scaling
import Offside.Proofs.Scan.Resume

namespace Offside

open Layout (LineState ScaledAll Scaled SpaceFree)

inductive Cause.Scaled (v w : Nat) : Cause → Cause → Prop
  | same (cause : Cause) : Scaled v w cause cause
  | dedent {width width' : Nat} (h : Layout.Scaled v w width width') :
      Scaled v w (.inconsistentDedent width) (.inconsistentDedent width')

structure Diagnostic.Scaled (v w : Nat) (d d' : Diagnostic) : Prop where
  span : d'.span = d.span
  cause : d.cause.Scaled v w d'.cause

structure Layout.LineState.Scaled (v w : Nat) (l l' : LineState) : Prop where
  offset : l'.offset = l.offset
  depth : l'.snapshot.depth = l.snapshot.depth
  string : l'.snapshot.string = l.snapshot.string
  levels : ScaledAll v w l.snapshot.levels l'.snapshot.levels

namespace Scan

/-- What is put out is the same, up to widths and levels in the proportion of two tab widths. -/
structure Emission.Scaled (v w : Nat) (e e' : Emission) : Prop where
  tokens : e'.tokens = e.tokens
  comments : e'.comments = e.comments
  diagnostics : List.Forall₂ (Diagnostic.Scaled v w) e.diagnostics e'.diagnostics
  lineStates : List.Forall₂ (LineState.Scaled v w) e.lineStates e'.lineStates

variable {v w : Nat} {cfg cfg' : Config} {s s' t : State} {e e' e₁ e₁' : Emission} {source : String}

theorem scaled_self (ds : List Diagnostic) : List.Forall₂ (Diagnostic.Scaled v w) ds ds :=
  List.forall₂_same.mpr fun d _ => ⟨rfl, .same d.cause⟩

namespace Emission.Scaled

/-- Without line states nothing depends on the levels. -/
theorem self (h : e.lineStates = []) : e.Scaled v w e := by
  refine ⟨rfl, rfl, scaled_self _, ?_⟩
  rw [h]
  exact .nil

theorem append (h : e.Scaled v w e') (h₁ : e₁.Scaled v w e₁') : (e ++ e₁).Scaled v w (e' ++ e₁') where
  tokens := congrArg₂ (· ++ ·) h.tokens h₁.tokens
  comments := congrArg₂ (· ++ ·) h.comments h₁.comments
  diagnostics := List.rel_append h.diagnostics h₁.diagnostics
  lineStates := List.rel_append h.lineStates h₁.lineStates

end Emission.Scaled

structure State.Scaled (v w : Nat) (s s' : State) : Prop where
  pos : s'.pos = s.pos
  rest : s'.rest = s.rest
  levels : ScaledAll v w s.levels s'.levels
  openers : s'.openers = s.openers
  atLineStart : s'.atLineStart = s.atLineStart
  hasContent : s'.hasContent = s.hasContent
  resyncing : s'.resyncing = s.resyncing

namespace State.Scaled

theorem lineState (h : s.Scaled v w s') (offset : Nat) (string : Option Layout.LongQuote) :
    (s.lineState offset string).Scaled v w (s'.lineState offset string) :=
  ⟨rfl, congrArg List.length h.openers, rfl, h.levels⟩

theorem skip (h : s.Scaled v w s') (n : Nat) : (s.skip n).Scaled v w (s'.skip n) where
  __ := h
  pos := by simp only [State.skip, h.pos, h.rest]
  rest := by simp only [State.skip, h.rest]

theorem accept (h : s.Scaled v w s') (lexeme : Lexeme) (n : Nat) :
    (accept lexeme n s).1.Scaled v w (Scan.accept lexeme n s').1 ∧
      (Scan.accept lexeme n s).2.Scaled v w (Scan.accept lexeme n s').2 := by
  have hskip := h.skip n
  have hnoting (k : Kind) : ((s.skip n).noting k).Scaled v w ((s'.skip n).noting k) :=
    { hskip with hasContent := by simp only [State.noting, hskip.hasContent] }
  unfold Scan.accept
  dsimp only
  rw [h.pos, h.rest, hskip.pos]
  cases lexeme with
  | token k => exact ⟨.self rfl, hnoting k⟩
  | opener k => exact ⟨.self rfl, { hnoting k with openers := congrArg (_ :: ·) h.openers }⟩
  | closer k => exact ⟨.self rfl, { hnoting k with openers := congrArg List.tail h.openers }⟩
  | string terminated => exact ⟨.self rfl, hnoting .string⟩
  | longString quote terminated =>
    refine ⟨⟨rfl, rfl, scaled_self _, ?_⟩, hnoting .string⟩
    exact List.forall₂_map_left_iff.mpr (List.forall₂_map_right_iff.mpr
      (List.forall₂_same.mpr fun o _ => h.lineState o (some quote)))
  | comment => exact ⟨.self rfl, hskip⟩
  | space => exact ⟨.self rfl, hskip⟩
  | continuation => exact ⟨⟨rfl, rfl, .nil, .cons (h.lineState _ none) .nil⟩, hskip⟩
  | unknown => exact ⟨.self rfl, hskip⟩

theorem lineFeed (h : s.Scaled v w s') : (lineFeed s).1.Scaled v w (Scan.lineFeed s').1 ∧
    (Scan.lineFeed s).2.Scaled v w (Scan.lineFeed s').2 := by
  have hskip := h.skip 1
  by_cases ho : s.openers = []
  · rw [lineFeed_outer ho, lineFeed_outer (h.openers.trans ho), h.hasContent, h.pos]
    exact ⟨.self rfl, { hskip with atLineStart := rfl, hasContent := rfl }⟩
  · rw [lineFeed_inner ho, lineFeed_inner (h.openers ▸ ho), hskip.pos]
    exact ⟨⟨rfl, rfl, .nil, .cons (h.lineState _ none) .nil⟩, hskip⟩

theorem finish (h : s.Scaled v w s') : (finish s).Scaled v w (Scan.finish s') := by
  have hsame : Scan.finish s' = Scan.finish s := by
    unfold Scan.finish
    rw [h.pos, h.hasContent, h.openers, h.levels.length_eq]
  rw [hsame]
  exact .self rfl

section Widths

variable (hv : 0 < v) (hw : 0 < w)

include hv hw

theorem indentTo (h : s.Scaled v w s') {width width' a a' b b' : Nat}
    (hwidth : Layout.Scaled v w width width') (ha : a' = a) (hb : b' = b) :
    (indentTo width a b s).1.Scaled v w (Scan.indentTo width' a' b' s').1 ∧
      (Scan.indentTo width a b s).2.Scaled v w (Scan.indentTo width' a' b' s').2 := by
  subst ha hb
  obtain ⟨hchange, hlevels⟩ := Layout.enter_scaled hv hw hwidth h.levels
  unfold Scan.indentTo
  rw [h.resyncing, Layout.contains_scaled hv hw hwidth h.levels]
  split
  · exact ⟨.self rfl, h⟩
  generalize Layout.enter width s.levels = entered at hchange hlevels
  generalize Layout.enter width' s'.levels = entered' at hchange hlevels
  obtain ⟨_, left⟩ := entered
  obtain ⟨change, left'⟩ := entered'
  obtain rfl : change = _ := hchange
  dsimp only
  cases change with
  | indent => exact ⟨.self rfl, { h with levels := hlevels, resyncing := rfl }⟩
  | same => exact ⟨.self rfl, { h with levels := hlevels, resyncing := rfl }⟩
  | dedent count matched =>
    refine ⟨⟨rfl, rfl, ?_, .nil⟩, { h with levels := hlevels, resyncing := rfl }⟩
    cases matched with
    | true => exact .nil
    | false => exact .cons ⟨rfl, .dedent hwidth⟩ .nil

end Widths

end State.Scaled

section Runs

variable (hv : 0 < cfg.tabWidth) (hw : 0 < cfg'.tabWidth)

include hv hw

/-- The line start of a line that is indented without spaces. -/
theorem lineStart_scaled (h : s.Scaled cfg.tabWidth cfg'.tabWidth s')
    (hfree : ' ' ∉ s.rest.takeWhile Layout.isIndent) (hstep : lineStart cfg [] s = .next e t) :
    ∃ e' t', lineStart cfg' [] s' = .next e' t' ∧ e.Scaled cfg.tabWidth cfg'.tabWidth e' ∧
      t.Scaled cfg.tabWidth cfg'.tabWidth t' := by
  have hcontent : content cfg' s' = content cfg s := by
    rw [content, content, h.rest]
    rfl
  have hline : Emission.Scaled cfg.tabWidth cfg'.tabWidth { lineStates := [s.lineState s.pos none] }
      { lineStates := [s'.lineState s'.pos none] } := by
    rw [h.pos]
    exact ⟨rfl, rfl, .nil, .cons (h.lineState s.pos none) .nil⟩
  have hinside : State.Scaled cfg.tabWidth cfg'.tabWidth { s with atLineStart := false }
      { s' with atLineStart := false } := { h with atLineStart := rfl }
  rcases lineStart_cases hstep with ⟨hb, rfl, rfl⟩ | ⟨hb, hc, rfl, rfl⟩ | ⟨hb, hc, -, rfl, rfl⟩
  · exact ⟨_, _, lineStart_blank (hcontent ▸ hb), hline, { hinside with resyncing := rfl }⟩
  · exact ⟨_, _, lineStart_comment (hcontent ▸ hb) (hcontent ▸ hc), hline, hinside⟩
  · have hlength : s'.pos + (Layout.indentation cfg'.tabWidth s'.rest).length =
        s.pos + (Layout.indentation cfg.tabWidth s.rest).length := by
      rw [h.pos, h.rest]
      rfl
    have hwidth : Layout.Scaled cfg.tabWidth cfg'.tabWidth (Layout.indentation cfg.tabWidth s.rest).width
        (Layout.indentation cfg'.tabWidth s'.rest).width := by
      rw [h.rest]
      exact Layout.scaled_widthOf hfree
    have hmixed : (Layout.indentation cfg'.tabWidth s'.rest).mixed =
        (Layout.indentation cfg.tabWidth s.rest).mixed := by
      rw [h.rest]
      rfl
    obtain ⟨hemit, hnext⟩ := hinside.indentTo hv hw hwidth h.pos hlength
    refine ⟨_, _, lineStart_content (hcontent ▸ hb) (hcontent ▸ hc) fun hstop => List.not_mem_nil hstop.2,
      (hline.append ?_).append hemit, { hnext with pos := hlength, rest := hcontent }⟩
    rw [hmixed, hlength, h.pos]
    split <;> exact .self rfl

theorem step_scaled (h : s.Scaled cfg.tabWidth cfg'.tabWidth s')
    (hfree : s.atLineStart = true → ' ' ∉ s.rest.takeWhile Layout.isIndent)
    (hstep : step cfg [] s = .next e t) : ∃ e' t', step cfg' [] s' = .next e' t' ∧
      e.Scaled cfg.tabWidth cfg'.tabWidth e' ∧ t.Scaled cfg.tabWidth cfg'.tabWidth t' := by
  rcases step_cases hstep with ⟨hne, hl, hstart⟩ | ⟨cs, hrest, hl, rfl, rfl⟩ |
    ⟨c, cs, hrest, hl, hc, rfl, rfl⟩
  · rw [step_lineStart (h.rest ▸ hne) (h.atLineStart.trans hl)]
    exact lineStart_scaled hv hw h (hfree hl) hstart
  · exact ⟨_, _, step_lineFeed (h.rest.trans hrest) (h.atLineStart.trans hl), h.lineFeed⟩
  · exact ⟨_, _, step_lexeme (h.rest.trans hrest) (h.atLineStart.trans hl) hc, h.accept _ _⟩

/-- Scans from such states put out the same, up to the proportion. -/
theorem run_scaled (hfree : SpaceFree source.toList) (hreach : Reaches cfg [] (.start source) e s)
    (h : s.Scaled cfg.tabWidth cfg'.tabWidth s') :
    (run cfg [] s).toEmission.Scaled cfg.tabWidth cfg'.tabWidth (run cfg' [] s').toEmission := by
  induction s using WellFounded.induction (measure State.measure).wf generalizing s' e with
  | _ s ih =>
    -- every line start stands behind a line feed, so its line is one of the text
    have hline (hl : s.atLineStart = true) : ' ' ∉ s.rest.takeWhile Layout.isIndent := by
      obtain ⟨p, hp, -, hend⟩ := hreach.exists_lines hl
      rw [hp] at hfree
      exact hfree.behind hend
    cases hstep : step cfg [] s with
    | done r =>
      obtain ⟨hrest, rfl⟩ := (step_done hstep).resolve_right fun hstop => List.not_mem_nil hstop.2.2
      rw [run_of_done hstep, run_of_done (step_end (h.rest.trans hrest)), h.pos]
      exact h.finish.append (.self rfl)
    | next e₁ t =>
      obtain ⟨e₁', t', hstep', hemit, hnext⟩ := step_scaled hv hw h hline hstep
      rw [run_of_next hstep, run_of_next hstep']
      exact hemit.append (ih t (measure_step hstep) (hreach.tail hstep) hnext)

/-- The whole scan. -/
theorem scan_scaled (hfree : SpaceFree source.toList) :
    (scan cfg source).toEmission.Scaled cfg.tabWidth cfg'.tabWidth (scan cfg' source).toEmission :=
  run_scaled hv hw hfree .refl ⟨rfl, rfl, .cons .zero .nil, rfl, rfl, rfl, rfl⟩

end Runs

end Scan

namespace Document

open Scan

/-- Where no line is indented with spaces, the tab width makes no difference: tokens and comments are the
same, line states the same up to levels in the proportion of the widths, and faults the same up to the
width in a dedent that matches no level. So the statements are the same. -/
theorem parse_tabWidth (cfg : Config) {tabWidth : Nat} {source : String} (hv : 0 < cfg.tabWidth)
    (hw : 0 < tabWidth) (hfree : SpaceFree source.toList) :
    (scan cfg source).toEmission.Scaled cfg.tabWidth tabWidth
        (scan { cfg with tabWidth } source).toEmission ∧
      (parse { cfg with tabWidth } source).body = (parse cfg source).body ∧
      (parse { cfg with tabWidth } source).span = (parse cfg source).span ∧
      (parse { cfg with tabWidth } source).cancelled = (parse cfg source).cancelled := by
  have hscan : (scan cfg source).toEmission.Scaled cfg.tabWidth tabWidth
      (scan { cfg with tabWidth } source).toEmission :=
    @scan_scaled cfg { cfg with tabWidth } source hv hw hfree
  have hsame (tokens : List Token) :
      Grammar.parse { cfg with tabWidth } tokens = Grammar.parse cfg tokens :=
    Grammar.parse_congr cfg { cfg with tabWidth } rfl rfl rfl tokens
  have hparse : Grammar.parse { cfg with tabWidth } (scan { cfg with tabWidth } source).tokens =
      Grammar.parse cfg (scan cfg source).tokens := by
    rw [hscan.tokens, hsame]
  refine ⟨hscan, ?_, rfl, ?_⟩
  · exact congrArg Grammar.Parsed.body hparse
  · exact congrArg Grammar.Parsed.cancelled hparse

/-- A dedent to one tab matches no level, whatever a tab is worth. -/
theorem parse_tabWidth_dedent :
    (scan {} "if a:\n\t\tb\n\tc\n").diagnostics = [⟨.inconsistentDedent 8, Span.ofNat 10 11⟩] ∧
      (scan { tabWidth := 4 } "if a:\n\t\tb\n\tc\n").diagnostics =
        [⟨.inconsistentDedent 4, Span.ofNat 10 11⟩] ∧
      (scan { tabWidth := 4 } "if a:\n\t\tb\n\tc\n").tokens = (scan {} "if a:\n\t\tb\n\tc\n").tokens ∧
      (parse { tabWidth := 4 } "if a:\n\t\tb\n\tc\n").body = (parse {} "if a:\n\t\tb\n\tc\n").body := by
  obtain ⟨hscan, hbody, -, -⟩ := @parse_tabWidth {} 4 "if a:\n\t\tb\n\tc\n" (by decide) (by decide)
    (by decide +kernel)
  exact ⟨by decide +kernel, by decide +kernel, hscan.tokens, hbody⟩

end Document

end Offside
