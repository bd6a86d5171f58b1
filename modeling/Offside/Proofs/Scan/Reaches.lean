import Mathlib.Tactic.Common
import Offside.Scan

namespace Offside.Scan

variable {cfg : Config} {stops : List Offset} {s t u : State} {e e₁ e₂ : Emission}

namespace Emission

theorem append_assoc (a b c : Emission) : a ++ b ++ c = a ++ (b ++ c) := by
  change Emission.mk _ _ _ _ = Emission.mk _ _ _ _
  simp

@[simp]
theorem append_empty (a : Emission) : a ++ ({} : Emission) = a := by
  change Emission.mk _ _ _ _ = a
  simp

@[simp]
theorem empty_append (a : Emission) : ({} : Emission) ++ a = a := rfl

end Emission

theorem step_end (h : s.rest = []) :
    step cfg stops s = .done ⟨finish s ++ endMark s.pos, none⟩ := by
  rw [step, h]

theorem step_lineStart (h : s.rest ≠ []) (hl : s.atLineStart = true) :
    step cfg stops s = lineStart cfg stops s := by
  cases hrest : s.rest with
  | nil => exact absurd hrest h
  | cons c cs => simp only [step, hrest, if_pos hl]

theorem step_lineFeed {cs : List Char} (h : s.rest = '\n' :: cs) (hl : s.atLineStart = false) :
    step cfg stops s = .next (lineFeed s).1 (lineFeed s).2 := by
  simp only [step, h, hl, Bool.false_eq_true, if_false, if_true]

theorem step_lexeme {c : Char} {cs : List Char} (h : s.rest = c :: cs) (hl : s.atLineStart = false)
    (hc : c ≠ '\n') : step cfg stops s =
      .next (accept (Lexeme.recognise c cs).1 ((Lexeme.recognise c cs).2 + 1) s).1
        (accept (Lexeme.recognise c cs).1 ((Lexeme.recognise c cs).2 + 1) s).2 := by
  simp only [step, h, hl, Bool.false_eq_true, if_false, if_neg hc]

/-- A step that goes on looks at a line start, reads a line feed or reads a lexeme. -/
theorem step_cases (h : step cfg stops s = .next e t) :
    (s.rest ≠ [] ∧ s.atLineStart = true ∧ lineStart cfg stops s = .next e t) ∨
    (∃ cs, s.rest = '\n' :: cs ∧ s.atLineStart = false ∧ e = (lineFeed s).1 ∧ t = (lineFeed s).2) ∨
    ∃ c cs, s.rest = c :: cs ∧ s.atLineStart = false ∧ c ≠ '\n' ∧
      e = (accept (Lexeme.recognise c cs).1 ((Lexeme.recognise c cs).2 + 1) s).1 ∧
      t = (accept (Lexeme.recognise c cs).1 ((Lexeme.recognise c cs).2 + 1) s).2 := by
  cases hrest : s.rest with
  | nil =>
    rw [step_end hrest] at h
    contradiction
  | cons c cs =>
    cases hl : s.atLineStart with
    | true =>
      rw [step_lineStart (by simp [hrest]) hl] at h
      exact Or.inl ⟨by simp, rfl, h⟩
    | false =>
      by_cases hc : c = '\n'
      · subst hc
        rw [step_lineFeed hrest hl] at h
        cases h
        exact Or.inr (Or.inl ⟨cs, rfl, rfl, rfl, rfl⟩)
      · rw [step_lexeme hrest hl hc] at h
        cases h
        exact Or.inr (Or.inr ⟨c, cs, rfl, rfl, hc, rfl, rfl⟩)

theorem lineFeed_outer (h : s.openers = []) : lineFeed s =
    ({ tokens := if s.hasContent then [.layout .newline (Span.ofNat s.pos (s.pos + 1))] else [] },
      { s.skip 1 with hasContent := false, atLineStart := true }) := by
  simp [lineFeed, h]

theorem lineFeed_inner (h : s.openers ≠ []) : lineFeed s =
    ({ lineStates := [s.lineState (s.skip 1).pos none] }, s.skip 1) := by
  simp [lineFeed, h]

theorem Result.after_after (r : Result) (a b : Emission) : (r.after a).after b = r.after (b ++ a) := by
  rw [after, after, after, Emission.append_assoc]

/-- A stretch of a scan, with what it puts out. -/
inductive Reaches (cfg : Config) (stops : List Offset) (s : State) : Emission → State → Prop where
  | refl : Reaches cfg stops s {} s
  | tail {e e' : Emission} {t u : State} : Reaches cfg stops s e t →
      step cfg stops t = .next e' u → Reaches cfg stops s (e ++ e') u

theorem rest_accept (lexeme : Lexeme) (n : Nat) (s : State) :
    (accept lexeme n s).2.rest = s.rest.drop n := by
  cases lexeme <;> rfl

theorem rest_lineFeed (s : State) : (lineFeed s).2.rest = s.rest.drop 1 := by
  unfold lineFeed
  split <;> rfl

section LineStart

/-- What the line start of a line puts out, and the state behind it. -/
def entering (cfg : Config) (s : State) : Emission × State :=
  let indent := Layout.indentation cfg.tabWidth s.rest
  let contentStart := s.pos + indent.length
  let entered := indentTo indent.width s.pos contentStart { s with atLineStart := false }
  (({ lineStates := [s.lineState s.pos none] } : Emission) ++
      (if indent.mixed then
        { diagnostics := [⟨.mixedIndentation, Span.ofNat s.pos contentStart⟩] } else {}) ++ entered.1,
    { entered.2 with pos := contentStart, rest := s.rest.drop indent.length })

def content (cfg : Config) (s : State) : List Char :=
  s.rest.drop (Layout.indentation cfg.tabWidth s.rest).length

theorem lineStart_blank (h : Layout.startsBlankLine (content cfg s) = true) :
    lineStart cfg stops s = .next { lineStates := [s.lineState s.pos none] }
      { s with atLineStart := false, resyncing := false } := by
  unfold content at h
  unfold lineStart
  dsimp only
  rw [if_pos h]

theorem lineStart_comment (hb : Layout.startsBlankLine (content cfg s) = false)
    (h : Layout.startsCommentLine (content cfg s) = true) :
    lineStart cfg stops s = .next { lineStates := [s.lineState s.pos none] }
      { s with atLineStart := false } := by
  unfold content at h hb
  unfold lineStart
  dsimp only
  rw [if_neg (by simp [hb]), if_pos h]

theorem lineStart_content (hb : Layout.startsBlankLine (content cfg s) = false)
    (hc : Layout.startsCommentLine (content cfg s) = false)
    (h : ¬((Layout.indentation cfg.tabWidth s.rest).width = 0 ∧ UInt32.ofNat s.pos ∈ stops)) :
    lineStart cfg stops s = .next (entering cfg s).1 (entering cfg s).2 := by
  unfold content at hb hc
  unfold lineStart
  dsimp only
  rw [if_neg (by simp [hb]), if_neg (by simp [hc]), if_neg h]
  rfl

theorem lineStart_stop (hb : Layout.startsBlankLine (content cfg s) = false)
    (hc : Layout.startsCommentLine (content cfg s) = false)
    (h : (Layout.indentation cfg.tabWidth s.rest).width = 0 ∧ UInt32.ofNat s.pos ∈ stops) :
    lineStart cfg stops s = .done ⟨({ lineStates := [s.lineState s.pos none] } : Emission) ++
      (indentTo 0 s.pos (s.pos + (Layout.indentation cfg.tabWidth s.rest).length)
        { s with atLineStart := false }).1 ++ endMark s.pos, some (UInt32.ofNat s.pos)⟩ := by
  unfold content at hb hc
  unfold lineStart
  dsimp only
  rw [if_neg (by simp [hb]), if_neg (by simp [hc]), if_pos h]

/-- The line start of a blank line, of a comment line, and of a line with content. -/
theorem lineStart_cases (h : lineStart cfg stops s = .next e t) :
    (Layout.startsBlankLine (content cfg s) = true ∧ e = { lineStates := [s.lineState s.pos none] } ∧
      t = { s with atLineStart := false, resyncing := false }) ∨
    (Layout.startsBlankLine (content cfg s) = false ∧
      Layout.startsCommentLine (content cfg s) = true ∧
      e = { lineStates := [s.lineState s.pos none] } ∧ t = { s with atLineStart := false }) ∨
    Layout.startsBlankLine (content cfg s) = false ∧
      Layout.startsCommentLine (content cfg s) = false ∧
      ¬((Layout.indentation cfg.tabWidth s.rest).width = 0 ∧ UInt32.ofNat s.pos ∈ stops) ∧
      e = (entering cfg s).1 ∧ t = (entering cfg s).2 := by
  cases hb : Layout.startsBlankLine (content cfg s) with
  | true =>
    rw [lineStart_blank hb] at h
    cases h
    exact Or.inl ⟨rfl, rfl, rfl⟩
  | false =>
    cases hc : Layout.startsCommentLine (content cfg s) with
    | true =>
      rw [lineStart_comment hb hc] at h
      cases h
      exact Or.inr (Or.inl ⟨rfl, rfl, rfl, rfl⟩)
    | false =>
      by_cases hstop : (Layout.indentation cfg.tabWidth s.rest).width = 0 ∧ UInt32.ofNat s.pos ∈ stops
      · rw [lineStart_stop hb hc hstop] at h
        contradiction
      · rw [lineStart_content hb hc hstop] at h
        cases h
        exact Or.inr (Or.inr ⟨rfl, rfl, hstop, rfl, rfl⟩)

end LineStart

/-- A scan ends with its text or at a stop point. -/
theorem step_done {r : Result} (h : step cfg stops s = .done r) :
    s.rest = [] ∧ r = ⟨finish s ++ endMark s.pos, none⟩ ∨
      s.rest ≠ [] ∧ s.atLineStart = true ∧ UInt32.ofNat s.pos ∈ stops := by
  cases hrest : s.rest with
  | nil =>
    rw [step_end hrest] at h
    cases h
    exact Or.inl ⟨rfl, rfl⟩
  | cons c cs =>
    right
    cases hl : s.atLineStart with
    | true =>
      refine ⟨by simp, rfl, ?_⟩
      rw [step_lineStart (by simp [hrest]) hl] at h
      by_contra hstop
      cases hb : Layout.startsBlankLine (content cfg s) with
      | true => simp [lineStart_blank hb] at h
      | false =>
        cases hc : Layout.startsCommentLine (content cfg s) with
        | true => simp [lineStart_comment hb hc] at h
        | false => simp [lineStart_content hb hc fun hs => hstop hs.2] at h
    | false =>
      by_cases hc : c = '\n'
      · subst hc
        simp [step_lineFeed hrest hl] at h
      · simp [step_lexeme hrest hl hc] at h

/-- What is left behind a step ends what was left before it. -/
theorem rest_step (h : step cfg stops s = .next e t) : ∃ y, s.rest = y ++ t.rest := by
  have hdrop (n : Nat) : ∃ y, s.rest = y ++ s.rest.drop n :=
    ⟨s.rest.take n, (List.take_append_drop n s.rest).symm⟩
  rcases step_cases h with ⟨-, -, h⟩ | ⟨cs, -, -, -, rfl⟩ | ⟨c, cs, -, -, -, -, rfl⟩
  · rcases lineStart_cases h with ⟨-, -, rfl⟩ | ⟨-, -, -, rfl⟩ | ⟨-, -, -, -, rfl⟩
    · exact ⟨[], rfl⟩
    · exact ⟨[], rfl⟩
    · exact hdrop _
  · rw [rest_lineFeed]
    exact hdrop 1
  · rw [rest_accept]
    exact hdrop _

namespace Reaches

theorem single (h : step cfg stops s = .next e t) : Reaches cfg stops s e t :=
  .tail .refl h

theorem trans (h : Reaches cfg stops s e₁ t) (h₂ : Reaches cfg stops t e₂ u) :
    Reaches cfg stops s (e₁ ++ e₂) u := by
  induction h₂ with
  | refl => rwa [Emission.append_empty]
  | tail _ hstep ih =>
    rw [← Emission.append_assoc]
    exact .tail ih hstep

theorem run_eq (h : Reaches cfg stops s e t) : run cfg stops s = (run cfg stops t).after e := by
  induction h with
  | refl => rfl
  | tail _ hstep ih => rw [ih, run_of_next hstep, Result.after_after]

/-- The first step of a stretch. -/
theorem head (h : Reaches cfg stops s e u) :
    s = u ∧ e = {} ∨ ∃ e₁ t e₂, step cfg stops s = .next e₁ t ∧ Reaches cfg stops t e₂ u ∧
      e = e₁ ++ e₂ := by
  induction h with
  | refl => exact Or.inl ⟨rfl, rfl⟩
  | @tail e e' t u h hstep ih =>
    right
    rcases ih with ⟨rfl, rfl⟩ | ⟨e₁, t₁, e₂, h₁, h₂, rfl⟩
    · exact ⟨e', u, {}, hstep, .refl, by simp⟩
    · exact ⟨e₁, t₁, e₂ ++ e', h₁, .tail h₂ hstep, Emission.append_assoc _ _ _⟩

/-- Of two states on one scan, one comes before the other. -/
theorem linear (h : Reaches cfg stops s e₁ t) (h₂ : Reaches cfg stops s e₂ u) :
    (∃ e, Reaches cfg stops t e u ∧ e₂ = e₁ ++ e) ∨ ∃ e, Reaches cfg stops u e t ∧ e₁ = e₂ ++ e := by
  induction h with
  | refl => exact Or.inl ⟨e₂, h₂, rfl⟩
  | @tail e₁ e' t t₁ h hstep ih =>
    rcases ih with ⟨e, h₃, rfl⟩ | ⟨e, h₃, rfl⟩
    · rcases h₃.head with ⟨rfl, rfl⟩ | ⟨e₁', t₂, e₃, hfirst, h₃, rfl⟩
      · exact Or.inr ⟨e', .single hstep, by simp⟩
      · obtain ⟨rfl, rfl⟩ := Step.next.inj (hstep.symm.trans hfirst)
        exact Or.inl ⟨e₃, h₃, (Emission.append_assoc _ _ _).symm⟩
    · exact Or.inr ⟨e ++ e', .tail h₃ hstep, Emission.append_assoc _ _ _⟩

end Reaches

/-- Every scan comes to a state that ends it. -/
theorem exists_done (cfg : Config) (stops : List Offset) (s : State) :
    ∃ e t r, Reaches cfg stops s e t ∧ step cfg stops t = .done r ∧ run cfg stops s = r.after e := by
  induction s using WellFounded.induction (measure State.measure).wf with
  | _ s ih =>
    cases hstep : step cfg stops s with
    | done r => exact ⟨{}, s, r, .refl, hstep, by rw [run_of_done hstep]; rfl⟩
    | next e t =>
      obtain ⟨e₂, u, r, h, hdone, hrun⟩ := ih t (measure_step hstep)
      exact ⟨e ++ e₂, u, r, (Reaches.single hstep).trans h, hdone, by
        rw [run_of_next hstep, hrun, Result.after_after]⟩

/-- Without stop points a scan comes to the end of its text. -/
theorem exists_end (cfg : Config) (s : State) : ∃ e t, Reaches cfg [] s e t ∧ t.rest = [] ∧
    run cfg [] s = ⟨e ++ (finish t ++ endMark t.pos), none⟩ := by
  obtain ⟨e, t, r, h, hdone, hrun⟩ := exists_done cfg [] s
  rcases step_done hdone with ⟨hrest, rfl⟩ | ⟨-, -, hstop⟩
  · exact ⟨e, t, h, hrest, hrun⟩
  · exact absurd hstop List.not_mem_nil

end Offside.Scan
