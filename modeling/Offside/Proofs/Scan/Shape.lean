import Offside.Proofs.Layout.Levels
import Offside.Proofs.Scan.Reaches
import Offside.Proofs.Seam

namespace Offside

def Kind.isPlain : Kind → Bool
  | .openParen | .openBracket | .openCurly | .closeParen | .closeBracket | .closeCurly => false
  | k => !k.isLayout

theorem Depth.after_plain {k : Kind} (h : k.isPlain = true) (p : Depth) : p.after k = p := by
  cases k <;> first | rfl | simp [Kind.isPlain, Kind.isLayout] at h

namespace Lexeme

/-- Tokens are no layout, and those that open and close brackets are known as such. -/
def Proper : Lexeme → Prop
  | .token k => k.isPlain = true
  | .opener k => k.isLayout = false ∧ ∀ p : Depth, p.after k = ⟨p.brackets + 1, p.blocks⟩
  | .closer k => k.isLayout = false ∧ ∀ p : Depth, p.after k = ⟨p.brackets - 1, p.blocks⟩
  | _ => True

theorem isPlain_word : ∀ k ∈ Kind.words, k.isPlain = true := by decide

theorem isPlain_operator : ∀ k ∈ Kind.operators, k.isPlain = true := by decide

theorem bracket?_proper {c : Char} {l : Lexeme} (h : bracket? c = some l) : l.Proper := by
  unfold bracket? at h
  split at h <;> cases h <;> exact ⟨rfl, fun _ => rfl⟩

theorem recognise_proper (c : Char) (cs : List Char) : (recognise c cs).1.Proper := by
  unfold recognise
  split
  · cases h : Kind.ofWord? (String.ofList (c :: cs.takeWhile isWordChar)) with
    | none =>
      simp only [word, h]
      rfl
    | some k =>
      simp only [word, h]
      exact isPlain_word k (List.mem_of_find?_eq_some h)
  split
  · unfold number
    split <;> rfl
  split
  · trivial
  split
  · split <;> trivial
  split
  · trivial
  split
  · unfold quotation
    split <;> trivial
  split
  · unfold quotation
    split <;> trivial
  split
  · next l h => exact bracket?_proper h
  · unfold symbol
    split
    · next k h => exact isPlain_operator k (List.mem_of_find?_eq_some h)
    · trivial

end Lexeme

namespace Scan

variable {cfg : Config} {stops : List Offset} {s t : State} {e : Emission}

structure State.Sound (s : State) : Prop where
  levels : Layout.Nested s.levels
  lineStart : s.atLineStart = true → s.hasContent = false
  openers : s.openers ≠ [] → s.hasContent = true

theorem State.Sound.openers_eq (h : s.Sound) (hl : s.atLineStart = true) : s.openers = [] := by
  by_contra ho
  have hcontent := h.openers ho
  rw [h.lineStart hl] at hcontent
  contradiction

theorem State.sound_start (source : String) : (State.start source).Sound where
  levels := ⟨[], rfl, nofun⟩
  lineStart _ := rfl
  openers h := absurd rfl h

def State.depth (s : State) : Depth := ⟨s.openers.length, s.levels.length - 1⟩

theorem orderly_dedents {n k : Nat} (p : Span) {us : List Token} (h : Orderly ⟨0, n⟩ us) :
    Orderly ⟨0, k + n⟩ (List.replicate k (.layout .dedent p) ++ us) := by
  induction k with
  | zero => rwa [Nat.zero_add]
  | succ k ih =>
    have hdepth : Depth.after ⟨0, k + 1 + n⟩ .dedent = ⟨0, k + n⟩ := by
      rw [Depth.after, Nat.add_right_comm, Nat.add_sub_cancel]
    refine ⟨nofun, fun _ => ⟨rfl, by rw [Nat.add_right_comm]; exact Nat.succ_pos _⟩, ?_⟩
    rw [Token.layout, hdepth]
    exact ih

theorem along_dedents (k n : Nat) (p : Span) :
    Depth.along ⟨0, k + n⟩ (List.replicate k (.layout .dedent p)) = ⟨0, n⟩ := by
  induction k with
  | zero => rw [Nat.zero_add]; rfl
  | succ k ih =>
    have hdepth : Depth.after ⟨0, k + 1 + n⟩ .dedent = ⟨0, k + n⟩ := by
      rw [Depth.after, Nat.add_right_comm, Nat.add_sub_cancel]
    rw [List.replicate_succ, Depth.along, Token.layout, hdepth]
    exact ih

/-- What a stretch between two states does: its tokens lead from the depth of the one to that of the
other, and are in order before tokens that are. -/
structure Leads (s : State) (ts : List Token) (t : State) : Prop where
  sound : t.Sound
  depth : s.depth.along ts = t.depth
  orderly : ∀ us, Orderly t.depth us → Orderly s.depth (ts ++ us)

theorem Leads.trans {u : State} {ts us : List Token} (h : Leads s ts t) (h₂ : Leads t us u) :
    Leads s (ts ++ us) u where
  sound := h₂.sound
  depth := by rw [Depth.along_append, h.depth, h₂.depth]
  orderly vs hvs := by
    rw [List.append_assoc]
    exact h.orderly _ (h₂.orderly vs hvs)

theorem leads_silent (ht : t.Sound) (hd : t.depth = s.depth) : Leads s [] t where
  sound := ht
  depth := hd.symm
  orderly us hus := by rwa [hd] at hus

theorem indentTo_leads (hs : s.Sound) (hl : s.openers = []) (hc : s.hasContent = false)
    (width a b : Nat) :
    Leads s (indentTo width a b s).1.tokens (indentTo width a b s).2 := by
  have hdepth : s.depth = ⟨0, s.levels.length - 1⟩ := by rw [State.depth, hl]; rfl
  have hsound {t : State} (hn : Layout.Nested t.levels) (ho : t.openers = [])
      (ht : t.hasContent = s.hasContent) : t.Sound :=
    ⟨hn, fun _ => ht.trans hc, fun h => absurd ho h⟩
  unfold indentTo
  split
  · exact leads_silent hs rfl
  have hlength := hs.levels.length_pos
  rcases Layout.enter_cases hs.levels width with ⟨heq, hw⟩ | heq |
    ⟨count, matched, left, heq, hleft, hcount⟩
  · rw [heq]
    have hopen : Depth.after ⟨0, s.levels.length - 1⟩ .indent = ⟨0, s.levels.length⟩ := by
      rw [Depth.after, Nat.sub_add_cancel hlength]
    have hd : State.depth { s with levels := width :: s.levels, resyncing := false } =
        ⟨0, s.levels.length⟩ := by
      rw [State.depth, hl]
      rfl
    refine ⟨hsound (hs.levels.cons hw) hl rfl, ?_, fun us hus => ⟨nofun, nofun, ?_⟩⟩
    · rw [hd, hdepth]
      exact hopen
    · rw [hd] at hus
      rw [hdepth, Token.layout, hopen]
      exact hus
  · rw [heq]
    exact leads_silent (hsound hs.levels hl rfl) rfl
  · rw [heq]
    have hd : State.depth { s with levels := left, resyncing := !matched } =
        ⟨0, left.length - 1⟩ := by
      rw [State.depth, hl]
      rfl
    have hsum : s.levels.length - 1 = count + (left.length - 1) := by
      have := hleft.length_pos
      omega
    refine ⟨hsound hleft hl rfl, ?_, fun us hus => ?_⟩
    · rw [hd, hdepth, hsum]
      exact along_dedents _ _ _
    · rw [hd] at hus
      rw [hdepth, hsum]
      exact orderly_dedents _ hus

theorem accept_leads (hs : s.Sound) (hl : s.atLineStart = false) {lexeme : Lexeme}
    (hlexeme : lexeme.Proper) (n : Nat) :
    Leads s (accept lexeme n s).1.tokens (accept lexeme n s).2 := by
  have hskip : (s.skip n).Sound := ⟨hs.levels, hs.lineStart, hs.openers⟩
  have hnoting {k : Kind} (hk : k.isLayout = false) (os : List Opener) :
      State.Sound { (s.skip n).noting k with openers := os } :=
    ⟨hs.levels, fun h => absurd h (by simp [State.noting, State.skip, hl]),
      fun _ => by simp [State.noting, hk]⟩
  have hone {k : Kind} (hk : k.isLayout = false) (x : Token) (hx : x.kind = k) (os : List Opener)
      (hd : s.depth.after k = State.depth { (s.skip n).noting k with openers := os }) :
      Leads s [x] { (s.skip n).noting k with openers := os } := by
    subst hx
    refine ⟨hnoting hk os, hd, fun us hus => ⟨?_, ?_, by rwa [hd]⟩⟩
    · rintro h
      rw [h] at hk
      contradiction
    · rintro h
      rw [h] at hk
      contradiction
  unfold accept
  cases lexeme with
  | token k =>
    have hk : k.isLayout = false := by
      revert hlexeme
      cases k <;> simp [Lexeme.Proper, Kind.isPlain, Kind.isLayout]
    exact hone hk _ rfl s.openers (Depth.after_plain hlexeme _)
  | opener k => exact hone hlexeme.1 _ rfl _ (hlexeme.2 _)
  | closer k =>
    refine hone hlexeme.1 _ rfl _ ((hlexeme.2 _).trans ?_)
    simp [State.depth, State.noting, State.skip]
  | string => exact hone rfl _ rfl s.openers rfl
  | longString => exact hone rfl _ rfl s.openers rfl
  | comment => exact leads_silent hskip rfl
  | space => exact leads_silent hskip rfl
  | continuation => exact leads_silent hskip rfl
  | unknown => exact leads_silent hskip rfl

theorem lineFeed_leads (hs : s.Sound) : Leads s (lineFeed s).1.tokens (lineFeed s).2 := by
  by_cases ho : s.openers = []
  · rw [lineFeed_outer ho]
    have hsound : State.Sound { s.skip 1 with hasContent := false, atLineStart := true } :=
      ⟨hs.levels, fun _ => rfl, fun h => absurd ho h⟩
    have hd : State.depth { s.skip 1 with hasContent := false, atLineStart := true } = s.depth := rfl
    have hflat : s.depth.after .newline = s.depth := by
      rw [State.depth, ho]
      rfl
    cases s.hasContent with
    | false => exact leads_silent hsound rfl
    | true => exact ⟨hsound, hflat, fun us hus => ⟨nofun, nofun, by
        rw [hd] at hus
        rw [Token.layout, hflat]
        exact hus⟩⟩
  · rw [lineFeed_inner ho]
    exact leads_silent ⟨hs.levels, hs.lineStart, hs.openers⟩ rfl

theorem entering_tokens (cfg : Config) (s : State) : (entering cfg s).1.tokens =
    (indentTo (Layout.indentation cfg.tabWidth s.rest).width s.pos
      (s.pos + (Layout.indentation cfg.tabWidth s.rest).length)
      { s with atLineStart := false }).1.tokens := by
  unfold entering
  dsimp only
  split <;> rfl

theorem lineStart_leads (hs : s.Sound) (hl : s.atLineStart = true)
    (h : lineStart cfg stops s = .next e t) : Leads s e.tokens t := by
  have ho := hs.openers_eq hl
  have hc := hs.lineStart hl
  rcases lineStart_cases h with ⟨-, rfl, rfl⟩ | ⟨-, -, rfl, rfl⟩ | ⟨-, -, -, rfl, rfl⟩
  · exact leads_silent ⟨hs.levels, nofun, hs.openers⟩ rfl
  · exact leads_silent ⟨hs.levels, nofun, hs.openers⟩ rfl
  · have hoff : State.Sound { s with atLineStart := false } := ⟨hs.levels, nofun, hs.openers⟩
    have henter := indentTo_leads hoff ho hc (Layout.indentation cfg.tabWidth s.rest).width s.pos
      (s.pos + (Layout.indentation cfg.tabWidth s.rest).length)
    rw [entering_tokens]
    exact ⟨⟨henter.sound.levels, henter.sound.lineStart, henter.sound.openers⟩, henter.depth,
      henter.orderly⟩

theorem step_leads (hs : s.Sound) (h : step cfg stops s = .next e t) : Leads s e.tokens t := by
  rcases step_cases h with ⟨-, hl, h⟩ | ⟨cs, -, -, rfl, rfl⟩ | ⟨c, cs, -, hl, -, rfl, rfl⟩
  · exact lineStart_leads hs hl h
  · exact lineFeed_leads hs
  · exact accept_leads hs hl (Lexeme.recognise_proper c cs) _

/-- The depth of a state is that of the tokens before it. -/
theorem Reaches.leads (h : Reaches cfg stops s e t) (hs : s.Sound) : Leads s e.tokens t := by
  induction h with
  | refl => exact leads_silent hs rfl
  | tail _ hstep ih => exact ih.trans (step_leads ih.sound hstep)

/-- What ends a scan closes its blocks. -/
theorem finish_orderly (hs : s.Sound) : Orderly s.depth (finish s).tokens := by
  have hdedents : Orderly ⟨0, s.levels.length - 1⟩ (List.replicate (s.levels.length - 1)
      (.layout .dedent (Span.ofNat s.pos s.pos))) := by
    have hnone : Orderly ⟨0, 0⟩ [] := rfl
    have hdedents := orderly_dedents (k := s.levels.length - 1) (Span.ofNat s.pos s.pos) hnone
    rwa [List.append_nil] at hdedents
  unfold finish
  dsimp only
  cases hc : s.hasContent with
  | true => exact ⟨nofun, nofun, hdedents⟩
  | false =>
    have ho : s.openers = [] := by
      by_contra ho
      rw [hs.openers ho] at hc
      contradiction
    rw [State.depth, ho]
    exact hdedents

end Scan

end Offside
