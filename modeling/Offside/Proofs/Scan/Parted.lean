import Mathlib.Data.List.Pairwise
import Offside.Proofs.Scan.Layout
import Offside.Proofs.Scan.Resume
import Offside.Proofs.Seam.Stream

namespace Offside

def Span.Beside (o : Offset) (p : Span) : Prop :=
  p.start ≤ o ∧ p.stop ≤ o ∨ o ≤ p.start ∧ o ≤ p.stop

section Beside

variable {p : Span} {ts : List Token} {t u : Token}

theorem Span.beside_start (h : p.start ≤ p.stop) : p.Beside p.start :=
  Or.inr ⟨UInt32.le_refl _, h⟩

theorem Span.beside_stop (h : p.start ≤ p.stop) : p.Beside p.stop :=
  Or.inl ⟨h, UInt32.le_refl _⟩

/-- Tokens in order keep to one side of where each of them starts. -/
theorem InOrder.beside (h : InOrder ts) (ht : t ∈ ts) (hu : u ∈ ts) : u.span.Beside t.span.start := by
  refine List.Pairwise.forall_of_forall_of_flip (R := fun t u : Token => u.span.Beside t.span.start)
    (fun t ht => Span.beside_start (h.start_le t ht)) (h.disjoint.imp_of_mem fun {t u} ht hu htu => ?_)
    (h.disjoint.imp_of_mem fun {t u} ht hu htu => ?_) ht hu
  · have hle := UInt32.le_trans (h.start_le t ht) htu
    exact Or.inr ⟨hle, UInt32.le_trans hle (h.start_le u hu)⟩
  · exact Or.inl ⟨UInt32.le_trans (h.start_le t ht) htu, htu⟩

end Beside

namespace Scan

open Layout (LineState)

variable {cfg : Config} {stops : List Offset} {s t u : State} {e e' : Emission} {p : Span}

namespace Emission

def marks (e : Emission) : List Span := e.comments.map Token.span ++ e.diagnostics.map Diagnostic.span

/-- Comments and faults keep to one side of where each token starts. -/
def Parted (e : Emission) : Prop := ∀ x ∈ e.tokens, ∀ p ∈ e.marks, p.Beside x.span.start

theorem mem_marks : p ∈ e.marks ↔ (∃ t ∈ e.comments, t.span = p) ∨ ∃ d ∈ e.diagnostics, d.span = p := by
  simp only [marks, List.mem_append, List.mem_map]

theorem mem_marks_append : p ∈ (e ++ e').marks ↔ p ∈ e.marks ∨ p ∈ e'.marks := by
  simp only [marks, append_comments, append_diagnostics, List.map_append, List.mem_append]
  tauto

theorem Between.marks {a b : Nat} (h : e.Between a b) (hp : p ∈ e.marks) : p.Between a b := by
  rcases mem_marks.mp hp with ⟨t, ht, rfl⟩ | ⟨d, hd, rfl⟩
  · exact h.comments t ht
  · exact h.diagnostics d hd

theorem Parted.append {a m b : Nat} (h : e.Parted) (h' : e'.Parted) (hbetween : e.Between a m)
    (hbetween' : e'.Between m b) (hm : m < UInt32.size) (hb : b < UInt32.size) : (e ++ e').Parted := by
  intro x hx p hp
  rcases List.mem_append.mp hx with hx | hx
  · rcases mem_marks_append.mp hp with hp | hp
    · exact h x hx p hp
    · have hleft := ((hbetween.tokens x hx).inside hm).1.2
      obtain ⟨⟨hstart, -⟩, hstop, -⟩ := (hbetween'.marks hp).inside hb
      exact Or.inr ⟨UInt32.le_trans hleft hstart, UInt32.le_trans hleft hstop⟩
  · rcases mem_marks_append.mp hp with hp | hp
    · have hright := ((hbetween'.tokens x hx).inside hb).1.1
      obtain ⟨⟨-, hstart⟩, -, hstop⟩ := (hbetween.marks hp).inside hm
      exact Or.inl ⟨UInt32.le_trans hstart hright, UInt32.le_trans hstop hright⟩
    · exact h' x hx p hp

end Emission

/-- The tokens and faults of a line start stand at the ends of its indentation. -/
theorem entering_ends (cfg : Config) (s : State) :
    let lead := Span.ofNat s.pos (s.pos + (Layout.indentation cfg.tabWidth s.rest).length)
    (∀ x ∈ (entering cfg s).1.tokens, x.span.start = lead.start ∨ x.span.start = lead.stop) ∧
      ∀ p ∈ (entering cfg s).1.marks, p = lead := by
  intro lead
  have hindent (width : Nat) (s' : State) :
      (∀ x ∈ (indentTo width s.pos (s.pos + (Layout.indentation cfg.tabWidth s.rest).length) s').1.tokens,
        x.span.start = lead.start ∨ x.span.start = lead.stop) ∧
      ∀ p ∈ (indentTo width s.pos (s.pos + (Layout.indentation cfg.tabWidth s.rest).length) s').1.marks,
        p = lead := by
    unfold indentTo
    split
    · exact ⟨List.forall_mem_nil _, List.forall_mem_nil _⟩
    · dsimp only
      split
      · exact ⟨List.forall_mem_singleton.mpr (Or.inl rfl), List.forall_mem_nil _⟩
      · exact ⟨List.forall_mem_nil _, List.forall_mem_nil _⟩
      · refine ⟨fun x hx => Or.inr (by rw [List.eq_of_mem_replicate hx]; rfl), ?_⟩
        split
        · exact List.forall_mem_nil _
        · exact List.forall_mem_singleton.mpr rfl
  rw [entering_tokens]
  refine ⟨(hindent _ _).1, fun p hp => ?_⟩
  rcases Emission.mem_marks_append.mp hp with hp | hp
  · rcases Emission.mem_marks_append.mp hp with hp | hp
    · exact absurd hp List.not_mem_nil
    · split at hp
      · exact List.mem_singleton.mp hp
      · exact absurd hp List.not_mem_nil
  · exact (hindent _ _).2 p hp

theorem mark_of_accept (lexeme : Lexeme) (n : Nat) (s : State) :
    ∀ x ∈ (accept lexeme n s).1.tokens, ∀ p ∈ (accept lexeme n s).1.marks, p = x.span := by
  have hunclosed (terminated : Bool) (span : Span) : ∀ d ∈ (if terminated then [] else
      [⟨.unterminatedString, span⟩] : List Diagnostic), d.span = span := by
    cases terminated with
    | true => exact List.forall_mem_nil _
    | false => exact List.forall_mem_singleton.mpr rfl
  cases lexeme with
  | string terminated => exact List.forall_mem_singleton.mpr (List.forall_mem_map.mpr (hunclosed _ _))
  | longString quote terminated =>
    exact List.forall_mem_singleton.mpr (List.forall_mem_map.mpr (hunclosed _ _))
  | token | opener | closer => exact fun _ _ => List.forall_mem_nil _
  | comment | space | continuation | unknown => exact List.forall_mem_nil _

theorem step_parted (h : step cfg stops s = .next e t) (hlimit : s.limit < UInt32.size) : e.Parted := by
  have hcovers := step_covers h
  have hpos : t.pos < UInt32.size := Nat.lt_of_le_of_lt hcovers.pos_le_limit hlimit
  intro x hx p hp
  have hle : p.start ≤ p.stop := (hcovers.between.marks hp).start_le hpos
  rcases step_cases h with ⟨-, -, hstart⟩ | ⟨cs, -, -, rfl, -⟩ | ⟨c, cs, -, -, -, rfl, -⟩
  · rcases lineStart_cases hstart with ⟨-, rfl, -⟩ | ⟨-, -, rfl, -⟩ | ⟨-, -, -, rfl, -⟩
    · exact absurd hx List.not_mem_nil
    · exact absurd hx List.not_mem_nil
    · obtain ⟨htokens, hmarks⟩ := entering_ends cfg s
      obtain rfl := hmarks p hp
      rcases htokens x hx with heq | heq
      · exact heq ▸ Span.beside_start hle
      · exact heq ▸ Span.beside_stop hle
  · have hnone : (lineFeed s).1.marks = [] := by
      unfold lineFeed
      dsimp only
      split <;> rfl
    rw [hnone] at hp
    exact absurd hp List.not_mem_nil
  · rw [mark_of_accept _ _ s x hx p hp] at hle ⊢
    exact Span.beside_start hle

theorem Reaches.parted (h : Reaches cfg stops s e t) (hlimit : s.limit < UInt32.size) : e.Parted := by
  induction h with
  | refl => exact fun _ hx => absurd hx List.not_mem_nil
  | @tail e e' t u h hstep ih =>
    have hcovers := h.covers
    have hcovers' := step_covers hstep
    have ht : t.limit < UInt32.size := hcovers.limit_eq ▸ hlimit
    exact ih.append (step_parted hstep ht) hcovers.between hcovers'.between
      (Nat.lt_of_le_of_lt hcovers.pos_le_limit hlimit) (Nat.lt_of_le_of_lt hcovers'.pos_le_limit ht)

/-- A bracket that gets opened is a token. -/
theorem step_openers (h : step cfg stops s = .next e t) :
    ∀ o ∈ t.openers, o ∈ s.openers ∨ ∃ x ∈ e.tokens, x.span = o.span := by
  intro o ho
  rcases step_cases h with ⟨-, -, hstart⟩ | ⟨cs, -, -, rfl, rfl⟩ | ⟨c, cs, -, -, -, rfl, rfl⟩
  · left
    rcases lineStart_cases hstart with ⟨-, -, rfl⟩ | ⟨-, -, -, rfl⟩ | ⟨-, -, -, -, rfl⟩
    · exact ho
    · exact ho
    · exact entering_openers cfg s ▸ ho
  · left
    unfold lineFeed at ho
    dsimp only at ho
    split at ho <;> exact ho
  · generalize (Lexeme.recognise c cs).1 = lexeme at ho ⊢
    cases lexeme with
    | opener kind =>
      rcases List.mem_cons.mp ho with rfl | ho
      · exact Or.inr ⟨_, List.mem_singleton_self _, rfl⟩
      · exact Or.inl ho
    | closer kind => exact Or.inl (List.mem_of_mem_tail ho)
    | _ => exact Or.inl ho

theorem Reaches.openers (h : Reaches cfg stops s e t) :
    ∀ o ∈ t.openers, o ∈ s.openers ∨ ∃ x ∈ e.tokens, x.span = o.span := by
  induction h with
  | refl => exact fun _ => Or.inl
  | tail h hstep ih =>
    intro o ho
    rcases step_openers hstep o ho with ho | ⟨x, hx, hspan⟩
    · exact (ih o ho).imp_right fun ⟨x, hx, hspan⟩ => ⟨x, List.mem_append_left _ hx, hspan⟩
    · exact Or.inr ⟨x, List.mem_append_right _ hx, hspan⟩

/-- Recorded levels are those of a state. -/
theorem Reaches.lineStates_levels (h : Reaches cfg stops s e t) (hs : s.Sound) :
    ∀ l ∈ e.lineStates, Layout.Nested l.snapshot.levels := by
  induction h with
  | refl => exact List.forall_mem_nil _
  | tail h hstep ih =>
    refine List.forall_mem_append.mpr ⟨ih, fun l hl => ?_⟩
    rw [(step_lineStates hstep l hl).1]
    exact (h.leads hs).sound.levels

/-- A run over the text between two positions. Behind the tokens that it read it ends the last line and
the open blocks, at a position of their own, and then marks the end. -/
structure Ended (a b c : Nat) (e : Emission) (closing : List Token) (r : Result) : Prop where
  pos_le : a ≤ b
  le : b ≤ c
  tokens : r.tokens = e.tokens ++ closing ++ [.layout .eof (Span.ofNat b b)]
  comments : r.comments = e.comments
  diagnostics : r.diagnostics = e.diagnostics
  lineStates : r.lineStates = e.lineStates
  between : e.Between a b
  parted : e.Parted
  inOrder : InOrder (e.tokens ++ closing)
  comments_inOrder : InOrder e.comments
  blank : ∀ x ∈ closing, x.kind.isBlank = true ∧ x.span = Span.ofNat c c
  /-- Where the blocks end behind the end mark, some do. -/
  closes : c = b ∨ ∃ x, closing.getLast? = some x ∧ x.kind = .dedent
  orderly : ∃ n, Orderly ⟨0, n⟩ (e.tokens ++ closing)
  increasing : e.lineStates.Pairwise fun l m => l.offset < m.offset
  levels : ∀ l ∈ e.lineStates, Layout.Nested l.snapshot.levels

theorem finish_blank (t : State) : ∀ x ∈ (finish t).tokens, x.kind.isBlank = true := by
  refine List.forall_mem_append.mpr ⟨?_, fun x hx => by rw [List.eq_of_mem_replicate hx]; rfl⟩
  split
  · exact List.forall_mem_singleton.mpr rfl
  · exact List.forall_mem_nil _

/-- What the end of a text reports is an open bracket. -/
theorem finish_reports (t : State) : ∀ d ∈ (finish t).diagnostics, ∃ o ∈ t.openers, d.span = o.span := by
  intro d hd
  obtain ⟨o, ho, rfl⟩ := Option.map_eq_some_iff.mp (Option.mem_toList.mp hd)
  exact ⟨o, List.mem_of_getLast? ho, rfl⟩

/-- The dedents of a line without indentation stand at its content, or there are none. -/
theorem leaving_tokens (cfg : Config) (t : State) : ∃ c, t.pos ≤ c ∧ c ≤ t.limit ∧
    ((Layout.indentation cfg.tabWidth t.rest).length = 0 → c = t.pos) ∧
    (t.leaving cfg).tokens = List.replicate (t.levels.length - 1) (.layout .dedent (Span.ofNat c c)) ∧
    (c = t.pos ∨ t.levels.length - 1 ≠ 0) := by
  have hsize := limit_indentation cfg t
  by_cases hnone : t.levels.length - 1 = 0
  · exact ⟨t.pos, Nat.le_refl _, Nat.le_add_right _ _, fun _ => rfl, by rw [State.leaving, hnone]; rfl,
      Or.inl rfl⟩
  · exact ⟨_, Nat.le_add_right _ _, by omega, fun hzero => by rw [hzero, Nat.add_zero], rfl, Or.inr hnone⟩

/-- The dedents at a line without indentation close all the blocks that are open there. -/
theorem State.Unindented.orderly_leaving (hline : t.Unindented cfg) (hs : t.Sound) :
    Orderly t.depth (t.leaving cfg).tokens := by
  obtain ⟨c, -, -, -, hclosing, -⟩ := leaving_tokens cfg t
  have hnone : Orderly ⟨0, 0⟩ [] := rfl
  rw [State.depth, hs.openers_eq hline.lineStart, hclosing]
  simpa using orderly_dedents (k := t.levels.length - 1) (Span.ofNat c c) hnone

section Ended

variable (hs : s.Sound) (ho : s.openers = []) (hlimit : s.limit < UInt32.size)
  (h : Reaches cfg stops s e t)

include hs ho hlimit h

theorem ended_end : Ended s.pos t.pos t.pos
    (e ++ { diagnostics := (finish t).diagnostics }) (finish t).tokens ⟨e ++ (finish t ++ endMark t.pos), none⟩ := by
  have hcovers := h.covers
  have hleads := h.leads hs
  have hpos : t.pos < UInt32.size := Nat.lt_of_le_of_lt hcovers.pos_le_limit hlimit
  have hdepth : s.depth = ⟨0, s.levels.length - 1⟩ := by rw [State.depth, ho]; rfl
  have hfinish : (finish t ++ endMark t.pos).Between s.pos t.pos :=
    hcovers.finish (Nat.le_refl _) fun o hmem => absurd (ho ▸ hmem) List.not_mem_nil
  have hdiagnostics : ({ diagnostics := (finish t).diagnostics } : Emission).Between s.pos t.pos :=
    .ofTokens (List.forall_mem_nil _) fun d hd => hfinish.diagnostics d (List.mem_append_left _ hd)
  have hparted : (e ++ { diagnostics := (finish t).diagnostics }).Parted := by
    intro x hx p hp
    have hx : x ∈ e.tokens := by simpa using hx
    rcases Emission.mem_marks_append.mp hp with hp | hp
    · exact h.parted hlimit x hx p hp
    · -- the bracket that is reported is one of the tokens
      obtain ⟨d, hd, rfl⟩ := List.mem_map.mp hp
      obtain ⟨o, hopen, hd⟩ := finish_reports t d hd
      obtain ⟨y, hy, hspan⟩ := (h.openers o hopen).resolve_left (ho ▸ List.not_mem_nil)
      rw [hd, ← hspan]
      exact (h.arranged hlimit).tokens.beside hx hy
  exact
    { pos_le := hcovers.pos_le
      le := Nat.le_refl _
      tokens := by simp [endMark]
      comments := by simp [finish, endMark]
      diagnostics := by simp [endMark]
      lineStates := by simp [finish, endMark]
      between := hcovers.between.append hdiagnostics
      parted := hparted
      inOrder := by simpa using h.inOrder hlimit (finish_span t)
      comments_inOrder := by simpa using (h.arranged hlimit).comments
      blank := fun x hx => ⟨finish_blank t x hx, finish_span t x hx⟩
      closes := Or.inl rfl
      orderly := ⟨s.levels.length - 1, by simpa [hdepth] using hleads.orderly _ (finish_orderly hleads.sound)⟩
      increasing := by simpa using (h.records hlimit).increasing
      levels := by simpa using h.lineStates_levels hs }

theorem ended_stop (hline : t.Unindented cfg) : ∃ c, c ≤ s.limit ∧
    ((Layout.indentation cfg.tabWidth t.rest).length = 0 → c = t.pos) ∧
    Ended s.pos t.pos c (e ++ { lineStates := [t.lineState t.pos none] }) (t.leaving cfg).tokens
      ((⟨t.leaving cfg ++ endMark t.pos, some (UInt32.ofNat t.pos)⟩ : Result).after e) := by
  have hcovers := h.covers
  have hleads := h.leads hs
  have hdepth : s.depth = ⟨0, s.levels.length - 1⟩ := by rw [State.depth, ho]; rfl
  obtain ⟨c, hle, hlimit', hzero, hclosing, hcloses⟩ := leaving_tokens cfg t
  have hc : c ≤ s.limit := hcovers.limit_eq ▸ hlimit'
  have hdedent : ∀ x ∈ (t.leaving cfg).tokens, x = .layout .dedent (Span.ofNat c c) := by
    rw [hclosing]
    exact fun x hx => List.eq_of_mem_replicate hx
  have horderly := hline.orderly_leaving hleads.sound
  have hrecorded := h.records hlimit
  have hpos : t.pos < UInt32.size := by omega
  have hhere : (t.lineState t.pos none).offset.toNat = t.pos := Offset.toNat_ofNat hpos
  refine ⟨c, hc, hzero,
    { pos_le := hcovers.pos_le
      le := hle
      tokens := by simp [Result.after, endMark]
      comments := by simp [Result.after, State.leaving, endMark]
      diagnostics := by simp [Result.after, State.leaving, endMark]
      lineStates := by simp [Result.after, State.leaving, endMark]
      between := hcovers.between.append (.ofLineState hcovers.pos_le (Nat.le_refl _) rfl)
      parted := fun x hx p hp => ?_
      inOrder := ?_
      comments_inOrder := by simpa using (h.arranged hlimit).comments
      blank := fun x hx => by rw [hdedent x hx]; exact ⟨rfl, rfl⟩
      closes := hcloses.imp_right fun hne => ⟨.layout .dedent (Span.ofNat c c), ?_, rfl⟩
      orderly := ⟨s.levels.length - 1, by simpa [hdepth] using hleads.orderly _ horderly⟩
      increasing := List.pairwise_append.mpr ⟨hrecorded.increasing, List.pairwise_singleton _ _, ?_⟩
      levels := List.forall_mem_append.mpr ⟨h.lineStates_levels hs,
        List.forall_mem_singleton.mpr hleads.sound.levels⟩ }⟩
  · have hx : x ∈ e.tokens := by simpa using hx
    have hp : p ∈ e.marks := by simpa [Emission.marks] using hp
    exact h.parted hlimit x hx p hp
  · have hdedents : InOrder (t.leaving cfg).tokens := hclosing ▸ .replicate _ rfl
    simp only [Emission.append_tokens, List.append_nil]
    refine (h.arranged hlimit).tokens.append hdedents fun x hx y hy => ?_
    rw [hdedent y hy]
    exact (hcovers.between.tokens x hx).stop_le_start (Span.between_point hle (Nat.le_refl c)) hpos (by omega)
  · rw [hclosing, List.getLast?_replicate, if_neg hne]
  · intro l hl m hm
    obtain rfl := List.mem_singleton.mp hm
    rw [UInt32.lt_iff_toNat_lt, hhere]
    exact (hrecorded.ahead l hl).2 hline.lineStart

omit h in
/-- Every run is over the text up to its end, or up to a line without indentation where it has to stop. -/
theorem exists_ended (cfg : Config) (stops : List Offset) : ∃ b c e closing,
    Ended s.pos b c e closing (run cfg stops s) ∧ c ≤ s.limit ∧
      ((run cfg stops s).stoppedAt = none ∧ b = s.limit ∧ c = b ∨
        (run cfg stops s).stoppedAt = some (UInt32.ofNat b) ∧ UInt32.ofNat b ∈ stops ∧
          ∃ p q, s.rest = p ++ q ∧ b = s.pos + Text.byteSize p ∧
            (Layout.indentation cfg.tabWidth q).width = 0 ∧
            ((Layout.indentation cfg.tabWidth q).length = 0 → c = b)) := by
  obtain ⟨e, t, r, h, hdone, hrun⟩ := exists_done cfg stops s
  by_cases hrest : t.rest = []
  · rw [step_end hrest] at hdone
    cases hdone
    have hpos : t.pos = s.limit := by
      rw [← h.covers.limit_eq, State.limit, hrest, Text.byteSize_nil, Nat.add_zero]
    rw [hrun]
    exact ⟨t.pos, t.pos, _, _, ended_end hs ho hlimit h, Nat.le_of_eq hpos, Or.inl ⟨rfl, hpos, rfl⟩⟩
  · obtain ⟨hline, hstop⟩ := step_stop hdone hrest
    rw [hline.step_done (h.leads hs).sound hstop] at hdone
    cases hdone
    obtain ⟨c, hc, hzero, hended⟩ := ended_stop hs ho hlimit h hline
    obtain ⟨p, hp, hpos⟩ := h.exists_prefix
    rw [hrun]
    exact ⟨t.pos, c, _, _, hended, hc, Or.inr ⟨rfl, hstop, p, t.rest, hp, hpos, hline.width, hzero⟩⟩

end Ended

end Scan

end Offside
