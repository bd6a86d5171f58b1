import Offside.Proofs.Scan.Token
import Offside.Proofs.Text.Cut

namespace Offside.Scan

open Layout (LineState Snapshot)

variable {cfg : Config} {stops : List Offset} {s t u : State} {e e' : Emission} {r : Result}
  {source : String}

/-- At a line start outside brackets and strings, a scan resumes with the recorded levels. -/
theorem State.resume?_eq {p q : List Char} {snapshot : Snapshot}
    (h : source.toList = p ++ q) (hline : p.getLast?.getD '\n' = '\n')
    (hstring : snapshot.string = none) (hdepth : snapshot.depth = 0)
    (hlevels : Layout.Nested snapshot.levels) : State.resume? source (Text.byteSize p) snapshot =
      some { pos := Text.byteSize p, rest := q, levels := snapshot.levels } := by
  have hne : snapshot.levels.isEmpty = false := by
    rw [List.isEmpty_eq_false_iff_exists_mem]
    exact ⟨0, List.contains_iff_mem.mp hlevels.contains_zero⟩
  rw [resume?, Snapshot.isResumable, hstring, h, Text.splitAtByte?_append]
  simp [hline, hdepth, hne]

/-- A step that goes on does so without stop points. -/
theorem step_unstopped (h : step cfg stops s = .next e t) : step cfg [] s = .next e t := by
  rcases step_cases h with ⟨hne, hl, hstart⟩ | ⟨cs, hrest, hl, rfl, rfl⟩ |
    ⟨c, cs, hrest, hl, hc, rfl, rfl⟩
  · rw [step_lineStart hne hl]
    rcases lineStart_cases hstart with ⟨hb, rfl, rfl⟩ | ⟨hb, hc, rfl, rfl⟩ | ⟨hb, hc, -, rfl, rfl⟩
    · exact lineStart_blank hb
    · exact lineStart_comment hb hc
    · exact lineStart_content hb hc fun hstop => List.not_mem_nil hstop.2
  · exact step_lineFeed hrest hl
  · exact step_lexeme hrest hl hc

/-- A stretch up to a stop point is one without. -/
theorem Reaches.unstopped (h : Reaches cfg stops s e t) : Reaches cfg [] s e t := by
  induction h with
  | refl => exact .refl
  | tail _ hstep ih => exact .tail ih (step_unstopped hstep)

/-- The start of a logical line without indentation that holds more than a comment. -/
structure State.Unindented (cfg : Config) (s : State) : Prop where
  lineStart : s.atLineStart = true
  not_blank : Layout.startsBlankLine (content cfg s) = false
  not_comment : Layout.startsCommentLine (content cfg s) = false
  width : (Layout.indentation cfg.tabWidth s.rest).width = 0

namespace State

/-- What the start of a line without indentation puts out: the dedents of all blocks. -/
def leaving (cfg : Config) (s : State) : Emission :=
  let contentStart := s.pos + (Layout.indentation cfg.tabWidth s.rest).length
  { tokens :=
      List.replicate (s.levels.length - 1) (.layout .dedent (Span.ofNat contentStart contentStart))
    lineStates := [s.lineState s.pos none] }

def left (cfg : Config) (s : State) : State :=
  { s with
    pos := s.pos + (Layout.indentation cfg.tabWidth s.rest).length
    rest := content cfg s
    levels := [0]
    atLineStart := false
    resyncing := false }

end State

theorem widthOf_pos {tabWidth : Nat} {blanks : List Char} (h : ' ' ∈ blanks) :
    0 < Layout.widthOf tabWidth blanks := by
  induction blanks with
  | nil => contradiction
  | cons c blanks ih =>
    rw [Layout.widthOf]
    rcases List.mem_cons.mp h with rfl | h
    · have hone : Layout.columns tabWidth ' ' = 1 := rfl
      omega
    · have := ih h
      omega

/-- An indentation that takes no columns has no spaces in it. -/
theorem indentation_unmixed {tabWidth : Nat} {text : List Char}
    (h : (Layout.indentation tabWidth text).width = 0) :
    (Layout.indentation tabWidth text).mixed = false := by
  have hspace : ' ' ∉ text.takeWhile Layout.isIndent := by
    intro hmem
    have hpos : 0 < (Layout.indentation tabWidth text).width := widthOf_pos hmem
    omega
  simp [Layout.indentation, Layout.Indentation.ofBlanks, hspace]

namespace State.Unindented

theorem rest_ne_nil (h : s.Unindented cfg) : s.rest ≠ [] := by
  intro hrest
  have hblank := h.not_blank
  rw [content, hrest, List.drop_nil] at hblank
  contradiction

theorem step_next (h : s.Unindented cfg) (hs : s.Sound) (hstop : UInt32.ofNat s.pos ∉ stops) :
    step cfg stops s = .next (s.leaving cfg) (s.left cfg) := by
  have hzero := indentTo_zero (s := { s with atLineStart := false }) hs.levels s.pos
    (s.pos + (Layout.indentation cfg.tabWidth s.rest).length)
  rw [step_lineStart h.rest_ne_nil h.lineStart,
    lineStart_content h.not_blank h.not_comment fun hmem => hstop hmem.2, entering]
  dsimp only
  rw [h.width, indentation_unmixed h.width, hzero]
  rfl

theorem step_done (h : s.Unindented cfg) (hs : s.Sound) (hstop : UInt32.ofNat s.pos ∈ stops) :
    step cfg stops s =
      .done ⟨s.leaving cfg ++ endMark s.pos, some (UInt32.ofNat s.pos)⟩ := by
  have hzero := indentTo_zero (s := { s with atLineStart := false }) hs.levels s.pos
    (s.pos + (Layout.indentation cfg.tabWidth s.rest).length)
  rw [step_lineStart h.rest_ne_nil h.lineStart,
    lineStart_stop h.not_blank h.not_comment ⟨h.width, hstop⟩, hzero]
  rfl

end State.Unindented

/-- A scan that ends before its text does ends at a line without indentation. -/
theorem step_stop (h : step cfg stops s = .done r) (hrest : s.rest ≠ []) :
    s.Unindented cfg ∧ UInt32.ofNat s.pos ∈ stops := by
  obtain ⟨-, hl, hstop⟩ := (step_done h).resolve_left fun hend => hrest hend.1
  rw [step_lineStart hrest hl] at h
  cases hb : Layout.startsBlankLine (content cfg s) with
  | true => simp [lineStart_blank hb] at h
  | false =>
    cases hc : Layout.startsCommentLine (content cfg s) with
    | true => simp [lineStart_comment hb hc] at h
    | false =>
      by_cases hw : (Layout.indentation cfg.tabWidth s.rest).width = 0
      · exact ⟨⟨hl, hb, hc, hw⟩, hstop⟩
      · simp [lineStart_content hb hc fun hmem => hw hmem.1] at h

/-- The text before a line start ends with a line feed. -/
theorem Reaches.exists_lines (h : Reaches cfg stops (.start source) e s)
    (hl : s.atLineStart = true) : ∃ p, source.toList = p ++ s.rest ∧ s.pos = Text.byteSize p ∧
      p.getLast?.getD '\n' = '\n' := by
  obtain ⟨p, hp, hpos⟩ := h.exists_prefix
  refine ⟨p, hp, by rw [hpos]; exact Nat.zero_add _, ?_⟩
  rcases h.atLineStart_cases hl with ⟨rfl, -⟩ | ⟨e₁, y, hy, hrest, -, -, -⟩
  · obtain rfl : p = [] := List.append_left_eq_self.mp hp.symm
    rfl
  · obtain ⟨q, hq, -⟩ := hy.exists_prefix
    have hpq : p ++ s.rest = (q ++ ['\n']) ++ s.rest := by
      rw [← hp, hq, hrest, List.append_assoc]
      rfl
    rw [List.append_cancel_right hpq, List.getLast?_concat, Option.getD_some]

/-- A scan at a line start can be resumed: the levels are all it has to remember. -/
theorem Reaches.resume?_eq (h : Reaches cfg stops (.start source) e s) (hl : s.atLineStart = true) :
    State.resume? source s.pos (s.snapshot none) = some { s with resyncing := false } := by
  obtain ⟨p, hp, hpos, hline⟩ := h.exists_lines hl
  have hsound := (h.leads (State.sound_start source)).sound
  have ho := hsound.openers_eq hl
  have hc := hsound.lineStart hl
  have hdepth : (s.snapshot none).depth = 0 := by rw [State.snapshot, ho]; rfl
  rw [hpos, State.resume?_eq hp hline rfl hdepth hsound.levels]
  cases s
  simp_all [State.snapshot]

/-- A scan at a line start records it first. -/
theorem run_lineStates_head (cfg : Config) (stops : List UInt32) (hs : s.Sound) (hl : s.atLineStart = true) (hrest : s.rest ≠ []) :
    ∃ ls, (run cfg stops s).lineStates = s.lineState s.pos none :: ls := by
  cases hstep : step cfg stops s with
  | next e t =>
    rw [run_of_next hstep]
    rw [step_lineStart hrest hl] at hstep
    rcases lineStart_cases hstep with ⟨-, rfl, -⟩ | ⟨-, -, rfl, -⟩ | ⟨-, -, -, rfl, -⟩
    · exact ⟨_, rfl⟩
    · exact ⟨_, rfl⟩
    · exact ⟨_, by rw [Result.after, Emission.append_lineStates, entering_lineStates]; rfl⟩
  | done r =>
    obtain ⟨hu, hstop⟩ := step_stop hstep hrest
    rw [run_of_done (hu.step_done hs hstop)]
    exact ⟨_, rfl⟩

/-- A scan records line starts from the first to the last, each of them once. -/
theorem run_lineStates_pairwise (cfg : Config) (stops : List Offset) (hs : s.Sound)
    (hlimit : s.limit < UInt32.size) :
    (run cfg stops s).lineStates.Pairwise fun l m => l.offset < m.offset := by
  obtain ⟨e, t, r, h, hdone, hrun⟩ := exists_done cfg stops s
  have hrecords := h.records hlimit
  have hpos : t.pos < UInt32.size := Nat.lt_of_le_of_lt h.covers.pos_le_limit hlimit
  rw [hrun, Result.after, Emission.append_lineStates]
  by_cases hrest : t.rest = []
  · rw [step_end hrest] at hdone
    cases hdone
    simpa [finish, endMark] using hrecords.increasing
  · obtain ⟨hu, hstop⟩ := step_stop hdone hrest
    rw [hu.step_done (h.leads hs).sound hstop] at hdone
    cases hdone
    refine List.pairwise_append.mpr ⟨hrecords.increasing, List.pairwise_singleton _ _, ?_⟩
    intro l hl m hm
    obtain rfl := List.mem_singleton.mp hm
    rw [UInt32.lt_iff_toNat_lt]
    change l.offset.toNat < (UInt32.ofNat t.pos).toNat
    rw [Offset.toNat_ofNat hpos]
    exact (hrecords.ahead l hl).2 hu.lineStart

/-- A scan that resumes at the start of a logical line, with what was recorded there, goes on exactly as
the scan that recorded it. The record is the first thing that this scan puts out from there on, and below
2^32 bytes it is the only one at its offset. -/
theorem resume_run (h : Reaches cfg stops (.start source) e s) (hl : s.atLineStart = true)
    (hrest : s.rest ≠ []) (hresync : s.resyncing = false) :
    run cfg stops (.start source) = (run cfg stops s).after e ∧
      ∃ l, (run cfg stops s).lineStates.head? = some l ∧ l.offset = UInt32.ofNat s.pos ∧
        (Text.byteSize source.toList < UInt32.size →
          ∀ m ∈ (run cfg stops (.start source)).lineStates, m.offset = l.offset → m = l) ∧
        ∃ r, State.resume? source s.pos l.snapshot = some r ∧ run cfg stops r = run cfg stops s := by
  have hstart := State.sound_start source
  obtain ⟨ls, hls⟩ := run_lineStates_head cfg stops (h.leads hstart).sound hl hrest
  refine ⟨h.run_eq, s.lineState s.pos none, by rw [hls]; rfl, rfl, fun hsize m hm heq => ?_, s, ?_, rfl⟩
  · -- two records at one offset would not be in strict order
    have hlimit : (State.start source).limit < UInt32.size := by
      simpa [State.limit, State.start] using hsize
    have hpairwise := run_lineStates_pairwise cfg stops hstart hlimit
    rw [h.run_eq, Result.after, Emission.append_lineStates, hls] at hm hpairwise
    obtain ⟨-, hbehind, hbefore⟩ := List.pairwise_append.mp hpairwise
    rcases List.mem_append.mp hm with hm | hm
    · have hlt := hbefore m hm _ List.mem_cons_self
      rw [heq] at hlt
      exact absurd hlt (UInt32.lt_irrefl _)
    · rcases List.mem_cons.mp hm with rfl | hm
      · rfl
      · have hlt := List.rel_of_pairwise_cons hbehind hm
        rw [heq] at hlt
        exact absurd hlt (UInt32.lt_irrefl _)
  · have hresume := h.resume?_eq hl
    rwa [← hresync] at hresume

theorem resume_run_block : ∃ e s, Reaches {} [12] (.start "if x:\n  y\nz\n") e s ∧
    s.atLineStart = true ∧ s.rest = ['z', '\n'] ∧ s.resyncing = false ∧ s.levels = [2, 0] ∧ ∃ l, (run {} [12] s).lineStates.head? = some l ∧ l.offset = 10 ∧
      ∃ r, State.resume? "if x:\n  y\nz\n" 10 l.snapshot = some r ∧ run {} [12] r = run {} [12] s := by
  have h : Reaches {} [12] (.start "if x:\n  y\nz\n") _ _ :=
    .tail (.tail (.tail (.tail (.tail (.tail (.tail (.tail (.tail .refl
      rfl) rfl) rfl) rfl) rfl) rfl) rfl) rfl) rfl
  obtain ⟨-, l, hl, hoffset, -, hr⟩ := resume_run h rfl (by decide +kernel) rfl
  exact ⟨_, _, h, rfl, rfl, rfl, rfl, l, hl, hoffset, hr⟩

end Offside.Scan
