import Offside.Proofs.Scan.Resume

namespace Offside.Scan

open Layout (LineState)

variable {cfg : Config} {stops : List Offset} {s t u : State} {e e' : Emission} {source : String}

/-- A stretch with stop points meets every state of the whole scan, up to where it ends. -/
theorem Reaches.meets (h : Reaches cfg stops s e t) (h' : Reaches cfg [] s e' u) :
    (∃ e₁, Reaches cfg stops s e₁ u) ∨ ∃ e₂, Reaches cfg [] t e₂ u := by
  induction h' with
  | refl => exact Or.inl ⟨_, .refl⟩
  | @tail e₁ e₂ u v h' hstep ih =>
    rcases ih with ⟨e₁, hu⟩ | ⟨e₃, hu⟩
    · rcases h.linear hu with ⟨e₃, htu, -⟩ | ⟨e₃, hut, -⟩
      · exact Or.inr ⟨_, htu.unstopped.tail hstep⟩
      · rcases hut.head with ⟨rfl, -⟩ | ⟨e₄, w, -, hfirst, -, -⟩
        · exact Or.inr ⟨_, .single hstep⟩
        · obtain ⟨rfl, rfl⟩ := Step.next.inj ((step_unstopped hfirst).symm.trans hstep)
          exact Or.inl ⟨_, hu.tail hfirst⟩
    · exact Or.inr ⟨_, hu.tail hstep⟩

def UnindentedLine (cfg : Config) (source : String) (k : Nat) : Prop :=
  ∃ e s, Reaches cfg [] (.start source) e s ∧ s.Unindented cfg ∧ s.pos = k

/-- A stretch with stop points does not pass a line where it has to stop. -/
theorem Reaches.not_past (h : Reaches cfg stops (.start source) e t)
    (hu : Reaches cfg [] (.start source) e' u) (hline : u.Unindented cfg)
    (hstop : UInt32.ofNat u.pos ∈ stops) : ∃ e₂, Reaches cfg [] t e₂ u := by
  rcases h.meets hu with ⟨e₁, hu'⟩ | hu'
  · rcases h.linear hu' with ⟨e₃, htu, -⟩ | ⟨e₃, hut, -⟩
    · exact ⟨e₃, htu.unstopped⟩
    · rcases hut.head with ⟨rfl, -⟩ | ⟨e₄, w, -, hfirst, -, -⟩
      · exact ⟨_, .refl⟩
      · rw [hline.step_done (hu.leads (State.sound_start source)).sound hstop] at hfirst
        contradiction
  · exact hu'

/-- Behind a line start without indentation a scan does not depend on the blocks open before. -/
theorem State.Unindented.resumed (h : s.Unindented cfg) (hs : s.Sound) :
    ∃ rest : Result, run cfg [] s = rest.after (s.leaving cfg) ∧
      run cfg [] { pos := s.pos, rest := s.rest } =
        rest.after { lineStates := [⟨UInt32.ofNat s.pos, {}⟩] } := by
  have hfresh : State.Unindented cfg { pos := s.pos, rest := s.rest } :=
    ⟨rfl, h.not_blank, h.not_comment, h.width⟩
  have hsound : State.Sound { pos := s.pos, rest := s.rest } :=
    ⟨⟨[], rfl, List.forall_mem_nil _⟩, fun _ => rfl, fun ho => absurd rfl ho⟩
  have hleft : State.left cfg { pos := s.pos, rest := s.rest } = s.left cfg := by
    have ho := hs.openers_eq h.lineStart
    have hc := hs.lineStart h.lineStart
    simp [State.left, content, ho, hc]
  refine ⟨run cfg [] (s.left cfg), run_of_next (h.step_next hs List.not_mem_nil), ?_⟩
  rw [run_of_next (hfresh.step_next hsound List.not_mem_nil), hleft]
  rfl

/-- A scan with stop points that is at no stop point on a line with content and without indentation is
the whole scan. Otherwise it stops at the first one, and a scan resumed there puts out the rest; the
line start is recorded by both. -/
theorem run_stops (cfg : Config) (source : String) (stops : List Offset) :
    ((∀ k, UnindentedLine cfg source k → UInt32.ofNat k ∉ stops) ∧
      run cfg stops (.start source) = scan cfg source ∧ (scan cfg source).stoppedAt = none) ∨
    ∃ k r, (UnindentedLine cfg source k ∧ UInt32.ofNat k ∈ stops) ∧
      (∀ k', UnindentedLine cfg source k' → UInt32.ofNat k' ∈ stops → k ≤ k') ∧
      (run cfg stops (.start source)).stoppedAt = some (UInt32.ofNat k) ∧
      State.resume? source k {} = some r ∧
      (∃ ts, (run cfg stops (.start source)).tokens =
          ts ++ [.layout .eof (Span.ofNat k k)] ∧
        (scan cfg source).tokens = ts ++ (run cfg [] r).tokens) ∧
      (scan cfg source).comments =
        (run cfg stops (.start source)).comments ++ (run cfg [] r).comments ∧
      (scan cfg source).diagnostics =
        (run cfg stops (.start source)).diagnostics ++ (run cfg [] r).diagnostics ∧
      (scan cfg source).lineStates =
        (run cfg stops (.start source)).lineStates ++ (run cfg [] r).lineStates.tail := by
  obtain ⟨e, t, r, h, hdone, hrun⟩ := exists_done cfg stops (.start source)
  have hsound := (h.leads (State.sound_start source)).sound
  by_cases hrest : t.rest = []
  · left
    rw [step_end hrest] at hdone
    cases hdone
    have hscan : scan cfg source = run cfg stops (.start source) := by
      rw [scan, h.unstopped.run_eq, run_of_done (step_end hrest), hrun]
    refine ⟨fun k hk hstop => ?_, hscan.symm, by rw [hscan, hrun]; rfl⟩
    obtain ⟨e', u, hu, hline, rfl⟩ := hk
    obtain ⟨e₂, htu⟩ := h.not_past hu hline hstop
    obtain ⟨p, hp, -⟩ := htu.exists_prefix
    rw [hrest] at hp
    exact hline.rest_ne_nil (List.append_eq_nil_iff.mp hp.symm).2
  · right
    obtain ⟨hline, hstop⟩ := step_stop hdone hrest
    rw [hline.step_done hsound hstop] at hdone
    cases hdone
    obtain ⟨p, hp, hpos, hfeed⟩ := h.exists_lines hline.lineStart
    obtain ⟨rest, hwhole, hresumed⟩ := hline.resumed hsound
    have hresume : State.resume? source t.pos {} = some { pos := t.pos, rest := t.rest } := by
      rw [hpos]
      exact State.resume?_eq hp hfeed rfl rfl ⟨[], rfl, List.forall_mem_nil _⟩
    have hscan : scan cfg source = (rest.after (t.leaving cfg)).after e := by
      rw [scan, h.unstopped.run_eq, hwhole]
    refine ⟨t.pos, _, ⟨⟨e, t, h.unstopped, hline, rfl⟩, hstop⟩, ?_, by rw [hrun]; rfl, hresume,
      ⟨e.tokens ++ (t.leaving cfg).tokens, ?_, ?_⟩, ?_, ?_, ?_⟩
    · rintro k' ⟨e', u, hu, hline', rfl⟩ hstop'
      obtain ⟨e₂, htu⟩ := h.not_past hu hline' hstop'
      exact htu.covers.pos_le
    · rw [hrun]
      simp [Result.after, endMark]
    · rw [hscan, hresumed]
      simp [Result.after]
    · rw [hscan, hrun, hresumed]
      simp [Result.after, endMark, State.leaving]
    · rw [hscan, hrun, hresumed]
      simp [Result.after, endMark, State.leaving]
    · rw [hscan, hrun, hresumed]
      simp [Result.after, endMark, State.leaving]

end Offside.Scan
