import Offside.Proofs.Document.Kept
import Offside.Proofs.Scan.Resume

namespace Offside

open Layout (LineState Snapshot)
open Scan

namespace Part

@[simp]
theorem append_body (a b : Part) : (a ++ b).body = a.body ++ b.body := rfl

@[simp]
theorem append_diagnostics (a b : Part) :
    (a ++ b).diagnostics = a.diagnostics ++ b.diagnostics := rfl

@[simp]
theorem append_comments (a b : Part) : (a ++ b).comments = a.comments ++ b.comments := rfl

@[simp]
theorem append_lineStates (a b : Part) : (a ++ b).lineStates = a.lineStates ++ b.lineStates := rfl

theorem append_assoc (a b c : Part) : a ++ b ++ c = a ++ (b ++ c) := by
  change Part.mk _ _ _ _ = Part.mk _ _ _ _
  simp

@[simp]
theorem append_empty (a : Part) : a ++ ({} : Part) = a := by
  change Part.mk _ _ _ _ = a
  simp

@[simp]
theorem empty_append (a : Part) : ({} : Part) ++ a = a := rfl

theorem mk_append_lineStates (ss : List Stmt) (ds : List Diagnostic) (ts : List Token)
    (ls ms : List LineState) : (⟨ss, ds, ts, ls ++ ms⟩ : Part) =
      (⟨ss, ds, ts, ls⟩ : Part) ++ ({ lineStates := ms } : Part) := by
  change _ = Part.mk _ _ _ _
  simp

end Part

namespace Scan

variable {cfg : Config} {stops : List Offset} {s t : State} {e : Emission}

/-- A line start inside a line, outside brackets and strings, is one behind a backslash. -/
theorem step_lineState {l : LineState} (h : step cfg stops s = .next e t) (hl : s.atLineStart = false)
    (hmem : l ∈ e.lineStates) (hstring : l.snapshot.string = none) (hdepth : l.snapshot.depth = 0) :
    e = { lineStates := [l] } ∧ l.snapshot = t.snapshot none := by
  rcases step_cases h with ⟨-, ht, -⟩ | ⟨cs, -, -, rfl, rfl⟩ | ⟨c, cs, -, -, -, rfl, rfl⟩
  · rw [hl] at ht
    contradiction
  · by_cases ho : s.openers = []
    · rw [lineFeed_outer ho] at hmem
      exact absurd hmem List.not_mem_nil
    · rw [lineFeed_inner ho] at hmem
      obtain rfl := List.mem_singleton.mp hmem
      exact absurd (List.eq_nil_of_length_eq_zero hdepth) ho
  · generalize (Lexeme.recognise c cs).1 = lexeme at hmem
    cases lexeme with
    | longString quote terminated =>
      obtain ⟨i, -, rfl⟩ := List.mem_map.mp hmem
      contradiction
    | continuation =>
      obtain rfl := List.mem_singleton.mp hmem
      exact ⟨rfl, rfl⟩
    | _ => exact absurd hmem List.not_mem_nil

/-- The first line start of a text. -/
theorem Reaches.first_lineState {source : String} (h : Reaches cfg stops (.start source) e t)
    (hl : t.atLineStart = false) : ⟨0, {}⟩ ∈ e.lineStates := by
  rcases h.head with ⟨rfl, -⟩ | ⟨e₁, u, e₂, hstep, -, rfl⟩
  · contradiction
  · refine List.mem_append_left _ ?_
    have hhere : (⟨0, {}⟩ : LineState) ∈ [(State.start source).lineState (State.start source).pos none] :=
      List.mem_singleton.mpr rfl
    rcases step_cases hstep with ⟨-, -, hstart⟩ | ⟨cs, -, hs, -, -⟩ | ⟨c, cs, -, hs, -, -, -⟩
    · rcases lineStart_cases hstart with ⟨-, rfl, -⟩ | ⟨-, -, rfl, -⟩ | ⟨-, -, -, rfl, -⟩
      · exact hhere
      · exact hhere
      · rwa [entering_lineStates]
    · contradiction
    · contradiction

/-- What a run puts out stands between its state and the end of the text. -/
theorem run_between (cfg : Config) (ho : s.openers = []) : (run cfg [] s).toEmission.Between s.pos s.limit := by
  obtain ⟨e, t, h, hr, hrun⟩ := exists_end cfg s
  have hlimit : s.limit = t.pos := by
    rw [← h.covers.limit_eq, State.limit, hr]
    rfl
  rw [hrun, hlimit]
  exact h.covers.between.append (h.covers.finish (Nat.le_refl _) fun o hmem =>
    absurd (ho ▸ hmem) List.not_mem_nil)

end Scan

namespace Document

variable {cfg : Config} {old new : String} {snapshot : Snapshot} {ss : List Stmt}

/-- The record at a boundary is the last line start before it. -/
theorem Resumption.recorded (r : Resumption cfg old new ss) (hcancel : cfg.cancel = false)
    (hsize : Text.byteSize old.toList < UInt32.size)
    (h : (parse cfg old).snapshotAt? (UInt32.ofNat r.boundary.state.pos) = some snapshot)
    (hstring : snapshot.string = none) :
    snapshot.depth = 0 ∧ Layout.Nested snapshot.levels ∧ ∃ ls,
      r.boundary.emitted.lineStates = ls ++ [⟨UInt32.ofNat r.boundary.state.pos, snapshot⟩] ∧
      ∀ l ∈ ls, l.offset < UInt32.ofNat r.boundary.state.pos := by
  have hpos := r.boundary.pos_lt hsize
  have hlimit : (State.start old).limit < UInt32.size := by simpa [State.limit, State.start] using hsize
  have hread := r.boundary.reads
  -- the record stands among those before the boundary
  have hfound : snapshot.depth = 0 ∧ ∃ l ∈ r.boundary.emitted.lineStates,
      l.offset = UInt32.ofNat r.boundary.state.pos ∧ l.snapshot = snapshot := by
    unfold snapshotAt? at h
    split at h
    · next hzero =>
      obtain rfl := Option.some.inj h
      exact ⟨rfl, _, r.boundary.reaches.first_lineState hread.inside, hzero.symm, rfl⟩
    · split at h
      · next l hl =>
        split at h
        · next hdepth =>
          obtain rfl := Option.some.inj h
          have hoffset : l.offset = UInt32.ofNat r.boundary.state.pos := by
            simpa using List.find?_some hl
          refine ⟨hdepth, l, ?_, hoffset, rfl⟩
          have hmem := List.mem_of_find?_eq_some hl
          rw [r.boundary.parse_eq hcancel] at hmem
          refine (List.mem_append.mp hmem).resolve_right fun hbehind => ?_
          have hlt := ((r.boundary.reaches_final.records
            (r.boundary.reaches.covers.limit_eq ▸ hlimit)).behind l hbehind).2 hread.inside
          rw [hoffset, Offset.toNat_ofNat hpos] at hlt
          exact absurd hlt (Nat.lt_irrefl _)
        · contradiction
      · contradiction
  obtain ⟨hdepth, l, hmem, hoffset, rfl⟩ := hfound
  refine ⟨hdepth, ?_⟩
  have hself : l = ⟨UInt32.ofNat r.boundary.state.pos, l.snapshot⟩ := by rw [← hoffset]
  obtain ⟨e₀, y₀, h₀, hcase⟩ := r.boundary.reaches.line_cases (State.sound_start old) rfl hread
    (r.rest_eq ▸ r.old_eq) r.line hread.startsFlush
  have hahead := (h₀.records hlimit).ahead
  have hnat : l.offset.toNat = r.boundary.state.pos := by rw [hoffset, Offset.toNat_ofNat hpos]
  have hlast {ls : List LineState} {e' : Emission} (hls : e₀.lineStates = ls)
      (heq : r.boundary.emitted = e₀ ++ e') (he' : e'.lineStates = [l])
      (hlt : ∀ l ∈ ls, l.offset.toNat < r.boundary.state.pos) : ∃ ls,
        r.boundary.emitted.lineStates = ls ++ [⟨UInt32.ofNat r.boundary.state.pos, l.snapshot⟩] ∧
        ∀ l ∈ ls, l.offset < UInt32.ofNat r.boundary.state.pos := by
    refine ⟨ls, ?_, fun m hm => ?_⟩
    · rw [heq, Emission.append_lineStates, hls, he', ← hself]
    · rw [UInt32.lt_iff_toNat_lt, Offset.toNat_ofNat hpos]
      exact hlt m hm
  rcases hcase with ⟨hl₀, -, heq, hy⟩ | ⟨e', g, hstep, heq, hl₀, -⟩
  · -- the line start itself, at whose indentation the scan looks next
    have hypos : y₀.pos = r.boundary.state.pos := by rw [hy]; rfl
    have hlt : ∀ l ∈ e₀.lineStates, l.offset.toNat < r.boundary.state.pos :=
      fun m hm => hypos ▸ (hahead m hm).2 hl₀
    have hmem' : l ∈ (flush y₀).lineStates := by
      rw [heq] at hmem
      refine (List.mem_append.mp hmem).resolve_left fun hbefore => ?_
      exact absurd (hlt l hbefore) (hnat ▸ Nat.lt_irrefl _)
    have hone : l = y₀.lineState y₀.pos none := List.mem_singleton.mp hmem'
    refine ⟨?_, hlast rfl heq (by rw [hone]; rfl) hlt⟩
    rw [hone]
    exact (h₀.leads (State.sound_start old)).sound.levels
  · -- behind a backslash the line goes on
    have hlt : ∀ l ∈ e₀.lineStates, l.offset.toNat < r.boundary.state.pos := fun m hm =>
      Nat.lt_of_le_of_lt (hahead m hm).1 (step_pos_lt hstep hl₀)
    have hmem' : l ∈ e'.lineStates := by
      rw [heq] at hmem
      refine (List.mem_append.mp hmem).resolve_left fun hbefore => ?_
      exact absurd (hlt l hbefore) (hnat ▸ Nat.lt_irrefl _)
    obtain ⟨hone, hsnapshot⟩ := step_lineState hstep hl₀ hmem' hstring hdepth
    refine ⟨?_, hlast rfl heq (by rw [hone]) hlt⟩
    rw [hsnapshot]
    exact r.boundary.sound.levels

variable {stops : List Offset} {kept : Part} {s t : State} {lead : Emission}

/-- A scan of a new text resumed in a state: it puts out what the old scan has put out already, and
then goes over the text from another state as the full scan does. The document of the new text is
made of a part that is kept and of what the scan from there finds. -/
structure Resumed (cfg : Config) (new : String) (stops : List Offset) (kept : Part) (s : State)
    (lead : Emission) (t : State) : Prop where
  run_eq : run cfg stops s = (run cfg stops t).after lead
  tokens : ∀ x ∈ lead.tokens, x.kind = .dedent
  comments : lead.comments = []
  diagnostics : lead.diagnostics = []
  sound : t.Sound
  depth : t.depth = {}
  hasContent : t.hasContent = false
  text : ∃ p, new.toList = p ++ t.rest ∧ t.pos = Text.byteSize p
  parse_eq : parse cfg new = ofPart new (kept ++ { lineStates := lead.lineStates } ++
    Part.ofScan (run cfg [] t) (Grammar.parse cfg (run cfg [] t).tokens)) false

/-- A scan from the start of the text. -/
theorem resumed_start (hcancel : cfg.cancel = false) (stops : List Offset) :
    Resumed cfg new stops {} (.start new) {} (.start new) where
  run_eq := rfl
  tokens := List.forall_mem_nil _
  comments := rfl
  diagnostics := rfl
  sound := State.sound_start new
  depth := rfl
  hasContent := rfl
  text := ⟨[], rfl, rfl⟩
  parse_eq := by
    rw [parse]
    dsimp only
    rw [Grammar.parse_cancelled hcancel]
    rfl

section Resume

variable (r : Resumption cfg old new ss)
  (hcancel : cfg.cancel = false) (hold : Text.byteSize old.toList < UInt32.size)
  (hnew : Text.byteSize new.toList < UInt32.size)

include hcancel hold

/-- What is kept of the old document before a boundary. -/
theorem keptPart_eq (hsnapshot : (parse cfg old).snapshotAt? (UInt32.ofNat r.boundary.state.pos) =
    some snapshot) (hstring : snapshot.string = none) : ∃ ls,
    r.boundary.emitted.lineStates = ls ++ [⟨UInt32.ofNat r.boundary.state.pos, snapshot⟩] ∧
    (parse cfg old).keptPart ss.length (UInt32.ofNat r.boundary.state.pos) =
      { body := ss
        diagnostics := Diagnostic.sort
          (r.boundary.emitted.diagnostics ++ r.boundary.joint.state.diagnostics)
        comments := r.boundary.emitted.comments
        lineStates := ls } := by
  obtain ⟨-, -, ls, hls, hlt⟩ := r.recorded hcancel hold hsnapshot hstring
  refine ⟨ls, hls, ?_⟩
  have hbody : (parse cfg old).body.take ss.length = ss := by
    rw [r.boundary.parse_eq hcancel]
    exact List.take_left
  have hlines : (parse cfg old).lineStates.filter
      (fun l => decide (l.offset < UInt32.ofNat r.boundary.state.pos)) = ls := by
    have hbehind : ∀ l ∈ r.boundary.remaining.lineStates,
        UInt32.ofNat r.boundary.state.pos ≤ l.offset := by
      intro l hl
      rw [← r.boundary.filter_lineStates hcancel hold] at hl
      exact UInt32.le_of_lt (of_decide_eq_true (List.mem_filter.mp hl).2)
    rw [r.boundary.parse_eq hcancel]
    change (r.boundary.emitted.lineStates ++ r.boundary.remaining.lineStates).filter _ = _
    have hbehind' : r.boundary.remaining.lineStates.filter
        (fun l => decide (l.offset < UInt32.ofNat r.boundary.state.pos)) = [] :=
      List.filter_eq_nil_iff.mpr fun l hl => by simpa using hbehind l hl
    rw [hls, List.filter_append, List.filter_append, hbehind',
      List.filter_eq_self.mpr fun l hl => decide_eq_true (hlt l hl)]
    simp
  rw [keptPart, hbody, (r.boundary.filter_diagnostics hcancel hold).1,
    (r.boundary.filter_comments hcancel hold).1, hlines]

include hnew

/-- The document of the new text, with what comes before the boundary and what comes behind. -/
theorem Resumption.parse_parts : parse cfg new = ofPart new
    (⟨ss, Diagnostic.sort (r.boundary.emitted.diagnostics ++ r.boundary.joint.state.diagnostics),
        r.boundary.emitted.comments, r.boundary.emitted.lineStates⟩ ++
      Part.ofScan (run cfg [] r.state) (Grammar.parse cfg (run cfg [] r.state).tokens)) false := by
  obtain ⟨us, last, hrun, hl, hhead⟩ := r.run_tokens
  obtain ⟨hlt, hlt'⟩ := List.forall_mem_append.mp (r.boundary.faults_lt hcancel hold)
  have hlimit : r.state.limit < UInt32.size := by
    rw [r.reaches.covers.limit_eq]
    simpa [State.limit, State.start] using hnew
  have hbetween := run_between cfg (s := r.state) (r.boundary.levels_eq hcancel).2
  have htokens : ∀ x ∈ us ++ [last], x.span.Inside (UInt32.ofNat r.boundary.state.pos)
      (UInt32.ofNat r.state.limit) := fun x hx =>
    (hbetween.tokens x (hrun.symm ▸ hx)).inside hlimit
  obtain ⟨hus, hlast⟩ := List.forall_mem_append.mp htokens
  have hlast := hlast last (List.mem_singleton_self last)
  have hge : ∀ d ∈ (run cfg [] r.state).diagnostics,
      UInt32.ofNat r.boundary.state.pos ≤ d.span.start := fun d hd =>
    ((hbetween.diagnostics d hd).inside hlimit).1.1
  have hge' : ∀ d ∈ (parseRest cfg us last).2, UInt32.ofNat r.boundary.state.pos ≤ d.span.start :=
    fun d hd => ((parseRest_inside cfg hl (UInt32.le_trans hlast.1.1 hlast.1.2) hlast hus).2 d
      hd).1.1
  rw [r.parse_eq hcancel hrun hl hhead, Diagnostic.sort_parts hlt hlt' hge hge', hrun,
    Offside.parse_eq hcancel hl]
  rfl

/-- A scan from a boundary. -/
theorem resumed_boundary
    (hmatched : ∀ d ∈ (parse cfg old).diagnostics, ∀ w, d.cause ≠ .inconsistentDedent w)
    (hstops : UInt32.ofNat r.boundary.state.pos ∉ stops)
    (hsnapshot : (parse cfg old).snapshotAt? (UInt32.ofNat r.boundary.state.pos) = some snapshot)
    (hs : State.resume? new (UInt32.ofNat r.boundary.state.pos).toNat snapshot = some s) :
    ∃ lead t, Resumed cfg new stops
      ((parse cfg old).keptPart ss.length (UInt32.ofNat r.boundary.state.pos)) s lead t := by
  have hpos := r.boundary.pos_lt hold
  have hstring : snapshot.string = none := by
    by_contra hne
    have hresumable : snapshot.isResumable = false := by
      rw [Snapshot.isResumable, Option.isNone_eq_false_iff, Option.isSome_iff_ne_none]
      exact hne
    rw [State.resume?, hresumable] at hs
    contradiction
  obtain ⟨hdepth, hlevels, -⟩ := r.recorded hcancel hold hsnapshot hstring
  obtain ⟨ls, hls, hkept⟩ := keptPart_eq r hcancel hold hsnapshot hstring
  rw [Offset.toNat_ofNat hpos, r.pos_eq, State.resume?_eq r.new_eq r.line hstring hdepth hlevels,
    ← r.pos_eq] at hs
  obtain rfl := Option.some.inj hs
  obtain ⟨hzero, hopeners⟩ := r.boundary.levels_eq hcancel
  have hresyncing := r.boundary.resyncing_eq hcancel hmatched
  let s₀ : State := { pos := r.boundary.state.pos, rest := r.char :: r.newRest, levels := snapshot.levels }
  -- behind the line start the scan is where that of the whole text is, but for the content of the line
  have hflushed : s₀.flushed = { r.state with hasContent := false } := by
    simp [s₀, State.flushed, Resumption.state, State.before, hzero, hopeners, hresyncing,
      r.boundary.reads.inside]
  have hstep : step cfg stops s₀ = .next (flush s₀) s₀.flushed :=
    step_flush ⟨hlevels, fun _ => rfl, fun h => absurd rfl h⟩ rfl r.reads.startsFlush hstops
  have hrun : run cfg [] s₀.flushed = run cfg [] r.state := by
    rw [hflushed]
    exact r.reads.run_content false
  exact ⟨flush s₀, s₀.flushed,
    { run_eq := run_of_next hstep
      tokens := fun x hx => by rw [List.eq_of_mem_replicate hx]; rfl
      comments := rfl
      diagnostics := rfl
      sound := ⟨⟨[], rfl, List.forall_mem_nil _⟩, fun h => absurd h Bool.false_ne_true,
        fun h => absurd rfl h⟩
      depth := rfl
      hasContent := rfl
      text := ⟨r.before, r.new_eq, r.pos_eq⟩
      parse_eq := by
        rw [hrun, r.parse_parts hcancel hold hnew, hkept, hls]
        have hline : (flush s₀).lineStates = [⟨UInt32.ofNat r.boundary.state.pos, snapshot⟩] := by
          change [LineState.mk _ ⟨snapshot.levels, 0, none⟩] = _
          rw [← hdepth, ← hstring]
        rw [hline, Part.mk_append_lineStates] }⟩

end Resume

end Document

end Offside
