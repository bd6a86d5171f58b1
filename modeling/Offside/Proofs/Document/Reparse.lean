import Mathlib.Data.List.TakeWhile
import Offside.Proofs.Document.Resume

namespace Offside

open Layout (Snapshot)
open Scan

namespace Document

variable {cfg : Config} {old new text : String} {start stop kept : Nat} {edit : Edit}

/-- What a resumed scan and the parse of its tokens contribute. Dedents at its start close blocks that
the kept statements have opened. -/
def freshPart (cfg : Config) (scan : Scan.Result) : Part :=
  .ofScan scan (Grammar.parse cfg (ownTokens scan))

/-- Where a text is scanned again after an edit. -/
theorem rescan?_eq_some {d : Document} {offset : Offset} {scan : Scan.Result}
    (h : rescan? cfg d new edit = some ((kept, offset), scan)) :
    ∃ snapshot s, d.resumePoint? new edit = some (kept, offset) ∧ d.snapshotAt? offset = some snapshot ∧
      State.resume? new offset.toNat snapshot = some s ∧ scan = run cfg (d.stopPoints edit kept) s := by
  unfold rescan? at h
  split at h
  · contradiction
  obtain ⟨⟨kept', offset'⟩, hresume, h⟩ := Option.bind_eq_some_iff.mp h
  obtain ⟨snapshot, hsnapshot, h⟩ := Option.bind_eq_some_iff.mp h
  obtain ⟨s, hs, h⟩ := Option.bind_eq_some_iff.mp h
  cases Option.some.inj h
  exact ⟨snapshot, s, hresume, hsnapshot, hs, rfl⟩

/-- The parts that a document is built of after an edit. -/
theorem reuse?_eq_some {d d' : Document} (h : reuse? cfg d new edit = some d') :
    ∃ kept offset snapshot s behind, d.resumePoint? new edit = some (kept, offset) ∧
      d.snapshotAt? offset = some snapshot ∧
      State.resume? new offset.toNat snapshot = some s ∧
      d' = ofPart new (d.keptPart kept offset ++ freshPart cfg (run cfg (d.stopPoints edit kept) s) ++
        behind) (Grammar.parse cfg (ownTokens (run cfg (d.stopPoints edit kept) s))).cancelled ∧
      ((run cfg (d.stopPoints edit kept) s).stoppedAt = none ∧ behind = {} ∨
        ∃ stop, (run cfg (d.stopPoints edit kept) s).stoppedAt = some stop ∧
          ((Grammar.parse cfg (ownTokens (run cfg (d.stopPoints edit kept) s))).cancelled = true ∧
              behind = {} ∨
            d.takenOver? edit stop (freshPart cfg (run cfg (d.stopPoints edit kept) s)) =
              some behind)) := by
  unfold reuse? at h
  obtain ⟨⟨⟨kept, offset⟩, scan⟩, hscan, h⟩ := Option.bind_eq_some_iff.mp h
  obtain ⟨snapshot, s, hresume, hsnapshot, hs, rfl⟩ := rescan?_eq_some hscan
  dsimp only at h
  split at h
  · next stop hstop =>
    split at h
    · next hcancelled =>
      obtain ⟨behind, hbehind, h⟩ := Option.bind_eq_some_iff.mp h
      exact ⟨kept, offset, snapshot, s, behind, hresume, hsnapshot, hs, (Option.some.inj h).symm,
        Or.inr ⟨stop, hstop, Or.inl ⟨hcancelled, (Option.some.inj hbehind).symm⟩⟩⟩
    · obtain ⟨behind, hbehind, h⟩ := Option.bind_eq_some_iff.mp h
      exact ⟨kept, offset, snapshot, s, behind, hresume, hsnapshot, hs, (Option.some.inj h).symm,
        Or.inr ⟨stop, hstop, Or.inr hbehind⟩⟩
  · next hstop =>
    obtain ⟨behind, hbehind, h⟩ := Option.bind_eq_some_iff.mp h
    exact ⟨kept, offset, snapshot, s, behind, hresume, hsnapshot, hs, (Option.some.inj h).symm,
      Or.inl ⟨hstop, (Option.some.inj hbehind).symm⟩⟩

/-- Stop points are boundaries of the old document behind the edit, moved. -/
theorem exists_stop (hcancel : cfg.cancel = false) {o : Offset}
    (h : o ∈ (parse cfg old).stopPoints edit kept) :
    ∃ ss, ∃ b : Boundary cfg old ss, o = Offset.shift (UInt32.ofNat b.state.pos) edit.delta ∧
      edit.oldStop ≤ UInt32.ofNat b.state.pos ∧
      (parse cfg old).body.dropWhile (fun s => s.span.start != UInt32.ofNat b.state.pos) =
        b.parsed.1 := by
  obtain ⟨start, hstart, ho⟩ := List.mem_filterMap.mp h
  split at ho
  swap
  · contradiction
  next hclear =>
  obtain rfl := Option.some.inj ho
  obtain ⟨s, hs, rfl⟩ := List.mem_map.mp hstart
  have hmem : s ∈ (parse cfg old).body := List.mem_of_mem_drop (List.mem_filter.mp hs).1
  have hsplit := List.takeWhile_append_dropWhile
    (p := fun t : Stmt => t.span.start != s.span.start) (l := (parse cfg old).body)
  obtain ⟨t, rest, hrest⟩ : ∃ t rest,
      (parse cfg old).body.dropWhile (fun t => t.span.start != s.span.start) = t :: rest := by
    refine List.exists_cons_of_ne_nil fun hnil => ?_
    have hall := List.dropWhile_eq_nil_iff.mp hnil s hmem
    simp at hall
  have ht : t.span.start = s.span.start := by
    have hhead := List.head_dropWhile_not (fun t : Stmt => t.span.start != s.span.start)
      (l := (parse cfg old).body) (by rw [hrest]; exact List.cons_ne_nil _ _)
    simpa [hrest] using hhead
  rw [hrest] at hsplit
  have hclean : ∀ d ∈ (parse cfg old).diagnostics, d.span.start ≠ t.span.start := by
    intro d hd heq
    have hnone := hclear.2
    rw [Bool.not_eq_true', hasFaultAt, List.any_eq_false] at hnone
    exact hnone d hd (by rw [heq, ht]; exact beq_self_eq_true _)
  obtain ⟨b, -, hpos⟩ := exists_boundary hcancel hsplit.symm hclean
  rw [← ht, hpos] at hrest hclear ⊢
  refine ⟨_, b, rfl, hclear.1, hrest.trans ?_⟩
  have hbody := congrArg (fun d => d.body) (b.parse_eq hcancel)
  exact List.append_cancel_left (hsplit.trans hbody)

namespace Boundary

variable {ss : List Stmt} (b : Boundary cfg old ss)

/-- Behind an edit the new text goes on as the old one does. -/
theorem behind_edit (hold : Text.byteSize old.toList < UInt32.size)
    (hnew : Text.byteSize new.toList < UInt32.size)
    (hedit : Edit.replace? old start stop text = some (new, edit))
    (hle : edit.oldStop ≤ UInt32.ofNat b.state.pos) :
    ∃ p, new.toList = p ++ b.state.rest ∧ (Text.byteSize p : Int) = b.state.pos + edit.delta ∧
      start ≤ Text.byteSize p := by
  obtain ⟨before, removed, after, hbefore, hinserted, hstart, hstop, rfl⟩ :=
    Edit.replace?_eq_some hedit
  obtain ⟨p, hp, hpos⟩ := b.reaches.exists_prefix
  have hpos : b.state.pos = Text.byteSize p := hpos.trans (Nat.zero_add _)
  have hsplit : (before ++ removed) ++ after = p ++ b.state.rest := hbefore.symm.trans hp
  have hlt := b.pos_lt hold
  rw [hbefore] at hold
  rw [hinserted] at hnew
  simp only [Text.byteSize_append] at hold hnew
  rw [Edit.replacing, UInt32.le_iff_toNat_le, Offset.toNat_ofNat (by omega),
    Offset.toNat_ofNat hlt] at hle
  obtain ⟨w, rfl, rfl⟩ := Text.append_of_byteSize_le hsplit (by
    rw [Text.byteSize_append]
    omega)
  refine ⟨before ++ text.toList ++ w, by rw [hinserted, List.append_assoc _ w], ?_, ?_⟩
  · rw [Edit.delta, Edit.replacing, Offset.toNat_ofNat (by omega), Offset.toNat_ofNat (by omega), hpos]
    simp only [Text.byteSize_append]
    omega
  · simp only [Text.byteSize_append]
    omega

variable {delta : Int} {u : State}

/-- A scan of another text that comes to a line start where the text goes on as it does behind the
boundary puts out from there what the scan behind the boundary does, moved. -/
theorem run_rejoined (hcancel : cfg.cancel = false) (hresync : b.state.resyncing = false)
    (hs : u.Sound) (hl : u.atLineStart = true) (hrest : u.rest = b.state.rest)
    (hpos : (u.pos : Int) = b.state.pos + delta) : run cfg [] u =
      (relocate (fun o => Offset.shift o delta) (run cfg [] b.state)).after (flush u) := by
  obtain ⟨hlevels, hopeners⟩ := b.levels_eq hcancel
  have hflush : StartsFlush u.rest := hrest ▸ b.reads.startsFlush
  have hmoved : Moved (fun o => Offset.shift o delta) { b.state with hasContent := false } u.flushed :=
    { pos := fun i => (Offset.shift_ofNat (by
        change ((u.pos + i : Nat) : Int) = ((b.state.pos + i : Nat) : Int) + delta
        push_cast
        omega)).symm
      rest := hrest
      levels := hlevels.symm
      openers := by
        change u.openers = relocate _ b.state.openers
        rw [hs.openers_eq hl, hopeners]
        rfl
      atLineStart := b.reads.inside.symm
      hasContent := hs.lineStart hl
      resyncing := hresync.symm }
  rw [run_of_next (step_flush hs hl hflush List.not_mem_nil), run_moved hmoved, b.reads.run_content]

/-- What the old document holds behind the boundary. -/
theorem movedPart_eq (hcancel : cfg.cancel = false) (hsize : Text.byteSize old.toList < UInt32.size)
    (hbody : (parse cfg old).body.dropWhile (fun s => s.span.start != UInt32.ofNat b.state.pos) =
      b.parsed.1) (delta : Int) : (parse cfg old).movedPart (UInt32.ofNat b.state.pos) delta =
    ⟨relocate (fun o => Offset.shift o delta) b.parsed.1,
      relocate (fun o => Offset.shift o delta) (Diagnostic.sort
        ((b.remaining.diagnostics ++ (finish b.final).diagnostics) ++ b.parsed.2)),
      relocate (fun o => Offset.shift o delta) b.remaining.comments,
      relocate (fun o => Offset.shift o delta) b.remaining.lineStates⟩ := by
  rw [movedPart, hbody, (b.filter_diagnostics hcancel hsize).2, (b.filter_comments hcancel hsize).2,
    b.filter_lineStates hcancel hsize]
  rfl

/-- The move to the new text keeps the order of the positions behind the boundary. -/
theorem shift_order (hsize : Text.byteSize old.toList < UInt32.size) (hlimit : u.limit < UInt32.size)
    (hrest : u.rest = b.state.rest) (hpos : (u.pos : Int) = b.state.pos + delta) (x y : Offset)
    (hx : UInt32.ofNat b.state.pos ≤ x) (hx' : x ≤ UInt32.ofNat b.final.pos)
    (hy : UInt32.ofNat b.state.pos ≤ y) (hy' : y ≤ UInt32.ofNat b.final.pos) :
    x ≤ y ↔ Offset.shift x delta ≤ Offset.shift y delta := by
  have hend : (b.final.pos : Int) + delta = u.limit := by
    have hsame := b.reaches_final.covers.limit_eq
    rw [State.limit, State.limit, b.final_rest] at hsame
    rw [State.limit, hrest]
    push_cast
    simp only [Text.byteSize_nil] at hsame
    omega
  have hfinal : b.final.pos < UInt32.size := b.final_pos ▸ hsize
  exact (Offset.shift_le_shift_iff (by rw [Offset.toNat_ofNat (b.pos_lt hsize)]; omega)
    (by rw [Offset.toNat_ofNat hfinal]; omega) ⟨hx, hx'⟩ ⟨hy, hy'⟩).symm

theorem run_tokens : (run cfg [] b.state).tokens = (b.joint.first :: b.joint.behind) ++ [b.mark] := by
  rw [b.run_eq, b.behind_eq]
  exact (List.append_assoc _ _ _).symm

/-- What the scan behind the boundary holds, moved, is what is taken over from the old document. -/
theorem movedPart_eq_run (hcancel : cfg.cancel = false) (hsize : Text.byteSize old.toList < UInt32.size)
    (hbody : (parse cfg old).body.dropWhile (fun s => s.span.start != UInt32.ofNat b.state.pos) =
      b.parsed.1) (delta : Int) : (parse cfg old).movedPart (UInt32.ofNat b.state.pos) delta =
    ⟨relocate (fun o => Offset.shift o delta) (Grammar.parse cfg (run cfg [] b.state).tokens).body,
      relocate (fun o => Offset.shift o delta) (Diagnostic.sort ((run cfg [] b.state).diagnostics ++
        (Grammar.parse cfg (run cfg [] b.state).tokens).diagnostics)),
      relocate (fun o => Offset.shift o delta) (run cfg [] b.state).comments,
      relocate (fun o => Offset.shift o delta) (run cfg [] b.state).lineStates⟩ := by
  rw [b.movedPart_eq hcancel hsize hbody, b.run_tokens, Offside.parse_eq hcancel rfl, b.run_eq]
  simp only [finish, endMark, Emission.append_diagnostics, Emission.append_comments,
    Emission.append_lineStates, List.append_nil]
  rfl

/-- Where a scan of another text stops before text that goes on as it does behind the boundary, and
no fault stands there, the rest of that text holds what the old document does, moved. -/
theorem ofScan_eq (hcancel : cfg.cancel = false) (hsize : Text.byteSize old.toList < UInt32.size)
    {stops : List Offset} {t : State} {e : Emission} {r : Result} (hs : t.Sound) (hd : t.depth = {})
    (hc : t.hasContent = false) (h : Reaches cfg stops t e u) (hl : u.atLineStart = true)
    (hr : r.toEmission = e ++ (flush u ++ endMark u.pos)) (hlimit : u.limit < UInt32.size)
    (hresync : b.state.resyncing = false) (hrest : u.rest = b.state.rest)
    (hpos : (u.pos : Int) = b.state.pos + delta)
    (hbody : (parse cfg old).body.dropWhile (fun s => s.span.start != UInt32.ofNat b.state.pos) =
      b.parsed.1)
    (hfault : ∀ d ∈ (Part.ofScan r (Grammar.parse cfg r.tokens)).diagnostics,
      d.span.start < UInt32.ofNat u.pos) :
    Part.ofScan (run cfg [] t) (Grammar.parse cfg (run cfg [] t).tokens) =
      Part.ofScan r (Grammar.parse cfg r.tokens) ++
        (parse cfg old).movedPart (UInt32.ofNat b.state.pos) delta := by
  have hfinal : b.final.pos < UInt32.size := b.final_pos ▸ hsize
  have hrun : run cfg [] t =
      (relocate (fun o => Offset.shift o delta) (run cfg [] b.state)).after (e ++ flush u) := by
    rw [h.unstopped.run_eq, b.run_rejoined hcancel hresync (h.leads hs).sound hl hrest hpos,
      Result.after_after]
  have htokens : r.tokens = tokensTo e u ++ [markAt u] := by
    rw [hr]
    exact (List.append_assoc _ _ _).symm
  rw [htokens, Offside.parse_eq hcancel rfl] at hfault ⊢
  have hbetween := b.remaining_between hcancel
  have hbehind : (run cfg [] b.state).toEmission = b.remaining ++ (finish b.final ++ endMark b.final.pos) := by
    rw [b.run_eq]
  have hle : UInt32.ofNat b.state.pos ≤ UInt32.ofNat b.final.pos :=
    ((Span.between_point b.pos_le (Nat.le_refl _)).inside hfinal).1.1
  obtain ⟨hjoint, hsort⟩ := parse_joined (f := fun o => Offset.shift o delta) hcancel h hs hd hc hl
    b.run_tokens rfl (b.joint_clean hcancel).startsAfresh hle (b.shift_order hsize hlimit hrest hpos)
    (Offset.shift_ofNat hpos)
    (fun x hx => (hbetween.tokens x (hbehind ▸ hx)).inside hfinal)
    (fun d hd => (hbetween.diagnostics d (hbehind ▸ hd)).inside hfinal)
    fun d hd => hfault d (Diagnostic.mem_sort.mpr hd)
  have hdiagnostics : (run cfg [] t).diagnostics = r.diagnostics ++
      relocate (fun o => Offset.shift o delta) (run cfg [] b.state).diagnostics := by
    rw [hrun, hr]
    simp [Result.after, flush, endMark, relocate]
  have hcomments : (run cfg [] t).comments = r.comments ++
      relocate (fun o => Offset.shift o delta) (run cfg [] b.state).comments := by
    rw [hrun, hr]
    simp [Result.after, flush, endMark, relocate]
  have hlines : (run cfg [] t).lineStates = r.lineStates ++
      relocate (fun o => Offset.shift o delta) (run cfg [] b.state).lineStates := by
    rw [hrun, hr]
    simp [Result.after, flush, endMark, relocate]
  rw [b.movedPart_eq_run hcancel hsize hbody]
  rw [← hrun] at hjoint hsort
  change Part.mk _ (Diagnostic.sort (_ ++ _)) _ _ = Part.mk _ _ _ _
  rw [hjoint, hdiagnostics, hsort, hcomments, hlines]
  rfl

end Boundary

section Resumed

variable {stops : List Offset} {part : Part} {s t : State} {lead : Emission}

/-- What a resumed scan finds behind the line start that the old scan has put out already. -/
theorem Resumed.freshPart_eq (h : Resumed cfg new stops part s lead t) {us : List Token} {last : Token}
    (htokens : (run cfg stops t).tokens = us ++ [last]) (hl : last.kind = .eof)
    (hfirst : ∀ x, us.head? = some x → x.kind ≠ .dedent) :
    ownTokens (run cfg stops s) = us ++ [last] ∧
      freshPart cfg (run cfg stops s) = ({ lineStates := lead.lineStates } : Part) ++
        Part.ofScan (run cfg stops t) (Grammar.parse cfg (us ++ [last])) := by
  have hdrop : ownTokens (run cfg stops s) = us ++ [last] := by
    rw [h.run_eq]
    change (lead.tokens ++ (run cfg stops t).tokens).dropWhile _ = _
    rw [List.dropWhile_append_of_pos fun x hx => by simpa using h.tokens x hx, htokens]
    cases us with
    | nil => simp [hl]
    | cons x us => simpa using fun hk => absurd hk (hfirst x rfl)
  refine ⟨hdrop, ?_⟩
  rw [freshPart, hdrop, h.run_eq]
  change Part.mk _ (Diagnostic.sort ((lead.diagnostics ++ _) ++ _)) (lead.comments ++ _) _ = _
  rw [h.comments, h.diagnostics]
  rfl

/-- A resumed scan that goes on to the end of the text finds all the rest. -/
theorem Resumed.parse_eq_end (h : Resumed cfg new stops part s lead t) (hcancel : cfg.cancel = false)
    {e : Emission} {u : State} (hu : Reaches cfg stops t e u) (hrest : u.rest = [])
    (hrun : run cfg stops t = ⟨e ++ (finish u ++ endMark u.pos), none⟩) :
    (run cfg stops s).stoppedAt = none ∧
      ofPart new (part ++ freshPart cfg (run cfg stops s))
        (Grammar.parse cfg (ownTokens (run cfg stops s))).cancelled = parse cfg new := by
  have htokens : (run cfg stops t).tokens =
      (e.tokens ++ (finish u).tokens) ++ [.layout .eof (Span.ofNat u.pos u.pos)] := by
    rw [hrun, List.append_assoc]
    rfl
  have hsame : run cfg [] t = run cfg stops t := by
    rw [hrun, hu.unstopped.run_eq, run_of_done (step_end hrest)]
    rfl
  obtain ⟨hdrop, hfresh⟩ := h.freshPart_eq htokens rfl (hu.first_ne_dedent h.sound h.depth)
  refine ⟨?_, ?_⟩
  · rw [h.run_eq, hrun]
    rfl
  · rw [hdrop, hfresh, h.parse_eq, hsame, htokens, Offside.parse_eq hcancel rfl, Part.append_assoc]

/-- A resumed scan that stops where the text goes on as behind a boundary of the old one finds all that
comes before, and the old document holds the rest. -/
theorem Resumed.parse_eq_stop (h : Resumed cfg new stops part s lead t) (hcancel : cfg.cancel = false)
    (hold : Text.byteSize old.toList < UInt32.size) (hnew : Text.byteSize new.toList < UInt32.size)
    {ss : List Stmt} (b : Boundary cfg old ss) (hresync : b.state.resyncing = false)
    (hbody : (parse cfg old).body.dropWhile (fun s => s.span.start != UInt32.ofNat b.state.pos) =
      b.parsed.1)
    {p : List Char} (hp : new.toList = p ++ b.state.rest)
    (hsize : (Text.byteSize p : Int) = b.state.pos + edit.delta)
    {e : Emission} {u : State} (hu : Reaches cfg stops t e u) (hl : u.atLineStart = true)
    (hstop : UInt32.ofNat u.pos ∈ stops) (hpos : u.pos = Text.byteSize p) {behind : Part}
    (hbehind : ∀ stop, (run cfg stops s).stoppedAt = some stop →
      (parse cfg old).takenOver? edit stop (freshPart cfg (run cfg stops s)) = some behind) :
    ofPart new (part ++ freshPart cfg (run cfg stops s) ++ behind)
      (Grammar.parse cfg (ownTokens (run cfg stops s))).cancelled = parse cfg new := by
  have hsound := (hu.leads h.sound).sound
  obtain ⟨q, hq, htpos⟩ := h.text
  obtain ⟨q', hq', hupos⟩ := hu.exists_prefix
  have hsplit : (q ++ q') ++ u.rest = p ++ b.state.rest := by
    rw [List.append_assoc, ← hq', ← hq, hp]
  have hrest : u.rest = b.state.rest := (Text.append_inj_of_byteSize hsplit (by
    rw [Text.byteSize_append]
    omega)).2
  have hlimit : u.limit < UInt32.size := by
    rw [hp, Text.byteSize_append] at hnew
    rw [State.limit, hrest, hpos]
    exact hnew
  have hrun : run cfg stops t = ⟨e ++ (flush u ++ endMark u.pos), some (UInt32.ofNat u.pos)⟩ := by
    rw [hu.run_eq, run_of_done (step_flush_stop hsound hl (hrest ▸ b.reads.startsFlush) hstop)]
    rfl
  have hfinish := finish_lineStart hsound hl
  have htokens : (run cfg stops t).tokens =
      (e.tokens ++ (finish u).tokens) ++ [.layout .eof (Span.ofNat u.pos u.pos)] := by
    rw [hrun, hfinish, List.append_assoc]
    rfl
  obtain ⟨hdrop, hfresh⟩ := h.freshPart_eq htokens rfl (hu.first_ne_dedent h.sound h.depth)
  have hpos' : (u.pos : Int) = b.state.pos + edit.delta := by rw [hpos, hsize]
  have hback : Offset.shift (UInt32.ofNat u.pos) (-edit.delta) = UInt32.ofNat b.state.pos :=
    Offset.shift_ofNat (by omega)
  have htaken := hbehind (UInt32.ofNat u.pos) (by rw [h.run_eq, hrun]; rfl)
  rw [takenOver?, hback] at htaken
  split at htaken
  swap
  · contradiction
  next hclear =>
  obtain rfl := Option.some.inj htaken
  have hfault : ∀ d ∈ (Part.ofScan (run cfg stops t)
      (Grammar.parse cfg (run cfg stops t).tokens)).diagnostics, d.span.start < UInt32.ofNat u.pos := by
    intro d hd
    refine of_decide_eq_true (List.all_eq_true.mp hclear.1 d ?_)
    rw [hfresh, ← htokens]
    exact hd
  have hrejoined := b.ofScan_eq hcancel hold h.sound h.depth h.hasContent hu hl
    (congrArg Result.toEmission hrun) hlimit hresync hrest hpos' hbody hfault
  rw [hdrop, hfresh, h.parse_eq, hrejoined, htokens, Offside.parse_eq hcancel rfl]
  simp only [Part.append_assoc]

end Resumed

section Edit

variable (hcancel : cfg.cancel = false) (hold : Text.byteSize old.toList < UInt32.size)
  (hnew : Text.byteSize new.toList < UInt32.size)
  (hedit : Edit.replace? old start stop text = some (new, edit))
  (hmatched : ∀ d ∈ (parse cfg old).diagnostics, ∀ w, d.cause ≠ .inconsistentDedent w)

theorem keptPart_zero (d : Document) : d.keptPart 0 0 = {} := by
  simp [keptPart]

include hcancel hold hnew hedit in
/-- No statement starts behind the edit where the scan resumes before it. -/
theorem not_mem_stopPoints {i : Nat} (hi : i < start) :
    UInt32.ofNat i ∉ (parse cfg old).stopPoints edit kept := by
  intro hmem
  obtain ⟨ss, b, heq, hle, -⟩ := exists_stop hcancel hmem
  obtain ⟨p, hp, hsize, hge⟩ := b.behind_edit hold hnew hedit hle
  have hlt : Text.byteSize p < UInt32.size := by
    rw [hp, Text.byteSize_append] at hnew
    omega
  rw [Offset.shift_ofNat hsize] at heq
  have hnat := congrArg UInt32.toNat heq
  rw [Offset.toNat_ofNat (by omega), Offset.toNat_ofNat hlt] at hnat
  omega

include hcancel hold hnew hedit hmatched

/-- What is built of the old document and a resumed scan is the document of the new text. -/
theorem Resumed.parse_eq_built {part behind : Part} {s t : State} {lead : Emission}
    (h : Resumed cfg new ((parse cfg old).stopPoints edit kept) part s lead t)
    (hbehind : (run cfg ((parse cfg old).stopPoints edit kept) s).stoppedAt = none ∧ behind = {} ∨
      ∃ stop, (run cfg ((parse cfg old).stopPoints edit kept) s).stoppedAt = some stop ∧
        (parse cfg old).takenOver? edit stop
          (freshPart cfg (run cfg ((parse cfg old).stopPoints edit kept) s)) = some behind) :
    ofPart new (part ++ freshPart cfg (run cfg ((parse cfg old).stopPoints edit kept) s) ++ behind)
      (Grammar.parse cfg (ownTokens (run cfg ((parse cfg old).stopPoints edit kept) s))).cancelled =
        parse cfg new := by
  obtain ⟨e, u, r, hu, hdone, hrun⟩ := exists_done cfg ((parse cfg old).stopPoints edit kept) t
  rcases step_done hdone with ⟨hrest, rfl⟩ | ⟨-, hl, hstop⟩
  · obtain ⟨hnone, hparse⟩ := h.parse_eq_end hcancel hu hrest hrun
    rcases hbehind with ⟨-, rfl⟩ | ⟨stop, hsome, -⟩
    · rw [Part.append_empty, hparse]
    · rw [hnone] at hsome
      contradiction
  · obtain ⟨ss, b, heq, hle, hbody⟩ := exists_stop hcancel hstop
    obtain ⟨p, hp, hsize, -⟩ := b.behind_edit hold hnew hedit hle
    have hpos : u.pos = Text.byteSize p := by
      obtain ⟨q, hq, htpos⟩ := h.text
      obtain ⟨q', hq', hupos⟩ := hu.exists_prefix
      rw [Offset.shift_ofNat hsize] at heq
      have hnat := congrArg UInt32.toNat heq
      rwa [Offset.toNat_ofNat, Offset.toNat_ofNat] at hnat
      · rw [hp, Text.byteSize_append] at hnew
        omega
      · rw [hq, hq', Text.byteSize_append, Text.byteSize_append] at hnew
        omega
    refine h.parse_eq_stop hcancel hold hnew b (b.resyncing_eq hcancel hmatched) hbody hp hsize hu hl
      hstop hpos fun stop hstopped => ?_
    rcases hbehind with ⟨hnone, -⟩ | ⟨stop', hstopped', htaken⟩
    · rw [hnone] at hstopped
      contradiction
    · rw [hstopped'] at hstopped
      rwa [← Option.some.inj hstopped]

variable (hwords : ∀ s ∈ (parse cfg old).body, s.span.start < edit.start →
  ∀ t ∈ (scan cfg new).tokens, t.span.start = s.span.start → t.kind ≠ .kwElif ∧ t.kind ≠ .kwElse)

include hwords

/-- Reparsing gives the parse of the new text, unless the old text has a dedent to no level, or the edit
makes the first word of a statement `elif` or `else`. -/
theorem reparse_eq_parse : reparse cfg (parse cfg old) new edit = parse cfg new := by
  unfold reparse
  cases hreuse : reuse? cfg (parse cfg old) new edit with
  | none => rw [Option.getD_none, Config.spend, if_neg (by simp [hcancel])]
  | some d =>
    obtain ⟨kept, offset, snapshot, s, behind, hresume, hsnapshot, hs, rfl, hbehind⟩ :=
      reuse?_eq_some hreuse
    have hstopped : (run cfg ((parse cfg old).stopPoints edit kept) s).stoppedAt = none ∧ behind = {} ∨
        ∃ stop, (run cfg ((parse cfg old).stopPoints edit kept) s).stoppedAt = some stop ∧
          (parse cfg old).takenOver? edit stop
            (freshPart cfg (run cfg ((parse cfg old).stopPoints edit kept) s)) = some behind := by
      refine hbehind.imp_right ?_
      rintro ⟨stop, hstop, ⟨hcancelled, -⟩ | htaken⟩
      · rw [Seam.cancel_of_cancelled hcancelled] at hcancel
        contradiction
      · exact ⟨stop, hstop, htaken⟩
    rcases exists_resumption hcancel hold hedit hwords hresume with
      ⟨rfl, rfl⟩ | ⟨ss, r, -, rfl, rfl, hlt⟩
    · -- the text is scanned from its start
      obtain rfl : snapshot = {} := (Option.some.inj hsnapshot).symm
      obtain rfl : s = .start new := by
        have hstart : State.resume? new (Text.byteSize []) {} = some (.start new) :=
          State.resume?_eq (p := []) rfl rfl rfl rfl ⟨[], rfl, List.forall_mem_nil _⟩
        exact Option.some.inj (hs.symm.trans hstart)
      rw [keptPart_zero]
      exact (resumed_start hcancel _).parse_eq_built hcancel hold hnew hedit hmatched hstopped
    · obtain ⟨lead, t, h⟩ := resumed_boundary r hcancel hold hnew hmatched
        (not_mem_stopPoints hcancel hold hnew hedit hlt) hsnapshot hs
      exact h.parse_eq_built hcancel hold hnew hedit hmatched hstopped

end Edit

/-- The statements before and behind a longer number are taken over. -/
theorem reparse_eq_parse_number :
    Edit.replace? "if a:\n  b\nc = 1\nd = 2\n" 14 15 "34" =
        some ("if a:\n  b\nc = 34\nd = 2\n", ⟨14, 15, 16⟩) ∧
      (reuse? {} (parse {} "if a:\n  b\nc = 1\nd = 2\n") "if a:\n  b\nc = 34\nd = 2\n"
        ⟨14, 15, 16⟩).isSome = true ∧
      reparse {} (parse {} "if a:\n  b\nc = 1\nd = 2\n") "if a:\n  b\nc = 34\nd = 2\n" ⟨14, 15, 16⟩ =
        parse {} "if a:\n  b\nc = 34\nd = 2\n" := by
  have hedit : Edit.replace? "if a:\n  b\nc = 1\nd = 2\n" 14 15 "34" =
      some ("if a:\n  b\nc = 34\nd = 2\n", ⟨14, 15, 16⟩) := by decide +kernel
  have hclean : (parse {} "if a:\n  b\nc = 1\nd = 2\n").diagnostics.isEmpty = true := by decide +kernel
  refine ⟨hedit, by decide +kernel, reparse_eq_parse rfl (by decide +kernel) (by decide +kernel) hedit ?_
    (by decide +kernel)⟩
  rw [List.isEmpty_iff.mp hclean]
  exact List.forall_mem_nil _

end Document

end Offside
