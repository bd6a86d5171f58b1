import Offside.Proofs.Document.Append
import Offside.Proofs.Scan.Line

namespace Offside

structure CommentLine where
  indent : List Char
  blank : ∀ c ∈ indent, Layout.isSpace c = true
  text : List Char
  single : ∀ c ∈ text, c ≠ '\r' ∧ c ≠ '\n'
  /-- A return stands before the line feed. -/
  carriage : Bool

namespace CommentLine

def returns (line : CommentLine) : List Char := if line.carriage then ['\r'] else []

def chars (line : CommentLine) : List Char :=
  line.indent ++ '#' :: (line.text ++ (line.returns ++ ['\n']))

def size (line : CommentLine) : Nat := Text.byteSize line.chars

def comment (line : CommentLine) (pos : Nat) : Token :=
  let start := pos + Text.byteSize line.indent
  ⟨.comment, String.ofList ('#' :: line.text),
    Span.ofNat start (start + Text.byteSize ('#' :: line.text))⟩

theorem returns_blank (line : CommentLine) : ∀ c ∈ line.returns, Layout.isSpace c = true := by
  unfold returns
  split
  · exact List.forall_mem_singleton.mpr rfl
  · exact List.forall_mem_nil _

/-- The comment is followed by a return or a line feed. -/
theorem exists_end (line : CommentLine) (v : List Char) :
    ∃ c w, line.returns ++ '\n' :: v = c :: w ∧ (c = '\r' ∨ c = '\n') := by
  unfold returns
  split
  · exact ⟨_, _, rfl, Or.inl rfl⟩
  · exact ⟨_, _, rfl, Or.inr rfl⟩

end CommentLine

namespace Scan

variable {cfg : Config} {stops : List Offset} {s t : State} {e : Emission} {x v : List Char}

def State.inside (s : State) (pos : Nat) (text : List Char) : State :=
  { s with pos, rest := text, atLineStart := false }

theorem State.skip_inside (s : State) (pos : Nat) (x v : List Char) :
    (s.inside pos (x ++ v)).skip x.length = s.inside (pos + Text.byteSize x) v := by
  rw [skip, inside, List.take_left, List.drop_left]
  rfl

/-- The state behind a comment line differs from the one before it by the length of the line. -/
theorem reaches_commentLine (line : CommentLine) (hs : s.Sound) (hrest : s.rest = line.chars ++ v)
    (hl : s.atLineStart = true) : Reaches cfg stops s
      { comments := [line.comment s.pos], lineStates := [s.lineState s.pos none] }
      { s with pos := s.pos + line.size, rest := v } := by
  have hrest : s.rest = line.indent ++ '#' :: (line.text ++ (line.returns ++ '\n' :: v)) := by
    rw [hrest, CommentLine.chars]
    simp
  -- five steps: the line start, the blanks, the comment, a return and the line feed
  let comment := s.pos + Text.byteSize line.indent
  let returns := comment + Text.byteSize ('#' :: line.text)
  let feed := returns + Text.byteSize line.returns
  have hstart : Reaches cfg stops s { lineStates := [s.lineState s.pos none] }
      (s.inside s.pos (line.indent ++ '#' :: (line.text ++ (line.returns ++ '\n' :: v)))) := by
    rw [← hrest]
    exact .single (step_commentLine line.blank hrest hl)
  have hindent : Reaches cfg stops
      (s.inside s.pos (line.indent ++ '#' :: (line.text ++ (line.returns ++ '\n' :: v)))) {}
      (s.inside comment ('#' :: (line.text ++ (line.returns ++ '\n' :: v)))) := by
    rw [← s.skip_inside s.pos line.indent]
    exact reaches_blanks line.blank (by decide) rfl rfl
  have hcomment : Reaches cfg stops
      (s.inside comment ('#' :: (line.text ++ (line.returns ++ '\n' :: v))))
      { comments := [line.comment s.pos] } (s.inside returns (line.returns ++ '\n' :: v)) := by
    obtain ⟨c, w, hend, hc⟩ := line.exists_end v
    have hskip : (s.inside comment ('#' :: (line.text ++ (line.returns ++ '\n' :: v)))).skip
        (line.text.length + 1) = s.inside returns (line.returns ++ '\n' :: v) :=
      s.skip_inside comment ('#' :: line.text) (line.returns ++ '\n' :: v)
    have hreach : Reaches cfg stops (s.inside comment ('#' :: (line.text ++ c :: w))) _ _ :=
      reaches_comment line.single hc rfl rfl
    rw [← hend, hskip] at hreach
    exact hreach
  have hreturns : Reaches cfg stops (s.inside returns (line.returns ++ '\n' :: v)) {}
      (s.inside feed ('\n' :: v)) := by
    rw [← s.skip_inside returns line.returns]
    exact reaches_blanks line.returns_blank (by decide) rfl rfl
  have hfeed : step cfg stops (s.inside feed ('\n' :: v)) =
      .next {} { s with pos := s.pos + line.size, rest := v } := by
    have hsize : s.pos + line.size = feed + Text.byteSize ['\n'] := by
      simp only [CommentLine.size, CommentLine.chars, feed, returns, comment, Text.byteSize_append,
        Text.byteSize_cons]
      omega
    have hskip : (s.inside feed ('\n' :: v)).skip 1 = s.inside (feed + Text.byteSize ['\n']) v :=
      s.skip_inside feed ['\n'] v
    have ho : (s.inside feed ('\n' :: v)).openers = [] := hs.openers_eq hl
    have hc : (s.inside feed ('\n' :: v)).hasContent = false := hs.lineStart hl
    rw [step_lineFeed rfl rfl, lineFeed_outer ho, hskip, hc, hl, hs.lineStart hl, hsize]
    rfl
  exact .tail (((hstart.trans hindent).trans hcomment).trans hreturns) hfeed

/-- What comes behind a comment line is put out as without the line, moved by the length of it. -/
theorem scan_commentLine (line : CommentLine) {A B : String} (h : Reaches cfg [] (.start (A ++ B)) e t)
    (hrest : t.rest = B.toList) (hl : t.atLineStart = true) :
    scan cfg (A ++ B) = (run cfg [] t).after e ∧
      scan cfg (A ++ String.ofList line.chars ++ B) =
        (relocate (fun o => Offset.shift o line.size) (run cfg [] t)).after
          (e ++ { comments := [line.comment t.pos], lineStates := [t.lineState t.pos none] }) := by
  have hsound := (h.leads (State.sound_start _)).sound
  have hbefore : Reaches cfg [] (.start (A ++ String.ofList line.chars ++ B)) e
      (t.before (line.chars ++ B.toList)) := by
    have hstart : (State.start (A ++ B)).before (A.toList ++ (line.chars ++ B.toList)) =
        .start (A ++ String.ofList line.chars ++ B) := by
      rw [State.start, State.start, String.append_assoc, String.toList_append, String.toList_append,
        String.toList_append, String.toList_ofList]
      rfl
    rw [← hstart]
    exact h.lineStart_append hl String.toList_append hrest
  have hline : Reaches cfg [] (t.before (line.chars ++ B.toList)) _ _ :=
    reaches_commentLine line ⟨hsound.levels, hsound.lineStart, hsound.openers⟩ rfl hl
  -- nothing else of the state has changed, not even whether it is resynchronising
  have hmoved : Moved (fun o => Offset.shift o line.size) t
      { t with pos := t.pos + line.size, rest := B.toList } :=
    { pos := fun i => by
        refine (Offset.shift_ofNat ?_).symm
        change ((t.pos + line.size + i : Nat) : Int) = ((t.pos + i : Nat) : Int) + _
        push_cast
        omega
      rest := hrest.symm
      levels := rfl
      openers := by rw [hsound.openers_eq hl]; rfl
      atLineStart := rfl
      hasContent := rfl
      resyncing := rfl }
  refine ⟨h.run_eq, ?_⟩
  rw [scan, (hbefore.trans hline).run_eq, ← run_moved hmoved]
  rfl

end Scan

namespace Document

open Scan

/-- A comment line leaves the statements as they are, but for their positions. The tokens, the faults
and the comments before it stay where they are, those behind it move by its length, and there is one
comment more. -/
theorem parse_commentLine (cfg : Config) (line : CommentLine) {A B : String} {e : Emission} {t : State}
    (h : Reaches cfg [] (.start (A ++ B)) e t) (hrest : t.rest = B.toList)
    (hl : t.atLineStart = true) :
    ∃ r : Result, scan cfg (A ++ B) = r.after e ∧
      (scan cfg (A ++ String.ofList line.chars ++ B)).tokens =
        e.tokens ++ r.tokens.map (fun x => x.shift line.size) ∧
      (scan cfg (A ++ String.ofList line.chars ++ B)).diagnostics =
        e.diagnostics ++ r.diagnostics.map (fun d => d.shift line.size) ∧
      (scan cfg (A ++ String.ofList line.chars ++ B)).comments = e.comments ++
        line.comment (Text.byteSize A.toList) :: r.comments.map (fun x => x.shift line.size) ∧
      relocate (fun _ => 0) (parse cfg (A ++ String.ofList line.chars ++ B)).body =
        relocate (fun _ => 0) (parse cfg (A ++ B)).body := by
  have hpos : t.pos = Text.byteSize A.toList := by
    have hlimit := h.covers.limit_eq
    rw [State.limit, State.limit, hrest, State.start, String.toList_append, Text.byteSize_append]
      at hlimit
    dsimp only at hlimit
    omega
  obtain ⟨hwhole, hmoved⟩ := scan_commentLine line h hrest hl
  have hsame : relocate (fun _ => 0) (scan cfg (A ++ String.ofList line.chars ++ B)).tokens =
      relocate (fun _ => 0) (scan cfg (A ++ B)).tokens := by
    rw [hwhole, hmoved]
    change relocate _ ((e.tokens ++ []) ++ relocate _ (run cfg [] t).tokens) =
      relocate _ (e.tokens ++ (run cfg [] t).tokens)
    rw [List.append_nil, relocate_append, relocate_append]
    exact congrArg _ List.map_map
  have hbody (source : String) : relocate (fun _ => 0) (parse cfg source).body =
      (Grammar.parse cfg (relocate (fun _ => 0) (scan cfg source).tokens)).body := by
    rw [Grammar.parse_relocate cfg (fun _ _ => rfl) rfl]
    rfl
  refine ⟨run cfg [] t, hwhole, ?_, ?_, ?_, ?_⟩
  · rw [hmoved]
    exact congrArg (· ++ _) (List.append_nil _)
  · rw [hmoved]
    exact congrArg (· ++ _) (List.append_nil _)
  · rw [hmoved, hpos]
    exact List.append_assoc _ _ _
  · rw [hbody, hbody, hsame]

/-- A comment behind a tab and a space, while the scan looks for an open level again. -/
theorem parse_commentLine_resyncing : ∃ (line : CommentLine) (e : Emission) (t : State),
    line.chars = "\t #x\n".toList ∧ Reaches {} [] (.start ("if a:\n   b\n c\n" ++ "d\n")) e t ∧
      t.rest = "d\n".toList ∧ t.atLineStart = true ∧ t.resyncing = true ∧
      ∃ r : Result, scan {} ("if a:\n   b\n c\n" ++ "d\n") = r.after e ∧
        (scan {} ("if a:\n   b\n c\n" ++ String.ofList line.chars ++ "d\n")).diagnostics =
          e.diagnostics ++ r.diagnostics.map (fun d => d.shift line.size) ∧
        relocate (fun _ => 0)
            (parse {} ("if a:\n   b\n c\n" ++ String.ofList line.chars ++ "d\n")).body =
          relocate (fun _ => 0) (parse {} ("if a:\n   b\n c\n" ++ "d\n")).body := by
  have h : Reaches {} [] (.start ("if a:\n   b\n c\n" ++ "d\n")) _ _ :=
    .tail (.tail (.tail (.tail (.tail (.tail (.tail (.tail (.tail (.tail (.tail (.tail .refl
      rfl) rfl) rfl) rfl) rfl) rfl) rfl) rfl) rfl) rfl) rfl) rfl
  let line : CommentLine :=
    { indent := ['\t', ' ']
      blank := List.forall_mem_cons.mpr ⟨rfl, List.forall_mem_singleton.mpr rfl⟩
      text := ['x']
      single := List.forall_mem_singleton.mpr ⟨by decide, by decide⟩
      carriage := false }
  obtain ⟨r, hwhole, -, hdiagnostics, -, hbody⟩ := parse_commentLine {} line h rfl rfl
  exact ⟨line, _, _, rfl, h, rfl, rfl, rfl, r, hwhole, hdiagnostics, hbody⟩

end Document

end Offside
