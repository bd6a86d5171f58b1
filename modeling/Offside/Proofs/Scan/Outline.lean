import Offside.Proofs.Scan.Line

namespace Offside

/-- Logical lines of equal indentation: lines without tokens, then a line, the block below it, which
is indented by `deeper + 1` columns more, and the lines that follow. -/
inductive Outline where
  | nil
  | cons (before : List Filler) (line : Line) (deeper : Nat) (block rest : Outline)

namespace Outline

def isEmpty : Outline → Bool
  | nil => true
  | cons .. => false

def text (width : Nat) : Outline → List Char
  | nil => []
  | cons before line deeper block rest =>
    before.flatMap Filler.text ++ (List.replicate width ' ' ++ (Word.textOf line.words ++
      '\n' :: (block.text (width + deeper + 1) ++ rest.text width)))

def tokens : Outline → List (Kind × String)
  | nil => []
  | cons _ line _ block rest =>
    line.words.map Word.written ++ (.newline, "") ::
      ((if block.isEmpty then [] else (.indent, "") :: (block.tokens ++ [(.dedent, "")])) ++ rest.tokens)

def comments : Outline → List (Kind × String)
  | nil => []
  | cons before _ _ block rest =>
    before.flatMap Filler.comments ++ (block.comments ++ rest.comments)

end Outline

namespace Layout

def Change.tokens : Change → List (Kind × String)
  | .indent => [(.indent, "")]
  | .same => []
  | .dedent count _ => List.replicate count (.dedent, "")

/-- A line of a width opens a level or goes back to an open one. -/
def Enters (width : Nat) (levels : List Nat) (ts : List (Kind × String)) (left : List Nat) : Prop :=
  ∃ change, enter width levels = (change, left) ∧ (∀ n, change ≠ .dedent n false) ∧ change.tokens = ts

variable {width top : Nat} {closed outer : List Nat}

theorem enters_deeper (h : top < width) :
    Enters width (top :: outer) [(.indent, "")] (width :: top :: outer) :=
  ⟨.indent, by simp [enter, h], fun _ => Change.noConfusion, rfl⟩

theorem closeWider_back (h : ∀ l ∈ closed, width < l) :
    closeWider width (closed ++ width :: outer) = (closed.length, width :: outer) := by
  induction closed with
  | nil => cases outer <;> simp [closeWider]
  | cons l closed ih =>
    obtain ⟨hl, hclosed⟩ := List.forall_mem_cons.mp h
    obtain ⟨m, rest, hrest⟩ : ∃ m rest, closed ++ width :: outer = m :: rest :=
      List.exists_cons_of_ne_nil (by simp)
    rw [List.cons_append, hrest, closeWider, if_pos hl, ← hrest, ih hclosed]
    rfl

theorem enters_back (h : ∀ l ∈ closed, width < l) :
    Enters width (closed ++ width :: outer) (List.replicate closed.length (.dedent, ""))
      (width :: outer) := by
  cases closed with
  | nil => exact ⟨.same, by simp [enter], fun _ => Change.noConfusion, rfl⟩
  | cons l closed =>
    have hl := h l List.mem_cons_self
    refine ⟨.dedent (closed.length + 1) true, ?_, fun n heq => ?_, rfl⟩
    · have hclose : closeWider width (l :: closed ++ width :: outer) = ((l :: closed).length, width :: outer) :=
        closeWider_back h
      rw [enter, hclose]
      simp [Nat.lt_asymm hl, Nat.ne_of_lt hl]
    · injection heq
      contradiction

end Layout

namespace Scan

variable {cfg : Config} {s : State} {v text : List Char} {levels outer : List Nat} {width : Nat}
  {opening : List (Kind × String)}

theorem indentation_spaces (h : StartsFlush text) (tabWidth : Nat) :
    Layout.indentation tabWidth (List.replicate width ' ' ++ text) = ⟨width, width, false⟩ := by
  have hblanks : (List.replicate width ' ' ++ text).takeWhile Layout.isIndent = List.replicate width ' ' := by
    obtain ⟨c, cs, rfl, hc, -, -⟩ := h
    refine Lexeme.takeWhile_ended (fun d hd => ?_) ?_
    · rw [List.eq_of_mem_replicate hd]
      rfl
    · rw [Layout.isSpace, Bool.or_eq_false_iff] at hc
      exact hc.1
  have hwidth : Layout.widthOf tabWidth (List.replicate width ' ') = width := by
    clear hblanks
    induction width with
    | zero => rfl
    | succ n ih =>
      rw [List.replicate_succ, Layout.widthOf, ih]
      exact Nat.add_comm 1 n
  rw [Layout.indentation, hblanks, Layout.Indentation.ofBlanks, hwidth, List.length_replicate]
  simp

theorem indentTo_settled {change : Layout.Change} (hs : s.resyncing = false)
    (h : Layout.enter width s.levels = (change, outer)) (hmatched : ∀ n, change ≠ .dedent n false)
    (a b : Nat) : ∃ ts, indentTo width a b s =
        ({ tokens := ts }, { s with levels := outer, resyncing := false }) ∧
      ts.map Token.written = change.tokens := by
  unfold indentTo
  rw [hs, Bool.false_and, h]
  cases change with
  | indent => exact ⟨_, rfl, rfl⟩
  | same => exact ⟨_, rfl, rfl⟩
  | dedent count matched =>
    cases matched with
    | true => exact ⟨_, rfl, List.map_replicate ..⟩
    | false => exact absurd rfl (hmatched count)

/-- The start of a line of lexemes. -/
theorem reads_indentation (h : s.Ahead (List.replicate width ' ' ++ text) levels)
    (htext : StartsFlush text) (henter : Layout.Enters width levels opening outer) :
    ∃ t, Reads cfg s opening [] t ∧ t.Within text outer 0 false := by
  obtain ⟨change, henter, hmatched, rfl⟩ := henter
  have hindent : Layout.indentation cfg.tabWidth s.rest = ⟨width, width, false⟩ := by
    rw [h.rest, indentation_spaces htext]
  have hdrop : s.rest.drop width = text := by rw [h.rest, List.drop_left' (List.length_replicate ..)]
  have hcontent : content cfg s = text := by rw [content, hindent, hdrop]
  have hne : s.rest ≠ [] := by
    rw [h.rest]
    exact List.append_ne_nil_of_right_ne_nil _ htext.ne_nil
  have hstep : step cfg [] s = .next _ _ := (step_lineStart hne h.lineStart).trans
    (lineStart_content (by rw [hcontent, htext.not_blank]) (by rw [hcontent, htext.not_comment])
      fun hstop => List.not_mem_nil hstop.2)
  obtain ⟨ts, hindentTo, hts⟩ := indentTo_settled (s := { s with atLineStart := false }) h.settled
    (by rw [← henter, ← h.levels]) hmatched s.pos (s.pos + width)
  have hentered : entering cfg s = ({ tokens := ts, lineStates := [s.lineState s.pos none] },
      { s with
        pos := s.pos + width
        rest := text
        levels := outer
        atLineStart := false
        resyncing := false }) := by
    unfold entering
    rw [hindent]
    dsimp only
    rw [hindentTo, hdrop]
    rfl
  rw [hentered] at hstep
  refine ⟨_, .step hstep hts rfl rfl, ?_⟩
  exact
    { rest := rfl
      levels := rfl
      depth := by
        change s.openers.length = 0
        rw [h.openers]
        rfl
      inside := rfl
      content := h.content
      settled := rfl }

/-- The lines of an outline, and the blocks below them. The blocks that are still open where they end
are closed by what comes next. -/
theorem reads_outline (o : Outline) (hne : o.isEmpty = false)
    (h : s.Ahead (o.text width ++ v) levels)
    (henter : Layout.Enters width levels opening (width :: outer)) :
    ∃ t ts closed, Reads cfg s ts o.comments t ∧ t.Ahead v (closed ++ width :: outer) ∧
      (∀ l ∈ closed, width < l) ∧
      ts ++ List.replicate closed.length (.dedent, "") = opening ++ o.tokens := by
  induction o generalizing s width levels outer opening v with
  | nil => contradiction
  | cons before line deeper block rest ihBlock ihRest =>
    have hsplit : (Outline.cons before line deeper block rest).text width ++ v =
        before.flatMap Filler.text ++ (List.replicate width ' ' ++ (Word.textOf line.words ++
          '\n' :: (block.text (width + deeper + 1) ++ (rest.text width ++ v)))) := by
      simp [Outline.text]
    rw [hsplit] at h
    -- the line itself
    obtain ⟨s₁, h₁, hs₁⟩ := reads_fillers before h
    obtain ⟨s₂, h₂, hs₂⟩ := reads_indentation hs₁ (line.startsFlush _) henter
    obtain ⟨s₃, h₃, hs₃⟩ := reads_words line.ne_nil hs₂ line.balanced
    obtain ⟨s₄, h₄, hs₄⟩ := reads_feed hs₃
    -- the block below it, with what is left open where it ends
    obtain ⟨s₅, ts, closed, h₅, hs₅, hclosed, hblock⟩ : ∃ s₅ ts closed, Reads cfg s₄ ts block.comments s₅ ∧
        s₅.Ahead (rest.text width ++ v) (closed ++ width :: outer) ∧ (∀ l ∈ closed, width < l) ∧
        ts ++ List.replicate closed.length (.dedent, "") =
          if block.isEmpty then [] else (.indent, "") :: (block.tokens ++ [(.dedent, "")]) := by
      cases hempty : block.isEmpty with
      | true =>
        cases block with
        | nil => exact ⟨s₄, [], [], .refl s₄, hs₄, List.forall_mem_nil _, rfl⟩
        | cons => contradiction
      | false =>
        have hdeeper : width < width + deeper + 1 := by omega
        obtain ⟨s₅, ts, closed, h₅, hs₅, hclosed, hts⟩ := ihBlock hempty hs₄ (Layout.enters_deeper hdeeper)
        refine ⟨s₅, ts, closed ++ [width + deeper + 1], h₅, by simpa using hs₅, ?_, ?_⟩
        · refine List.forall_mem_append.mpr ⟨fun l hl => ?_, List.forall_mem_singleton.mpr hdeeper⟩
          exact Nat.lt_trans hdeeper (hclosed l hl)
        · rw [List.length_append, List.length_singleton, List.replicate_succ', ← List.append_assoc, hts]
          rfl
    have hline : Reads cfg s (opening ++ (line.words.map Word.written ++ (.newline, "") :: ts))
        (before.flatMap Filler.comments ++ block.comments) s₅ := by
      simpa using h₁.trans (h₂.trans (h₃.trans (h₄.trans h₅)))
    cases hempty : rest.isEmpty with
    | true =>
      cases rest with
      | nil =>
        refine ⟨s₅, _, closed, by simpa [Outline.comments] using hline, hs₅, hclosed, ?_⟩
        simp [Outline.tokens, ← hblock]
      | cons => contradiction
    | false =>
      obtain ⟨s₆, ts', closed', h₆, hs₆, hclosed', hrest⟩ := ihRest hempty hs₅ (Layout.enters_back hclosed)
      refine ⟨s₆, _, closed', by simpa [Outline.comments] using hline.trans h₆, hs₆, hclosed', ?_⟩
      simp [Outline.tokens, ← hblock, hrest]

/-- A text of lines and blocks, with lines without tokens in between and behind: the scan finds no
fault, the lexemes line by line, an indent and a dedent around each block, and the comments. -/
theorem scan_outline (cfg : Config) (o : Outline) (behind : List Filler) :
    (scan cfg (String.ofList (o.text 0 ++ behind.flatMap Filler.text))).diagnostics = [] ∧
      (scan cfg (String.ofList (o.text 0 ++ behind.flatMap Filler.text))).tokens.map Token.written =
        o.tokens ++ [(.eof, "")] ∧
      (scan cfg (String.ofList (o.text 0 ++ behind.flatMap Filler.text))).comments.map Token.written =
        o.comments ++ behind.flatMap Filler.comments := by
  have hstart : (State.start (String.ofList (o.text 0 ++ behind.flatMap Filler.text))).Ahead
      (o.text 0 ++ behind.flatMap Filler.text) [0] :=
    ⟨String.toList_ofList, rfl, rfl, rfl, rfl, rfl⟩
  obtain ⟨s, ts, closed, hs, hahead, htokens⟩ : ∃ s ts closed,
      Reads cfg (State.start (String.ofList (o.text 0 ++ behind.flatMap Filler.text))) ts o.comments s ∧
        s.Ahead (behind.flatMap Filler.text) (closed ++ [0]) ∧
        ts ++ List.replicate closed.length (.dedent, "") = o.tokens := by
    cases hempty : o.isEmpty with
    | true =>
      cases o with
      | nil => exact ⟨_, [], [], .refl _, hstart, rfl⟩
      | cons => contradiction
    | false =>
      obtain ⟨s, ts, closed, hs, hahead, -, hts⟩ :=
        reads_outline o hempty hstart (Layout.enters_back (List.forall_mem_nil _))
      exact ⟨s, ts, closed, hs, hahead, hts⟩
  obtain ⟨t, ht, hend⟩ : ∃ t, Reads cfg s [] (behind.flatMap Filler.comments) t ∧
      t.Ahead [] (closed ++ [0]) := reads_fillers behind (by rwa [List.append_nil])
  obtain ⟨e, hreach, hts, hcs, hds⟩ := hs.trans ht
  -- at the end of the text the blocks are closed that are still open
  let close := Token.layout .dedent (Span.ofNat t.pos t.pos)
  have hfinish : finish t = { tokens := List.replicate closed.length close } := by
    rw [finish, hend.content, hend.openers, hend.levels, List.length_append, List.length_singleton,
      Nat.add_sub_cancel]
    rfl
  rw [scan, hreach.run_eq, run_of_done (step_end hend.rest), hfinish]
  refine ⟨?_, ?_, ?_⟩
  · change e.diagnostics ++ ([] ++ []) = []
    rw [hds]
    rfl
  · change (e.tokens ++ (List.replicate closed.length _ ++ [_])).map Token.written = _
    rw [List.map_append, hts, List.append_nil, ← htokens, List.map_append, List.map_replicate,
      ← List.append_assoc]
    rfl
  · change (e.comments ++ ([] ++ [])).map Token.written = _
    rw [List.append_nil, List.append_nil, hcs]

end Scan

end Offside
