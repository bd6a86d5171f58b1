import Offside.Proofs.Blocks.Recovery
import Offside.Proofs.Scan.Flush
import Offside.Proofs.Scan.Order

namespace Offside

section AtEach

variable {α : Type} {P : List α → α → Prop} {x : α} {xs ys : List α}

/-- Something holds of each element together with the elements before it. -/
def AtEach (P : List α → α → Prop) (xs : List α) : Prop :=
  ∀ before x after, xs = before ++ x :: after → P before x

theorem AtEach.nil : AtEach P [] :=
  fun _ _ _ h => absurd h.symm (List.append_ne_nil_of_right_ne_nil _ (List.cons_ne_nil _ _))

theorem AtEach.append (h : AtEach P xs) (h' : AtEach (fun before x => P (xs ++ before) x) ys) :
    AtEach P (xs ++ ys) := by
  intro before x after heq
  rcases List.append_eq_append_iff.mp heq with ⟨vs, rfl, hys⟩ | ⟨vs, rfl, hys⟩
  · exact h' vs x after hys
  · cases vs with
    | nil =>
      have hfirst := h' [] x after hys.symm
      rwa [List.append_nil, List.append_nil] at hfirst
    | cons v vs =>
      obtain ⟨rfl, -⟩ := List.cons.inj hys
      exact h before x vs rfl

theorem AtEach.singleton (h : P [] x) : AtEach P [x] := by
  intro before y after heq
  cases before with
  | nil =>
    obtain ⟨rfl, -⟩ := List.cons.inj heq
    exact h
  | cons b before =>
    exact absurd (List.cons.inj heq).2.symm
      (List.append_ne_nil_of_right_ne_nil _ (List.cons_ne_nil _ _))

theorem AtEach.concat (h : AtEach P xs) (hx : P xs x) : AtEach P (xs ++ [x]) :=
  h.append (.singleton (by rwa [List.append_nil]))

theorem atEach_of_forall (h : ∀ before, (∀ y ∈ before, y ∈ xs) → ∀ x ∈ xs, P before x) :
    AtEach P xs := by
  rintro before x after rfl
  exact h before (fun y hy => List.mem_append_left _ hy) x (by simp)

end AtEach

/-- How many brackets are open behind a token of this kind. A closing bracket that closes none
counts for nothing. -/
def Kind.bracketsAfter (n : Nat) : Kind → Nat
  | .openParen | .openBracket | .openCurly => n + 1
  | .closeParen | .closeBracket | .closeCurly => n - 1
  | _ => n

def openBrackets (ts : List Token) : Nat := ts.foldl (fun n t => t.kind.bracketsAfter n) 0

section Brackets

variable {k : Kind} {ts us : List Token} {x : Token}

theorem Kind.bracketsAfter_layout (h : k.isLayout = true) (n : Nat) : k.bracketsAfter n = n := by
  cases k <;> first | rfl | simp [isLayout] at h

theorem Depth.after_brackets (h : k.isLayout = false) (p : Depth) :
    (p.after k).brackets = k.bracketsAfter p.brackets := by
  cases k <;> first | rfl | simp [Kind.isLayout] at h

theorem openBrackets_concat (ts : List Token) (x : Token) :
    openBrackets (ts ++ [x]) = x.kind.bracketsAfter (openBrackets ts) := by
  rw [openBrackets, List.foldl_append]
  rfl

theorem openBrackets_append_layout (h : ∀ x ∈ us, x.kind.isLayout = true) :
    openBrackets (ts ++ us) = openBrackets ts := by
  induction us generalizing ts with
  | nil => rw [List.append_nil]
  | cons x us ih =>
    obtain ⟨hx, hus⟩ := List.forall_mem_cons.mp h
    rw [List.append_cons, ih hus, openBrackets_concat, Kind.bracketsAfter_layout hx]

end Brackets

def EndsWithText (ts : List Token) : Prop := ∃ x, ts.getLast? = some x ∧ x.kind.isLayout = false

/-- Where a token stands behind others: a line ends behind a token with text, and the end of the
text is not there. -/
structure Placed (before : List Token) (x : Token) : Prop where
  newline : x.kind = .newline → EndsWithText before
  not_eof : x.kind ≠ .eof

def Outside (before : List Token) (x : Token) : Prop := x.kind.isLayout = true → openBrackets before = 0

/-- What ends the tokens of a text of so many bytes: the last line, the blocks that are open, and
the end. -/
def flushing (size : Nat) (line : Bool) (blocks : Nat) : List Token :=
  (if line then [.layout .newline (Span.ofNat size size)] else []) ++
    List.replicate blocks (.layout .dedent (Span.ofNat size size))

structure LaidOut (size : Nat) (ts : List Token) : Prop where
  balanced : Balanced ts
  flushed : ∃ body line blocks,
    ts = body ++ flushing size line blocks ++ [.layout .eof (Span.ofNat size size)] ∧
      AtEach Outside body ∧ AtEach Placed (body ++ flushing size line blocks)

namespace Layout

/-- The levels that are open behind some tokens, from the outermost one: the first is zero, each is
wider than the one before, and there is one for each block that is open. -/
structure Remembers (levels : List Nat) (before : List Token) : Prop where
  outermost : levels.head? = some 0
  increasing : levels.Pairwise (· < ·)
  length : levels.length + before.countP (·.kind = .dedent) =
    1 + before.countP (·.kind = .indent)

theorem closeWider_decreasing {levels : List Nat} (h : levels.Pairwise (· > ·)) (width : Nat) :
    (closeWider width levels).2.Pairwise (· > ·) := by
  obtain ⟨closed, heq, -⟩ := closeWider_append width levels
  rw [heq] at h
  exact (List.pairwise_append.mp h).2.1

/-- A width that opens a level is wider than all that are open. -/
theorem enter_decreasing {levels : List Nat} (h : levels.Pairwise (· > ·)) (width : Nat) :
    (enter width levels).2.Pairwise (· > ·) := by
  unfold enter
  dsimp only
  split
  · next hlt =>
    cases levels with
    | nil => exact List.pairwise_singleton _ _
    | cons level levels =>
      refine .cons (List.forall_mem_cons.mpr ⟨hlt, fun l hl => ?_⟩) h
      exact Nat.lt_trans ((List.pairwise_cons.mp h).1 l hl) hlt
  split
  · exact h
  · exact closeWider_decreasing h width

end Layout

namespace Scan

open Layout (LineState Remembers)

variable {cfg : Config} {stops : List Offset} {s t : State} {e e' : Emission} {ts : List Token}
  {source : String}

theorem indentTo_levels (width a b : Nat) (h : s.levels.Pairwise (· > ·)) :
    (indentTo width a b s).2.levels.Pairwise (· > ·) := by
  have henter := Layout.enter_decreasing h width
  unfold indentTo
  split
  · exact h
  · dsimp only
    split <;> next heq => rwa [heq] at henter

theorem step_levels (h : step cfg stops s = .next e t) (hs : s.levels.Pairwise (· > ·)) :
    t.levels.Pairwise (· > ·) := by
  have haccept (lexeme : Lexeme) (n : Nat) (s : State) : (accept lexeme n s).2.levels = s.levels := by
    cases lexeme <;> rfl
  have hfeed (s : State) : (lineFeed s).2.levels = s.levels := by
    unfold lineFeed
    split <;> rfl
  rcases step_cases h with ⟨-, -, h⟩ | ⟨cs, -, -, -, rfl⟩ | ⟨c, cs, -, -, -, -, rfl⟩
  · rcases lineStart_cases h with ⟨-, -, rfl⟩ | ⟨-, -, -, rfl⟩ | ⟨-, -, -, -, rfl⟩
    · exact hs
    · exact hs
    · exact indentTo_levels (s := { s with atLineStart := false }) _ _ _ hs
  · rwa [hfeed]
  · rwa [haccept]

theorem Reaches.levels (h : Reaches cfg stops s e t) (hs : s.levels.Pairwise (· > ·)) :
    t.levels.Pairwise (· > ·) := by
  induction h with
  | refl => exact hs
  | tail _ hstep ih => exact step_levels hstep ih

/-- A scan has one open level for each block that is open behind its tokens. -/
theorem Reaches.levels_length (h : Reaches cfg stops (.start source) e t) :
    t.levels.length + e.tokens.countP (·.kind = .dedent) =
      1 + e.tokens.countP (·.kind = .indent) := by
  have hleads := h.leads (State.sound_start source)
  have hlength := hleads.sound.levels.length_pos
  have horderly : Orderly {} (e.tokens ++ (finish t).tokens) :=
    hleads.orderly _ (finish_orderly hleads.sound)
  have hcount := (closes_iff.mp horderly.closes).1
  have hfinish : (finish t).tokens.countP (·.kind = .dedent) = t.levels.length - 1 ∧
      (finish t).tokens.countP (·.kind = .indent) = 0 := by
    unfold finish
    dsimp only
    split <;> simp [List.countP_replicate, Token.layout]
  rw [List.countP_append, List.countP_append, hfinish.1, hfinish.2] at hcount
  change _ = _ + 0 at hcount
  omega

/-- What the tokens before a state say of it, and where they stand. -/
structure Tracks (ts : List Token) (s : State) : Prop where
  brackets : openBrackets ts = s.openers.length
  content : s.hasContent = true → EndsWithText ts
  outside : AtEach Outside ts
  placed : AtEach Placed ts

/-- Nothing is put out, and a line has content only if it had. -/
theorem Tracks.silent (h : Tracks ts s) (ht : t.openers = s.openers)
    (hc : t.hasContent = true → s.hasContent = true) : Tracks ts t :=
  ⟨ht.symm ▸ h.brackets, fun htc => h.content (hc htc), h.outside, h.placed⟩

/-- Blocks open and close at a line start. -/
theorem Tracks.blocks {us : List Token} (h : Tracks ts s) (hs : s.Sound)
    (hl : s.atLineStart = true) (hus : ∀ x ∈ us, x.kind = .indent ∨ x.kind = .dedent)
    (ht : t.openers = s.openers) (hc : t.hasContent = s.hasContent) : Tracks (ts ++ us) t := by
  have hlayout : ∀ x ∈ us, x.kind.isLayout = true := by
    intro x hx
    rcases hus x hx with hk | hk <;> rw [hk] <;> rfl
  have hnone : openBrackets ts = 0 := by
    rw [h.brackets, hs.openers_eq hl]
    rfl
  refine ⟨?_, fun htc => ?_, h.outside.append (atEach_of_forall fun before hbefore x hx _ => ?_),
    h.placed.append (atEach_of_forall fun before _ x hx => ⟨fun hk => ?_, fun hk => ?_⟩)⟩
  · rw [openBrackets_append_layout hlayout, h.brackets, ht]
  · rw [hc, hs.lineStart hl] at htc
    contradiction
  · rw [openBrackets_append_layout fun y hy => hlayout y (hbefore y hy), hnone]
  · rcases hus x hx with h | h <;> rw [hk] at h <;> contradiction
  · rcases hus x hx with h | h <;> rw [hk] at h <;> contradiction

/-- A line ends outside brackets. -/
theorem Tracks.newline {x : Token} (h : Tracks ts s) (hs : s.openers = [])
    (hc : s.hasContent = true) (hx : x.kind = .newline) (ht : t.openers = [])
    (htc : t.hasContent = false) : Tracks (ts ++ [x]) t := by
  have hnone : openBrackets ts = 0 := by
    rw [h.brackets, hs]
    rfl
  refine ⟨?_, fun hcontent => ?_, h.outside.concat fun _ => hnone,
    h.placed.concat ⟨fun _ => h.content hc, by simp [hx]⟩⟩
  · rw [openBrackets_concat, hx, ht, hnone]
    rfl
  · rw [htc] at hcontent
    contradiction

/-- A token with text opens a bracket, closes one, or leaves them as they are. -/
theorem Tracks.text {x : Token} (h : Tracks ts s) (hx : x.kind.isLayout = false)
    (ht : t.openers.length = x.kind.bracketsAfter s.openers.length) : Tracks (ts ++ [x]) t := by
  refine ⟨by rw [openBrackets_concat, h.brackets, ht], fun _ => ⟨x, ?_, hx⟩,
    h.outside.concat fun hlayout => ?_, h.placed.concat ⟨fun hk => ?_, fun hk => ?_⟩⟩
  · rw [List.getLast?_append]
    rfl
  · rw [hx] at hlayout
    contradiction
  · rw [hk] at hx
    contradiction
  · rw [hk] at hx
    contradiction

theorem lineStart_tracks (h : Tracks ts s) (hs : s.Sound) (hl : s.atLineStart = true)
    (hstep : lineStart cfg stops s = .next e t) : Tracks (ts ++ e.tokens) t := by
  rcases lineStart_cases hstep with ⟨-, rfl, rfl⟩ | ⟨-, -, rfl, rfl⟩ | ⟨-, -, -, rfl, rfl⟩
  · rw [List.append_nil]
    exact h.silent rfl id
  · rw [List.append_nil]
    exact h.silent rfl id
  · obtain ⟨hsame, htokens⟩ := indentTo_hasContent
      (Layout.indentation cfg.tabWidth s.rest).width s.pos
      (s.pos + (Layout.indentation cfg.tabWidth s.rest).length) { s with atLineStart := false }
    rw [entering_tokens]
    exact h.blocks hs hl htokens (entering_openers cfg s) hsame

theorem lineFeed_tracks (h : Tracks ts s) :
    Tracks (ts ++ (lineFeed s).1.tokens) (lineFeed s).2 := by
  by_cases ho : s.openers = []
  · rw [lineFeed_outer ho]
    cases hc : s.hasContent with
    | false =>
      rw [if_neg (by simp), List.append_nil]
      exact h.silent rfl (fun hcontent => absurd hcontent (by simp))
    | true => exact h.newline ho hc rfl ho rfl
  · rw [lineFeed_inner ho, List.append_nil]
    exact h.silent rfl id

theorem accept_tracks (h : Tracks ts s) (hs : s.Sound) (hl : s.atLineStart = false)
    {lexeme : Lexeme} (hlexeme : lexeme.Proper) (n : Nat) :
    Tracks (ts ++ (accept lexeme n s).1.tokens) (accept lexeme n s).2 := by
  have hdepth := congrArg Depth.brackets (accept_leads hs hl hlexeme n).depth
  rcases accept_content hlexeme n s with ⟨hnil, hsame⟩ | ⟨x, hx, hk, -⟩
  · have hopeners : (accept lexeme n s).2.openers = s.openers := by
      cases lexeme <;> first | rfl | exact absurd hnil (List.cons_ne_nil _ _)
    rw [hnil, List.append_nil]
    exact h.silent hopeners fun hc => hsame ▸ hc
  · rw [hx] at hdepth ⊢
    refine h.text hk (hdepth.symm.trans ?_)
    exact Depth.after_brackets hk _

theorem step_tracks (h : Tracks ts s) (hs : s.Sound) (hstep : step cfg stops s = .next e t) :
    Tracks (ts ++ e.tokens) t := by
  rcases step_cases hstep with ⟨-, hl, hstart⟩ | ⟨cs, -, -, rfl, rfl⟩ | ⟨c, cs, -, hl, -, rfl, rfl⟩
  · exact lineStart_tracks h hs hl hstart
  · exact lineFeed_tracks h
  · exact accept_tracks h hs hl (Lexeme.recognise_proper c cs) _

theorem Reaches.tracks (h : Reaches cfg stops (.start source) e t) : Tracks e.tokens t := by
  induction h with
  | refl => exact ⟨rfl, fun hc => absurd hc Bool.false_ne_true, .nil, .nil⟩
  | tail h hstep ih => exact step_tracks ih (h.leads (State.sound_start source)).sound hstep

/-- The end of the text ends a line that has content. -/
theorem Tracks.flushing_placed (h : Tracks ts s) (size blocks : Nat) :
    AtEach Placed (ts ++ flushing size s.hasContent blocks) := by
  have hclose : ∀ before : List Token,
      ∀ x ∈ List.replicate blocks (Token.layout .dedent (Span.ofNat size size)), Placed before x := by
    intro before x hx
    rw [List.eq_of_mem_replicate hx]
    exact ⟨nofun, nofun⟩
  rw [flushing, ← List.append_assoc]
  refine .append ?_ (atEach_of_forall fun before _ x hx => hclose _ x hx)
  cases hc : s.hasContent with
  | false =>
    rw [if_neg (by simp), List.append_nil]
    exact h.placed
  | true => exact h.placed.concat ⟨fun _ => h.content hc, nofun⟩

theorem step_lineStates (h : step cfg stops s = .next e t) :
    ∀ x ∈ e.lineStates, x.snapshot.levels = s.levels ∧ x.snapshot.depth = s.openers.length := by
  rcases step_cases h with ⟨-, -, h⟩ | ⟨cs, -, -, rfl, -⟩ | ⟨c, cs, -, -, -, rfl, -⟩
  · rcases lineStart_cases h with ⟨-, rfl, -⟩ | ⟨-, -, rfl, -⟩ | ⟨-, -, -, rfl, -⟩
    · exact List.forall_mem_singleton.mpr ⟨rfl, rfl⟩
    · exact List.forall_mem_singleton.mpr ⟨rfl, rfl⟩
    · rw [entering_lineStates]
      exact List.forall_mem_singleton.mpr ⟨rfl, rfl⟩
  · unfold lineFeed
    split
    · exact List.forall_mem_nil _
    · exact List.forall_mem_singleton.mpr ⟨rfl, rfl⟩
  · cases (Lexeme.recognise c cs).1 with
    | longString quote terminated => exact List.forall_mem_map.mpr fun _ _ => ⟨rfl, rfl⟩
    | continuation => exact List.forall_mem_singleton.mpr ⟨rfl, rfl⟩
    | _ => exact List.forall_mem_nil _

def Recorded (cfg : Config) (source : String) (earlier : List LineState) (before : List Token)
    (x : LineState) : Prop :=
  ∃ e t e' u ys zs, Reaches cfg [] (.start source) e t ∧ step cfg [] t = .next e' u ∧
    e'.lineStates = ys ++ x :: zs ∧ earlier = e.lineStates ++ ys ∧ before = e.tokens

/-- Every line start of a stretch is recorded by one of its steps. -/
theorem Reaches.recorded (h : Reaches cfg [] (.start source) e t) :
    AtEach (fun earlier x => ∃ before, Recorded cfg source earlier before x) e.lineStates := by
  induction h with
  | refl => exact .nil
  | @tail e e' t u h hstep ih =>
    exact ih.append fun ys x zs heq => ⟨e.tokens, e, t, e', u, ys, zs, h, hstep, heq, rfl, rfl⟩

/-- The tokens put out when a line start is recorded are the first ones of the scan. -/
theorem Recorded.isPrefix {earlier : List LineState} {x : LineState}
    (h : Recorded cfg source earlier ts x) : ts <+: (scan cfg source).tokens := by
  obtain ⟨e, t, e', u, ys, zs, hreaches, -, -, -, rfl⟩ := h
  rw [scan, hreaches.run_eq]
  exact List.prefix_append _ _

theorem remembers_of_nested {levels : List Nat} (h : Layout.Nested levels)
    (hdecreasing : levels.Pairwise (· > ·)) (hlength : levels.length +
      ts.countP (·.kind = .dedent) = 1 + ts.countP (·.kind = .indent)) :
    Remembers levels.reverse ts := by
  obtain ⟨inner, rfl, -⟩ := h
  refine ⟨?_, List.pairwise_reverse.mpr hdecreasing, by rwa [List.length_reverse]⟩
  rw [List.reverse_append]
  rfl

/-- What a recorded line start knows of the open blocks. -/
theorem Recorded.remembers {earlier : List LineState} {x : LineState}
    (h : Recorded cfg source earlier ts x) : Remembers x.snapshot.levels.reverse ts := by
  obtain ⟨e, t, e', u, ys, zs, hreaches, hstep, hx, -, rfl⟩ := h
  rw [(step_lineStates hstep x (hx ▸ by simp)).1]
  exact remembers_of_nested (hreaches.leads (State.sound_start source)).sound.levels
    (hreaches.levels (List.pairwise_singleton _ _)) hreaches.levels_length

/-- The tokens of a scan are laid out, and each recorded line start knows the blocks that are open
behind the tokens put out before it. -/
theorem scan_layout (cfg : Config) (source : String) :
    LaidOut (Text.byteSize source.toList) (scan cfg source).tokens ∧
      AtEach (fun earlier x => ∃ before, Recorded cfg source earlier before x)
        (scan cfg source).lineStates ∧
      ∀ earlier before x, Recorded cfg source earlier before x →
        before <+: (scan cfg source).tokens ∧ Remembers x.snapshot.levels.reverse before := by
  obtain ⟨e, t, h, hrest, hrun⟩ := exists_end cfg (.start source)
  have htracks := h.tracks
  have hpos : t.pos = Text.byteSize source.toList := by
    have hlimit := h.covers.limit_eq
    rw [State.limit, hrest, Text.byteSize_nil, Nat.add_zero] at hlimit
    rw [hlimit, State.limit, State.start, Nat.zero_add]
  refine ⟨⟨(scan_blockStream cfg source).balanced, e.tokens, t.hasContent, t.levels.length - 1,
    ?_, htracks.outside, htracks.flushing_placed _ _⟩, ?_, fun _ _ _ hx => ⟨hx.isPrefix, hx.remembers⟩⟩
  · rw [scan, hrun, ← hpos, List.append_assoc]
    rfl
  · rw [scan, hrun]
    have hnone : (e ++ (finish t ++ endMark t.pos)).lineStates = e.lineStates :=
      List.append_nil _
    rw [hnone]
    exact h.recorded

end Scan

end Offside
