import Offside.Proofs.Lexeme.Locality
import Offside.Proofs.Scan.Reaches

namespace Offside

namespace Layout

open Lexeme

variable {x v : List Char}

theorem dropWhile_append_of_feed {p : Char → Bool} (hp : p '\n' = false) (h : '\n' ∈ x) :
    (x ++ v).dropWhile p = x.dropWhile p ++ v := by
  induction x with
  | nil => simp at h
  | cons c x ih =>
    by_cases hc : p c = true
    · have hx : '\n' ∈ x := by
        rcases List.mem_cons.mp h with rfl | hx
        · simp [hp] at hc
        · exact hx
      simp [hc, ih hx]
    · simp [hc]

theorem feed_mem_dropWhile {p : Char → Bool} (hp : p '\n' = false) (h : '\n' ∈ x) :
    '\n' ∈ x.dropWhile p := by
  induction x with
  | nil => simp at h
  | cons c x ih =>
    by_cases hc : p c = true
    · have hx : '\n' ∈ x := by
        rcases List.mem_cons.mp h with rfl | hx
        · simp [hp] at hc
        · exact hx
      simpa [hc] using ih hx
    · simpa [hc] using h

theorem indentation_append (tabWidth : Nat) (h : '\n' ∈ x) :
    indentation tabWidth (x ++ v) = indentation tabWidth x := by
  rw [indentation, indentation, takeWhile_append_of_feed rfl h]

theorem startsBlankLine_append (h : '\n' ∈ x) : startsBlankLine (x ++ v) = startsBlankLine x := by
  have hmem := feed_mem_dropWhile (p := isSpace) rfl h
  rw [startsBlankLine, startsBlankLine, dropWhile_append_of_feed rfl h]
  cases hd : x.dropWhile isSpace with
  | nil => simp [hd] at hmem
  | cons c cs => rfl

theorem startsCommentLine_append (h : '\n' ∈ x) :
    startsCommentLine (x ++ v) = startsCommentLine x := by
  have hmem := feed_mem_dropWhile (p := isSpace) rfl h
  rw [startsCommentLine, startsCommentLine, dropWhile_append_of_feed rfl h]
  cases hd : x.dropWhile isSpace with
  | nil => simp [hd] at hmem
  | cons c cs => rfl

end Layout

namespace Scan

variable {cfg : Config} {stops : List Offset} {s t : State} {e : Emission} {x w v v' : List Char}

def State.before (s : State) (text : List Char) : State := { s with rest := text }

theorem indentTo_before (width a b : Nat) (s : State) (text : List Char) :
    indentTo width a b (s.before text) =
      ((indentTo width a b s).1, (indentTo width a b s).2.before text) := by
  unfold indentTo State.before
  dsimp only
  split
  · rfl
  · split <;> rfl

theorem content_before (hx : '\n' ∈ x) :
    content cfg (s.before (x ++ v)) = content cfg (s.before x) ++ v ∧
      '\n' ∈ content cfg (s.before x) := by
  have hlen : (Layout.indentation cfg.tabWidth x).length ≤ x.length :=
    Lexeme.length_takeWhile_le _ x
  refine ⟨?_, Lexeme.feed_mem_drop_takeWhile (p := Layout.isIndent) rfl hx⟩
  unfold content State.before
  dsimp only
  rw [Layout.indentation_append _ hx, List.drop_append_of_le_length hlen]

theorem entering_before (hx : '\n' ∈ x) :
    entering cfg (s.before (x ++ v)) = ((entering cfg (s.before x)).1,
      (entering cfg (s.before x)).2.before (content cfg (s.before x) ++ v)) := by
  have hindent (width a b : Nat) : ∃ entered : Emission × State, ∀ text,
      indentTo width a b { s.before text with atLineStart := false } =
        (entered.1, entered.2.before text) :=
    ⟨_, indentTo_before width a b { s with atLineStart := false }⟩
  obtain ⟨entered, hentered⟩ := hindent (Layout.indentation cfg.tabWidth x).width s.pos
    (s.pos + (Layout.indentation cfg.tabWidth x).length)
  dsimp only [State.before] at hentered
  have hcontent : content cfg (s.before (x ++ v)) = content cfg (s.before x) ++ v :=
    (content_before hx).1
  rw [← hcontent]
  unfold entering content State.before
  simp only [Layout.indentation_append _ hx, hentered]
  rfl

theorem lineStart_append (hs : s.rest = x ++ v) (hx : '\n' ∈ x)
    (h : lineStart cfg stops s = .next e t) (ht : t.rest = w ++ v) :
    lineStart cfg stops (s.before (x ++ v')) = .next e (t.before (w ++ v')) := by
  have hself : s = s.before (x ++ v) := by rw [← hs]; rfl
  have hcontent (v : List Char) :
      content cfg (s.before (x ++ v)) = content cfg (s.before x) ++ v := (content_before hx).1
  have hmem : '\n' ∈ content cfg (s.before x) := (content_before (v := v) hx).2
  have hblank (v : List Char) := Layout.startsBlankLine_append (v := v) hmem
  have hcomment (v : List Char) := Layout.startsCommentLine_append (v := v) hmem
  have hw {y : List Char} (hy : y ++ v = w ++ v) : y = w := List.append_cancel_right hy
  rw [hself] at h
  rcases lineStart_cases h with ⟨hb, rfl, rfl⟩ | ⟨hb, hc, rfl, rfl⟩ | ⟨hb, hc, hstop, rfl, rfl⟩
  · rw [hcontent, hblank] at hb
    rw [lineStart_blank (by rw [hcontent, hblank, hb]), hw ht]
    rfl
  · rw [hcontent, hblank] at hb
    rw [hcontent, hcomment] at hc
    rw [lineStart_comment (by rw [hcontent, hblank, hb]) (by rw [hcontent, hcomment, hc]), hw ht]
    rfl
  · rw [hcontent, hblank] at hb
    rw [hcontent, hcomment] at hc
    have hstop : ¬((Layout.indentation cfg.tabWidth (x ++ v')).width = 0 ∧ UInt32.ofNat s.pos ∈ stops) := by
      rw [Layout.indentation_append _ hx]
      rwa [State.before, Layout.indentation_append _ hx] at hstop
    rw [lineStart_content (by rw [hcontent, hblank, hb]) (by rw [hcontent, hcomment, hc]) hstop]
    rw [entering_before hx] at ht ⊢
    rw [entering_before hx, hw ht]
    rfl

theorem accept_append {n : Nat} (lexeme : Lexeme) (hs : s.rest = x ++ v) (hn : n ≤ x.length) :
    accept lexeme n (s.before (x ++ v')) =
      ((accept lexeme n s).1, (accept lexeme n s).2.before (x.drop n ++ v')) := by
  have hskip : (s.before (x ++ v')).skip n = (s.skip n).before (x.drop n ++ v') := by
    simp only [State.skip, State.before, hs, List.take_append_of_le_length hn,
      List.drop_append_of_le_length hn]
  have htake : (s.before (x ++ v')).rest.take n = s.rest.take n := by
    rw [hs, List.take_append_of_le_length hn]
    exact List.take_append_of_le_length hn
  unfold accept
  rw [hskip, htake]
  cases lexeme <;> rfl

theorem lineFeed_append {y : List Char} (hs : s.rest = '\n' :: y ++ v) :
    lineFeed (s.before ('\n' :: y ++ v')) = ((lineFeed s).1, (lineFeed s).2.before (y ++ v')) := by
  have hskip : (s.before ('\n' :: y ++ v')).skip 1 = (s.skip 1).before (y ++ v') := by
    simp [State.skip, State.before, hs]
  by_cases ho : s.openers = []
  · rw [lineFeed_outer (s := s.before ('\n' :: y ++ v')) ho, lineFeed_outer ho, hskip]
    rfl
  · rw [lineFeed_inner (s := s.before ('\n' :: y ++ v')) ho, lineFeed_inner ho, hskip]
    rfl

/-- A step that ends within the common text is one in both texts. -/
theorem step_append (hs : s.rest = x ++ v) (hx : '\n' ∈ x) (h : step cfg stops s = .next e t)
    (ht : t.rest = w ++ v) (hw : w ≠ []) :
    step cfg stops (s.before (x ++ v')) = .next e (t.before (w ++ v')) := by
  have hne : x ++ v' ≠ [] := by
    rintro hnil
    rw [(List.append_eq_nil_iff.mp hnil).1] at hx
    simp at hx
  rcases step_cases h with ⟨-, hl, h⟩ | ⟨cs, hrest, hl, rfl, rfl⟩ | ⟨c, cs, hrest, hl, hc, rfl, rfl⟩
  · rw [step_lineStart (s := s.before (x ++ v')) hne hl]
    exact lineStart_append hs hx h ht
  · cases x with
    | nil => simp at hx
    | cons d x =>
      obtain ⟨rfl, -⟩ := List.cons.inj (hs.symm.trans hrest)
      rw [step_lineFeed (s := s.before ('\n' :: x ++ v')) rfl hl, lineFeed_append hs]
      rw [rest_lineFeed, hs] at ht
      rw [List.append_cancel_right (ht : x ++ v = w ++ v)]
  · cases x with
    | nil => simp at hx
    | cons d x =>
      obtain ⟨rfl, hcs⟩ := List.cons.inj (hs.symm.trans hrest)
      obtain rfl : cs = x ++ v := hcs.symm
      have hfeed : '\n' ∈ x := by simpa [Ne.symm hc] using hx
      rw [rest_accept, hs] at ht
      have hlen := congrArg List.length ht
      have hpos := List.length_pos_iff.mpr hw
      simp only [List.cons_append, List.drop_succ_cons, List.length_drop, List.length_append] at hlen
      have hn : (Lexeme.recognise d (x ++ v)).2 < x.length := by omega
      have hsame : Lexeme.recognise d (x ++ v') = Lexeme.recognise d (x ++ v) :=
        Lexeme.recognise_append hc hfeed (Nat.le_of_lt hn) (Or.inr hn)
      have hrest' : (s.before (d :: x ++ v')).rest = d :: (x ++ v') := rfl
      rw [step_lexeme hrest' hl hc, hsame,
        accept_append _ hs (by simpa using Nat.le_of_lt hn)]
      have hdrop : x.drop (Lexeme.recognise d (x ++ v)).2 ++ v = w ++ v := by
        rw [← ht, ← List.drop_append_of_le_length (Nat.le_of_lt hn)]
        rfl
      rw [← List.append_cancel_right hdrop]
      rfl

/-- A stretch that ends before the last line feed of a common text is one in all texts that start
with it. -/
theorem Reaches.append (h : Reaches cfg stops s e t) (hs : s.rest = x ++ v) (ht : t.rest = w ++ v)
    (hw : '\n' ∈ w) : Reaches cfg stops (s.before (x ++ v')) e (t.before (w ++ v')) := by
  induction h generalizing w with
  | refl =>
    rw [List.append_cancel_right (hs.symm.trans ht)]
    exact .refl
  | @tail e e' t u h hstep ih =>
    obtain ⟨y, hy⟩ := rest_step hstep
    rw [ht, ← List.append_assoc] at hy
    have hmem : '\n' ∈ y ++ w := List.mem_append_right y hw
    exact .tail (ih hy hmem) (step_append hy hmem hstep ht (List.ne_nil_of_mem hw))

end Scan

end Offside
