import Offside.Proofs.Lexeme.Spelling
import Offside.Proofs.Scan.Token

namespace Offside

def Token.written (t : Token) : Kind × String := (t.kind, t.text)

structure Word where
  kind : Kind
  text : List Char
  spells : Lexeme.Spells kind text

/-- A token is a lexeme of its own kind, or a string that is closed. -/
theorem Kind.lexeme_cases (k : Kind) : k.lexeme = .token k ∨ k.lexeme = .opener k ∨
    k.lexeme = .closer k ∨ k = .string ∧ k.lexeme = .string true := by
  cases k <;> decide

namespace Word

def written (w : Word) : Kind × String := (w.kind, String.ofList w.text)

def nest (depth : Nat) (w : Word) : Option Nat :=
  match w.kind.lexeme with
  | .opener _ => some (depth + 1)
  | .closer _ => if depth = 0 then none else some (depth - 1)
  | _ => some depth

def textOf (ws : List Word) : List Char := [' '].intercalate (ws.map text)

end Word

/-- A logical line: some lexemes, with balanced brackets. -/
structure Line where
  words : List Word
  ne_nil : words ≠ []
  balanced : words.foldlM Word.nest 0 = some 0

/-- A line without tokens: a blank one, or one that holds a comment only. -/
inductive Filler where
  | blank (indent : List Char) (h : ∀ c ∈ indent, Layout.isSpace c = true)
  | comment (indent : List Char) (h : ∀ c ∈ indent, Layout.isSpace c = true) (text : List Char)
      (hline : ∀ c ∈ text, c ≠ '\r' ∧ c ≠ '\n')

namespace Filler

def text : Filler → List Char
  | .blank indent _ => indent ++ ['\n']
  | .comment indent _ text _ => indent ++ '#' :: (text ++ ['\n'])

def comments : Filler → List (Kind × String)
  | .blank _ _ => []
  | .comment _ _ text _ => [(.comment, String.ofList ('#' :: text))]

end Filler

/-- No blank, line end or comment stands at the start of a line. -/
theorem Line.startsFlush (line : Line) (v : List Char) : Scan.StartsFlush (Word.textOf line.words ++ v) := by
  obtain ⟨w, ws, hws⟩ := List.exists_cons_of_ne_nil line.ne_nil
  obtain ⟨c, cs, hc, hflush⟩ := w.spells.exists_cons
  rw [hws]
  cases ws with
  | nil => exact ⟨c, cs ++ v, by simp [Word.textOf, List.intercalate, hc], hflush⟩
  | cons w' ws => exact ⟨c, _, by simp [Word.textOf, List.intercalate, hc]; rfl, hflush⟩

namespace Scan

variable {cfg : Config} {s t u : State} {ts cs us ds : List (Kind × String)}

/-- A stretch that puts out some tokens and comments, and no faults. -/
def Reads (cfg : Config) (s : State) (ts cs : List (Kind × String)) (t : State) : Prop :=
  ∃ e, Reaches cfg [] s e t ∧ e.tokens.map Token.written = ts ∧
    e.comments.map Token.written = cs ∧ e.diagnostics = []

namespace Reads

theorem refl (s : State) : Reads cfg s [] [] s := ⟨{}, .refl, rfl, rfl, rfl⟩

theorem trans (h : Reads cfg s ts cs t) (h' : Reads cfg t us ds u) :
    Reads cfg s (ts ++ us) (cs ++ ds) u := by
  obtain ⟨e, hr, rfl, rfl, he⟩ := h
  obtain ⟨e', hr', rfl, rfl, he'⟩ := h'
  exact ⟨e ++ e', hr.trans hr', List.map_append, List.map_append, by
    rw [Emission.append_diagnostics, he, he', List.append_nil]⟩

theorem step {e : Emission} (h : Scan.step cfg [] s = .next e t) (hts : e.tokens.map Token.written = ts)
    (hcs : e.comments.map Token.written = cs) (hds : e.diagnostics = []) : Reads cfg s ts cs t :=
  ⟨e, .single h, hts, hcs, hds⟩

end Reads

structure State.Within (s : State) (text : List Char) (levels : List Nat) (depth : Nat)
    (content : Bool) : Prop where
  rest : s.rest = text
  levels : s.levels = levels
  depth : s.openers.length = depth
  inside : s.atLineStart = false
  content : s.hasContent = content
  settled : s.resyncing = false

structure State.Ahead (s : State) (text : List Char) (levels : List Nat) : Prop where
  rest : s.rest = text
  levels : s.levels = levels
  openers : s.openers = []
  lineStart : s.atLineStart = true
  content : s.hasContent = false
  settled : s.resyncing = false

section Words

variable {r : Char} {v text : List Char} {levels : List Nat} {depth depth' : Nat} {b : Bool}

/-- What is put out for a lexeme that is a token, and the state behind it. -/
theorem accept_word (k : Kind) (n : Nat) (s : State) :
    (accept k.lexeme n s).1.tokens.map Token.written = [(k, String.ofList (s.rest.take n))] ∧
      (accept k.lexeme n s).1.comments = [] ∧ (accept k.lexeme n s).1.diagnostics = [] ∧
      (accept k.lexeme n s).2.levels = s.levels ∧
      (accept k.lexeme n s).2.resyncing = s.resyncing ∧
      (k.isLayout = false → (accept k.lexeme n s).2.hasContent = true) := by
  have hcontent (j : Kind) (hj : j.isLayout = false) (s : State) : (s.noting j).hasContent = true := by
    simp [State.noting, hj]
  rcases k.lexeme_cases with h | h | h | ⟨rfl, h⟩ <;> rw [h]
  · exact ⟨rfl, rfl, rfl, rfl, rfl, fun hk => hcontent k hk _⟩
  · exact ⟨rfl, rfl, rfl, rfl, rfl, fun hk => hcontent k hk _⟩
  · exact ⟨rfl, rfl, rfl, rfl, rfl, fun hk => hcontent k hk _⟩
  · exact ⟨rfl, rfl, rfl, rfl, rfl, fun hk => hcontent .string hk _⟩

theorem accept_nest (w : Word) (n : Nat) (s : State) (hd : w.nest s.openers.length = some depth') :
    (accept w.kind.lexeme n s).2.openers.length = depth' := by
  unfold Word.nest at hd
  rcases w.kind.lexeme_cases with h | h | h | ⟨-, h⟩ <;> rw [h] at hd ⊢
  · exact Option.some.inj hd
  · exact Option.some.inj hd
  · dsimp only at hd
    split at hd
    · contradiction
    · rw [← Option.some.inj hd]
      exact List.length_tail
  · exact Option.some.inj hd

theorem reads_word (w : Word) (h : s.Within (w.text ++ r :: v) levels depth b)
    (hr : Lexeme.EndsLexeme r) (hd : w.nest depth = some depth') :
    ∃ t, Reads cfg s [w.written] [] t ∧ t.Within (r :: v) levels depth' true := by
  obtain ⟨c, cs, htext, -, hfeed, -⟩ := w.spells.exists_cons
  have hspells : Lexeme.Spells w.kind (c :: cs) := htext ▸ w.spells
  have hrest : s.rest = c :: (cs ++ r :: v) := by rw [h.rest, htext, List.cons_append]
  have hstep : step cfg [] s = .next _ _ := step_lexeme hrest h.inside hfeed
  have hrecognise := hspells.recognise (v := v) hr
  have hlayout : w.kind.isLayout = false := by
    refine Lexeme.kind?_isLayout (Lexeme.recognise_proper c (cs ++ r :: v)) ?_
    rw [hrecognise]
    rcases w.kind.lexeme_cases with h | h | h | ⟨hk, h⟩ <;> rw [h]
    · rfl
    · rfl
    · rfl
    · rw [hk]
      rfl
  rw [hrecognise] at hstep
  obtain ⟨htokens, hcomments, hdiagnostics, hlevels, hresyncing, hcontent⟩ :=
    accept_word w.kind (cs.length + 1) s
  have htake : s.rest.take (cs.length + 1) = w.text := by
    rw [hrest, htext, List.take_succ_cons, List.take_left]
  refine ⟨_, .step hstep (by rw [htokens, htake]; rfl) (by rw [hcomments]; rfl) hdiagnostics, ?_⟩
  exact
    { rest := by rw [rest_accept, hrest, List.drop_succ_cons, List.drop_left]
      levels := hlevels.trans h.levels
      depth := accept_nest w _ s (h.depth ▸ hd)
      inside := (accept_atLineStart _ _ s).trans h.inside
      content := hcontent hlayout
      settled := hresyncing.trans h.settled }

/-- Blanks within a line put nothing out. -/
theorem reaches_blanks {stops : List Offset} {indent : List Char}
    (hindent : ∀ c ∈ indent, Layout.isSpace c = true) {c : Char} (hc : Layout.isSpace c = false)
    (hrest : s.rest = indent ++ c :: v) (hl : s.atLineStart = false) :
    Reaches cfg stops s {} (s.skip indent.length) := by
  cases indent with
  | nil => exact .refl
  | cons d indent =>
    obtain ⟨hd, hindent⟩ := List.forall_mem_cons.mp hindent
    have hfeed : d ≠ '\n' := by
      rintro rfl
      contradiction
    have hwhole : ((indent.append (c :: v)).takeWhile Layout.isSpace) = indent :=
      Lexeme.takeWhile_ended hindent hc
    have hstep : step cfg stops s = .next _ _ := step_lexeme hrest hl hfeed
    rw [Lexeme.recognise_blank hd, hwhole] at hstep
    exact .single hstep

theorem reads_blanks {indent : List Char} (hindent : ∀ c ∈ indent, Layout.isSpace c = true) {c : Char}
    (hc : Layout.isSpace c = false) (h : s.Within (indent ++ c :: v) levels depth b) :
    ∃ t, Reads cfg s [] [] t ∧ t.Within (c :: v) levels depth b := by
  refine ⟨_, ⟨{}, reaches_blanks hindent hc h.rest h.inside, rfl, rfl, rfl⟩, ?_⟩
  exact
    { rest := by rw [State.skip, h.rest, List.drop_left]
      levels := h.levels
      depth := h.depth
      inside := h.inside
      content := h.content
      settled := h.settled }

/-- Lexemes up to the end of their line. -/
theorem reads_words {ws : List Word} (hne : ws ≠ [])
    (h : s.Within (Word.textOf ws ++ '\n' :: v) levels depth b)
    (hd : ws.foldlM Word.nest depth = some depth') :
    ∃ t, Reads cfg s (ws.map Word.written) [] t ∧ t.Within ('\n' :: v) levels depth' true := by
  induction ws generalizing s depth b with
  | nil => exact absurd rfl hne
  | cons w ws ih =>
    obtain ⟨d, hw, hds⟩ := Option.bind_eq_some_iff.mp hd
    cases ws with
    | nil =>
      obtain rfl := Option.some.inj hds
      have htext : Word.textOf [w] = w.text := by simp [Word.textOf, List.intercalate]
      exact reads_word w (htext ▸ h) (Or.inr rfl) hw
    | cons w' ws =>
      have htext : Word.textOf (w :: w' :: ws) ++ '\n' :: v =
          w.text ++ ' ' :: (Word.textOf (w' :: ws) ++ '\n' :: v) := by
        simp [Word.textOf, List.intercalate]
      obtain ⟨t₁, h₁, hw₁⟩ := reads_word w (htext ▸ h) (Or.inl rfl) hw
      obtain ⟨c, cs, hc, hspace, -, -⟩ := w'.spells.exists_cons
      obtain ⟨z, hz⟩ : ∃ z, Word.textOf (w' :: ws) ++ '\n' :: v = c :: z := by
        cases ws with
        | nil => exact ⟨_, by simp [Word.textOf, List.intercalate, hc]; rfl⟩
        | cons w'' ws => exact ⟨_, by simp [Word.textOf, List.intercalate, hc]; rfl⟩
      rw [hz] at hw₁
      have hblank : ∀ c ∈ [' '], Layout.isSpace c = true := List.forall_mem_singleton.mpr rfl
      obtain ⟨t₂, h₂, hw₂⟩ := reads_blanks hblank hspace hw₁
      rw [← hz] at hw₂
      obtain ⟨t₃, h₃, hw₃⟩ := ih (List.cons_ne_nil _ _) hw₂ hds
      exact ⟨t₃, h₁.trans (h₂.trans h₃), hw₃⟩

/-- A comment goes up to the end of its line, or to a return. -/
theorem reaches_comment {stops : List Offset} (hline : ∀ c ∈ text, c ≠ '\r' ∧ c ≠ '\n')
    (hr : r = '\r' ∨ r = '\n') (hrest : s.rest = '#' :: (text ++ r :: v)) (hl : s.atLineStart = false) :
    Reaches cfg stops s { comments := [⟨.comment, String.ofList ('#' :: text),
      Span.ofNat s.pos (s.skip (text.length + 1)).pos⟩] } (s.skip (text.length + 1)) := by
  have hstep : step cfg stops s = .next _ _ := step_lexeme hrest hl (by decide)
  have hwhole : (text ++ r :: v).takeWhile (fun d => d != '\r' && d != '\n') = text := by
    refine Lexeme.takeWhile_ended (fun c hc => by simpa using hline c hc) ?_
    rcases hr with rfl | rfl <;> rfl
  have hrecognise : Lexeme.recognise '#' (text ++ r :: v) = (.comment, text.length) := by
    change (Lexeme.comment, (List.takeWhile _ (text ++ r :: v)).length) = _
    rw [hwhole]
  have htake : s.rest.take (text.length + 1) = '#' :: text := by
    rw [hrest, List.take_succ_cons, List.take_left]
  rw [hrecognise, accept, htake] at hstep
  exact .single hstep

theorem reads_comment (hline : ∀ c ∈ text, c ≠ '\r' ∧ c ≠ '\n')
    (h : s.Within ('#' :: (text ++ '\n' :: v)) levels depth b) :
    ∃ t, Reads cfg s [] [(.comment, String.ofList ('#' :: text))] t ∧
      t.Within ('\n' :: v) levels depth b := by
  refine ⟨_, ⟨_, reaches_comment hline (Or.inr rfl) h.rest h.inside, rfl, rfl, rfl⟩, ?_⟩
  exact
    { rest := by rw [State.skip, h.rest, List.drop_succ_cons, List.drop_left]
      levels := h.levels
      depth := h.depth
      inside := h.inside
      content := h.content
      settled := h.settled }

/-- The end of a line outside brackets, which may be one without tokens. -/
theorem reads_feed (h : s.Within ('\n' :: v) levels 0 b) :
    ∃ t, Reads cfg s (if b then [(.newline, "")] else []) [] t ∧ t.Ahead v levels := by
  have ho : s.openers = [] := List.eq_nil_of_length_eq_zero h.depth
  have hstep : step cfg [] s = .next _ _ := step_lineFeed h.rest h.inside
  rw [lineFeed_outer ho, h.content] at hstep
  refine ⟨_, .step hstep (by cases b <;> rfl) rfl rfl, ?_⟩
  exact
    { rest := by
        change s.rest.drop 1 = v
        rw [h.rest]
        rfl
      levels := h.levels
      openers := ho
      lineStart := rfl
      content := rfl
      settled := h.settled }

end Words

section Fillers

variable {v : List Char} {levels : List Nat}

theorem dropWhile_content (cfg : Config) (s : State) :
    (content cfg s).dropWhile Layout.isSpace = s.rest.dropWhile Layout.isSpace := by
  have hdrop : content cfg s = s.rest.dropWhile Layout.isIndent := by
    calc s.rest.drop (s.rest.takeWhile Layout.isIndent).length
        = (s.rest.takeWhile Layout.isIndent ++ s.rest.dropWhile Layout.isIndent).drop
            (s.rest.takeWhile Layout.isIndent).length := by rw [List.takeWhile_append_dropWhile]
      _ = s.rest.dropWhile Layout.isIndent := List.drop_left
  rw [hdrop]
  induction s.rest with
  | nil => rfl
  | cons c cs ih =>
    rw [List.dropWhile_cons]
    split
    · next hc =>
      have hspace : Layout.isSpace c = true := by rw [Layout.isSpace, hc, Bool.true_or]
      rw [ih, List.dropWhile_cons, if_pos hspace]
    · rfl

/-- The line start of a comment line is looked at, and nothing else is done there. -/
theorem step_commentLine {stops : List Offset} {indent w : List Char}
    (hindent : ∀ c ∈ indent, Layout.isSpace c = true) (hrest : s.rest = indent ++ '#' :: w)
    (hl : s.atLineStart = true) : step cfg stops s =
      .next { lineStates := [s.lineState s.pos none] } { s with atLineStart := false } := by
  have hdrop : (content cfg s).dropWhile Layout.isSpace = '#' :: w := by
    rw [dropWhile_content, hrest, List.dropWhile_append_of_pos hindent]
    rfl
  have hblank : Layout.startsBlankLine (content cfg s) = false := by
    rw [Layout.startsBlankLine, hdrop]
    rfl
  have hcomment : Layout.startsCommentLine (content cfg s) = true := by
    rw [Layout.startsCommentLine, hdrop]
    rfl
  exact (step_lineStart (by simp [hrest]) hl).trans (lineStart_comment hblank hcomment)

/-- A line without tokens. -/
theorem reads_filler (f : Filler) (h : s.Ahead (f.text ++ v) levels) :
    ∃ t, Reads cfg s [] f.comments t ∧ t.Ahead v levels := by
  have hdepth : s.openers.length = 0 := by rw [h.openers]; rfl
  cases f with
  | blank indent hindent =>
    have hrest : s.rest = indent ++ '\n' :: v := by rw [h.rest]; simp [Filler.text]
    have hblank : Layout.startsBlankLine (content cfg s) = true := by
      rw [Layout.startsBlankLine, dropWhile_content, hrest, List.dropWhile_append_of_pos hindent]
      rfl
    have hstep : step cfg [] s = .next _ _ :=
      (step_lineStart (by simp [hrest]) h.lineStart).trans (lineStart_blank hblank)
    have hwithin : State.Within { s with atLineStart := false, resyncing := false } (indent ++ '\n' :: v)
        levels 0 false := ⟨hrest, h.levels, hdepth, rfl, h.content, rfl⟩
    obtain ⟨t, ht, hwithin⟩ := reads_blanks hindent rfl hwithin
    obtain ⟨u, hu, hahead⟩ := reads_feed hwithin
    exact ⟨u, (Reads.step hstep rfl rfl rfl).trans (ht.trans hu), hahead⟩
  | comment indent hindent text hline =>
    have hrest : s.rest = indent ++ '#' :: (text ++ '\n' :: v) := by rw [h.rest]; simp [Filler.text]
    have hstep : step cfg [] s = .next _ _ := step_commentLine hindent hrest h.lineStart
    have hwithin : State.Within { s with atLineStart := false } (indent ++ '#' :: (text ++ '\n' :: v))
        levels 0 false := ⟨hrest, h.levels, hdepth, rfl, h.content, h.settled⟩
    obtain ⟨t, ht, hwithin⟩ := reads_blanks hindent rfl hwithin
    obtain ⟨u, hu, hwithin⟩ := reads_comment hline hwithin
    obtain ⟨w, hw, hahead⟩ := reads_feed hwithin
    exact ⟨w, (Reads.step hstep rfl rfl rfl).trans (ht.trans (hu.trans hw)), hahead⟩

theorem reads_fillers (fs : List Filler) (h : s.Ahead (fs.flatMap Filler.text ++ v) levels) :
    ∃ t, Reads cfg s [] (fs.flatMap Filler.comments) t ∧ t.Ahead v levels := by
  induction fs generalizing s with
  | nil => exact ⟨s, .refl s, h⟩
  | cons f fs ih =>
    rw [List.flatMap_cons, List.append_assoc] at h
    obtain ⟨t, ht, hahead⟩ := reads_filler f h
    obtain ⟨u, hu, hahead⟩ := ih hahead
    exact ⟨u, ht.trans hu, hahead⟩

end Fillers

end Scan

end Offside
