import Offside.Proofs.Scan.Append
import Offside.Proofs.Scan.Moved
import Offside.Proofs.Scan.Shape

namespace Offside.Scan

variable {cfg : Config} {stops : List Offset} {s t : State} {e : Emission} {x v v' : List Char}

theorem accept_atLineStart (lexeme : Lexeme) (n : Nat) (s : State) :
    (accept lexeme n s).2.atLineStart = s.atLineStart := by
  cases lexeme <;> rfl

theorem lineStart_atLineStart (h : lineStart cfg stops s = .next e t) : t.atLineStart = false := by
  rcases lineStart_cases h with ⟨-, -, rfl⟩ | ⟨-, -, -, rfl⟩ | ⟨-, -, -, -, rfl⟩
  · rfl
  · rfl
  · exact indentTo_atLineStart _ _ _ { s with atLineStart := false }

/-- A scan comes to a line start behind a line feed outside brackets. -/
theorem Reaches.atLineStart_cases (h : Reaches cfg stops s e t) (hl : t.atLineStart = true) :
    s = t ∧ e = {} ∨ ∃ e₁ y, Reaches cfg stops s e₁ y ∧ y.rest = '\n' :: t.rest ∧
      y.atLineStart = false ∧ e = e₁ ++ (lineFeed y).1 ∧ t = (lineFeed y).2 := by
  cases h with
  | refl => exact Or.inl ⟨rfl, rfl⟩
  | @tail e₁ e' y t h hstep =>
    right
    rcases step_cases hstep with ⟨-, -, hstart⟩ | ⟨cs, hrest, hy, rfl, rfl⟩ |
      ⟨c, cs, -, hy, -, -, rfl⟩
    · rw [lineStart_atLineStart hstart] at hl
      contradiction
    · exact ⟨e₁, y, h, by rw [rest_lineFeed, hrest]; rfl, hy, rfl, rfl⟩
    · rw [accept_atLineStart, hy] at hl
      contradiction

/-- A line start is one whatever comes behind it. -/
theorem Reaches.lineStart_append (h : Reaches cfg stops s e t) (hl : t.atLineStart = true)
    (hs : s.rest = x ++ v) (ht : t.rest = v) :
    Reaches cfg stops (s.before (x ++ v')) e (t.before v') := by
  rcases h.atLineStart_cases hl with ⟨rfl, rfl⟩ | ⟨e₁, y, hy, hrest, hyl, rfl, rfl⟩
  · obtain rfl : x = [] := List.append_left_eq_self.mp (hs.symm.trans ht)
    exact .refl
  · rw [ht] at hrest
    refine .tail (hy.append hs (w := ['\n']) hrest (by simp)) ?_
    have hfeed : lineFeed (y.before ('\n' :: v')) = ((lineFeed y).1, (lineFeed y).2.before v') :=
      lineFeed_append (y := []) hrest
    rw [step_lineFeed (s := y.before (['\n'] ++ v')) rfl hyl]
    exact congrArg (fun p : Emission × State => Step.next p.1 p.2) hfeed

/-- The text starts with something other than blanks, a line end or a comment. -/
def StartsFlush (text : List Char) : Prop :=
  ∃ c cs, text = c :: cs ∧ Layout.isSpace c = false ∧ c ≠ '\n' ∧ c ≠ '#'

def flush (s : State) : Emission :=
  { tokens := List.replicate (s.levels.length - 1) (.layout .dedent (Span.ofNat s.pos s.pos))
    lineStates := [s.lineState s.pos none] }

def State.flushed (s : State) : State :=
  { s with levels := [0], atLineStart := false, resyncing := false }

theorem indentTo_zero (hs : Layout.Nested s.levels) (a b : Nat) : indentTo 0 a b s =
    ({ tokens := List.replicate (s.levels.length - 1) (.layout .dedent (Span.ofNat b b)) },
      { s with levels := [0], resyncing := false }) := by
  unfold indentTo
  rw [hs.contains_zero, Bool.not_true, Bool.and_false]
  rcases Layout.enter_zero hs with ⟨hlevels, henter⟩ | henter
  · rw [henter, hlevels]
    rfl
  · rw [henter]
    rfl

theorem StartsFlush.indentation {text : List Char} (h : StartsFlush text) (tabWidth : Nat) :
    Layout.indentation tabWidth text = ⟨0, 0, false⟩ := by
  obtain ⟨c, cs, rfl, hc, -, -⟩ := h
  have hindent : Layout.isIndent c = false := by
    rw [Layout.isSpace, Bool.or_eq_false_iff] at hc
    exact hc.1
  rw [Layout.indentation, List.takeWhile_cons, hindent]
  rfl

theorem StartsFlush.content (h : StartsFlush s.rest) : content cfg s = s.rest := by
  rw [Scan.content, h.indentation, List.drop_zero]

theorem StartsFlush.not_blank {text : List Char} (h : StartsFlush text) :
    Layout.startsBlankLine text = false := by
  obtain ⟨c, cs, rfl, hc, hfeed, -⟩ := h
  simpa [Layout.startsBlankLine, hc] using hfeed

theorem StartsFlush.not_comment {text : List Char} (h : StartsFlush text) :
    Layout.startsCommentLine text = false := by
  obtain ⟨c, cs, rfl, hc, -, hmark⟩ := h
  simpa [Layout.startsCommentLine, hc] using hmark

theorem StartsFlush.ne_nil {text : List Char} (h : StartsFlush text) : text ≠ [] := by
  obtain ⟨c, cs, rfl, -⟩ := h
  exact List.cons_ne_nil _ _

theorem step_flush (hs : s.Sound) (hl : s.atLineStart = true) (hf : StartsFlush s.rest)
    (h : UInt32.ofNat s.pos ∉ stops) : step cfg stops s = .next (flush s) s.flushed := by
  rw [step_lineStart hf.ne_nil hl, lineStart_content (by rw [hf.content, hf.not_blank])
    (by rw [hf.content, hf.not_comment]) (fun hstop => h hstop.2)]
  have hzero := indentTo_zero (s := { s with atLineStart := false }) hs.levels s.pos s.pos
  rw [entering, hf.indentation]
  dsimp only [Nat.add_zero]
  rw [hzero]
  rfl

theorem step_flush_stop (hs : s.Sound) (hl : s.atLineStart = true) (hf : StartsFlush s.rest)
    (h : UInt32.ofNat s.pos ∈ stops) :
    step cfg stops s = .done ⟨flush s ++ endMark s.pos, some (UInt32.ofNat s.pos)⟩ := by
  have hwidth := congrArg Layout.Indentation.width (hf.indentation cfg.tabWidth)
  rw [step_lineStart hf.ne_nil hl, lineStart_stop (by rw [hf.content, hf.not_blank])
    (by rw [hf.content, hf.not_comment]) ⟨hwidth, h⟩]
  have hzero := indentTo_zero (s := { s with atLineStart := false }) hs.levels s.pos s.pos
  rw [hf.indentation, Nat.add_zero, hzero]
  rfl

/-- At a line start, the end of the text puts out what a line without indentation does. -/
theorem finish_lineStart (hs : s.Sound) (hl : s.atLineStart = true) : finish s =
    { tokens := List.replicate (s.levels.length - 1)
        (.layout .dedent (Span.ofNat s.pos s.pos)) } := by
  rw [finish, hs.openers_eq hl, hs.lineStart hl]
  rfl

/-- How the tokens of a stretch begin and end that starts before the content of a line. -/
structure Opens (ts : List Token) (t : State) : Prop where
  silent : ts = [] → t.hasContent = false
  first : ∀ x, ts.head? = some x → x.kind ≠ .newline
  idle : t.hasContent = false → ∀ x, ts.getLast? = some x →
    x.kind = .newline ∨ x.kind = .indent ∨ x.kind = .dedent

theorem indentTo_hasContent (width a b : Nat) (s : State) :
    (indentTo width a b s).2.hasContent = s.hasContent ∧
      ∀ x ∈ (indentTo width a b s).1.tokens, x.kind = .indent ∨ x.kind = .dedent := by
  unfold indentTo
  split
  · exact ⟨rfl, List.forall_mem_nil _⟩
  · dsimp only
    split
    · exact ⟨rfl, List.forall_mem_singleton.mpr (Or.inl rfl)⟩
    · exact ⟨rfl, List.forall_mem_nil _⟩
    · exact ⟨rfl, fun x hx => by rw [List.eq_of_mem_replicate hx]; exact Or.inr rfl⟩

/-- A lexeme is content of its line if it is a token. -/
theorem accept_content {lexeme : Lexeme} (h : lexeme.Proper) (n : Nat) (s : State) :
    (accept lexeme n s).1.tokens = [] ∧ (accept lexeme n s).2.hasContent = s.hasContent ∨
      ∃ x, (accept lexeme n s).1.tokens = [x] ∧ x.kind.isLayout = false ∧
        (accept lexeme n s).2.hasContent = true := by
  have hnoting {k : Kind} (hk : k.isLayout = false) (s : State) :
      (s.noting k).hasContent = true := by
    simp [State.noting, hk]
  cases lexeme with
  | token k =>
    have hk : k.isLayout = false := by
      revert h
      cases k <;> simp [Lexeme.Proper, Kind.isPlain, Kind.isLayout]
    exact Or.inr ⟨_, rfl, hk, hnoting hk _⟩
  | opener k => exact Or.inr ⟨_, rfl, h.1, hnoting h.1 _⟩
  | closer k => exact Or.inr ⟨_, rfl, h.1, hnoting h.1 _⟩
  | string => exact Or.inr ⟨_, rfl, rfl, hnoting rfl _⟩
  | longString => exact Or.inr ⟨_, rfl, rfl, hnoting rfl _⟩
  | comment => exact Or.inl ⟨rfl, rfl⟩
  | space => exact Or.inl ⟨rfl, rfl⟩
  | continuation => exact Or.inl ⟨rfl, rfl⟩
  | unknown => exact Or.inl ⟨rfl, rfl⟩

/-- A step opens or closes blocks, reads a token, or ends a line that has some. -/
theorem step_content (h : step cfg stops s = .next e t) :
    (∀ x ∈ e.tokens, x.kind = .indent ∨ x.kind = .dedent) ∧ t.hasContent = s.hasContent ∨
      (∃ x, e.tokens = [x] ∧ x.kind.isLayout = false ∧ t.hasContent = true) ∨
      ∃ x, e.tokens = [x] ∧ x.kind = .newline ∧ s.hasContent = true ∧ t.hasContent = false := by
  rcases step_cases h with ⟨-, -, h⟩ | ⟨cs, -, -, rfl, rfl⟩ | ⟨c, cs, -, -, -, rfl, rfl⟩
  · left
    rcases lineStart_cases h with ⟨-, rfl, rfl⟩ | ⟨-, -, rfl, rfl⟩ | ⟨-, -, -, rfl, rfl⟩
    · exact ⟨List.forall_mem_nil _, rfl⟩
    · exact ⟨List.forall_mem_nil _, rfl⟩
    · obtain ⟨hsame, htokens⟩ := indentTo_hasContent
        (Layout.indentation cfg.tabWidth s.rest).width s.pos
        (s.pos + (Layout.indentation cfg.tabWidth s.rest).length) { s with atLineStart := false }
      rw [entering_tokens]
      exact ⟨htokens, hsame⟩
  · by_cases ho : s.openers = []
    · rw [lineFeed_outer ho]
      cases hc : s.hasContent with
      | false => exact Or.inl ⟨List.forall_mem_nil _, rfl⟩
      | true => exact Or.inr (Or.inr ⟨_, rfl, rfl, rfl, rfl⟩)
    · rw [lineFeed_inner ho]
      exact Or.inl ⟨List.forall_mem_nil _, rfl⟩
  · rcases accept_content (Lexeme.recognise_proper c cs) ((Lexeme.recognise c cs).2 + 1) s with
      ⟨hnil, hsame⟩ | htoken
    · exact Or.inl ⟨by rw [hnil]; exact List.forall_mem_nil _, hsame⟩
    · exact Or.inr (Or.inl htoken)

theorem step_opens {ts : List Token} (h : Opens ts s) (hstep : step cfg stops s = .next e t) :
    Opens (ts ++ e.tokens) t := by
  have hfirst (hnew : ts = [] → ∀ x, e.tokens.head? = some x → x.kind ≠ .newline) :
      ∀ x, (ts ++ e.tokens).head? = some x → x.kind ≠ .newline := by
    cases ts with
    | nil => exact hnew rfl
    | cons y ts => exact h.first
  have hlast {y : Token} (hy : e.tokens = [y]) {x : Token}
      (hx : (ts ++ e.tokens).getLast? = some x) : x = y := by
    rw [hy, List.getLast?_append] at hx
    exact (Option.some.inj hx).symm
  rcases step_content hstep with ⟨hblocks, hsame⟩ | ⟨y, hy, hk, hc⟩ | ⟨y, hy, hk, hs, hc⟩
  · refine ⟨fun hnil => ?_, hfirst fun _ x hx => ?_, fun hc x hx => ?_⟩
    · rw [hsame]
      exact h.silent (List.append_eq_nil_iff.mp hnil).1
    · rcases hblocks x (List.mem_of_head? hx) with hk | hk <;> simp [hk]
    · rw [List.getLast?_append] at hx
      cases hlast : e.tokens.getLast? with
      | none =>
        rw [hlast] at hx
        exact h.idle (hsame.symm.trans hc) x hx
      | some z =>
        rw [hlast] at hx
        obtain rfl : z = x := Option.some.inj hx
        exact Or.inr (hblocks z (List.mem_of_getLast? hlast))
  · refine ⟨fun hnil => absurd hnil (by simp [hy]), hfirst fun _ x hx => ?_, fun hc' => ?_⟩
    · rw [hy] at hx
      obtain rfl : y = x := Option.some.inj hx
      rintro hnew
      rw [hnew] at hk
      contradiction
    · rw [hc] at hc'
      contradiction
  · refine ⟨fun _ => hc, hfirst fun hnil => ?_, fun _ x hx => ?_⟩
    · rw [h.silent hnil] at hs
      contradiction
    · rw [hlast hy hx]
      exact Or.inl hk

theorem Reaches.opens (h : Reaches cfg stops s e t) (hs : s.hasContent = false) :
    Opens e.tokens t := by
  induction h with
  | refl => exact ⟨fun _ => hs, nofun, fun _ => nofun⟩
  | tail _ hstep ih => exact step_opens ih hstep

/-- Tokens before a line without indentation end with the line before it or with its blocks. -/
theorem getLast?_flush (h : Reaches cfg stops s e t) (hs : s.Sound) (hd : s.depth = {})
    (hc : s.hasContent = false) (hl : t.atLineStart = true) {x : Token}
    (hx : (e.tokens ++ (flush t).tokens).getLast? = some x) :
    x.kind = .newline ∨ x.kind = .dedent := by
  have hleads := h.leads hs
  rw [List.getLast?_append] at hx
  cases hn : t.levels.length - 1 with
  | succ n =>
    rw [flush, hn, List.getLast?_replicate, if_neg (Nat.succ_ne_zero n)] at hx
    right
    rw [← Option.some.inj hx]
    rfl
  | zero =>
    rw [flush, hn] at hx
    rcases (h.opens hc).idle (hleads.sound.lineStart hl) x hx with hk | hk | hk
    · exact Or.inl hk
    · exfalso
      -- behind an indent there is an open block
      obtain ⟨ts, hts⟩ := List.getLast?_eq_some_iff.mp hx
      have hdepth := hleads.depth
      rw [hd, hts, Depth.along_append] at hdepth
      have hblocks := congrArg Depth.blocks hdepth
      simp [Depth.along, hk, Depth.after, State.depth, hn] at hblocks
    · exact Or.inr hk

/-- Where a line without indentation starts, the tokens before it and those behind it come apart. -/
theorem cut_flush (h : Reaches cfg stops s e t) (hs : s.Sound) (hd : s.depth = {})
    (hc : s.hasContent = false) (hl : t.atLineStart = true) {next next' : Token}
    (hnext : next.kind.startsAfresh = true) (hnext' : next'.kind.startsAfresh = true) :
    Cut (e.tokens ++ (flush t).tokens) next next' where
  lined := by
    have hleads := h.leads hs
    have hfinish := finish_orderly hleads.sound
    rw [finish_lineStart hleads.sound hl] at hfinish
    rw [← hd]
    exact (hleads.orderly _ hfinish).lined
  ends x hx := by
    rcases getLast?_flush h hs hd hc hl hx with hk | hk <;> rw [hk] <;> rfl
  left := hnext
  right := hnext'
  goesOn x hx hk := by
    rcases getLast?_flush h hs hd hc hl hx with hk' | hk' <;> rw [hk'] at hk <;> contradiction

end Offside.Scan
