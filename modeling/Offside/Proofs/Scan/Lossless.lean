import Offside.Proofs.Scan.Order
import Offside.Proofs.Scan.Token
import Offside.Proofs.Text.Cut

namespace Offside

namespace Text

/-- The character that a byte of a text belongs to. -/
theorem exists_char {text : List Char} {i : Nat} (h : i < byteSize text) :
    ∃ p c q, text = p ++ c :: q ∧ byteSize p ≤ i ∧ i < byteSize p + c.utf8Size := by
  induction text generalizing i with
  | nil => exact absurd h (Nat.not_lt_zero i)
  | cons c text ih =>
    by_cases hc : i < c.utf8Size
    · exact ⟨[], c, text, rfl, Nat.zero_le i, by simpa using hc⟩
    · rw [byteSize_cons] at h
      obtain ⟨p, d, q, rfl, hle, hlt⟩ := ih (i := i - c.utf8Size) (by omega)
      refine ⟨c :: p, d, q, rfl, ?_, ?_⟩ <;> rw [byteSize_cons] <;> omega

end Text

namespace Lexeme

/-- The kind of the token or comment that a lexeme is put out as. -/
def textKind? : Lexeme → Option Kind
  | .comment => some .comment
  | l => l.kind?

def Passing : Lexeme → List Char → Prop
  | .space, cs => ∀ c ∈ cs, Layout.isSpace c = true
  | .continuation, cs => cs = ['\\', '\n'] ∨ cs = ['\\', '\r', '\n']
  | .unknown, cs => ∃ c, cs = [c]
  | _, _ => True

theorem textKind?_isLayout {l : Lexeme} (h : l.Proper) {k : Kind} (hk : l.textKind? = some k) :
    k.isLayout = false := by
  cases l with
  | comment =>
    obtain rfl := Option.some.inj hk
    rfl
  | token j => exact kind?_isLayout h hk
  | opener j => exact kind?_isLayout h hk
  | closer j => exact kind?_isLayout h hk
  | string => exact kind?_isLayout h hk
  | longString => exact kind?_isLayout h hk
  | _ => exact absurd hk (Option.some_ne_none k).symm

theorem continuation?_take {cs : List Char} {n : Nat} (h : continuation? cs = some n) :
    cs.take n = ['\n'] ∨ cs.take n = ['\r', '\n'] := by
  unfold continuation? at h
  split at h
  · obtain rfl := Option.some.inj h
    exact Or.inl rfl
  · obtain rfl := Option.some.inj h
    exact Or.inr rfl
  · contradiction

/-- A lexeme that is put out as nothing is a run of blanks, a continued line or one character. -/
theorem recognise_passing (c : Char) (cs : List Char) :
    (recognise c cs).1.Passing ((c :: cs).take ((recognise c cs).2 + 1)) := by
  rw [List.take_succ_cons]
  unfold recognise
  split
  · trivial
  split
  · unfold number
    split <;> trivial
  split
  · next hc =>
    refine List.forall_mem_cons.mpr ⟨hc, fun d hd => ?_⟩
    rw [← List.prefix_iff_eq_take.mp (List.takeWhile_prefix _)] at hd
    exact List.all_eq_true.mp List.all_takeWhile d hd
  split
  · next hc =>
    subst hc
    split
    · next n hn =>
      rcases continuation?_take hn with h | h
      · exact Or.inl (congrArg _ h)
      · exact Or.inr (congrArg _ h)
    · exact ⟨_, rfl⟩
  split
  · trivial
  split
  · unfold quotation
    split <;> trivial
  split
  · unfold quotation
    split <;> trivial
  split
  · next l h =>
    unfold bracket? at h
    split at h <;> cases h <;> trivial
  · unfold symbol
    split
    · trivial
    · exact ⟨_, rfl⟩

end Lexeme

def Token.StandsIn (text : List Char) (t : Token) : Prop :=
  ∃ p q, text = p ++ t.text.toList ++ q ∧ t.text ≠ "" ∧
    t.span.start.toNat = Text.byteSize p ∧
    t.span.stop.toNat = Text.byteSize p + Text.byteSize t.text.toList

def Token.Apart (t u : Token) : Prop := t.span.stop ≤ u.span.start ∨ u.span.stop ≤ t.span.start

namespace Scan

variable {cfg : Config} {stops : List Offset} {s t u : State} {e e' : Emission} {text : List Char}
  {i : Nat}

def Emission.texts (e : Emission) : List Token :=
  e.tokens.filter (fun t => !t.kind.isLayout) ++ e.comments

/-- A byte of a text that a scan passes over: a blank or a line end, the backslash of a continued line,
or a part of a character that is reported on its own. -/
inductive Passed (faults : List Diagnostic) (text : List Char) (i : Nat) : Prop where
  | blank (p q : List Char) (c : Char) (hc : c ∈ [' ', '\t', '\x0c', '\r', '\n'])
      (htext : text = p ++ c :: q) (hi : i = Text.byteSize p)
  | continued (p q : List Char) (htext : text = p ++ '\\' :: q)
      (hline : ['\n'].IsPrefix q ∨ ['\r', '\n'].IsPrefix q) (hi : i = Text.byteSize p)
  | reported (p q : List Char) (c : Char) (htext : text = p ++ c :: q)
      (hi : Text.byteSize p ≤ i ∧ i < Text.byteSize p + c.utf8Size)
      (hfault : ⟨.unrecognisedToken (String.singleton c),
        Span.ofNat (Text.byteSize p) (Text.byteSize p + c.utf8Size)⟩ ∈ faults)

/-- What a scan puts out accounts for every byte of its text, once. -/
structure Lossless (text : List Char) (e : Emission) : Prop where
  stands : ∀ t ∈ e.texts, t.StandsIn text
  disjoint : e.texts.Pairwise Token.Apart
  tokens : InOrder (e.tokens.filter fun t => !t.kind.isLayout)
  comments : InOrder e.comments
  gaps : ∀ i, i < Text.byteSize text →
    (∀ t ∈ e.texts, ¬(t.span.start.toNat ≤ i ∧ i < t.span.stop.toNat)) →
      Passed e.diagnostics text i

@[simp]
theorem mem_texts_append (x : Token) :
    x ∈ (e ++ e').texts ↔ x ∈ e.texts ∨ x ∈ e'.texts := by
  simp only [Emission.texts, Emission.append_tokens, Emission.append_comments, List.filter_append,
    List.mem_append]
  tauto

theorem Passed.mono {faults faults' : List Diagnostic} (h : Passed faults text i)
    (hsub : ∀ d ∈ faults, d ∈ faults') : Passed faults' text i := by
  cases h with
  | blank p q c hc htext hi => exact .blank p q c hc htext hi
  | continued p q htext hline hi => exact .continued p q htext hline hi
  | reported p q c htext hi hfault => exact .reported p q c htext hi (hsub _ hfault)

def Accounted (text : List Char) (e : Emission) (i : Nat) : Prop :=
  (∃ t ∈ e.texts, t.span.start.toNat ≤ i ∧ i < t.span.stop.toNat) ∨ Passed e.diagnostics text i

theorem Accounted.append_left (h : Accounted text e i) : Accounted text (e ++ e') i := by
  rcases h with ⟨t, ht, hi⟩ | h
  · exact Or.inl ⟨t, (mem_texts_append t).mpr (Or.inl ht), hi⟩
  · exact Or.inr (h.mono fun d hd => List.mem_append_left _ hd)

theorem Accounted.append_right (h : Accounted text e' i) : Accounted text (e ++ e') i := by
  rcases h with ⟨t, ht, hi⟩ | h
  · exact Or.inl ⟨t, (mem_texts_append t).mpr (Or.inr ht), hi⟩
  · exact Or.inr (h.mono fun d hd => List.mem_append_right _ hd)

/-- The text that a lexeme is put out as. -/
theorem accept_texts {l : Lexeme} (h : l.Proper) (n : Nat) (s : State) : (accept l n s).1.texts =
    (l.textKind?.map fun k =>
      ⟨k, String.ofList (s.rest.take n), Span.ofNat s.pos (s.skip n).pos⟩).toList := by
  have hlayout {k : Kind} (hk : l.textKind? = some k) := Lexeme.textKind?_isLayout h hk
  cases l with
  | token k => simp [Emission.texts, accept, Lexeme.textKind?, Lexeme.kind?, hlayout rfl]
  | opener k => simp [Emission.texts, accept, Lexeme.textKind?, Lexeme.kind?, hlayout rfl]
  | closer k => simp [Emission.texts, accept, Lexeme.textKind?, Lexeme.kind?, hlayout rfl]
  | _ => rfl

theorem indentTo_texts (width a b : Nat) (s : State) : (indentTo width a b s).1.texts = [] := by
  unfold indentTo
  split
  · rfl
  · dsimp only
    split
    · rfl
    · rfl
    · simp [Emission.texts, Token.layout, Kind.isLayout]

theorem lineStart_texts (h : lineStart cfg stops s = .next e t) : e.texts = [] := by
  rcases lineStart_cases h with ⟨-, rfl, -⟩ | ⟨-, -, rfl, -⟩ | ⟨-, -, -, rfl, -⟩
  · rfl
  · rfl
  · have hindent := indentTo_texts (Layout.indentation cfg.tabWidth s.rest).width s.pos
      (s.pos + (Layout.indentation cfg.tabWidth s.rest).length) { s with atLineStart := false }
    unfold entering
    dsimp only
    split <;> exact hindent

theorem lineFeed_texts (s : State) : (lineFeed s).1.texts = [] := by
  unfold lineFeed
  dsimp only
  split
  · split <;> rfl
  · rfl

/-- The blanks of a line start are passed over. -/
theorem blanks_passed (blanks rest p : List Char) (htext : text = p ++ (blanks ++ rest))
    (hblanks : ∀ c ∈ blanks, c ∈ [' ', '\t', '\x0c', '\r', '\n']) (faults : List Diagnostic)
    (hi : Text.byteSize p ≤ i) (hi' : i < Text.byteSize p + Text.byteSize blanks) :
    Passed faults text i := by
  have hinside : i - Text.byteSize p < Text.byteSize blanks := by omega
  obtain ⟨a, c, b, rfl, hle, hlt⟩ := Text.exists_char hinside
  have hc := hblanks c (by simp)
  have hone : c.utf8Size = 1 := by
    simp only [List.mem_cons, List.not_mem_nil, or_false] at hc
    rcases hc with rfl | rfl | rfl | rfl | rfl <;> rfl
  refine .blank (p ++ a) (b ++ rest) c hc (by simp [htext]) ?_
  rw [Text.byteSize_append]
  omega

/-- A continued line is passed over: its backslash, and the line end behind it. -/
theorem continuation_passed {taken rest p : List Char} (htext : text = p ++ (taken ++ rest))
    (htaken : taken = ['\\', '\n'] ∨ taken = ['\\', '\r', '\n']) (faults : List Diagnostic)
    (hi : Text.byteSize p ≤ i) (hi' : i < Text.byteSize p + Text.byteSize taken) :
    Passed faults text i := by
  obtain ⟨lineEnd, rfl, hline, hblank⟩ : ∃ lineEnd, taken = '\\' :: lineEnd ∧
      (lineEnd = ['\n'] ∨ lineEnd = ['\r', '\n']) ∧
      ∀ c ∈ lineEnd, c ∈ [' ', '\t', '\x0c', '\r', '\n'] := by
    rcases htaken with rfl | rfl
    · exact ⟨_, rfl, Or.inl rfl, by simp⟩
    · exact ⟨_, rfl, Or.inr rfl, by simp⟩
  have hone : '\\'.utf8Size = 1 := rfl
  by_cases hfirst : i = Text.byteSize p
  · refine .continued p (lineEnd ++ rest) htext ?_ hfirst
    rcases hline with rfl | rfl
    · exact Or.inl ⟨rest, rfl⟩
    · exact Or.inr ⟨rest, rfl⟩
  · refine blanks_passed lineEnd rest (p ++ ['\\']) ?_ hblank faults ?_ ?_
    · rw [htext, List.append_assoc]
      rfl
    · rw [Text.byteSize_append, Text.byteSize_cons, hone, Text.byteSize_nil]
      omega
    · rw [Text.byteSize_cons, hone] at hi'
      rw [Text.byteSize_append, Text.byteSize_cons, hone, Text.byteSize_nil]
      omega

theorem isSpace_mem {c : Char} (h : Layout.isSpace c = true) :
    c ∈ [' ', '\t', '\x0c', '\r', '\n'] := by
  simp only [Layout.isSpace, Layout.isIndent, Bool.or_eq_true, beq_iff_eq] at h
  rcases h with ((rfl | rfl) | rfl) | rfl <;> decide

section Step

variable {p : List Char} (hp : text = p ++ s.rest) (hpos : s.pos = Text.byteSize p)
  (hsize : Text.byteSize text < UInt32.size)

include hp hpos hsize

theorem accept_accounted {c : Char} {cs : List Char} (hrest : s.rest = c :: cs) {l : Lexeme} {n : Nat}
    (hl : Lexeme.recognise c cs = (l, n)) :
    (∀ t ∈ (accept l (n + 1) s).1.texts, t.StandsIn text) ∧
      ∀ i, s.pos ≤ i → i < (accept l (n + 1) s).2.pos → Accounted text (accept l (n + 1) s).1 i := by
  have hproper : l.Proper := by
    have h := Lexeme.recognise_proper c cs
    rwa [hl] at h
  have hpassing : l.Passing (s.rest.take (n + 1)) := by
    have h := Lexeme.recognise_passing c cs
    rwa [hl, ← hrest] at h
  have hnext : (accept l (n + 1) s).2.pos = (s.skip (n + 1)).pos := by cases l <;> rfl
  have hskip : (s.skip (n + 1)).pos = Text.byteSize p + Text.byteSize (s.rest.take (n + 1)) := by
    rw [State.skip, hpos]
  have hsplit : text = p ++ (s.rest.take (n + 1) ++ s.rest.drop (n + 1)) := by
    rw [List.take_append_drop, hp]
  have htotal := congrArg Text.byteSize hsplit
  rw [Text.byteSize_append, Text.byteSize_append] at htotal
  have hstart : (UInt32.ofNat s.pos).toNat = Text.byteSize p := by
    rw [Offset.toNat_ofNat (by omega), hpos]
  have hstop : (UInt32.ofNat (s.skip (n + 1)).pos).toNat =
      Text.byteSize p + Text.byteSize (s.rest.take (n + 1)) := by
    rw [Offset.toNat_ofNat (by omega), hskip]
  rw [hnext, hskip]
  cases hk : l.textKind? with
  | some k =>
    have htexts := accept_texts hproper (n + 1) s
    rw [hk] at htexts
    refine ⟨fun t ht => ?_, fun i hi hi' => Or.inl ⟨_, by rw [htexts]; exact List.mem_cons_self, ?_, ?_⟩⟩
    · rw [htexts] at ht
      obtain rfl := List.mem_singleton.mp ht
      refine ⟨p, s.rest.drop (n + 1), ?_, ?_, hstart, ?_⟩
      · rw [String.toList_ofList, List.append_assoc]
        exact hsplit
      · rw [hrest, List.take_succ_cons]
        exact fun h => List.cons_ne_nil _ _ (String.ofList_eq_empty_iff.mp h)
      · rw [String.toList_ofList]
        exact hstop
    · exact hstart ▸ hpos ▸ hi
    · exact hstop ▸ hi'
  | none =>
    have htexts := accept_texts hproper (n + 1) s
    rw [hk] at htexts
    refine ⟨fun t ht => ?_, fun i hi hi' => Or.inr ?_⟩
    · rw [htexts] at ht
      exact absurd ht List.not_mem_nil
    rw [hpos] at hi
    cases l with
    | space => exact blanks_passed _ _ _ hsplit (fun d hd => isSpace_mem (hpassing d hd)) _ hi hi'
    | continuation => exact continuation_passed hsplit hpassing _ hi hi'
    | unknown =>
      obtain ⟨d, hd⟩ := hpassing
      rw [hd] at hsplit hi'
      refine .reported p _ d hsplit ⟨hi, by simpa using hi'⟩ (List.mem_singleton.mpr ?_)
      have hsize : (s.skip (n + 1)).pos = Text.byteSize p + d.utf8Size := by
        rw [hskip, hd]
        rfl
      rw [hsize, hd, hpos]
      rfl
    | _ => contradiction

theorem step_accounted (h : step cfg stops s = .next e t) :
    (∀ t ∈ e.texts, t.StandsIn text) ∧ ∀ i, s.pos ≤ i → i < t.pos → Accounted text e i := by
  rcases step_cases h with ⟨-, -, hstart⟩ | ⟨cs, hrest, -, rfl, rfl⟩ | ⟨c, cs, hrest, -, -, rfl, rfl⟩
  · refine ⟨by simp [lineStart_texts hstart], fun i hi hi' => Or.inr ?_⟩
    rcases lineStart_cases hstart with ⟨-, -, rfl⟩ | ⟨-, -, -, rfl⟩ | ⟨-, -, -, rfl, rfl⟩
    · exact absurd hi' (Nat.not_lt.mpr hi)
    · exact absurd hi' (Nat.not_lt.mpr hi)
    · have hblank : ∀ c ∈ s.rest.takeWhile Layout.isIndent, Layout.isIndent c = true :=
        fun c hc => List.all_eq_true.mp List.all_takeWhile c hc
      refine blanks_passed (s.rest.takeWhile Layout.isIndent) (s.rest.dropWhile Layout.isIndent) p ?_
        (fun c hc => isSpace_mem ?_) _ (hpos ▸ hi) ?_
      · rw [List.takeWhile_append_dropWhile, hp]
      · rw [Layout.isSpace, hblank c hc, Bool.true_or]
      · rw [byteSize_indent _ hblank, ← hpos]
        exact hi'
  · refine ⟨by simp [lineFeed_texts], fun i hi hi' => Or.inr ?_⟩
    have hnext : (lineFeed s).2.pos = s.pos + 1 := by
      have hskip : (s.skip 1).pos = s.pos + 1 := by
        rw [State.skip, hrest]
        rfl
      rw [← hskip]
      unfold lineFeed
      split <;> rfl
    rw [hrest] at hp
    exact .blank p cs '\n' (by decide) hp (by omega)
  · exact accept_accounted hp hpos hsize hrest rfl

end Step

/-- A step puts out tokens or a comment. -/
theorem step_tokens_or_comments (h : step cfg stops s = .next e t) :
    e.tokens = [] ∨ e.comments = [] := by
  rcases step_cases h with ⟨-, -, hstart⟩ | ⟨cs, hrest, -, rfl, rfl⟩ | ⟨c, cs, hrest, -, -, rfl, rfl⟩
  · have hnone := lineStart_texts hstart
    exact Or.inr (List.append_eq_nil_iff.mp hnone).2
  · exact Or.inr (List.append_eq_nil_iff.mp (lineFeed_texts s)).2
  · cases (Lexeme.recognise c cs).1 with
    | comment => exact Or.inl rfl
    | _ => exact Or.inr rfl

theorem Reaches.apart (h : Reaches cfg stops s e t) (hlimit : s.limit < UInt32.size) :
    ∀ x ∈ e.tokens, ∀ y ∈ e.comments, x.Apart y := by
  induction h with
  | refl => exact List.forall_mem_nil _
  | @tail e e' t u h hstep ih =>
    have hcovers := h.covers
    have hbetween := hcovers.between
    have hcovers' := step_covers hstep
    have hbetween' := hcovers'.between
    have ht : t.pos < UInt32.size := Nat.lt_of_le_of_lt hcovers.pos_le_limit hlimit
    have hu : u.pos < UInt32.size :=
      Nat.lt_of_le_of_lt hcovers'.pos_le_limit (hcovers.limit_eq ▸ hlimit)
    intro x hx y hy
    rcases List.mem_append.mp hx with hx | hx <;> rcases List.mem_append.mp hy with hy | hy
    · exact ih x hx y hy
    · exact Or.inl ((hbetween.tokens x hx).stop_le_start (hbetween'.comments y hy) ht hu)
    · exact Or.inr ((hbetween.comments y hy).stop_le_start (hbetween'.tokens x hx) ht hu)
    · rcases step_tokens_or_comments hstep with hnone | hnone
      · rw [hnone] at hx
        contradiction
      · rw [hnone] at hy
        contradiction

/-- Every byte that a stretch reads is accounted for. -/
theorem Reaches.accounted {source : String} (h : Reaches cfg stops (.start source) e t)
    (hsize : Text.byteSize source.toList < UInt32.size) :
    (∀ x ∈ e.texts, x.StandsIn source.toList) ∧ ∀ i, i < t.pos → Accounted source.toList e i := by
  induction h with
  | refl => exact ⟨List.forall_mem_nil _, fun i hi => absurd hi (Nat.not_lt_zero i)⟩
  | @tail e e' t u h hstep ih =>
    obtain ⟨p, hp, hpos⟩ := h.exists_prefix
    rw [State.start, Nat.zero_add] at hpos
    obtain ⟨hstands, hread⟩ := step_accounted hp hpos hsize hstep
    refine ⟨fun x hx => ?_, fun i hi => ?_⟩
    · exact ((mem_texts_append x).mp hx).elim (ih.1 x) (hstands x)
    · by_cases hold : i < t.pos
      · exact (ih.2 i hold).append_left
      · exact (hread i (Nat.not_lt.mp hold) hi).append_right

theorem finish_texts (s : State) : (finish s ++ endMark s.pos).texts = [] := by
  unfold finish
  cases s.hasContent <;> simp [Emission.texts, endMark, Token.layout, Kind.isLayout]

/-- A scan is lossless. -/
theorem scan_lossless (cfg : Config) (source : String)
    (hsize : Text.byteSize source.toList < UInt32.size) :
    Lossless source.toList (scan cfg source).toEmission := by
  obtain ⟨e, t, h, hrest, hrun⟩ := exists_end cfg (.start source)
  have hlimit : (State.start source).limit < UInt32.size := by
    simpa [State.limit, State.start] using hsize
  have hend : t.pos = Text.byteSize source.toList := by
    have hlimit := h.covers.limit_eq
    rw [State.limit, State.limit, hrest] at hlimit
    simpa [State.start] using hlimit
  obtain ⟨hstands, hread⟩ := h.accounted hsize
  have harranged := h.arranged hlimit
  obtain ⟨hfinish, hfinish'⟩ := List.append_eq_nil_iff.mp (finish_texts t)
  have htokens : (e ++ (finish t ++ endMark t.pos)).tokens.filter (fun x => !x.kind.isLayout) =
      e.tokens.filter fun x => !x.kind.isLayout := by
    rw [Emission.append_tokens, List.filter_append, hfinish, List.append_nil]
  have hcomments : (e ++ (finish t ++ endMark t.pos)).comments = e.comments := by
    rw [Emission.append_comments, hfinish', List.append_nil]
  have htexts : (e ++ (finish t ++ endMark t.pos)).texts = e.texts := by
    rw [Emission.texts, htokens, hcomments, Emission.texts]
  have htokensOrder := harranged.tokens.sublist (List.filter_sublist (p := fun x => !x.kind.isLayout))
  rw [scan, hrun]
  refine ⟨by rwa [htexts], ?_, by rwa [htokens], by rw [hcomments]; exact harranged.comments, ?_⟩
  · rw [htexts]
    refine List.pairwise_append.mpr ⟨htokensOrder.disjoint.imp Or.inl,
      harranged.comments.disjoint.imp Or.inl, fun x hx y hy => ?_⟩
    exact h.apart hlimit x (List.mem_filter.mp hx).1 y hy
  · intro i hi hfree
    rw [htexts] at hfree
    rcases hread i (hend ▸ hi) with ⟨x, hx, hin⟩ | hpassed
    · exact absurd hin (hfree x hx)
    · exact hpassed.mono fun d hd => List.mem_append_left _ hd

theorem scan_lossless_mixed : Text.byteSize "a\\\n é + 'ü' # ö".toList < UInt32.size ∧
    Lossless "a\\\n é + 'ü' # ö".toList (scan {} "a\\\n é + 'ü' # ö").toEmission := by
  have hsize : Text.byteSize "a\\\n é + 'ü' # ö".toList < UInt32.size := by decide +kernel
  exact ⟨hsize, scan_lossless {} "a\\\n é + 'ü' # ö" hsize⟩

end Scan

end Offside
