import Offside.Proofs.Lexeme.Line
import Offside.Proofs.Scan.Layout
import Offside.Proofs.Scan.Token

namespace Offside.Scan

open Layout (LineState Snapshot LongQuote)

variable {cfg : Config} {stops : List Offset} {s t u : State} {e e' : Emission} {source : String}
  {p g cs : List Char} {i : Nat}

section Lines

theorem mem_lineStartsIn (pos : Nat) (cs : List Char) : i ∈ lineStartsIn pos cs ↔
    ∃ p q, cs = p ++ '\n' :: q ∧ i = pos + Text.byteSize p + 1 := by
  induction cs generalizing pos with
  | nil =>
    refine ⟨fun h => absurd h List.not_mem_nil, ?_⟩
    rintro ⟨p, q, h, -⟩
    exact absurd h.symm (List.append_ne_nil_of_right_ne_nil _ (List.cons_ne_nil _ _))
  | cons c cs ih =>
    -- a line feed in the text is its first character or stands behind it
    have hsplit : (∃ p q, c :: cs = p ++ '\n' :: q ∧ i = pos + Text.byteSize p + 1) ↔
        (c = '\n' ∧ i = pos + 1) ∨ i ∈ lineStartsIn (pos + c.utf8Size) cs := by
      rw [ih]
      constructor
      · rintro ⟨p, q, heq, rfl⟩
        cases p with
        | nil => exact Or.inl ⟨(List.cons.inj heq).1, rfl⟩
        | cons d p =>
          obtain ⟨rfl, rfl⟩ := List.cons.inj heq
          exact Or.inr ⟨p, q, rfl, by rw [Text.byteSize_cons]; omega⟩
      · rintro (⟨rfl, rfl⟩ | ⟨p, q, rfl, rfl⟩)
        · exact ⟨[], cs, rfl, rfl⟩
        · exact ⟨c :: p, q, rfl, by rw [Text.byteSize_cons]; omega⟩
    rw [hsplit, lineStartsIn]
    split
    · next hc =>
      subst hc
      rw [List.mem_cons]
      exact or_congr_left ⟨fun h => ⟨rfl, h⟩, fun h => h.2⟩
    · next hc => exact ⟨Or.inr, fun h => h.resolve_left fun h => hc h.1⟩

theorem lineStartsIn_append (pos : Nat) (a b : List Char) : lineStartsIn pos (a ++ b) =
    lineStartsIn pos a ++ lineStartsIn (pos + Text.byteSize a) b := by
  induction a generalizing pos with
  | nil => rfl
  | cons c a ih =>
    rw [List.cons_append, lineStartsIn, lineStartsIn, Text.byteSize_cons, ← Nat.add_assoc]
    split
    · rw [ih, List.cons_append]
    · exact ih _

theorem lineStartsIn_onLine (pos : Nat) (h : '\n' ∉ cs) : lineStartsIn pos cs = [] := by
  refine List.eq_nil_iff_forall_not_mem.mpr fun i hi => h ?_
  obtain ⟨p, q, rfl, -⟩ := (mem_lineStartsIn pos cs).mp hi
  simp

end Lines

abbrev Mark := Nat × Snapshot

def Mark.lineState (m : Mark) : LineState := ⟨UInt32.ofNat m.1, m.2⟩

def State.pending (s : State) : List Nat := if s.atLineStart then [s.pos] else []

theorem State.pending_inside (h : s.atLineStart = false) : s.pending = [] := by
  rw [pending, h]
  rfl

/-- A piece of text is read on the step between two states, inside a line. -/
structure Reading (s : State) (piece : List Char) (t : State) : Prop where
  inside : s.atLineStart = false
  rest : s.rest = piece ++ t.rest

def LongStep (q : LongQuote) (s : State) (e : Emission) (t : State) : Prop :=
  ∃ piece, Reading s piece t ∧ q.delimiter.toList <+: piece ∧
    e.tokens = [⟨.string, String.ofList piece, Span.ofNat s.pos t.pos⟩]

/-- What a step records: the line starts among what it reads, but for the one where it leaves the
line, and the one where it enters it. Each knows whether the step reads a long string. -/
structure Marks (s : State) (e : Emission) (t : State) (marks : List Mark) : Prop where
  lineStates : e.lineStates = marks.map Mark.lineState
  positions : ∀ g, s.rest = g ++ t.rest →
    marks.map Prod.fst ++ t.pending = s.pending ++ lineStartsIn s.pos g
  string : ∀ m ∈ marks, ∀ q, m.2.string = some q ↔ LongStep q s e t

/-- A step that reads no long string. -/
theorem Marks.silent (hlines : e.lineStates = []) (hs : s.atLineStart = false)
    (ht : t.atLineStart = false)
    (hg : ∀ g, s.rest = g ++ t.rest → '\n' ∉ g) : Marks s e t [] where
  lineStates := hlines
  positions g heq := by
    rw [State.pending_inside hs, State.pending_inside ht, lineStartsIn_onLine _ (hg g heq)]
    rfl
  string := List.forall_mem_nil _

theorem Marks.single {i : Nat} (hlines : e.lineStates = [s.lineState i none])
    (hpositions : ∀ g, s.rest = g ++ t.rest → i :: t.pending = s.pending ++ lineStartsIn s.pos g)
    (hstring : ∀ q, ¬LongStep q s e t) : Marks s e t [(i, s.snapshot none)] where
  lineStates := hlines
  positions := hpositions
  string := List.forall_mem_singleton.mpr fun q => ⟨nofun, fun h => absurd h (hstring q)⟩

theorem not_longStep (h : e.tokens = []) (q : LongQuote) : ¬LongStep q s e t := by
  rintro ⟨piece, -, -, htokens⟩
  rw [h] at htokens
  contradiction

/-- What is read at a line start stays on the line. -/
theorem lineStart_onLine (h : lineStart cfg stops s = .next e t) (hg : s.rest = g ++ t.rest) :
    '\n' ∉ g := by
  rcases lineStart_cases h with ⟨-, -, rfl⟩ | ⟨-, -, -, rfl⟩ | ⟨-, -, -, -, rfl⟩
  · obtain rfl := List.self_eq_append_left.mp hg
    exact List.not_mem_nil
  · obtain rfl := List.self_eq_append_left.mp hg
    exact List.not_mem_nil
  · have htake : g = s.rest.take (Layout.indentation cfg.tabWidth s.rest).length := by
      refine List.append_cancel_right (hg.symm.trans ?_)
      exact (List.take_append_drop _ _).symm
    rw [htake]
    exact Lexeme.OnLine.takeWhile rfl s.rest

theorem lineStart_marks (hl : s.atLineStart = true) (h : lineStart cfg stops s = .next e t) :
    Marks s e t [(s.pos, s.snapshot none)] := by
  have hoff := lineStart_atLineStart h
  refine .single ?_ (fun g hg => ?_) ?_
  · rcases lineStart_cases h with ⟨-, rfl, -⟩ | ⟨-, -, rfl, -⟩ | ⟨-, -, -, rfl, -⟩
    · rfl
    · rfl
    · exact entering_lineStates cfg s
  · rw [State.pending_inside hoff, State.pending, hl, lineStartsIn_onLine _ (lineStart_onLine h hg)]
    rfl
  · rintro q ⟨piece, hread, -⟩
    have hin := hread.inside
    rw [hl] at hin
    contradiction

theorem lineFeed_marks (hrest : s.rest = '\n' :: cs) (hl : s.atLineStart = false) :
    ∃ marks, Marks s (lineFeed s).1 (lineFeed s).2 marks := by
  have hpos : (s.skip 1).pos = s.pos + 1 := by
    rw [State.skip, hrest]
    rfl
  have hpiece {g : List Char} (hg : s.rest = g ++ (lineFeed s).2.rest) : g = ['\n'] := by
    refine List.append_cancel_right (hg.symm.trans ?_)
    rw [rest_lineFeed, hrest]
    rfl
  have hline : lineStartsIn s.pos ['\n'] = [(s.skip 1).pos] := by
    rw [hpos]
    rfl
  by_cases ho : s.openers = []
  · refine ⟨[], ?_, fun g hg => ?_, List.forall_mem_nil _⟩
    · rw [lineFeed_outer ho]
      rfl
    · rw [hpiece hg, hline, lineFeed_outer ho, State.pending_inside hl]
      rfl
  · refine ⟨_, .single (i := (s.skip 1).pos) ?_ (fun g hg => ?_) ?_⟩
    · rw [lineFeed_inner ho]
    · have hoff : (s.skip 1).atLineStart = false := hl
      rw [hpiece hg, hline, lineFeed_inner ho, State.pending_inside hl, State.pending_inside hoff]
      rfl
    · rw [lineFeed_inner ho]
      exact not_longStep rfl

theorem accept_marks {c : Char} (hrest : s.rest = c :: cs) (hl : s.atLineStart = false)
    (hc : c ≠ '\n') : ∃ marks, Marks s
      (accept (Lexeme.recognise c cs).1 ((Lexeme.recognise c cs).2 + 1) s).1
      (accept (Lexeme.recognise c cs).1 ((Lexeme.recognise c cs).2 + 1) s).2 marks := by
  have honLine := Lexeme.recognise_onLine hc cs
  have hcontinuation := @Lexeme.recognise_continuation c cs
  have hlong (q : LongQuote) (b : Bool) := @Lexeme.recognise_longString_prefix c cs q b
  generalize Lexeme.recognise c cs = r at honLine hcontinuation hlong
  obtain ⟨l, n⟩ := r
  dsimp only at honLine hcontinuation hlong ⊢
  have hoff : (accept l (n + 1) s).2.atLineStart = false := (accept_atLineStart l _ s).trans hl
  have hpiece {g : List Char} (hg : s.rest = g ++ (accept l (n + 1) s).2.rest) :
      g = (c :: cs).take (n + 1) := by
    refine List.append_cancel_right (hg.symm.trans ?_)
    rw [rest_accept, ← hrest, List.take_append_drop]
  have hpositions (is : List Nat) (his : is = lineStartsIn s.pos ((c :: cs).take (n + 1)))
      (g : List Char) (hg : s.rest = g ++ (accept l (n + 1) s).2.rest) :
      is ++ (accept l (n + 1) s).2.pending = s.pending ++ lineStartsIn s.pos g := by
    rw [hpiece hg, his, State.pending_inside hl, State.pending_inside hoff, List.append_nil]
    rfl
  cases l with
  | continuation =>
    refine ⟨_, .single (i := (s.skip (n + 1)).pos) rfl (hpositions [_] ?_) (not_longStep rfl)⟩
    rw [State.skip, hrest]
    rcases hcontinuation rfl with h | h <;> rw [h] <;> rfl
  | longString q b =>
    have hpiece' : s.rest.take (n + 1) = (c :: cs).take (n + 1) := by rw [hrest]
    refine ⟨(lineStartsIn s.pos (s.rest.take (n + 1))).map fun i => (i, s.snapshot (some q)), ?_,
      hpositions _ ?_, List.forall_mem_map.mpr fun i _ q' => ?_⟩
    · rw [List.map_map]
      rfl
    · rw [List.map_map, hrest]
      exact List.map_id _
    · -- a piece starts with one delimiter only
      have hread : Reading s (s.rest.take (n + 1)) (accept (.longString q b) (n + 1) s).2 :=
        ⟨hl, (List.take_append_drop _ _).symm⟩
      constructor
      · intro hq
        obtain rfl := Option.some.inj hq
        exact ⟨_, hread, hpiece' ▸ hlong q b rfl, rfl⟩
      · rintro ⟨piece, hread', hdelimiter, -⟩
        rw [hpiece hread'.rest] at hdelimiter
        rw [Lexeme.eq_of_delimiter_prefix (hlong q b rfl) hdelimiter]
        rfl
  | _ => exact ⟨[], .silent rfl hl hoff fun g hg => by
      rw [hpiece hg]
      simp only [reduceCtorEq, false_or, exists_false] at honLine
      exact honLine⟩

theorem step_marks (h : step cfg stops s = .next e t) : ∃ marks, Marks s e t marks := by
  rcases step_cases h with ⟨-, hl, hstart⟩ | ⟨cs, hrest, hl, rfl, rfl⟩ |
    ⟨c, cs, hrest, hl, hc, rfl, rfl⟩
  · exact ⟨_, lineStart_marks hl hstart⟩
  · exact lineFeed_marks hrest hl
  · exact accept_marks hrest hl hc

/-- A step that reads a line feed ends a line or goes on inside brackets, continues a line, or reads a
long string. -/
theorem step_feed (h : step cfg stops s = .next e t) (hg : s.rest = g ++ t.rest) (hfeed : '\n' ∈ g) :
    s.atLineStart = false ∧ (g = ['\n'] ∧ s.openers = [] ∧ t.atLineStart = true ∨
      t.atLineStart = false ∧ (g = ['\n'] ∧ s.openers ≠ [] ∨
        (g = ['\\', '\n'] ∨ g = ['\\', '\r', '\n']) ∨ ∃ q, LongStep q s e t)) := by
  rcases step_cases h with ⟨-, -, hstart⟩ | ⟨cs, hrest, hl, rfl, rfl⟩ |
    ⟨c, cs, hrest, hl, hc, rfl, rfl⟩
  · exact absurd hfeed (lineStart_onLine hstart hg)
  · have hpiece : g = ['\n'] := by
      refine List.append_cancel_right (hg.symm.trans ?_)
      rw [rest_lineFeed, hrest]
      rfl
    by_cases ho : s.openers = []
    · exact ⟨hl, Or.inl ⟨hpiece, ho, by rw [lineFeed_outer ho]⟩⟩
    · refine ⟨hl, Or.inr ⟨?_, Or.inl ⟨hpiece, ho⟩⟩⟩
      rw [lineFeed_inner ho]
      exact hl
  · have hpiece : g = (c :: cs).take ((Lexeme.recognise c cs).2 + 1) := by
      refine List.append_cancel_right (hg.symm.trans ?_)
      rw [rest_accept, ← hrest, List.take_append_drop]
    refine ⟨hl, Or.inr ⟨(accept_atLineStart _ _ s).trans hl, Or.inr ?_⟩⟩
    rcases Lexeme.recognise_onLine hc cs with hcontinued | ⟨q, b, hlong⟩ | honLine
    · rw [hpiece]
      exact Or.inl (Lexeme.recognise_continuation hcontinued)
    · have hdelimiter := Lexeme.recognise_longString_prefix hlong
      rw [← hpiece] at hdelimiter
      refine Or.inr ⟨q, g, ⟨hl, hg⟩, hdelimiter, ?_⟩
      rw [accept_tokens, hlong, hpiece, hrest]
      rfl
    · rw [hpiece] at hfeed
      exact absurd hfeed honLine

/-- What has been recorded before a state, where it was, and on which step. -/
structure Marked (cfg : Config) (source : String) (e : Emission) (t : State) (marks : List Mark) :
    Prop where
  lineStates : e.lineStates = marks.map Mark.lineState
  positions : ∀ p, source.toList = p ++ t.rest →
    marks.map Prod.fst ++ t.pending = 0 :: lineStartsIn 0 p
  steps : ∀ m ∈ marks, ∃ e t e' u ms, Reaches cfg [] (.start source) e t ∧
    step cfg [] t = .next e' u ∧ Marks t e' u ms ∧ m ∈ ms

theorem Reaches.marked (h : Reaches cfg [] (.start source) e t) :
    ∃ marks, Marked cfg source e t marks := by
  induction h with
  | refl =>
    refine ⟨[], rfl, fun p hp => ?_, List.forall_mem_nil _⟩
    obtain rfl := List.self_eq_append_left.mp hp
    rfl
  | @tail e e' t u h hstep ih =>
    obtain ⟨marks, hlines, hpositions, hsteps⟩ := ih
    obtain ⟨ms, hms⟩ := step_marks hstep
    refine ⟨marks ++ ms, ?_, fun p hp => ?_, List.forall_mem_append.mpr
      ⟨hsteps, fun m hm => ⟨e, t, e', u, ms, h, hstep, hms, hm⟩⟩⟩
    · rw [Emission.append_lineStates, List.map_append, hlines, hms.lineStates]
    · obtain ⟨g, hg⟩ := rest_step hstep
      obtain ⟨p₀, hp₀, hpos⟩ := h.exists_prefix
      have hsplit : p = p₀ ++ g := by
        refine List.append_cancel_right (hp.symm.trans ?_)
        rw [List.append_assoc, ← hg]
        exact hp₀
      rw [List.map_append, List.append_assoc, hms.positions g hg, ← List.append_assoc,
        hpositions p₀ hp₀, hpos, hsplit, lineStartsIn_append, List.cons_append]
      rfl

/-- A line start is recorded where a step starts at a line start, or behind a line feed it reads. -/
theorem Marks.position_cases {marks : List Mark} {m : Mark} (h : Marks s e t marks)
    (hg : s.rest = g ++ t.rest) (hm : m ∈ marks) :
    s.atLineStart = true ∧ m.1 = s.pos ∨ m.1 ∈ lineStartsIn s.pos g := by
  have hmem : m.1 ∈ s.pending ++ lineStartsIn s.pos g := by
    rw [← h.positions g hg]
    exact List.mem_append_left _ (List.mem_map_of_mem hm)
  refine (List.mem_append.mp hmem).imp_left fun hpending => ?_
  unfold State.pending at hpending
  split at hpending
  · next hl => exact ⟨hl, List.mem_singleton.mp hpending⟩
  · exact absurd hpending List.not_mem_nil

/-- Of two steps of one scan, a position inside the one is recorded by the other only if they are the
same. -/
theorem Reaches.same_step {e₁ e₂ e₁' e₂' : Emission} {t₁ t₂ u₁ u₂ : State}
    (h₁ : Reaches cfg stops s e₁ t₁) (h₂ : Reaches cfg stops s e₂ t₂)
    (hstep₁ : step cfg stops t₁ = .next e₁' u₁) (hstep₂ : step cfg stops t₂ = .next e₂' u₂)
    (hoff : u₁.atLineStart = false) (hlow : t₁.pos < i) (hhigh : i ≤ u₁.pos)
    (hi : t₂.atLineStart = true ∧ i = t₂.pos ∨ t₂.pos < i ∧ i ≤ u₂.pos) : t₁ = t₂ := by
  have hle₂ := (step_covers hstep₂).pos_le
  rcases h₁.linear h₂ with ⟨e, h, -⟩ | ⟨e, h, -⟩
  · rcases h.head with ⟨heq, -⟩ | ⟨a, u, b, hstep, h, -⟩
    · exact heq
    · exfalso
      obtain ⟨-, rfl⟩ := Step.next.inj (hstep₁.symm.trans hstep)
      have hle := h.covers.pos_le
      rcases hi with ⟨hl, rfl⟩ | ⟨hlt, -⟩
      · rcases h.pos_lt hoff with ⟨rfl, -⟩ | hlt
        · rw [hoff] at hl
          contradiction
        · omega
      · omega
  · rcases h.head with ⟨heq, -⟩ | ⟨a, u, b, hstep, h, -⟩
    · exact heq.symm
    · exfalso
      obtain ⟨-, rfl⟩ := Step.next.inj (hstep₂.symm.trans hstep)
      have hle := h.covers.pos_le
      rcases hi with ⟨-, rfl⟩ | ⟨-, hle'⟩ <;> omega

/-- A scan comes to the end of its text in one state. -/
theorem Reaches.end_eq {e₁ e₂ : Emission} (h₁ : Reaches cfg stops s e₁ t)
    (h₂ : Reaches cfg stops s e₂ u) (ht : t.rest = []) (hu : u.rest = []) : t = u := by
  have hlast {t u : State} {e : Emission} (h : Reaches cfg stops t e u) (ht : t.rest = []) :
      t = u := by
    rcases h.head with ⟨heq, -⟩ | ⟨a, v, b, hstep, -, -⟩
    · exact heq
    · rw [step_end ht] at hstep
      contradiction
  rcases h₁.linear h₂ with ⟨e, h, -⟩ | ⟨e, h, -⟩
  · exact hlast h ht
  · exact (hlast h hu).symm

def StartsLine (text : List Char) (i : Nat) : Prop :=
  i = 0 ∧ text ≠ [] ∨ ∃ p q, text = p ++ '\n' :: q ∧ i = Text.byteSize p + 1

def InLongString (cfg : Config) (source : String) (q : LongQuote) (i : Nat) : Prop :=
  ∃ e t e' u, Reaches cfg [] (.start source) e t ∧ step cfg [] t = .next e' u ∧ LongStep q t e' u ∧
    t.pos < i ∧ i ≤ u.pos

/-- A text ends with a line feed that does not end a line: it is read inside brackets, behind a
backslash or in a long string. -/
def EndsInside (cfg : Config) (source : String) : Prop :=
  ∃ e t e' u piece, Reaches cfg [] (.start source) e t ∧ step cfg [] t = .next e' u ∧
    Reading t (piece ++ ['\n']) u ∧ u.rest = [] ∧
    (piece = [] ∧ 0 < openBrackets e.tokens ∨ piece = ['\\'] ∨ piece = ['\\', '\r'] ∨
      ∃ q, LongStep q t e' u)

theorem LongStep.atLineStart {q : LongQuote} (h : LongStep q s e t)
    (hstep : step cfg stops s = .next e t) : t.atLineStart = false := by
  obtain ⟨piece, hread, -, htokens⟩ := h
  have hl := hread.inside
  rcases step_cases hstep with ⟨-, hl', -⟩ | ⟨cs, -, -, rfl, rfl⟩ | ⟨c, cs, -, -, -, rfl, rfl⟩
  · rw [hl] at hl'
    contradiction
  · by_cases ho : s.openers = []
    · rw [lineFeed_outer ho] at htokens
      dsimp only at htokens
      split at htokens <;> cases htokens
    · rw [lineFeed_inner ho]
      exact hl
  · exact (accept_atLineStart _ _ s).trans hl

theorem Marked.string {marks : List Mark} {m : Mark} (h : Marked cfg source e t marks)
    (hm : m ∈ marks) (q : LongQuote) : m.2.string = some q ↔ InLongString cfg source q m.1 := by
  obtain ⟨e₂, t₂, e₂', u₂, ms, hreaches, hstep, hms, hm⟩ := h.steps m hm
  obtain ⟨g, hg⟩ := rest_step hstep
  have hpos : u₂.pos = t₂.pos + Text.byteSize g := by
    obtain ⟨g', hg', hpos⟩ := Reaches.exists_prefix (.single hstep)
    rw [hpos, List.append_cancel_right (hg.symm.trans hg')]
  have hwhere : t₂.atLineStart = true ∧ m.1 = t₂.pos ∨ t₂.pos < m.1 ∧ m.1 ≤ u₂.pos :=
    (hms.position_cases hg hm).imp_right fun hi => hpos ▸ lineStartsIn_between _ _ _ hi
  rw [hms.string m hm q]
  constructor
  · intro hlong
    refine ⟨e₂, t₂, e₂', u₂, hreaches, hstep, hlong, ?_⟩
    obtain ⟨piece, hread, -⟩ := hlong
    rcases hwhere with ⟨hl, -⟩ | hwhere
    · rw [hread.inside] at hl
      contradiction
    · exact hwhere
  · rintro ⟨e₁, t₁, e₁', u₁, hreaches₁, hstep₁, hlong, hlow, hhigh⟩
    obtain rfl := hreaches₁.same_step hreaches hstep₁ hstep (hlong.atLineStart hstep₁) hlow hhigh
      hwhere
    obtain ⟨rfl, rfl⟩ := Step.next.inj (hstep₁.symm.trans hstep)
    exact hlong

theorem startsLine_iff (text : List Char) (h : i ≠ Text.byteSize text) :
    StartsLine text i ↔ i ∈ 0 :: lineStartsIn 0 text := by
  have hempty : i = 0 → text ≠ [] := by
    rintro rfl rfl
    exact h rfl
  rw [List.mem_cons, mem_lineStartsIn, StartsLine]
  refine or_congr ⟨fun h => h.1, fun h => ⟨h, hempty h⟩⟩ ?_
  simp only [Nat.zero_add]

/-- The end of a text is recorded only if a line feed there does not end a line. -/
theorem Marked.ends {marks : List Mark} (h : Marked cfg source e t marks)
    (hreaches : Reaches cfg [] (.start source) e t) (hrest : t.rest = []) :
    Text.byteSize source.toList ∈ marks.map Prod.fst ↔ EndsInside cfg source := by
  constructor
  · intro hmem
    obtain ⟨m, hm, hsize⟩ := List.mem_map.mp hmem
    obtain ⟨e₂, t₂, e₂', u₂, ms, hreaches₂, hstep, hms, hm⟩ := h.steps m hm
    obtain ⟨g, hg⟩ := rest_step hstep
    obtain ⟨p, hp, hpos⟩ := hreaches₂.exists_prefix
    have htotal := congrArg Text.byteSize hp
    change Text.byteSize source.toList = _ at htotal
    change t₂.pos = 0 + Text.byteSize p at hpos
    rw [Text.byteSize_append, hg, Text.byteSize_append] at htotal
    rcases hms.position_cases hg hm with ⟨-, hat⟩ | hi
    · -- a step that goes on reads something of what is left
      have hnil : t₂.rest = [] := Text.eq_nil_of_byteSize (by
        rw [hg, Text.byteSize_append]
        omega)
      rw [step_end hnil] at hstep
      contradiction
    · obtain ⟨piece, b, rfl, hat⟩ := (mem_lineStartsIn _ _).mp hi
      rw [Text.byteSize_append, Text.byteSize_cons] at htotal
      have hone : '\n'.utf8Size = 1 := rfl
      obtain rfl : b = [] := Text.eq_nil_of_byteSize (by omega)
      have hend : u₂.rest = [] := Text.eq_nil_of_byteSize (by omega)
      obtain ⟨hin, hkind⟩ := step_feed hstep hg (by simp)
      refine ⟨e₂, t₂, e₂', u₂, piece, hreaches₂, hstep, ⟨hin, hg⟩, hend, ?_⟩
      rcases hkind with ⟨hpiece, -, hl⟩ | ⟨-, ⟨hpiece, ho⟩ | hcontinued | hlong⟩
      · -- what ends a line is not recorded where it ends
        exfalso
        have hnone := congrArg List.length (hms.positions _ hg)
        rw [State.pending_inside hin, State.pending, hl, hpiece] at hnone
        have hempty : ms.length + 1 = 1 := by simpa [lineStartsIn] using hnone
        exact List.ne_nil_of_mem hm (List.eq_nil_of_length_eq_zero (by omega))
      · left
        refine ⟨List.append_cancel_right (hpiece : piece ++ ['\n'] = [] ++ ['\n']), ?_⟩
        rw [hreaches₂.tracks.brackets]
        exact List.length_pos_iff.mpr ho
      · right
        rcases hcontinued with hpiece | hpiece
        · exact Or.inl (List.append_cancel_right (hpiece : piece ++ ['\n'] = ['\\'] ++ ['\n']))
        · exact Or.inr (Or.inl
            (List.append_cancel_right (hpiece : piece ++ ['\n'] = ['\\', '\r'] ++ ['\n'])))
      · exact Or.inr (Or.inr (Or.inr hlong))
  · rintro ⟨e₂, t₂, e₂', u₂, piece, hreaches₂, hstep, hread, hend, hkind⟩
    -- the scan ends behind this step, inside the line
    obtain rfl := hreaches.end_eq (.tail hreaches₂ hstep) hrest hend
    have hoff : t.atLineStart = false := by
      rcases (step_feed hstep hread.rest (by simp)).2 with ⟨hpiece, ho, -⟩ | ⟨hoff, -⟩
      · exfalso
        obtain rfl : piece = [] := List.append_cancel_right hpiece
        rcases hkind with ⟨-, hopen⟩ | hpiece | hpiece | ⟨q, hlong⟩
        · rw [hreaches₂.tracks.brackets, ho] at hopen
          contradiction
        · contradiction
        · contradiction
        · obtain ⟨piece, hread', hdelimiter, -⟩ := hlong
          have hsame : piece = ['\n'] := List.append_cancel_right (hread'.rest.symm.trans hread.rest)
          have hlength := hdelimiter.length_le
          rw [Lexeme.delimiter_eq, hsame] at hlength
          contradiction
      · exact hoff
    obtain ⟨p, hp, -⟩ := hreaches₂.exists_prefix
    have htext : source.toList = p ++ piece ++ ['\n'] := by
      rw [hread.rest, hend, List.append_nil, ← List.append_assoc] at hp
      exact hp
    have hpositions := h.positions source.toList (by rw [hrest, List.append_nil])
    rw [State.pending_inside hoff, List.append_nil] at hpositions
    rw [hpositions]
    refine List.mem_cons_of_mem _ ((mem_lineStartsIn 0 _).mpr ⟨p ++ piece, [], htext, ?_⟩)
    rw [htext, Text.byteSize_append, Nat.zero_add]
    rfl

/-- Recorded line starts are complete. Each has a place in the text, and stands where a line starts;
every line start has been recorded, but for the end of the text, which is recorded only if the line
feed there does not end a line. With a line start goes the long string that it is in. Below 2^32 bytes
the place is the offset that is recorded. -/
theorem scan_lineStarts (cfg : Config) (source : String) : ∃ marks : List Mark,
    (scan cfg source).lineStates = marks.map Mark.lineState ∧
      marks.Pairwise (fun m m' => m.1 < m'.1) ∧
      (∀ i, i ≠ Text.byteSize source.toList →
        (i ∈ marks.map Prod.fst ↔ StartsLine source.toList i)) ∧
      (Text.byteSize source.toList ∈ marks.map Prod.fst ↔ EndsInside cfg source) ∧
      (∀ m ∈ marks, ∀ q, m.2.string = some q ↔ InLongString cfg source q m.1) ∧
      (Text.byteSize source.toList < UInt32.size → ∀ m ∈ marks, m.lineState.offset.toNat = m.1) := by
  obtain ⟨e, t, h, hrest, hrun⟩ := exists_end cfg (.start source)
  obtain ⟨marks, hmarks⟩ := h.marked
  have hpositions := hmarks.positions source.toList (by rw [hrest, List.append_nil])
  have hpos : t.pos = Text.byteSize source.toList := by
    have hlimit := h.covers.limit_eq
    rw [State.limit, hrest, Text.byteSize_nil, Nat.add_zero] at hlimit
    rw [hlimit, State.limit, State.start, Nat.zero_add]
  refine ⟨marks, ?_, ?_, fun i hi => ?_, hmarks.ends h hrest, fun m hm => hmarks.string hm,
    fun hsize m hm => ?_⟩
  · rw [scan, hrun, ← hmarks.lineStates]
    exact List.append_nil _
  · have hpairwise : (0 :: lineStartsIn 0 source.toList).Pairwise (· < ·) :=
      .cons (fun i hi => (lineStartsIn_between _ _ i hi).1) (lineStartsIn_pairwise _ _)
    rw [← hpositions] at hpairwise
    exact List.pairwise_map.mp (List.pairwise_append.mp hpairwise).1
  · rw [startsLine_iff _ hi, ← hpositions, List.mem_append]
    refine (or_iff_left fun hpending => hi ?_).symm
    unfold State.pending at hpending
    split at hpending
    · exact (List.mem_singleton.mp hpending).trans hpos
    · exact absurd hpending List.not_mem_nil
  · have hmem : m.1 ∈ 0 :: lineStartsIn 0 source.toList := by
      rw [← hpositions]
      exact List.mem_append_left _ (List.mem_map_of_mem hm)
    refine Offset.toNat_ofNat ?_
    rcases List.mem_cons.mp hmem with hzero | hi
    · omega
    · have hle := (lineStartsIn_between _ _ _ hi).2
      omega

/-- A line feed inside a bracket, and one that ends the text inside a long string. -/
theorem scan_lineStarts_string : ∃ marks : List Mark,
    (scan {} "(\n\x22\x22\x22\n").lineStates = marks.map Mark.lineState ∧
      marks.map Prod.fst = [0, 2, 6] ∧ EndsInside {} "(\n\x22\x22\x22\n" ∧
      InLongString {} "(\n\x22\x22\x22\n" .double 6 := by
  obtain ⟨marks, hlines, -, -, hends, hstring, hoffset⟩ :=
    scan_lineStarts {} "(\n\x22\x22\x22\n"
  have hscan : (scan {} "(\n\x22\x22\x22\n").lineStates =
      [⟨0, ⟨[0], 0, none⟩⟩, ⟨2, ⟨[0], 1, none⟩⟩, ⟨6, ⟨[0], 1, some .double⟩⟩] := by decide +kernel
  have hsmall := hoffset (by decide)
  rw [hscan] at hlines
  obtain ⟨m₀, rest, rfl, h₀, hrest⟩ := List.map_eq_cons_iff.mp hlines.symm
  obtain ⟨m₁, rest, rfl, h₁, hrest⟩ := List.map_eq_cons_iff.mp hrest
  obtain ⟨m₂, rest, rfl, h₂, hrest⟩ := List.map_eq_cons_iff.mp hrest
  obtain rfl := List.map_eq_nil_iff.mp hrest
  obtain ⟨hm₀, hm₁, hm₂, -⟩ := by simpa only [List.forall_mem_cons] using hsmall
  rw [h₀] at hm₀
  rw [h₁] at hm₁
  rw [h₂] at hm₂
  have hpositions : [m₀, m₁, m₂].map Prod.fst = [0, 2, 6] := by
    simp only [List.map_cons, List.map_nil, ← hm₀, ← hm₁, ← hm₂]
    rfl
  refine ⟨_, hscan.trans hlines, hpositions, hends.mp ?_, ?_⟩
  · rw [hpositions]
    decide
  · have hlast := (hstring m₂ (by simp) .double).mp (congrArg (fun l => l.snapshot.string) h₂)
    rwa [← hm₂] at hlast

end Offside.Scan
