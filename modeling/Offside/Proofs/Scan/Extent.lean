import Offside.Proofs.Scan.Reaches
import Offside.Proofs.Span

namespace Offside

namespace Scan

variable {cfg : Config} {stops : List Offset} {s t : State} {e : Emission}

def State.limit (s : State) : Nat := s.pos + Text.byteSize s.rest

theorem limit_skip (s : State) (n : Nat) : (s.skip n).limit = s.limit := by
  have hsize := Text.byteSize_append (s.rest.take n) (s.rest.drop n)
  rw [List.take_append_drop] at hsize
  simp only [State.limit, State.skip]
  omega

/-- What a stretch puts out stands between two positions; so do the brackets it leaves open. -/
structure Emission.Between (a b : Nat) (e : Emission) : Prop where
  tokens : ∀ t ∈ e.tokens, t.span.Between a b
  comments : ∀ t ∈ e.comments, t.span.Between a b
  diagnostics : ∀ d ∈ e.diagnostics, d.span.Between a b
  lineStates : ∀ l ∈ e.lineStates, ∃ i, a ≤ i ∧ i ≤ b ∧ l.offset = UInt32.ofNat i

namespace Emission.Between

variable {a a' b b' : Nat} {e' : Emission}

theorem empty (a b : Nat) : ({} : Emission).Between a b :=
  ⟨List.forall_mem_nil _, List.forall_mem_nil _, List.forall_mem_nil _, List.forall_mem_nil _⟩

theorem ofTokens {ts : List Token} {ds : List Diagnostic} (ht : ∀ t ∈ ts, t.span.Between a b)
    (hd : ∀ d ∈ ds, d.span.Between a b) :
    ({ tokens := ts, diagnostics := ds } : Emission).Between a b :=
  ⟨ht, List.forall_mem_nil _, hd, List.forall_mem_nil _⟩

theorem ofLineState {l : Layout.LineState} {i : Nat} (ha : a ≤ i) (hb : i ≤ b)
    (hl : l.offset = UInt32.ofNat i) : ({ lineStates := [l] } : Emission).Between a b :=
  ⟨List.forall_mem_nil _, List.forall_mem_nil _, List.forall_mem_nil _,
    List.forall_mem_singleton.mpr ⟨i, ha, hb, hl⟩⟩

theorem mono (h : e.Between a b) (ha : a' ≤ a) (hb : b ≤ b') : e.Between a' b' where
  tokens t ht := (h.tokens t ht).mono ha hb
  comments t ht := (h.comments t ht).mono ha hb
  diagnostics d hd := (h.diagnostics d hd).mono ha hb
  lineStates l hl := by
    obtain ⟨i, hi, hib, heq⟩ := h.lineStates l hl
    exact ⟨i, Nat.le_trans ha hi, Nat.le_trans hib hb, heq⟩

theorem append (h : e.Between a b) (h' : e'.Between a b) : (e ++ e').Between a b where
  tokens := List.forall_mem_append.mpr ⟨h.tokens, h'.tokens⟩
  comments := List.forall_mem_append.mpr ⟨h.comments, h'.comments⟩
  diagnostics := List.forall_mem_append.mpr ⟨h.diagnostics, h'.diagnostics⟩
  lineStates := List.forall_mem_append.mpr ⟨h.lineStates, h'.lineStates⟩

end Emission.Between

/-- A stretch from a state to another moves ahead by as much as it reads. What it puts out stands
between the two, and so do the brackets that it opens. -/
structure Covers (s : State) (e : Emission) (t : State) : Prop where
  pos_le : s.pos ≤ t.pos
  limit_eq : t.limit = s.limit
  between : e.Between s.pos t.pos
  openers : ∀ o ∈ t.openers, o ∈ s.openers ∨ o.span.Between s.pos t.pos

theorem Covers.refl (s : State) : Covers s {} s :=
  ⟨Nat.le_refl _, rfl, .empty _ _, fun _ => Or.inl⟩

theorem Covers.trans {u : State} {e' : Emission} (h : Covers s e t) (h' : Covers t e' u) :
    Covers s (e ++ e') u where
  pos_le := Nat.le_trans h.pos_le h'.pos_le
  limit_eq := h'.limit_eq.trans h.limit_eq
  between := (h.between.mono (Nat.le_refl _) h'.pos_le).append
    (h'.between.mono h.pos_le (Nat.le_refl _))
  openers o ho := by
    rcases h'.openers o ho with ho | ho
    · exact (h.openers o ho).imp_right fun h => h.mono (Nat.le_refl _) h'.pos_le
    · exact Or.inr (ho.mono h.pos_le (Nat.le_refl _))

theorem lineStartsIn_between (pos : Nat) (cs : List Char) :
    ∀ i ∈ lineStartsIn pos cs, pos < i ∧ i ≤ pos + Text.byteSize cs := by
  induction cs generalizing pos with
  | nil => exact List.forall_mem_nil _
  | cons c cs ih =>
    have hsize : 0 < c.utf8Size := c.utf8Size_pos
    have hrest : ∀ i ∈ lineStartsIn (pos + c.utf8Size) cs,
        pos < i ∧ i ≤ pos + Text.byteSize (c :: cs) := by
      intro i hi
      have := ih _ i hi
      rw [Text.byteSize_cons]
      omega
    unfold lineStartsIn
    dsimp only
    split
    · refine List.forall_mem_cons.mpr ⟨?_, hrest⟩
      rw [Text.byteSize_cons]
      omega
    · exact hrest

theorem accept_covers (lexeme : Lexeme) (n : Nat) (s : State) :
    Covers s (accept lexeme n s).1 (accept lexeme n s).2 := by
  have hpos : s.pos ≤ (s.skip n).pos := Nat.le_add_right _ _
  have hspan : (Span.ofNat s.pos (s.skip n).pos).Between s.pos (s.skip n).pos :=
    ⟨_, _, Nat.le_refl _, hpos, Nat.le_refl _, rfl⟩
  have hunclosed (terminated : Bool) : ∀ d ∈ (if terminated then [] else
      [⟨.unterminatedString, Span.ofNat s.pos (s.skip n).pos⟩] : List Diagnostic),
      d.span.Between s.pos (s.skip n).pos := by
    cases terminated with
    | true => exact List.forall_mem_nil _
    | false => exact List.forall_mem_singleton.mpr hspan
  have htoken {k : Kind} {text : String} : ({ tokens := [⟨k, text, Span.ofNat s.pos (s.skip n).pos⟩] } :
      Emission).Between s.pos (s.skip n).pos :=
    .ofTokens (List.forall_mem_singleton.mpr hspan) (List.forall_mem_nil _)
  unfold accept
  dsimp only
  cases lexeme with
  | token kind => exact ⟨hpos, limit_skip s n, htoken, fun _ => Or.inl⟩
  | opener kind =>
    exact ⟨hpos, limit_skip s n, htoken,
      List.forall_mem_cons.mpr ⟨Or.inr hspan, fun _ => Or.inl⟩⟩
  | closer kind =>
    exact ⟨hpos, limit_skip s n, htoken, fun o ho => Or.inl (List.mem_of_mem_tail ho)⟩
  | string terminated =>
    exact ⟨hpos, limit_skip s n,
      .ofTokens (List.forall_mem_singleton.mpr hspan) (hunclosed terminated), fun _ => Or.inl⟩
  | longString quote terminated =>
    refine ⟨hpos, limit_skip s n, ⟨List.forall_mem_singleton.mpr hspan, List.forall_mem_nil _,
      hunclosed terminated, List.forall_mem_map.mpr fun i hi => ?_⟩, fun _ => Or.inl⟩
    obtain ⟨hlt, hle⟩ := lineStartsIn_between _ _ i hi
    exact ⟨i, Nat.le_of_lt hlt, hle, rfl⟩
  | comment =>
    exact ⟨hpos, limit_skip s n, ⟨List.forall_mem_nil _, List.forall_mem_singleton.mpr hspan,
      List.forall_mem_nil _, List.forall_mem_nil _⟩, fun _ => Or.inl⟩
  | space => exact ⟨hpos, limit_skip s n, .empty _ _, fun _ => Or.inl⟩
  | continuation =>
    exact ⟨hpos, limit_skip s n, .ofLineState hpos (Nat.le_refl _) rfl, fun _ => Or.inl⟩
  | unknown =>
    exact ⟨hpos, limit_skip s n,
      .ofTokens (List.forall_mem_nil _) (List.forall_mem_singleton.mpr hspan), fun _ => Or.inl⟩

theorem lineFeed_covers {cs : List Char} (h : s.rest = '\n' :: cs) :
    Covers s (lineFeed s).1 (lineFeed s).2 := by
  have hnext : (s.skip 1).pos = s.pos + 1 := by
    rw [State.skip, h]
    rfl
  have hpos : s.pos ≤ (s.skip 1).pos := hnext ▸ Nat.le_add_right _ _
  by_cases ho : s.openers = []
  · rw [lineFeed_outer ho]
    refine ⟨hpos, limit_skip s 1, .ofTokens ?_ (List.forall_mem_nil _), fun _ => Or.inl⟩
    dsimp only
    split
    · exact List.forall_mem_singleton.mpr
        ⟨_, _, Nat.le_refl _, Nat.le_add_right _ _, Nat.le_of_eq hnext.symm, rfl⟩
    · exact List.forall_mem_nil _
  · rw [lineFeed_inner ho]
    exact ⟨hpos, limit_skip s 1,
      .ofLineState hpos (Nat.le_refl _) rfl,
      fun _ => Or.inl⟩

theorem indentTo_openers (width a b : Nat) (s : State) :
    (indentTo width a b s).2.openers = s.openers := by
  unfold indentTo
  split
  · rfl
  · dsimp only
    split <;> rfl

theorem indentTo_between {width a b : Nat} (h : a ≤ b) (s : State) :
    (indentTo width a b s).1.Between a b := by
  have hlead : (Span.ofNat a b).Between a b := ⟨_, _, Nat.le_refl _, h, Nat.le_refl _, rfl⟩
  have hclose : (Span.ofNat b b).Between a b := ⟨_, _, h, Nat.le_refl _, Nat.le_refl _, rfl⟩
  unfold indentTo
  split
  · exact .empty _ _
  · dsimp only
    split
    · exact .ofTokens (List.forall_mem_singleton.mpr hlead) (List.forall_mem_nil _)
    · exact .empty _ _
    · refine .ofTokens (fun t ht => (List.eq_of_mem_replicate ht) ▸ hclose) ?_
      split
      · exact List.forall_mem_nil _
      · exact List.forall_mem_singleton.mpr hlead

theorem byteSize_indent (blanks : List Char) (h : ∀ c ∈ blanks, Layout.isIndent c = true) :
    Text.byteSize blanks = blanks.length := by
  induction blanks with
  | nil => rfl
  | cons c blanks ih =>
    obtain ⟨hc, hblanks⟩ := List.forall_mem_cons.mp h
    have hsize : c.utf8Size = 1 := by
      simp only [Layout.isIndent, Bool.or_eq_true, beq_iff_eq] at hc
      rcases hc with (rfl | rfl) | rfl <;> rfl
    rw [Text.byteSize_cons, hsize, ih hblanks, List.length_cons, Nat.add_comm]

/-- The blanks of an indentation take a byte each. -/
theorem limit_indentation (cfg : Config) (s : State) :
    s.pos + (Layout.indentation cfg.tabWidth s.rest).length +
      Text.byteSize (s.rest.drop (Layout.indentation cfg.tabWidth s.rest).length) = s.limit := by
  have hlength : (Layout.indentation cfg.tabWidth s.rest).length =
      Text.byteSize (s.rest.takeWhile Layout.isIndent) := by
    rw [byteSize_indent _ fun c hc => List.all_eq_true.mp List.all_takeWhile c hc]
    rfl
  have hdrop : s.rest.drop (Layout.indentation cfg.tabWidth s.rest).length =
      s.rest.dropWhile Layout.isIndent := by
    calc s.rest.drop (s.rest.takeWhile Layout.isIndent).length
        = (s.rest.takeWhile Layout.isIndent ++ s.rest.dropWhile Layout.isIndent).drop
            (s.rest.takeWhile Layout.isIndent).length := by rw [List.takeWhile_append_dropWhile]
      _ = s.rest.dropWhile Layout.isIndent := List.drop_left
  have hsize := Text.byteSize_append (s.rest.takeWhile Layout.isIndent)
    (s.rest.dropWhile Layout.isIndent)
  rw [List.takeWhile_append_dropWhile] at hsize
  rw [hdrop, hlength, State.limit, hsize, Nat.add_assoc]

theorem entering_openers (cfg : Config) (s : State) : (entering cfg s).2.openers = s.openers :=
  indentTo_openers _ _ _ { s with atLineStart := false }

theorem entering_covers (cfg : Config) (s : State) :
    Covers s (entering cfg s).1 (entering cfg s).2 := by
  have hpos : s.pos ≤ s.pos + (Layout.indentation cfg.tabWidth s.rest).length :=
    Nat.le_add_right _ _
  have hlead : (Span.ofNat s.pos (s.pos + (Layout.indentation cfg.tabWidth s.rest).length)).Between
      s.pos (s.pos + (Layout.indentation cfg.tabWidth s.rest).length) :=
    ⟨_, _, Nat.le_refl _, hpos, Nat.le_refl _, rfl⟩
  have hmixed : (if (Layout.indentation cfg.tabWidth s.rest).mixed then
      { diagnostics := [⟨.mixedIndentation,
          Span.ofNat s.pos (s.pos + (Layout.indentation cfg.tabWidth s.rest).length)⟩] }
      else {} : Emission).Between s.pos
        (s.pos + (Layout.indentation cfg.tabWidth s.rest).length) := by
    split
    · exact .ofTokens (List.forall_mem_nil _) (List.forall_mem_singleton.mpr hlead)
    · exact .empty _ _
  have hhere : ({ lineStates := [s.lineState s.pos none] } : Emission).Between s.pos
      (s.pos + (Layout.indentation cfg.tabWidth s.rest).length) :=
    .ofLineState (Nat.le_refl _) hpos rfl
  refine ⟨hpos, limit_indentation cfg s, ?_, fun o ho => Or.inl (entering_openers cfg s ▸ ho)⟩
  exact (hhere.append hmixed).append (indentTo_between hpos _)

theorem lineStart_covers (h : lineStart cfg stops s = .next e t) : Covers s e t := by
  have hhere : ({ lineStates := [s.lineState s.pos none] } : Emission).Between s.pos s.pos :=
    .ofLineState (Nat.le_refl _) (Nat.le_refl _) rfl
  rcases lineStart_cases h with ⟨-, rfl, rfl⟩ | ⟨-, -, rfl, rfl⟩ | ⟨-, -, -, rfl, rfl⟩
  · exact ⟨Nat.le_refl _, rfl, hhere, fun _ => Or.inl⟩
  · exact ⟨Nat.le_refl _, rfl, hhere, fun _ => Or.inl⟩
  · exact entering_covers cfg s

theorem step_covers (h : step cfg stops s = .next e t) : Covers s e t := by
  rcases step_cases h with ⟨-, -, h⟩ | ⟨cs, hrest, -, rfl, rfl⟩ | ⟨c, cs, -, -, -, rfl, rfl⟩
  · exact lineStart_covers h
  · exact lineFeed_covers hrest
  · exact accept_covers _ _ s

theorem Reaches.covers (h : Reaches cfg stops s e t) : Covers s e t := by
  induction h with
  | refl => exact Covers.refl s
  | tail _ hstep ih => exact ih.trans (step_covers hstep)

/-- A step inside a line moves ahead. -/
theorem step_pos_lt (h : step cfg stops s = .next e t) (hl : s.atLineStart = false) :
    s.pos < t.pos := by
  rcases step_cases h with ⟨-, ht, -⟩ | ⟨cs, hrest, -, -, rfl⟩ | ⟨c, cs, hrest, -, -, -, rfl⟩
  · rw [hl] at ht
    contradiction
  · have hpos : (lineFeed s).2.pos = (s.skip 1).pos := by
      unfold lineFeed
      split <;> rfl
    have hsize : 0 < '\n'.utf8Size := Char.utf8Size_pos _
    rw [hpos, State.skip, hrest]
    simpa using hsize
  · have hpos : (accept (Lexeme.recognise c cs).1 ((Lexeme.recognise c cs).2 + 1) s).2.pos =
        (s.skip ((Lexeme.recognise c cs).2 + 1)).pos := by
      cases (Lexeme.recognise c cs).1 <;> rfl
    have hsize := c.utf8Size_pos
    rw [hpos, State.skip, hrest, List.take_succ_cons, Text.byteSize_cons]
    dsimp only
    omega

/-- What the end of the text puts out stands there, or at a bracket that is open. -/
theorem Covers.finish {a : Nat} (h : Covers s e t) (ha : a ≤ s.pos)
    (ho : ∀ o ∈ s.openers, o.span.Between a t.pos) :
    (finish t ++ endMark t.pos).Between a t.pos := by
  have hat : a ≤ t.pos := Nat.le_trans ha h.pos_le
  have hhere : (Span.ofNat t.pos t.pos).Between a t.pos :=
    ⟨_, _, hat, Nat.le_refl _, Nat.le_refl _, rfl⟩
  have hopen : ∀ o ∈ t.openers, o.span.Between a t.pos := by
    intro o hmem
    rcases h.openers o hmem with hold | hnew
    · exact ho o hold
    · exact hnew.mono ha (Nat.le_refl _)
  refine .append (.ofTokens (List.forall_mem_append.mpr ⟨?_, ?_⟩) ?_)
    (.ofTokens (List.forall_mem_singleton.mpr hhere) (List.forall_mem_nil _))
  · split
    · exact List.forall_mem_singleton.mpr hhere
    · exact List.forall_mem_nil _
  · exact fun x hx => (List.eq_of_mem_replicate hx) ▸ hhere
  · cases hlast : t.openers.getLast? with
    | none => exact List.forall_mem_nil _
    | some o => exact List.forall_mem_singleton.mpr (hopen o (List.mem_of_getLast? hlast))

end Scan

end Offside
