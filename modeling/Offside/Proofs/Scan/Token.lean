import Offside.Proofs.Scan.Order

namespace Offside

namespace Lexeme

def kind? : Lexeme → Option Kind
  | .token k => some k
  | .opener k => some k
  | .closer k => some k
  | .string _ => some .string
  | .longString _ _ => some .string
  | _ => none

theorem kind?_isLayout {l : Lexeme} (h : l.Proper) {k : Kind} (hk : l.kind? = some k) :
    k.isLayout = false := by
  cases l with
  | token j =>
    obtain rfl := Option.some.inj hk
    revert h
    cases j <;> simp [Proper, Kind.isPlain, Kind.isLayout]
  | opener j =>
    obtain rfl := Option.some.inj hk
    exact h.1
  | closer j =>
    obtain rfl := Option.some.inj hk
    exact h.1
  | string => obtain rfl := Option.some.inj hk; rfl
  | longString => obtain rfl := Option.some.inj hk; rfl
  | _ => exact absurd hk (Option.some_ne_none k).symm

/-- Every operator but one goes on from an operator of one character. -/
theorem operator_initial : ∀ k ∈ Kind.operators, k ≠ .notEquals →
    ∃ j ∈ Kind.operators, j.spelling.toList = k.spelling.toList.take 1 := by decide

theorem spelling_ne_nil : ∀ k ∈ Kind.operators, k.spelling.toList ≠ [] := by decide

theorem symbol_kind?_isSome {c : Char} {cs cs' : List Char} {k : Kind}
    (h : (symbol c cs).1.kind? = some k) (hk : k ≠ .notEquals) :
    ∃ k', (symbol c cs').1.kind? = some k' := by
  unfold symbol at h
  cases hop : operator? (c :: cs) with
  | none => simp [hop, kind?] at h
  | some k₀ =>
    simp only [hop, kind?, Option.some.injEq] at h
    subst h
    have hmem : k₀ ∈ Kind.operators := List.mem_of_find?_eq_some hop
    have hstarts : k₀.spelling.toList.isPrefixOf (c :: cs) = true :=
      List.find?_some (p := fun k : Kind => k.spelling.toList.isPrefixOf (c :: cs)) hop
    obtain ⟨j, hj, hspelling⟩ := operator_initial k₀ hmem hk
    have hone : j.spelling.toList = [c] := by
      cases hs : k₀.spelling.toList with
      | nil => exact absurd hs (spelling_ne_nil k₀ hmem)
      | cons d ds =>
        rw [hs, List.isPrefixOf_cons_cons, Bool.and_eq_true, beq_iff_eq] at hstarts
        rw [hspelling, hs, hstarts.1]
        rfl
    have hfound : (operator? (c :: cs')).isSome = true :=
      List.find?_isSome.mpr ⟨j, hj, by simp [hone]⟩
    obtain ⟨k', hk'⟩ := Option.isSome_iff_exists.mp hfound
    exact ⟨k', by rw [symbol, hk']; rfl⟩

/-- What starts a token starts one whatever comes behind it, unless it takes two characters. -/
theorem recognise_kind?_isSome {c : Char} {cs cs' : List Char} {k : Kind}
    (h : (recognise c cs).1.kind? = some k) (hk : k ≠ .notEquals) :
    ∃ k', (recognise c cs').1.kind? = some k' := by
  have hquotation (q : Layout.LongQuote) (cs : List Char) :
      ∃ k', (quotation c q cs).1.kind? = some k' := by
    unfold quotation
    split <;> exact ⟨_, rfl⟩
  unfold recognise at h ⊢
  split
  · exact ⟨_, rfl⟩
  next hword =>
  rw [if_neg hword] at h
  split
  · unfold number
    split <;> exact ⟨_, rfl⟩
  next hdigit =>
  rw [if_neg hdigit] at h
  split
  · next hspace =>
    rw [if_pos hspace] at h
    exact absurd h (Option.some_ne_none k).symm
  next hspace =>
  rw [if_neg hspace] at h
  split
  · next hslash =>
    rw [if_pos hslash] at h
    split at h <;> exact absurd h (Option.some_ne_none k).symm
  next hslash =>
  rw [if_neg hslash] at h
  split
  · next hmark =>
    rw [if_pos hmark] at h
    exact absurd h (Option.some_ne_none k).symm
  next hmark =>
  rw [if_neg hmark] at h
  split
  · exact hquotation _ _
  next hdouble =>
  rw [if_neg hdouble] at h
  split
  · exact hquotation _ _
  next hsingle =>
  rw [if_neg hsingle] at h
  cases hbracket : bracket? c with
  | some l =>
    rw [hbracket] at h
    exact ⟨k, h⟩
  | none =>
    rw [hbracket] at h
    exact symbol_kind?_isSome h hk

end Lexeme

namespace Scan

open Layout (LineState)

variable {cfg : Config} {stops : List Offset} {s t u y : State} {e e' : Emission}

theorem accept_tokens (l : Lexeme) (n : Nat) (s : State) : (accept l n s).1.tokens =
    (l.kind?.map fun k =>
      ⟨k, String.ofList (s.rest.take n), Span.ofNat s.pos (s.skip n).pos⟩).toList := by
  cases l <;> rfl

structure State.ReadsToken (s : State) (k : Kind) : Prop where
  inside : s.atLineStart = false
  lexeme : ∃ c cs, s.rest = c :: cs ∧ c ≠ '\n' ∧ (Lexeme.recognise c cs).1.kind? = some k

theorem State.ReadsToken.isLayout {k : Kind} (h : s.ReadsToken k) : k.isLayout = false := by
  obtain ⟨c, cs, -, -, hk⟩ := h.lexeme
  exact Lexeme.kind?_isLayout (Lexeme.recognise_proper c cs) hk

/-- A state that is about to read a token reads it. -/
theorem State.ReadsToken.step {k : Kind} (h : s.ReadsToken k) (cfg : Config) (stops : List Offset) :
    ∃ e t text, Scan.step cfg stops s = .next e t ∧ e.tokens = [⟨k, text, Span.ofNat s.pos t.pos⟩] := by
  obtain ⟨c, cs, hrest, hc, hk⟩ := h.lexeme
  refine ⟨_, _, String.ofList (s.rest.take ((Lexeme.recognise c cs).2 + 1)),
    step_lexeme hrest h.inside hc, ?_⟩
  have hpos : (accept (Lexeme.recognise c cs).1 ((Lexeme.recognise c cs).2 + 1) s).2.pos =
      (s.skip ((Lexeme.recognise c cs).2 + 1)).pos := by
    cases (Lexeme.recognise c cs).1 <;> rfl
  rw [accept_tokens, hk, hpos]
  rfl

/-- Whether the line of a token had content before it does not matter behind it. -/
theorem State.ReadsToken.run_content {k : Kind} (h : s.ReadsToken k) (b : Bool) :
    run cfg stops { s with hasContent := b } = run cfg stops s := by
  obtain ⟨c, cs, hrest, hc, hk⟩ := h.lexeme
  have hlayout := h.isLayout
  have hsame : accept (Lexeme.recognise c cs).1 ((Lexeme.recognise c cs).2 + 1)
      { s with hasContent := b } =
        accept (Lexeme.recognise c cs).1 ((Lexeme.recognise c cs).2 + 1) s := by
    generalize (Lexeme.recognise c cs).1 = l at hk
    cases l with
    | token j =>
      obtain rfl := Option.some.inj hk
      simp [accept, State.noting, State.skip, hlayout]
    | opener j =>
      obtain rfl := Option.some.inj hk
      simp [accept, State.noting, State.skip, hlayout]
    | closer j =>
      obtain rfl := Option.some.inj hk
      simp [accept, State.noting, State.skip, hlayout]
    | string => simp [accept, State.noting, State.skip, Kind.isLayout]
    | longString => simp [accept, State.noting, State.skip, State.lineState, State.snapshot, Kind.isLayout]
    | _ => exact absurd hk (Option.some_ne_none k).symm
  have hstep : Scan.step cfg stops s = .next _ _ := step_lexeme hrest h.inside hc
  have hstep' : Scan.step cfg stops { s with hasContent := b } = .next _ _ :=
    step_lexeme (s := { s with hasContent := b }) hrest h.inside hc
  rw [hsame] at hstep'
  rw [run_of_next hstep, run_of_next hstep']

/-- A step that puts out a token with text reads it. -/
theorem step_token {x : Token} (h : step cfg stops s = .next e t) (hx : x ∈ e.tokens)
    (hk : x.kind.isLayout = false) :
    s.ReadsToken x.kind ∧ e.tokens = [x] ∧ x.span = Span.ofNat s.pos t.pos := by
  have hblocks : ¬∀ x ∈ e.tokens, x.kind = .indent ∨ x.kind = .dedent := by
    intro hall
    rcases hall x hx with h | h <;> rw [h] at hk <;> contradiction
  rcases step_cases h with ⟨-, -, hstart⟩ | ⟨cs, -, -, rfl, -⟩ | ⟨c, cs, hrest, hl, hc, rfl, rfl⟩
  · exfalso
    rcases lineStart_cases hstart with ⟨-, rfl, -⟩ | ⟨-, -, rfl, -⟩ | ⟨-, -, -, rfl, -⟩
    · exact absurd hx List.not_mem_nil
    · exact absurd hx List.not_mem_nil
    · rw [entering_tokens] at hblocks
      exact hblocks (indentTo_hasContent _ _ _ _).2
  · exfalso
    by_cases ho : s.openers = []
    · rw [lineFeed_outer ho] at hx
      dsimp only at hx
      split at hx
      · obtain rfl := List.mem_singleton.mp hx
        contradiction
      · exact absurd hx List.not_mem_nil
    · rw [lineFeed_inner ho] at hx
      exact absurd hx List.not_mem_nil
  · have hpos : (accept (Lexeme.recognise c cs).1 ((Lexeme.recognise c cs).2 + 1) s).2.pos =
        (s.skip ((Lexeme.recognise c cs).2 + 1)).pos := by
      cases (Lexeme.recognise c cs).1 <;> rfl
    rw [accept_tokens] at hx ⊢
    cases hkind : (Lexeme.recognise c cs).1.kind? with
    | none => simp [hkind] at hx
    | some k =>
      rw [hkind] at hx
      obtain rfl := List.mem_singleton.mp hx
      exact ⟨⟨hl, c, cs, hrest, hc, hkind⟩, rfl, by rw [hpos]⟩

/-- Where a token with text is read in a stretch. -/
theorem Reaches.split_token {ts us : List Token} {x : Token} (h : Reaches cfg stops s e u)
    (he : e.tokens = ts ++ x :: us) (hx : x.kind.isLayout = false) :
    ∃ e₁ y e₂, Reaches cfg stops s e₁ y ∧ Reaches cfg stops y e₂ u ∧ e = e₁ ++ e₂ ∧
      e₁.tokens = ts ∧ e₂.tokens = x :: us ∧ y.ReadsToken x.kind ∧
      ∃ z, y.pos < z ∧ z ≤ u.pos ∧ x.span = Span.ofNat y.pos z := by
  induction h generalizing us with
  | refl => exact absurd he.symm (List.append_ne_nil_of_right_ne_nil _ (List.cons_ne_nil _ _))
  | @tail e e' t u h hstep ih =>
    have hle := (step_covers hstep).pos_le
    have hlast {vs : List Token} (hts : ts = e.tokens ++ vs) (hvs : e'.tokens = vs ++ x :: us) :
        e.tokens = ts ∧ e'.tokens = x :: us ∧ t.ReadsToken x.kind ∧
          ∃ z, t.pos < z ∧ z ≤ u.pos ∧ x.span = Span.ofNat t.pos z := by
      obtain ⟨hread, hone, hspan⟩ := step_token hstep (x := x) (hvs ▸ by simp) hx
      have hlen := congrArg List.length (hone.symm.trans hvs)
      rw [List.length_append, List.length_singleton, List.length_cons] at hlen
      obtain rfl : vs = [] := List.eq_nil_of_length_eq_zero (by omega)
      exact ⟨by rw [hts, List.append_nil], hvs, hread, u.pos, step_pos_lt hstep hread.inside,
        Nat.le_refl _, hspan⟩
    rcases List.append_eq_append_iff.mp he with ⟨vs, hts, hvs⟩ | ⟨vs, hvs, hrest⟩
    · obtain ⟨hts, hvs, hread, hspan⟩ := hlast hts hvs
      exact ⟨e, t, e', h, .single hstep, rfl, hts, hvs, hread, hspan⟩
    · cases vs with
      | nil =>
        have hall : ts = e.tokens ++ [] := by rw [hvs, List.append_nil, List.append_nil]
        obtain ⟨hts, hvs, hread, hspan⟩ := hlast hall hrest.symm
        exact ⟨e, t, e', h, .single hstep, rfl, hts, hvs, hread, hspan⟩
      | cons v vs =>
        obtain ⟨rfl, hrest⟩ := List.cons.inj hrest
        obtain ⟨e₁, y, e₂, h₁, h₂, rfl, hts, hvs', hread, z, hlt, hz, hspan⟩ := ih hvs
        refine ⟨e₁, y, e₂ ++ e', h₁, .tail h₂ hstep, Emission.append_assoc _ _ _, hts, ?_, hread, z,
          hlt, Nat.le_trans hz hle, hspan⟩
        rw [Emission.append_tokens, hvs', hrest]

/-- What a stretch reads. -/
theorem Reaches.exists_prefix (h : Reaches cfg stops s e t) :
    ∃ p, s.rest = p ++ t.rest ∧ t.pos = s.pos + Text.byteSize p := by
  have hread : ∃ p, s.rest = p ++ t.rest := by
    induction h with
    | refl => exact ⟨[], rfl⟩
    | tail _ hstep ih =>
      obtain ⟨p, hp⟩ := ih
      obtain ⟨g, hg⟩ := rest_step hstep
      exact ⟨p ++ g, by rw [hp, hg, List.append_assoc]⟩
  obtain ⟨p, hp⟩ := hread
  refine ⟨p, hp, ?_⟩
  have hlimit := h.covers.limit_eq
  rw [State.limit, State.limit, hp, Text.byteSize_append] at hlimit
  omega

/-- A scan resynchronises only behind a dedent that matched no level. -/
theorem Reaches.resyncing (h : Reaches cfg stops s e t) (hs : s.resyncing = false)
    (hclean : ∀ d ∈ e.diagnostics, ∀ w, d.cause ≠ .inconsistentDedent w) : t.resyncing = false := by
  have haccept (l : Lexeme) (n : Nat) (s : State) : (accept l n s).2.resyncing = s.resyncing := by
    cases l <;> rfl
  have hfeed (s : State) : (lineFeed s).2.resyncing = s.resyncing := by
    unfold lineFeed
    split <;> rfl
  have hindent (width a b : Nat) (s : State) (hs : s.resyncing = false)
      (hclean : ∀ d ∈ (indentTo width a b s).1.diagnostics, ∀ w, d.cause ≠ .inconsistentDedent w) :
      (indentTo width a b s).2.resyncing = false := by
    unfold indentTo at hclean ⊢
    simp only [hs, Bool.false_and, Bool.false_eq_true, if_false] at hclean ⊢
    generalize Layout.enter width s.levels = r at hclean
    obtain ⟨change, levels⟩ := r
    cases change with
    | indent => rfl
    | same => rfl
    | dedent count matched =>
      cases matched with
      | true => rfl
      | false => exact absurd rfl (hclean _ List.mem_cons_self width)
  induction h with
  | refl => exact hs
  | @tail e e' t u h hstep ih =>
    obtain ⟨hclean, hclean'⟩ := List.forall_mem_append.mp hclean
    have ht := ih hclean
    rcases step_cases hstep with ⟨-, -, hstart⟩ | ⟨cs, -, -, -, rfl⟩ | ⟨c, cs, -, -, -, -, rfl⟩
    · rcases lineStart_cases hstart with ⟨-, -, rfl⟩ | ⟨-, -, -, rfl⟩ | ⟨-, -, -, rfl, rfl⟩
      · rfl
      · exact ht
      · refine hindent _ _ _ { t with atLineStart := false } ht fun d hd => hclean' d ?_
        exact List.mem_append_right _ hd
    · rw [hfeed, ht]
    · rw [haccept, ht]

section LineStart

variable {p v v' : List Char} {c : Char} {k : Kind}

/-- The last step before a token that is the first on its line without indentation: it looked at the
line start, or it read the line feed before. -/
theorem Reaches.line_cases (h : Reaches cfg [] s e y) (hs : s.Sound) (hl : s.atLineStart = true)
    (hread : y.ReadsToken k) (hrest : s.rest = p ++ y.rest) (hp : p.getLast?.getD '\n' = '\n')
    (hflush : StartsFlush y.rest) : ∃ e₀ y₀, Reaches cfg [] s e₀ y₀ ∧
      ((y₀.atLineStart = true ∧ y₀.rest = y.rest ∧ e = e₀ ++ flush y₀ ∧ y = y₀.flushed) ∨
        ∃ e' g, step cfg [] y₀ = .next e' y ∧ e = e₀ ++ e' ∧ y₀.atLineStart = false ∧
          y₀.rest = g ++ '\n' :: y.rest) := by
  cases h with
  | refl =>
    rw [hread.inside] at hl
    contradiction
  | @tail e₀ e' y₀ _ h hstep =>
    refine ⟨e₀, y₀, h, ?_⟩
    -- what the last step read ends what stands before the token
    have hlast {g : List Char} (hg : y₀.rest = g ++ y.rest) (hne : g ≠ []) : g.getLast? = some '\n' := by
      obtain ⟨q, hq, -⟩ := h.exists_prefix
      rw [hrest, hg, ← List.append_assoc] at hq
      obtain rfl := List.append_cancel_right hq
      obtain ⟨d, hd⟩ := Option.ne_none_iff_exists'.mp (mt List.getLast?_eq_none_iff.mp hne)
      rw [List.getLast?_append, hd, Option.some_or, Option.getD_some] at hp
      rw [hd, hp]
    cases hl₀ : y₀.atLineStart with
    | true =>
      left
      have hsound := (h.leads hs).sound
      have hflushed (heq : y₀.rest = y.rest) : e' = flush y₀ ∧ y = y₀.flushed := by
        have hstep' : step cfg [] y₀ = .next _ _ :=
          step_flush hsound hl₀ (heq ▸ hflush) List.not_mem_nil
        exact Step.next.inj (hstep.symm.trans hstep')
      have hsame : y₀.rest = y.rest := by
        rw [step_lineStart (fun hnil => ?_) hl₀] at hstep
        · rcases lineStart_cases hstep with ⟨-, -, rfl⟩ | ⟨-, -, -, rfl⟩ | ⟨-, -, -, -, rfl⟩
          · rfl
          · rfl
          · have hg : y₀.rest = y₀.rest.takeWhile Layout.isIndent ++ (entering cfg y₀).2.rest :=
              (List.take_append_drop (y₀.rest.takeWhile Layout.isIndent).length y₀.rest).symm.trans
                (by rw [← List.prefix_iff_eq_take.mp (List.takeWhile_prefix _)]; rfl)
            by_cases hne : y₀.rest.takeWhile Layout.isIndent = []
            · rw [hne, List.nil_append] at hg
              exact hg
            · have hmem := List.mem_of_getLast? (hlast hg hne)
              have hblank := List.all_eq_true.mp List.all_takeWhile _ hmem
              contradiction
        · rw [step_end hnil] at hstep
          contradiction
      obtain ⟨rfl, hy⟩ := hflushed hsame
      exact ⟨rfl, hsame, rfl, hy⟩
    | false =>
      right
      have hdrop : ∃ g, y₀.rest = g ++ y.rest ∧ g ≠ [] := by
        rcases step_cases hstep with ⟨-, ht, -⟩ | ⟨cs, hr, -, -, rfl⟩ | ⟨d, cs, hr, -, -, -, rfl⟩
        · rw [hl₀] at ht
          contradiction
        · exact ⟨['\n'], by rw [rest_lineFeed, hr]; rfl, List.cons_ne_nil _ _⟩
        · refine ⟨(d :: cs).take ((Lexeme.recognise d cs).2 + 1), ?_, by simp⟩
          rw [rest_accept, hr]
          exact (List.take_append_drop _ _).symm
      obtain ⟨g, hg, hne⟩ := hdrop
      obtain ⟨g', rfl⟩ := List.getLast?_eq_some_iff.mp (hlast hg hne)
      exact ⟨e', g', hstep, rfl, rfl, by rw [hg, List.append_assoc]; rfl⟩

/-- A token at the start of a line is about to be read whatever comes behind its first character. -/
theorem Reaches.before_token (h : Reaches cfg [] s e y) (hs : s.Sound) (hl : s.atLineStart = true)
    (hread : y.ReadsToken k) (hrest : s.rest = p ++ c :: v) (hy : y.rest = c :: v)
    (hp : p.getLast?.getD '\n' = '\n') (hflush : StartsFlush y.rest) :
    Reaches cfg [] (s.before (p ++ c :: v')) e (y.before (c :: v')) := by
  obtain ⟨e₀, y₀, h₀, hcase⟩ := h.line_cases hs hl hread (hy ▸ hrest) hp hflush
  rcases hcase with ⟨hl₀, hrest₀, rfl, rfl⟩ | ⟨e', g, hstep, rfl, hl₀, hrest₀⟩
  · refine .tail (h₀.lineStart_append hl₀ hrest (hrest₀.trans hy)) ?_
    have hsound := (h₀.leads hs).sound
    have hflush' : StartsFlush (c :: v') := by
      obtain ⟨d, cs, heq, hd⟩ := hflush
      rw [hy] at heq
      obtain ⟨rfl, -⟩ := List.cons.inj heq
      exact ⟨_, _, rfl, hd⟩
    exact step_flush (s := y₀.before (c :: v')) ⟨hsound.levels, hsound.lineStart, hsound.openers⟩
      hl₀ hflush' List.not_mem_nil
  · have hsplit : y₀.rest = (g ++ ['\n', c]) ++ v := by rw [hrest₀, hy]; simp
    have hmem : '\n' ∈ g ++ ['\n', c] := by simp
    have hbefore : Reaches cfg [] (s.before ((p ++ [c]) ++ v')) e₀
        (y₀.before ((g ++ ['\n', c]) ++ v')) := h₀.append (by rw [hrest]; simp) hsplit hmem
    rw [List.append_assoc] at hbefore
    exact .tail hbefore (step_append hsplit hmem hstep (w := [c]) hy (List.cons_ne_nil _ _))

end LineStart

end Scan

end Offside
