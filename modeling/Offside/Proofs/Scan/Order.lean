import Offside.Proofs.Scan.Extent
import Offside.Proofs.Scan.Flush

namespace Offside.Scan

open Layout (LineState)

variable {cfg : Config} {stops : List Offset} {s t u : State} {e e' : Emission}

structure Emission.Arranged (e : Emission) : Prop where
  tokens : InOrder e.tokens
  comments : InOrder e.comments
  nonempty : ∀ t ∈ e.comments, t.span.start < t.span.stop

namespace Emission.Arranged

theorem empty : ({} : Emission).Arranged := ⟨.nil, .nil, List.forall_mem_nil _⟩

theorem ofTokens {ts : List Token} {ds : List Diagnostic} {ls : List LineState} (h : InOrder ts) :
    ({ tokens := ts, diagnostics := ds, lineStates := ls } : Emission).Arranged :=
  ⟨h, .nil, List.forall_mem_nil _⟩

theorem append {a m b : Nat} (h : e.Arranged) (h' : e'.Arranged) (hbetween : e.Between a m)
    (hbetween' : e'.Between m b) (hm : m < UInt32.size) (hb : b < UInt32.size) :
    (e ++ e').Arranged where
  tokens := h.tokens.append h'.tokens fun t ht u hu =>
    (hbetween.tokens t ht).stop_le_start (hbetween'.tokens u hu) hm hb
  comments := h.comments.append h'.comments fun t ht u hu =>
    (hbetween.comments t ht).stop_le_start (hbetween'.comments u hu) hm hb
  nonempty := List.forall_mem_append.mpr ⟨h.nonempty, h'.nonempty⟩

end Emission.Arranged

theorem Covers.pos_le_limit (h : Covers s e t) : t.pos ≤ s.limit := by
  rw [← h.limit_eq]
  exact Nat.le_add_right _ _

theorem ofNat_lt {i j : Nat} (h : i < j) (hj : j < UInt32.size) : UInt32.ofNat i < UInt32.ofNat j := by
  rw [UInt32.lt_iff_toNat_lt, Offset.toNat_ofNat (by omega), Offset.toNat_ofNat hj]
  exact h

theorem accept_arranged (lexeme : Lexeme) {n : Nat} (hlt : s.pos < (s.skip n).pos)
    (hlimit : (s.skip n).pos < UInt32.size) : (accept lexeme n s).1.Arranged := by
  have hspan : (Span.ofNat s.pos (s.skip n).pos).start < (Span.ofNat s.pos (s.skip n).pos).stop :=
    ofNat_lt hlt hlimit
  have hone {k : Kind} {text : String} : InOrder [⟨k, text, Span.ofNat s.pos (s.skip n).pos⟩] :=
    .singleton (UInt32.le_of_lt hspan)
  cases lexeme with
  | token => exact .ofTokens hone
  | opener => exact .ofTokens hone
  | closer => exact .ofTokens hone
  | string => exact .ofTokens hone
  | longString => exact .ofTokens hone
  | comment => exact ⟨.nil, hone, List.forall_mem_singleton.mpr hspan⟩
  | space => exact .empty
  | continuation => exact .ofTokens .nil
  | unknown => exact .ofTokens .nil

theorem indentTo_arranged {width a b : Nat} (h : a ≤ b) (hb : b < UInt32.size) (s : State) :
    (indentTo width a b s).1.Arranged := by
  have hlead : (Span.ofNat a b).start ≤ (Span.ofNat a b).stop :=
    Span.Between.start_le ⟨a, b, Nat.le_refl a, h, Nat.le_refl b, rfl⟩ hb
  unfold indentTo
  split
  · exact .empty
  · dsimp only
    split
    · exact .ofTokens (.singleton hlead)
    · exact .empty
    · exact .ofTokens (.replicate _ rfl)

theorem lineStart_arranged (h : lineStart cfg stops s = .next e t) (hlimit : t.pos < UInt32.size) :
    e.Arranged := by
  rcases lineStart_cases h with ⟨-, rfl, -⟩ | ⟨-, -, rfl, -⟩ | ⟨-, -, -, rfl, rfl⟩
  · exact .ofTokens .nil
  · exact .ofTokens .nil
  · have henter : (indentTo (Layout.indentation cfg.tabWidth s.rest).width s.pos
        (s.pos + (Layout.indentation cfg.tabWidth s.rest).length)
        { s with atLineStart := false }).1.Arranged :=
      indentTo_arranged (Nat.le_add_right s.pos _) hlimit { s with atLineStart := false }
    have hcomments : (indentTo (Layout.indentation cfg.tabWidth s.rest).width s.pos
        (s.pos + (Layout.indentation cfg.tabWidth s.rest).length)
        { s with atLineStart := false }).1.comments = (entering cfg s).1.comments := by
      unfold entering
      dsimp only
      split <;> rfl
    exact ⟨entering_tokens cfg s ▸ henter.tokens, hcomments ▸ henter.comments,
      hcomments ▸ henter.nonempty⟩

theorem step_arranged (h : step cfg stops s = .next e t) (hlimit : s.limit < UInt32.size) :
    e.Arranged := by
  have hcovers := step_covers h
  have hpos : t.pos < UInt32.size := Nat.lt_of_le_of_lt hcovers.pos_le_limit hlimit
  rcases step_cases h with ⟨-, -, h⟩ | ⟨cs, hrest, -, rfl, rfl⟩ | ⟨c, cs, -, hl, -, rfl, rfl⟩
  · exact lineStart_arranged h hpos
  · by_cases ho : s.openers = []
    · have hnext := hcovers.pos_le
      rw [lineFeed_outer ho] at hpos hnext ⊢
      refine .ofTokens ?_
      split
      · refine .singleton ?_
        have hskip : (s.skip 1).pos = s.pos + 1 := by
          rw [State.skip, hrest]
          rfl
        exact Span.Between.start_le ⟨s.pos, s.pos + 1, Nat.le_refl _, Nat.le_succ _, Nat.le_refl _, rfl⟩
          (hskip ▸ hpos)
      · exact .nil
    · rw [lineFeed_inner ho]
      exact .ofTokens .nil
  · have hlt := step_pos_lt h hl
    have hskip : (accept (Lexeme.recognise c cs).1 ((Lexeme.recognise c cs).2 + 1) s).2.pos =
        (s.skip ((Lexeme.recognise c cs).2 + 1)).pos := by
      cases (Lexeme.recognise c cs).1 <;> rfl
    rw [hskip] at hlt hpos
    exact accept_arranged _ hlt hpos

theorem Reaches.arranged (h : Reaches cfg stops s e t) (hlimit : s.limit < UInt32.size) :
    e.Arranged := by
  induction h with
  | refl => exact .empty
  | @tail e e' t u h hstep ih =>
    have hcovers := h.covers
    have hcovers' := step_covers hstep
    have ht : t.limit < UInt32.size := hcovers.limit_eq ▸ hlimit
    exact ih.append (step_arranged hstep ht) hcovers.between hcovers'.between
      (Nat.lt_of_le_of_lt hcovers.pos_le_limit hlimit)
      (Nat.lt_of_le_of_lt hcovers'.pos_le_limit ht)

/-- Tokens that end a scan stand where it ends. -/
theorem Reaches.inOrder (h : Reaches cfg stops s e t) (hlimit : s.limit < UInt32.size)
    {ts : List Token} (hts : ∀ x ∈ ts, x.span = Span.ofNat t.pos t.pos) :
    InOrder (e.tokens ++ ts) := by
  have hcovers := h.covers
  have hpos : t.pos < UInt32.size := Nat.lt_of_le_of_lt hcovers.pos_le_limit hlimit
  refine (h.arranged hlimit).tokens.append ⟨fun x hx => ?_, ?_⟩ fun x hx y hy => ?_
  · rw [hts x hx]
    exact UInt32.le_refl _
  · refine List.pairwise_of_forall_mem_list fun x hx y hy => ?_
    rw [hts x hx, hts y hy]
    exact UInt32.le_refl _
  · rw [hts y hy]
    exact ((hcovers.between.tokens x hx).inside hpos).2.2

theorem finish_span (t : State) : ∀ x ∈ (finish t).tokens, x.span = Span.ofNat t.pos t.pos := by
  refine List.forall_mem_append.mpr ⟨?_, fun x hx => ?_⟩
  · split
    · exact List.forall_mem_singleton.mpr rfl
    · exact List.forall_mem_nil _
  · rw [List.eq_of_mem_replicate hx]
    rfl

/-- The line starts recorded between two states: each is recorded once, and where a state looks at
a line start itself, none before it is recorded there. -/
structure Records (s : State) (ls : List LineState) (t : State) : Prop where
  increasing : ls.Pairwise fun l m => l.offset < m.offset
  behind : ∀ l ∈ ls, s.pos ≤ l.offset.toNat ∧ (s.atLineStart = false → s.pos < l.offset.toNat)
  ahead : ∀ l ∈ ls, l.offset.toNat ≤ t.pos ∧ (t.atLineStart = true → l.offset.toNat < t.pos)

theorem Records.silent (s t : State) : Records s [] t :=
  ⟨.nil, List.forall_mem_nil _, List.forall_mem_nil _⟩

theorem Records.single {l : LineState} {i : Nat} (hl : l.offset = UInt32.ofNat i)
    (hi : i < UInt32.size) (hs : s.pos ≤ i ∧ (s.atLineStart = false → s.pos < i))
    (ht : i ≤ t.pos ∧ (t.atLineStart = true → i < t.pos)) : Records s [l] t := by
  have hnat : l.offset.toNat = i := by rw [hl, Offset.toNat_ofNat hi]
  exact ⟨List.pairwise_singleton _ l, List.forall_mem_singleton.mpr (hnat ▸ hs),
    List.forall_mem_singleton.mpr (hnat ▸ ht)⟩

theorem lineStartsIn_pairwise (pos : Nat) (cs : List Char) :
    (lineStartsIn pos cs).Pairwise (· < ·) := by
  induction cs generalizing pos with
  | nil => exact .nil
  | cons c cs ih =>
    unfold lineStartsIn
    dsimp only
    split
    · exact .cons (fun i hi => (lineStartsIn_between _ cs i hi).1) (ih _)
    · exact ih _

theorem accept_records (lexeme : Lexeme) {n : Nat} (hl : s.atLineStart = false)
    (hlt : s.pos < (s.skip n).pos) (hlimit : (s.skip n).pos < UInt32.size) :
    Records s (accept lexeme n s).1.lineStates (accept lexeme n s).2 := by
  have hflag := accept_atLineStart lexeme n s
  have hoff : (accept lexeme n s).2.atLineStart ≠ true := by
    rw [hflag, hl]
    exact Bool.false_ne_true
  have hpos : (accept lexeme n s).2.pos = (s.skip n).pos := by cases lexeme <;> rfl
  cases lexeme with
  | longString quote terminated =>
    have hnat : ∀ i ∈ lineStartsIn s.pos (s.rest.take n), s.pos < i ∧ i ≤ (s.skip n).pos ∧
        (UInt32.ofNat i).toNat = i := by
      intro i hi
      obtain ⟨hlt, hle⟩ := lineStartsIn_between _ _ i hi
      exact ⟨hlt, hle, Offset.toNat_ofNat (Nat.lt_of_le_of_lt hle hlimit)⟩
    refine ⟨List.pairwise_map.mpr ?_, List.forall_mem_map.mpr fun i hi => ?_,
      List.forall_mem_map.mpr fun i hi => ?_⟩
    · refine (lineStartsIn_pairwise _ _).imp_of_mem fun {i j} hi hj hij => ?_
      exact ofNat_lt hij (Nat.lt_of_le_of_lt (hnat j hj).2.1 hlimit)
    · obtain ⟨hlow, -, heq⟩ := hnat i hi
      exact ⟨Nat.le_of_lt (heq.symm ▸ hlow), fun _ => heq.symm ▸ hlow⟩
    · obtain ⟨-, hhigh, heq⟩ := hnat i hi
      exact ⟨heq.symm ▸ hhigh, fun h => absurd h hoff⟩
  | continuation =>
    exact .single rfl hlimit ⟨Nat.le_of_lt hlt, fun _ => hlt⟩
      ⟨Nat.le_refl _, fun h => absurd h hoff⟩
  | _ => exact .silent _ _

theorem entering_lineStates (cfg : Config) (s : State) :
    (entering cfg s).1.lineStates = [s.lineState s.pos none] := by
  have hindent (width a b : Nat) (s : State) : (indentTo width a b s).1.lineStates = [] := by
    unfold indentTo
    split
    · rfl
    · dsimp only
      split <;> rfl
  unfold entering
  dsimp only
  rw [Emission.append_lineStates, Emission.append_lineStates, hindent]
  split <;> rfl

theorem step_records (h : step cfg stops s = .next e t) (hlimit : s.limit < UInt32.size) :
    Records s e.lineStates t := by
  have hcovers := step_covers h
  have hpos : t.pos < UInt32.size := Nat.lt_of_le_of_lt hcovers.pos_le_limit hlimit
  have hle := hcovers.pos_le
  rcases step_cases h with ⟨-, hl, h⟩ | ⟨cs, -, hl, rfl, rfl⟩ | ⟨c, cs, -, hl, -, rfl, rfl⟩
  · -- a line start is recorded where it is, and the state behind it is inside the line
    have hoff := lineStart_atLineStart h
    have hhere : Records s [s.lineState s.pos none] t :=
      .single rfl (Nat.lt_of_le_of_lt hle hpos)
        ⟨Nat.le_refl _, fun h => absurd (hl.symm.trans h) (by simp)⟩
        ⟨hle, fun h => absurd (hoff.symm.trans h) (by simp)⟩
    rcases lineStart_cases h with ⟨-, rfl, -⟩ | ⟨-, -, rfl, -⟩ | ⟨-, -, -, rfl, -⟩
    · exact hhere
    · exact hhere
    · rwa [entering_lineStates]
  · by_cases ho : s.openers = []
    · rw [lineFeed_outer ho]
      exact .silent _ _
    · have hlt := step_pos_lt h hl
      rw [lineFeed_inner ho] at hlt hpos ⊢
      exact .single rfl hpos ⟨Nat.le_of_lt hlt, fun _ => hlt⟩
        ⟨Nat.le_refl _, fun h => absurd (hl.symm.trans h) (by simp)⟩
  · have hlt := step_pos_lt h hl
    have hskip : (accept (Lexeme.recognise c cs).1 ((Lexeme.recognise c cs).2 + 1) s).2.pos =
        (s.skip ((Lexeme.recognise c cs).2 + 1)).pos := by
      cases (Lexeme.recognise c cs).1 <;> rfl
    rw [hskip] at hlt hpos
    exact accept_records _ hl hlt hpos

/-- A stretch that begins inside a line moves ahead, unless it is empty. -/
theorem Reaches.pos_lt (h : Reaches cfg stops s e t) (hl : s.atLineStart = false) :
    s = t ∧ e = {} ∨ s.pos < t.pos := by
  refine h.head.imp_right ?_
  rintro ⟨e₁, u, e₂, hstep, h, -⟩
  exact Nat.lt_of_lt_of_le (step_pos_lt hstep hl) h.covers.pos_le

theorem Reaches.records (h : Reaches cfg stops s e t) (hlimit : s.limit < UInt32.size) :
    Records s e.lineStates t := by
  induction h with
  | refl => exact .silent _ _
  | @tail e e' t u h hstep ih =>
    have hnext := step_records hstep (h.covers.limit_eq ▸ hlimit)
    have hle := h.covers.pos_le
    have hle' := (step_covers hstep).pos_le
    refine ⟨List.pairwise_append.mpr ⟨ih.increasing, hnext.increasing, fun l hl m hm => ?_⟩,
      List.forall_mem_append.mpr ⟨ih.behind, fun m hm => ⟨?_, fun hs => ?_⟩⟩,
      List.forall_mem_append.mpr ⟨fun l hl => ⟨?_, fun hu => ?_⟩, hnext.ahead⟩⟩
    · rw [UInt32.lt_iff_toNat_lt]
      obtain ⟨hbefore, hstrict⟩ := ih.ahead l hl
      obtain ⟨hbehind, hstrict'⟩ := hnext.behind m hm
      cases ht : t.atLineStart with
      | true => exact Nat.lt_of_lt_of_le (hstrict ht) hbehind
      | false => exact Nat.lt_of_le_of_lt hbefore (hstrict' ht)
    · exact Nat.le_trans hle (hnext.behind m hm).1
    · rcases h.pos_lt hs with ⟨rfl, -⟩ | hlt
      · exact (hnext.behind m hm).2 hs
      · exact Nat.lt_of_lt_of_le hlt (hnext.behind m hm).1
    · exact Nat.le_trans (ih.ahead l hl).1 hle'
    · -- a line start is reached by a step that moves ahead
      have ht : t.atLineStart = false := by
        by_contra ht
        rw [Bool.not_eq_false] at ht
        rcases step_cases hstep with ⟨-, -, hstart⟩ | ⟨cs, -, hl, -, -⟩ | ⟨c, cs, -, hl, -, -, -⟩
        · rw [lineStart_atLineStart hstart] at hu
          contradiction
        · simp [ht] at hl
        · simp [ht] at hl
      exact Nat.lt_of_le_of_lt (ih.ahead l hl).1 (step_pos_lt hstep ht)

end Offside.Scan
