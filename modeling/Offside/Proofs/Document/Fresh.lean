import Offside.Proofs.Document.Nested
import Offside.Proofs.Document.Stretch
import Offside.Proofs.Rounds

namespace Offside

open Grammar Scan

/-- Fewer open blocks do no harm to lines. -/
theorem Orderly.lined_of_le {p p' : Depth} {ts : List Token} (h : Orderly p ts)
    (hbrackets : p'.brackets = p.brackets) (hle : p'.blocks ≤ p.blocks) : Lined p' ts := by
  induction ts generalizing p p' with
  | nil => exact Nat.le_zero.mp (Nat.le_trans hle (Nat.le_of_eq h))
  | cons t ts ih =>
    refine ⟨h.1, fun hk => hbrackets.trans (h.2.1 hk).1, ih h.2.2 ?_ ?_⟩
    · cases t.kind <;> first | rfl | exact hbrackets | simp only [Depth.after, hbrackets]
    · cases t.kind <;> simp only [Depth.after] <;> omega

/-- Dedents at the start close blocks that were open before. -/
theorem Orderly.lined_dropWhile {n : Nat} {ts : List Token} (h : Orderly ⟨0, n⟩ ts) :
    Lined {} (ts.dropWhile fun t => t.kind == .dedent) := by
  induction ts generalizing n with
  | nil => rfl
  | cons t ts ih =>
    rw [List.dropWhile_cons]
    split
    · next hk =>
      have hrest := h.2.2
      rw [beq_iff_eq.mp hk] at hrest
      exact ih hrest
    · exact h.lined_of_le rfl (Nat.zero_le n)

/-- Sorted diagnostics are in order. -/
theorem Diagnostic.sort_sorted (ds : List Diagnostic) :
    (Diagnostic.sort ds).Pairwise fun d e => d.span.start ≤ e.span.start := by
  refine (List.pairwise_mergeSort (fun a b c hab hbc => ?_) (fun a b => ?_) ds).imp of_decide_eq_true
  · exact decide_eq_true (UInt32.le_trans (of_decide_eq_true hab) (of_decide_eq_true hbc))
  · simpa using UInt32.le_total a.span.start b.span.start

section Streams

variable {cfg : Config} {ts : List Token} {last : Token} {a b : Offset} {s : Stmt}

/-- The statements of a stream in order lie one behind the other, with all that is in them. -/
theorem parseRest_nested (cfg : Config) (hl : last.kind = .eof) (h : InOrder (ts ++ [last])) :
    (∀ s ∈ (parseRest cfg ts last).1, s.region.Nested) ∧
      (parseRest cfg ts last).1.Pairwise fun s t => s.span.stop ≤ t.span.start := by
  have hlaid : (Region.mk ⟨0, last.span.stop⟩ ((parse cfg (ts ++ [last])).body.map Stmt.region)).Nested :=
    Grammar.parse_laid h hl
  rw [Offside.parse_run hl] at hlaid
  cases hlaid with
  | mk _ _ hapart hnested =>
    refine ⟨List.forall_mem_map.mp hnested, (List.pairwise_map.mp hapart).imp fun {s t} hst => ?_⟩
    rwa [Stmt.span_region, Stmt.span_region] at hst

section Joints

variable {ss : List Stmt} (j : Joint cfg last ss) (horder : InOrder (j.stream ++ [last]))
  (hin : ∀ t ∈ j.stream ++ [last], t.span.Inside a b)

include horder hin

theorem Joint.before_inside : ∀ t ∈ j.before, t.span.Inside a j.first.span.start := by
  rw [Joint.stream, List.append_assoc] at horder hin
  intro t ht
  have hlow := hin t (List.mem_append_left _ ht)
  have hspan := horder.start_le t (List.mem_append_left _ ht)
  have hstop := (List.pairwise_append.mp horder.disjoint).2.2 t ht j.first List.mem_cons_self
  exact ⟨⟨hlow.1.1, UInt32.le_trans hspan hstop⟩, hlow.2.1, hstop⟩

theorem Joint.behind_inside : ∀ t ∈ j.first :: j.behind ++ [last], t.span.Inside j.first.span.start b := by
  rw [Joint.stream, List.append_assoc] at horder hin
  intro t ht
  have hhigh := hin t (List.mem_append_right _ ht)
  have hspan := horder.start_le t (List.mem_append_right _ ht)
  have hstart : j.first.span.start ≤ t.span.start := by
    rcases List.mem_cons.mp ht with rfl | ht
    · exact UInt32.le_refl _
    · have hafter := (List.pairwise_append.mp horder.disjoint).2.1
      exact UInt32.le_trans (horder.start_le j.first (by simp)) ((List.pairwise_cons.mp hafter).1 t ht)
  exact ⟨⟨hstart, hhigh.1.2⟩, UInt32.le_trans hstart hspan, hhigh.2.2⟩

end Joints

/-- Faults keep to one side of where a statement without a fault starts. -/
theorem faults_beside (hl : last.kind = .eof) (hlined : Lined {} ts)
    (horder : InOrder (ts ++ [last])) (hin : ∀ t ∈ ts ++ [last], t.span.Inside a b)
    (hs : s ∈ (parseRest cfg ts last).1)
    (hclean : ∀ d ∈ (parseRest cfg ts last).2, d.span.start ≠ s.span.start) :
    ∀ d ∈ (parseRest cfg ts last).2, d.span.Beside s.span.start := by
  obtain ⟨ss, j, p, rfl, hjoint, hstart, hrest, hlast, hbefore, hfaults⟩ :=
    exists_joint_unflagged hl hlined hs hclean
  rw [hstart]
  have hfirst : j.first.span.Inside a b := hin j.first (by simp [Joint.stream])
  -- the faults before the joint are those of the tokens before it, with an end mark of their own
  have hleft : ∀ d ∈ j.state.diagnostics, d.span.Inside a j.first.span.start := by
    have hmark : (Token.layout .eof (.point j.first.span.start)).kind = .eof := rfl
    have hparse := hjoint.before_eq rfl hl hmark
    have hinside := parseRest_inside cfg.unflagged hmark hfirst.1.1
      ⟨⟨hfirst.1.1, UInt32.le_refl _⟩, hfirst.1.1, UInt32.le_refl _⟩ (j.before_inside horder hin)
    rw [hparse] at hinside
    exact hinside.2
  obtain ⟨hts, hmark⟩ := List.forall_mem_append.mp (j.behind_inside horder hin)
  obtain ⟨new, hnew, -, hright⟩ := streamLoop_inside cfg p (hlast.symm ▸ hl) hfirst.1.2
    (hlast.symm ▸ hmark last (List.mem_singleton_self _)) (hrest.symm ▸ hts)
  rw [hfaults, hnew, hbefore]
  exact List.forall_mem_append.mpr
    ⟨fun d hd => (hleft d hd).beside_of_ge (UInt32.le_refl _),
      fun d hd => (hright d hd).beside_of_le (UInt32.le_refl _)⟩

end Streams

namespace Scan.Ended

variable {cfg : Config} {a b c : Nat} {e : Emission} {closing : List Token} {r : Result}
  (h : Ended a b c e closing r)

def stream (e : Emission) (closing : List Token) : List Token :=
  (e.tokens ++ closing).dropWhile fun t => t.kind == .dedent

include h

theorem tokens_eq : Document.ownTokens r = stream e closing ++ [.layout .eof (Span.ofNat b b)] := by
  rw [Document.ownTokens, h.tokens, List.dropWhile_append, stream]
  split
  · next hnil =>
    rw [List.isEmpty_iff.mp hnil]
    rfl
  · rfl

theorem lined : Lined {} (stream e closing) := by
  obtain ⟨n, horderly⟩ := h.orderly
  exact horderly.lined_dropWhile

theorem stream_inOrder : InOrder (stream e closing) := h.inOrder.sublist (List.dropWhile_sublist _)

/-- The statements start where tokens of the run do: those that close its blocks are blanks. -/
theorem starts_sublist (cfg : Config) (last : Token) (hl : last.kind = .eof) :
    ((parseRest cfg (stream e closing) last).1.map fun s => s.span.start).Sublist
      (e.tokens.map fun t => t.span.start) := by
  have hclosing : startsOf closing = [] := by
    rw [startsOf, List.filter_eq_nil_iff.mpr fun t ht => by simp [(h.blank t ht).1]]
    rfl
  have hstream : (startsOf (stream e closing)).Sublist (startsOf (e.tokens ++ closing)) :=
    ((List.dropWhile_sublist _).filter _).map _
  rw [startsOf_append, hclosing, List.append_nil] at hstream
  have hloop := streamLoop_starts cfg { cursor := ⟨none, stream e closing, last⟩ } hl
  exact (hloop.trans hstream).trans (List.filter_sublist.map _)

variable (hc : c < UInt32.size)

include hc

theorem stream_inside {t : Token} (ht : t ∈ stream e closing ++ [.layout .eof (Span.ofNat c c)]) :
    t.span.Inside (UInt32.ofNat a) (UInt32.ofNat c) := by
  have hac : a ≤ c := Nat.le_trans h.pos_le h.le
  have hpoint : (Span.ofNat c c).Between a c := Span.between_point hac (Nat.le_refl c)
  refine Span.Between.inside ?_ hc
  rcases List.mem_append.mp ht with ht | ht
  · rcases List.mem_append.mp ((List.dropWhile_sublist _).subset ht) with ht | ht
    · exact (h.between.tokens t ht).mono (Nat.le_refl a) h.le
    · exact (h.blank t ht).2 ▸ hpoint
  · rw [List.mem_singleton.mp ht]
    exact hpoint

/-- The end mark, put behind the blocks, leaves the tokens in order. -/
theorem ended_inOrder : InOrder (stream e closing ++ [.layout .eof (Span.ofNat c c)]) :=
  h.stream_inOrder.append (.singleton (UInt32.le_refl _)) fun _ ht u hu => by
    rw [List.mem_singleton.mp hu]
    exact (h.stream_inside hc (List.mem_append_left _ ht)).2.2

end Scan.Ended

namespace Document

open Offside.Part

variable {cfg : Config} {a b c : Nat} {e : Emission} {closing : List Token} {r : Result} {ss : List Stmt}
  {ds : List Diagnostic}

/-- What a run found, with statements that start where its tokens do and with their faults. -/
theorem lies_of_ended (h : Ended a b c e closing r) {m : Nat} (hbm : b ≤ m) (hm : m < UInt32.size)
    (hstarts : (ss.map fun s => s.span.start).Sublist (e.tokens.map fun t => t.span.start))
    (hfaults : ∀ d ∈ ds, UInt32.ofNat a ≤ d.span.start ∧ d.span.start ≤ UInt32.ofNat m) :
    Part.Lies (UInt32.ofNat a) (UInt32.ofNat m)
      ⟨ss, Diagnostic.sort (e.diagnostics ++ ds), e.comments, e.lineStates⟩ := by
  have hfirst : ∀ s ∈ ss, ∃ t ∈ e.tokens, s.span.start = t.span.start := fun s hs => by
    obtain ⟨t, ht, heq⟩ := List.mem_map.mp (hstarts.subset (List.mem_map_of_mem hs))
    exact ⟨t, ht, heq.symm⟩
  have hbetween := h.between.mono (Nat.le_refl a) hbm
  have horder := (h.inOrder.sublist (List.sublist_append_left _ _)).starts
  exact
    { starts := fun s hs => by
        obtain ⟨t, ht, heq⟩ := hfirst s hs
        exact heq ▸ ((hbetween.tokens t ht).inside hm).1
      ordered := List.pairwise_map.mp (horder.sublist hstarts)
      faults := fun d hd => by
        rcases List.mem_append.mp (Diagnostic.mem_sort.mp hd) with hd | hd
        · exact ((hbetween.diagnostics d hd).inside hm).1
        · exact hfaults d hd
      sorted := Diagnostic.sort_sorted _
      comments := fun t ht => (hbetween.comments t ht).inside hm
      inOrder := h.comments_inOrder
      lines := fun l hl => by
        obtain ⟨i, hai, hib, heq⟩ := hbetween.lineStates l hl
        have hpoint : (Span.ofNat i i).Between a m := Span.between_point hai hib
        exact heq ▸ (hpoint.inside hm).1
      increasing := h.increasing
      levels := h.levels
      parted := fun s hs _ t ht => by
        obtain ⟨x, hx, heq⟩ := hfirst s hs
        exact heq ▸ h.parted x hx t.span (Emission.mem_marks.mpr (Or.inl ⟨t, ht, rfl⟩)) }

theorem freshPart_eq (cfg : Config) (h : Ended a b c e closing r) : freshPart cfg r =
    ⟨(parseRest cfg (Ended.stream e closing) (.layout .eof (Span.ofNat b b))).1,
      Diagnostic.sort (e.diagnostics ++
        (parseRest cfg (Ended.stream e closing) (.layout .eof (Span.ofNat b b))).2),
      e.comments, e.lineStates⟩ := by
  rw [freshPart, h.tokens_eq, Offside.parse_run rfl, Part.ofScan, h.diagnostics, h.comments,
    h.lineStates]

section Found

variable (cfg : Config) (h : Ended a b c e closing r) (hc : c < UInt32.size)

include h hc

/-- Where the faults lie that a run finds, its end mark put before the ends of its blocks. -/
theorem faults_inside {d : Diagnostic}
    (hd : d ∈ (parseRest cfg (Ended.stream e closing) (.layout .eof (Span.ofNat b b))).2) :
    d.span.Inside (UInt32.ofNat a) (UInt32.ofNat c) := by
  have hmark : (Span.ofNat b b).Inside (UInt32.ofNat a) (UInt32.ofNat c) :=
    ((Span.between_point h.pos_le (Nat.le_refl b)).mono (Nat.le_refl a) h.le).inside hc
  exact (parseRest_inside cfg rfl (UInt32.le_trans hmark.1.1 hmark.1.2) hmark
    fun t ht => h.stream_inside hc (List.mem_append_left _ ht)).2 d hd

/-- What a run finds starts between its ends, up to where its blocks end or a place behind its faults. -/
theorem freshPart_lies {m : Nat} (hbm : b ≤ m) (hmc : m ≤ c)
    (hclean : m = c ∨ ∀ d ∈ (freshPart cfg r).diagnostics, d.span.start < UInt32.ofNat m) :
    (freshPart cfg r).Lies (UInt32.ofNat a) (UInt32.ofNat m) := by
  rw [freshPart_eq cfg h] at hclean ⊢
  refine lies_of_ended h hbm (Nat.lt_of_le_of_lt hmc hc) (h.starts_sublist cfg _ rfl) fun d hd => ?_
  have hinside := faults_inside cfg h hc hd
  refine ⟨hinside.1.1, ?_⟩
  rcases hclean with rfl | hlt
  · exact hinside.1.2
  · exact UInt32.le_of_lt (hlt d (Diagnostic.mem_sort.mpr (List.mem_append_right _ hd)))

/-- What a run finds lies between its ends, if it ends its blocks before the end mark. -/
theorem freshPart_fits (hcb : c = b) : (freshPart cfg r).Fits (UInt32.ofNat a) (UInt32.ofNat b) := by
  subst hcb
  have hlies := freshPart_lies cfg h hc (Nat.le_refl c) (Nat.le_refl c) (Or.inl rfl)
  have hscanned : ∀ d ∈ e.diagnostics, d.span.Inside (UInt32.ofNat a) (UInt32.ofNat c) :=
    fun d hd => (h.between.diagnostics d hd).inside hc
  obtain ⟨hnested, hapart⟩ := parseRest_nested cfg rfl (h.ended_inOrder hc)
  have hin := fun t => h.stream_inside (t := t) hc
  have hmark := hin _ (List.mem_append_right _ (List.mem_singleton_self _))
  have hstops := (parseRest_inside cfg rfl (UInt32.le_trans hmark.1.1 hmark.1.2) hmark
    fun t ht => hin t (List.mem_append_left _ ht)).1
  rw [freshPart_eq cfg h] at hlies ⊢
  refine ⟨hlies, fun s hs => (hstops s hs).2.2, hnested, hapart, fun d hd => ?_, fun s hs hclean d hd => ?_⟩
  · rcases List.mem_append.mp (Diagnostic.mem_sort.mp hd) with hd | hd
    · exact hscanned d hd
    · exact faults_inside cfg h hc hd
  · rcases List.mem_append.mp (Diagnostic.mem_sort.mp hd) with hd | hd
    · obtain ⟨t, ht, hstart⟩ := List.mem_map.mp
        ((h.starts_sublist cfg _ rfl).subset (List.mem_map_of_mem hs))
      exact hstart ▸ h.parted t ht d.span (Emission.mem_marks.mpr (Or.inr ⟨d, hd, rfl⟩))
    · refine faults_beside rfl h.lined (h.ended_inOrder hc) hin hs (fun d hd => ?_) d hd
      exact hclean d (Diagnostic.mem_sort.mpr (List.mem_append_right _ hd))

end Found

end Document

end Offside
