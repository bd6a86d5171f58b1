import Offside.Proofs.Seam.Recovery

namespace Offside

open Grammar

/-- The blocks that some tokens open are the blocks that they close, and none is closed before it is
open. -/
def Balanced (ts : List Token) : Prop :=
  ts.countP (·.kind = .dedent) = ts.countP (·.kind = .indent) ∧
    ∀ us, us <+: ts → us.countP (·.kind = .dedent) ≤ us.countP (·.kind = .indent)

/-- The tokens close so many blocks more than they open, and on the way never more than that. -/
def Closes : Nat → List Token → Prop
  | n, [] => n = 0
  | n, t :: ts =>
    match t.kind with
    | .indent => Closes (n + 1) ts
    | .dedent => 0 < n ∧ Closes (n - 1) ts
    | _ => Closes n ts

section Closes

variable {n m : Nat} {t : Token} {ts us : List Token}

theorem closes_cons : Closes n (t :: ts) ↔
    if t.kind = .indent then Closes (n + 1) ts else if t.kind = .dedent then 0 < n ∧ Closes (n - 1) ts
    else Closes n ts := by
  rw [Closes]
  split
  · next h => rw [if_pos h]
  · next h => simp only [h, reduceCtorEq, if_false, if_true]
  · next hi hd => rw [if_neg hi, if_neg hd]

theorem closes_indent (h : t.kind = .indent) : Closes n (t :: ts) ↔ Closes (n + 1) ts := by
  rw [closes_cons, if_pos h]

theorem closes_dedent (h : t.kind = .dedent) : Closes n (t :: ts) ↔ 0 < n ∧ Closes (n - 1) ts := by
  simp only [closes_cons, h, reduceCtorEq, if_false, if_true]

theorem closes_other (hi : t.kind ≠ .indent) (hd : t.kind ≠ .dedent) :
    Closes n (t :: ts) ↔ Closes n ts := by
  rw [closes_cons, if_neg hi, if_neg hd]

theorem closes_iff : Closes n ts ↔
    ts.countP (·.kind = .dedent) = ts.countP (·.kind = .indent) + n ∧
      ∀ us, us <+: ts → us.countP (·.kind = .dedent) ≤ us.countP (·.kind = .indent) + n := by
  induction ts generalizing n with
  | nil =>
    simp only [Closes, List.countP_nil, List.prefix_nil, Nat.zero_add]
    constructor
    · rintro rfl
      exact ⟨rfl, by rintro us rfl; exact Nat.le_refl _⟩
    · exact fun h => h.1.symm
  | cons t ts ih =>
    have hconcat {p : List Token → Prop} :
        (∀ us, us <+: t :: ts → p us) ↔ p [] ∧ ∀ us, us <+: ts → p (t :: us) := by
      constructor
      · exact fun h => ⟨h [] (List.nil_prefix), fun us hus => h _ (List.cons_prefix_cons.mpr ⟨rfl, hus⟩)⟩
      · rintro ⟨hnil, hcons⟩ us hus
        rcases List.prefix_cons_iff.mp hus with rfl | ⟨vs, rfl, hvs⟩
        · exact hnil
        · exact hcons vs hvs
    rw [hconcat]
    by_cases hi : t.kind = .indent
    · rw [closes_indent hi, ih]
      simp only [List.countP_cons, hi, List.countP_nil]
      simp only [decide_true, decide_false, reduceCtorEq, if_true, Bool.false_eq_true, if_false]
      constructor
      · exact fun h => ⟨by omega, by omega, fun us hus => by have := h.2 us hus; omega⟩
      · exact fun h => ⟨by omega, fun us hus => by have := h.2.2 us hus; omega⟩
    by_cases hd : t.kind = .dedent
    · rw [closes_dedent hd, ih]
      simp only [List.countP_cons, hd, List.countP_nil]
      simp only [decide_true, decide_false, reduceCtorEq, if_true, Bool.false_eq_true, if_false]
      constructor
      · exact fun h => ⟨by omega, by omega, fun us hus => by have := h.2.2 us hus; omega⟩
      · intro h
        have hfirst := h.2.2 [] List.nil_prefix
        simp only [List.countP_nil] at hfirst
        exact ⟨by omega, by omega, fun us hus => by have := h.2.2 us hus; omega⟩
    · rw [closes_other hi hd, ih]
      simp [hi, hd]

theorem balanced_iff : Balanced ts ↔ Closes 0 ts := (closes_iff (n := 0)).symm

theorem Closes.append (h : Closes n ts) (h₂ : Closes m us) : Closes (n + m) (ts ++ us) := by
  induction ts generalizing n with
  | nil =>
    obtain rfl : n = 0 := h
    rwa [Nat.zero_add]
  | cons t ts ih =>
    rw [List.cons_append]
    by_cases hi : t.kind = .indent
    · rw [closes_indent hi] at h ⊢
      have := ih h
      rwa [Nat.add_right_comm] at this
    by_cases hd : t.kind = .dedent
    · rw [closes_dedent hd] at h ⊢
      have := ih h.2
      refine ⟨by omega, ?_⟩
      rwa [← Nat.sub_add_comm h.1] at this
    · rw [closes_other hi hd] at h ⊢
      exact ih h

/-- What is left of the tokens behind some that close the blocks that they open. -/
theorem Closes.right (h : Closes n (ts ++ us)) (hts : Closes 0 ts) : Closes n us := by
  rw [closes_iff] at h hts ⊢
  obtain ⟨htotal, hle⟩ := h
  obtain ⟨heq, -⟩ := hts
  rw [List.countP_append, List.countP_append] at htotal
  refine ⟨by omega, fun vs hvs => ?_⟩
  have hvs := hle (ts ++ vs) ((List.prefix_append_right_inj ts).mpr hvs)
  rw [List.countP_append, List.countP_append] at hvs
  omega

theorem closes_inside (h : ∀ t ∈ ts, t.kind ≠ .indent ∧ t.kind ≠ .dedent) : Closes 0 ts := by
  induction ts with
  | nil => rfl
  | cons t ts ih =>
    obtain ⟨hi, hd⟩ := h t List.mem_cons_self
    rw [closes_other hi hd]
    exact ih fun u hu => h u (List.mem_cons_of_mem t hu)

end Closes

/-- The tokens close so many blocks and those that they open; a dedent outside blocks closes none. -/
def Sheds : Nat → List Token → Prop
  | n, [] => n = 0
  | n, t :: ts =>
    match t.kind with
    | .indent => Sheds (n + 1) ts
    | .dedent => Sheds (n - 1) ts
    | _ => Sheds n ts

section Sheds

variable {n m : Nat} {t : Token} {ts us : List Token}

theorem sheds_cons : Sheds n (t :: ts) ↔
    if t.kind = .indent then Sheds (n + 1) ts else if t.kind = .dedent then Sheds (n - 1) ts
    else Sheds n ts := by
  rw [Sheds]
  split
  · next h => rw [if_pos h]
  · next h => simp only [h, reduceCtorEq, if_false, if_true]
  · next hi hd => rw [if_neg hi, if_neg hd]

theorem sheds_indent (h : t.kind = .indent) : Sheds n (t :: ts) ↔ Sheds (n + 1) ts := by
  rw [sheds_cons, if_pos h]

theorem sheds_dedent (h : t.kind = .dedent) : Sheds n (t :: ts) ↔ Sheds (n - 1) ts := by
  simp only [sheds_cons, h, reduceCtorEq, if_false, if_true]

theorem sheds_other (hi : t.kind ≠ .indent) (hd : t.kind ≠ .dedent) :
    Sheds n (t :: ts) ↔ Sheds n ts := by
  rw [sheds_cons, if_neg hi, if_neg hd]

theorem Closes.sheds (h : Closes n ts) : Sheds n ts := by
  induction ts generalizing n with
  | nil => exact h
  | cons t ts ih =>
    by_cases hi : t.kind = .indent
    · exact (sheds_indent hi).mpr (ih ((closes_indent hi).mp h))
    by_cases hd : t.kind = .dedent
    · exact (sheds_dedent hd).mpr (ih ((closes_dedent hd).mp h).2)
    · exact (sheds_other hi hd).mpr (ih ((closes_other hi hd).mp h))

/-- What is left of the tokens behind some that close blocks of their own only. -/
theorem Sheds.right (h : Sheds n (ts ++ us)) (hts : Closes m ts) (hle : m ≤ n) :
    Sheds (n - m) us := by
  induction ts generalizing n m with
  | nil =>
    obtain rfl : m = 0 := hts
    exact h
  | cons t ts ih =>
    rw [List.cons_append] at h
    by_cases hi : t.kind = .indent
    · rw [sheds_indent hi] at h
      have := ih h ((closes_indent hi).mp hts) (Nat.succ_le_succ hle)
      rwa [Nat.add_sub_add_right] at this
    by_cases hd : t.kind = .dedent
    · rw [sheds_dedent hd] at h
      have hts := (closes_dedent hd).mp hts
      have := ih h hts.2 (Nat.sub_le_sub_right hle 1)
      rwa [show n - 1 - (m - 1) = n - m by omega] at this
    · rw [sheds_other hi hd] at h
      exact ih h ((closes_other hi hd).mp hts) hle

end Sheds

/-- A stream up to its end mark: it closes so many blocks, and has no end mark inside. -/
structure Flow (n : Nat) (ts : List Token) : Prop where
  sheds : Sheds n ts
  ne_eof : ∀ t ∈ ts, t.kind ≠ .eof

section Flow

variable {n m j : Nat} {t : Token} {ts us : List Token}

theorem Flow.right (h : Flow n (ts ++ us)) (hts : Closes m ts) (hle : m ≤ n) : Flow (n - m) us :=
  ⟨h.sheds.right hts hle, fun t ht => h.ne_eof t (List.mem_append_right ts ht)⟩

theorem Flow.tail_ne_eof (h : Flow n (t :: ts)) : ∀ u ∈ ts, u.kind ≠ .eof :=
  fun u hu => h.ne_eof u (List.mem_cons_of_mem t hu)

/-- A block that is open ends in the stream. -/
theorem Flow.block_closes (h : Flow (n + (j + 1)) ts) :
    ∃ us vs, ts = us ++ vs ∧ us.length = blockLength (j + 1) ts ∧ Closes (j + 1) us := by
  induction ts generalizing j with
  | nil => exact absurd h.sheds (Nat.succ_ne_zero _)
  | cons t ts ih =>
    have heof := h.ne_eof t List.mem_cons_self
    by_cases hi : t.kind = .indent
    · have hrest : Flow (n + (j + 1 + 1)) ts := ⟨(sheds_indent hi).mp h.sheds, h.tail_ne_eof⟩
      obtain ⟨us, vs, heq, hlen, hus⟩ := ih hrest
      refine ⟨t :: us, vs, congrArg (t :: ·) heq, ?_, (closes_indent hi).mpr hus⟩
      rw [blockLength_indent hi, List.length_cons, hlen]
    by_cases hd : t.kind = .dedent
    · cases j with
      | zero =>
        refine ⟨[t], ts, rfl, (blockLength_last hd).symm, ?_⟩
        exact (closes_dedent hd).mpr ⟨Nat.one_pos, rfl⟩
      | succ j =>
        have hrest : Flow (n + (j + 1)) ts := ⟨(sheds_dedent hd).mp h.sheds, h.tail_ne_eof⟩
        obtain ⟨us, vs, heq, hlen, hus⟩ := ih hrest
        refine ⟨t :: us, vs, congrArg (t :: ·) heq, ?_, (closes_dedent hd).mpr ⟨Nat.succ_pos _, hus⟩⟩
        rw [blockLength_dedent hd, List.length_cons, hlen]
    · have hrest : Flow (n + (j + 1)) ts := ⟨(sheds_other hi hd).mp h.sheds, h.tail_ne_eof⟩
      obtain ⟨us, vs, heq, hlen, hus⟩ := ih hrest
      refine ⟨t :: us, vs, congrArg (t :: ·) heq, ?_, (closes_other hi hd).mpr hus⟩
      rw [blockLength_other heof hi hd, List.length_cons, hlen]

/-- The block at the head of a stream is closed in it. -/
theorem Flow.leading_closes (h : Flow n ts) :
    ∃ us vs, ts = us ++ vs ∧ us.length = leadingBlockLength ts ∧ Closes 0 us := by
  cases ts with
  | nil => exact ⟨[], [], rfl, rfl, rfl⟩
  | cons t ts =>
    rw [leadingBlockLength]
    split
    · next hi =>
      have hrest : Flow (n + (0 + 1)) ts := ⟨(sheds_indent hi).mp h.sheds, h.tail_ne_eof⟩
      obtain ⟨us, vs, heq, hlen, hus⟩ := hrest.block_closes
      refine ⟨t :: us, vs, congrArg (t :: ·) heq, ?_, (closes_indent hi).mpr hus⟩
      rw [blockLength_indent hi, List.length_cons, hlen]
    · exact ⟨[], t :: ts, rfl, rfl, rfl⟩

/-- What is passed over in place of a broken statement closes just the blocks open in it. -/
theorem Flow.broken_closes (h : Flow (n + j) ts) :
    ∃ us vs, ts = us ++ vs ∧ us.length = brokenLength j ts ∧ Closes j us := by
  induction ts generalizing j with
  | nil =>
    have hsum : n + j = 0 := h.sheds
    exact ⟨[], [], rfl, rfl, (Nat.add_eq_zero_iff.mp hsum).2⟩
  | cons t ts ih =>
    have heof := h.ne_eof t List.mem_cons_self
    by_cases hi : t.kind = .indent
    · have hrest : Flow (n + (j + 1)) ts := ⟨(sheds_indent hi).mp h.sheds, h.tail_ne_eof⟩
      obtain ⟨us, vs, heq, hlen, hus⟩ := ih hrest
      refine ⟨t :: us, vs, congrArg (t :: ·) heq, ?_, (closes_indent hi).mpr hus⟩
      rw [brokenLength_indent hi, List.length_cons, hlen]
    by_cases hd : t.kind = .dedent
    · match j with
      | 0 => exact ⟨[], t :: ts, rfl, (brokenLength_outer hd).symm, rfl⟩
      | 1 =>
        refine ⟨[t], ts, rfl, (brokenLength_last hd).symm, ?_⟩
        exact (closes_dedent hd).mpr ⟨Nat.one_pos, rfl⟩
      | j + 2 =>
        have hrest : Flow (n + (j + 1)) ts := ⟨(sheds_dedent hd).mp h.sheds, h.tail_ne_eof⟩
        obtain ⟨us, vs, heq, hlen, hus⟩ := ih hrest
        refine ⟨t :: us, vs, congrArg (t :: ·) heq, ?_, (closes_dedent hd).mpr ⟨Nat.succ_pos _, hus⟩⟩
        rw [brokenLength_dedent hd, List.length_cons, hlen]
    have hrest : Flow (n + j) ts := ⟨(sheds_other hi hd).mp h.sheds, h.tail_ne_eof⟩
    have hcons {us vs : List Token} (heq : ts = us ++ vs) (hlen : us.length + 1 = brokenLength j (t :: ts))
        (hus : Closes j us) : ∃ us vs, t :: ts = us ++ vs ∧
          us.length = brokenLength j (t :: ts) ∧ Closes j us :=
      ⟨t :: us, vs, congrArg (t :: ·) heq, hlen, (closes_other hi hd).mpr hus⟩
    by_cases hn : t.kind = .newline
    · cases j with
      | zero =>
        obtain ⟨us, vs, heq, hlen, hus⟩ := hrest.leading_closes
        exact hcons heq (by rw [brokenLength_line hn, hlen]) hus
      | succ j =>
        obtain ⟨us, vs, heq, hlen, hus⟩ := ih hrest
        exact hcons heq (by rw [brokenLength_inner hn, hlen]) hus
    · obtain ⟨us, vs, heq, hlen, hus⟩ := ih hrest
      exact hcons heq (by rw [brokenLength_other heof hi hd hn, hlen]) hus

end Flow

end Offside
