import Offside.Grammar.Recovery
import Offside.Proofs.Seam.Simple

namespace Offside

open Grammar

theorem Depth.blocks_after {p : Depth} {k : Kind} (hi : k ≠ .indent) (hd : k ≠ .dedent) :
    (p.after k).blocks = p.blocks := by
  cases k <;> first | rfl | contradiction

theorem Depth.eq_flat {p : Depth} {d : Nat} (hn : p.brackets = 0) (hd : p.blocks = d) : p = .flat d := by
  subst hd
  cases p
  simp_all [Depth.flat]

section Lengths

variable {j : Nat} {t : Token} {ts : List Token}

theorem blockLength_cons : blockLength j (t :: ts) =
    if t.kind = .eof then 0 else if t.kind = .indent then blockLength (j + 1) ts + 1
    else if t.kind = .dedent then if j ≤ 1 then 1 else blockLength (j - 1) ts + 1
    else blockLength j ts + 1 := by
  rw [blockLength]
  split
  · next h => rw [if_pos h]
  · next h => simp only [h, reduceCtorEq, if_false, if_true]
  · next h => simp only [h, reduceCtorEq, if_false, if_true]
  · next he hi hd => rw [if_neg he, if_neg hi, if_neg hd]

theorem blockLength_indent (h : t.kind = .indent) :
    blockLength j (t :: ts) = blockLength (j + 1) ts + 1 := by
  simp [blockLength_cons, h]

theorem blockLength_dedent (h : t.kind = .dedent) :
    blockLength (j + 2) (t :: ts) = blockLength (j + 1) ts + 1 := by
  simp [blockLength_cons, h]

theorem blockLength_last (h : t.kind = .dedent) : blockLength 1 (t :: ts) = 1 := by
  simp [blockLength_cons, h]

theorem blockLength_other (he : t.kind ≠ .eof) (hi : t.kind ≠ .indent) (hd : t.kind ≠ .dedent) :
    blockLength j (t :: ts) = blockLength j ts + 1 := by
  simp [blockLength_cons, he, hi, hd]

theorem brokenLength_cons : brokenLength j (t :: ts) =
    if t.kind = .eof then 0 else if t.kind = .indent then brokenLength (j + 1) ts + 1
    else if t.kind = .dedent then if j ≤ 1 then j else brokenLength (j - 1) ts + 1
    else if t.kind = .newline ∧ j = 0 then leadingBlockLength ts + 1 else brokenLength j ts + 1 := by
  rw [brokenLength.eq_def]
  dsimp only
  split
  · next h => rw [if_pos h]
  · next h => simp only [h, reduceCtorEq, if_false, if_true]
  · next h =>
    simp only [h, reduceCtorEq, if_false, if_true]
    rcases j with _ | _ | j <;> rfl
  · next h => simp only [h, reduceCtorEq, if_false, true_and]
  · next he hi hd hn => rw [if_neg he, if_neg hi, if_neg hd, if_neg fun h => hn h.1]

theorem brokenLength_indent (h : t.kind = .indent) :
    brokenLength j (t :: ts) = brokenLength (j + 1) ts + 1 := by
  simp [brokenLength_cons, h]

theorem brokenLength_dedent (h : t.kind = .dedent) :
    brokenLength (j + 2) (t :: ts) = brokenLength (j + 1) ts + 1 := by
  simp [brokenLength_cons, h]

theorem brokenLength_last (h : t.kind = .dedent) : brokenLength 1 (t :: ts) = 1 := by
  simp [brokenLength_cons, h]

theorem brokenLength_outer (h : t.kind = .dedent) : brokenLength 0 (t :: ts) = 0 := by
  simp [brokenLength_cons, h]

theorem brokenLength_line (h : t.kind = .newline) :
    brokenLength 0 (t :: ts) = leadingBlockLength ts + 1 := by
  simp [brokenLength_cons, h]

theorem brokenLength_inner (h : t.kind = .newline) :
    brokenLength (j + 1) (t :: ts) = brokenLength (j + 1) ts + 1 := by
  simp [brokenLength_cons, h]

theorem brokenLength_other (he : t.kind ≠ .eof) (hi : t.kind ≠ .indent) (hd : t.kind ≠ .dedent)
    (hn : t.kind ≠ .newline) : brokenLength j (t :: ts) = brokenLength j ts + 1 := by
  simp [brokenLength_cons, he, hi, hd, hn]

theorem brokenLength_pos (he : t.kind ≠ .eof) (hd : t.kind ≠ .dedent) :
    0 < brokenLength j (t :: ts) := by
  by_cases hi : t.kind = .indent
  · rw [brokenLength_indent hi]
    exact Nat.succ_pos _
  by_cases hn : t.kind = .newline
  · cases j with
    | zero => rw [brokenLength_line hn]; exact Nat.succ_pos _
    | succ j => rw [brokenLength_inner hn]; exact Nat.succ_pos _
  · rw [brokenLength_other he hi hd hn]
    exact Nat.succ_pos _

end Lengths

/-- A block that is open in a window ends in it. -/
theorem blockLength_window {p : Depth} {d j : Nat} {rest : List Token} (h : Lined p rest)
    (hp : p.blocks = d + (j + 1)) :
    ∃ ts us, rest = ts ++ us ∧ p.along ts = .flat d ∧
      ∀ tail, blockLength (j + 1) (rest ++ tail) = ts.length := by
  induction rest generalizing p j with
  | nil =>
    have : p.blocks = 0 := h
    omega
  | cons t rest ih =>
    obtain ⟨heof, hdedent, hrest⟩ := h
    by_cases hi : t.kind = .indent
    · have hblocks : (p.after t.kind).blocks = d + (j + 1 + 1) := by
        rw [hi]
        exact congrArg (· + 1) hp
      obtain ⟨ts, us, heq, hts, hlen⟩ := ih hrest hblocks
      exact ⟨t :: ts, us, by rw [heq]; rfl, hts, fun tail =>
        (blockLength_indent hi).trans (congrArg (· + 1) (hlen tail))⟩
    by_cases hd : t.kind = .dedent
    · have hblocks : (p.after t.kind).blocks = d + j := by
        rw [hd]
        exact congrArg (· - 1) hp
      cases j with
      | zero =>
        have hbrackets : (p.after t.kind).brackets = 0 := by
          rw [hd]
          rfl
        exact ⟨[t], rest, rfl, Depth.eq_flat hbrackets hblocks, fun tail => blockLength_last hd⟩
      | succ j =>
        obtain ⟨ts, us, heq, hts, hlen⟩ := ih hrest hblocks
        exact ⟨t :: ts, us, by rw [heq]; rfl, hts, fun tail =>
          (blockLength_dedent hd).trans (congrArg (· + 1) (hlen tail))⟩
    · obtain ⟨ts, us, heq, hts, hlen⟩ := ih hrest ((Depth.blocks_after hi hd).trans hp)
      exact ⟨t :: ts, us, by rw [heq]; rfl, hts, fun tail =>
        (blockLength_other heof hi hd).trans (congrArg (· + 1) (hlen tail))⟩

/-- What is passed over after a fault ends in the window, or all the rest of the window is passed
over and it does not end with a line or a block. -/
def PassedOver (p : Depth) (d j : Nat) (rest : List Token) : Prop :=
  (∃ ts us, rest = ts ++ us ∧ p.along ts = .flat d ∧
    ∀ tail, (∀ t, tail.head? = some t → t.kind ≠ .indent) →
      brokenLength j (rest ++ tail) = ts.length) ∨
  (∀ t, rest.getLast? = some t → t.kind ≠ .newline ∧ t.kind ≠ .dedent) ∧
    ∀ tail, brokenLength j (rest ++ tail) = rest.length + brokenLength 0 tail

theorem PassedOver.cons {p : Depth} {d i j : Nat} {t : Token} {rest : List Token}
    (h : PassedOver (p.after t.kind) d i rest)
    (hlen : ∀ ts, brokenLength j (t :: ts) = brokenLength i ts + 1)
    (hlast : rest = [] → t.kind ≠ .newline ∧ t.kind ≠ .dedent) : PassedOver p d j (t :: rest) := by
  rcases h with ⟨ts, us, heq, hts, hstop⟩ | ⟨hend, hall⟩
  · refine Or.inl ⟨t :: ts, us, by rw [heq]; rfl, hts, fun tail htail => ?_⟩
    rw [List.cons_append, hlen, hstop tail htail]
    rfl
  · refine Or.inr ⟨fun u hu => ?_, fun tail => ?_⟩
    · cases rest with
      | nil =>
        obtain rfl : t = u := by simpa using hu
        exact hlast rfl
      | cons v rest => exact hend u (by simpa using hu)
    · rw [List.cons_append, hlen, hall, List.length_cons]
      omega

theorem Lined.passedOver {p : Depth} {d j : Nat} {rest : List Token} (h : Lined p rest)
    (hp : p.blocks = d + j) : PassedOver p d j rest := by
  induction rest generalizing p j with
  | nil =>
    have hblocks : p.blocks = 0 := h
    obtain rfl : j = 0 := by omega
    exact Or.inr ⟨by simp, by simp⟩
  | cons t rest ih =>
    obtain ⟨heof, hdedent, hrest⟩ := h
    have hne {n : Nat} (hblocks : (p.after t.kind).blocks = n + 1) : rest ≠ [] := by
      rintro rfl
      exact absurd (hblocks.symm.trans hrest) (Nat.succ_ne_zero n)
    by_cases hi : t.kind = .indent
    · have hblocks : (p.after t.kind).blocks = d + (j + 1) := by
        rw [hi]
        exact congrArg (· + 1) hp
      exact (ih hrest hblocks).cons (fun _ => brokenLength_indent hi) fun hr => absurd hr (hne hblocks)
    by_cases hd : t.kind = .dedent
    · have hbrackets := hdedent hd
      have hblocks : (p.after t.kind).blocks = d + j - 1 := by
        rw [hd]
        exact congrArg (· - 1) hp
      match j with
      | 0 =>
        exact Or.inl ⟨[], t :: rest, rfl, Depth.eq_flat hbrackets hp, fun tail _ => brokenLength_outer hd⟩
      | 1 =>
        have hflat : p.after t.kind = .flat d := by
          refine Depth.eq_flat ?_ hblocks
          rw [hd]
          rfl
        exact Or.inl ⟨[t], rest, rfl, hflat, fun tail _ => brokenLength_last hd⟩
      | j + 2 =>
        exact (ih hrest hblocks).cons (fun _ => brokenLength_dedent hd) fun hr => absurd hr (hne hblocks)
    have hblocks : (p.after t.kind).blocks = d + j := (Depth.blocks_after hi hd).trans hp
    by_cases hn : t.kind = .newline
    · cases j with
      | succ j =>
        exact (ih hrest hblocks).cons (fun _ => brokenLength_inner hn) fun hr => absurd hr (hne hblocks)
      | zero =>
        have hflat : p.after t.kind = .flat d := by
          refine Depth.eq_flat ?_ hblocks
          rw [hn]
          rfl
        left
        by_cases hu : ∃ u us, rest = u :: us ∧ u.kind = .indent
        · obtain ⟨u, us, rfl, hu⟩ := hu
          rw [hflat] at hrest
          have hblocks : (Depth.after (.flat d) u.kind).blocks = d + (0 + 1) := by
            rw [hu]
            rfl
          obtain ⟨ts, vs, heq, hts, hlen⟩ := blockLength_window hrest.2.2 hblocks
          refine ⟨t :: u :: ts, vs, by rw [heq]; rfl, ?_, fun tail _ => ?_⟩
          · rw [Depth.along, hflat]
            exact hts
          · rw [List.cons_append, brokenLength_line hn, List.cons_append, leadingBlockLength, if_pos hu,
              blockLength_indent hu, hlen tail]
            rfl
        · refine ⟨[t], rest, rfl, hflat, fun tail htail => ?_⟩
          rw [List.cons_append, brokenLength_line hn]
          cases rest with
          | nil =>
            cases tail with
            | nil => rfl
            | cons u us => simp [leadingBlockLength, htail u rfl]
          | cons u us =>
            have : u.kind ≠ .indent := fun h => hu ⟨u, us, rfl, h⟩
            simp [leadingBlockLength, this]
    · exact (ih hrest hblocks).cons (fun _ => brokenLength_other heof hi hd hn) fun _ => ⟨hn, hd⟩

theorem Lined.ne_eof {p : Depth} {rest : List Token} (h : Lined p rest) :
    ∀ t ∈ rest, t.kind ≠ .eof := by
  induction rest generalizing p with
  | nil => simp
  | cons t rest ih =>
    intro u hu
    rcases List.mem_cons.mp hu with rfl | hu
    · exact h.1
    · exact ih h.2.2 u hu

/-- Right behind layout no bracket is open. -/
theorem Depth.brackets_along {p : Depth} {ts : List Token} {t : Token} (ht : ts.getLast? = some t)
    (hk : t.kind = .newline ∨ t.kind = .dedent) : (p.along ts).brackets = 0 := by
  obtain ⟨ts, rfl⟩ := List.getLast?_eq_some_iff.mp ht
  rw [along_append]
  rcases hk with h | h <;> rw [along, along, h] <;> rfl

/-- The lengths only look at kinds. -/
theorem blockLength_congr {ts us : List Token} (h : ts.map Token.kind = us.map Token.kind) (j : Nat) :
    blockLength j ts = blockLength j us := by
  induction ts generalizing us j with
  | nil => rw [List.map_eq_nil_iff.mp h.symm]
  | cons t ts ih =>
    cases us with
    | nil => simp at h
    | cons u us =>
      obtain ⟨hk, h⟩ := List.cons.inj h
      simp only [blockLength, hk, ih h]

theorem brokenLength_congr {ts us : List Token} (h : ts.map Token.kind = us.map Token.kind) (j : Nat) :
    brokenLength j ts = brokenLength j us := by
  induction ts generalizing us j with
  | nil => rw [List.map_eq_nil_iff.mp h.symm]
  | cons t ts ih =>
    cases us with
    | nil => simp at h
    | cons u us =>
      obtain ⟨hk, h⟩ := List.cons.inj h
      have hlead : leadingBlockLength ts = leadingBlockLength us := by
        cases ts with
        | nil => rw [List.map_eq_nil_iff.mp h.symm]
        | cons t ts =>
          cases us with
          | nil => simp at h
          | cons u us =>
            rw [leadingBlockLength, leadingBlockLength, (List.cons.inj h).1, blockLength_congr h]
      rw [brokenLength.eq_def, brokenLength.eq_def]
      simp only [hk, ih h, hlead]

theorem Cursor.skip_add (m n : Nat) (c : Cursor) : c.skip (m + n) = (c.skip m).skip n := by
  induction m generalizing c with
  | zero => rw [Nat.zero_add, Cursor.skip]
  | succ m ih =>
    rw [Nat.succ_add]
    exact ih c.advance

namespace Seam

variable {S : Seam} {N : Origin} {p : Depth} {d : Nat} {c c' : Cursor}

theorem At.skip {ts done rest : List Token} (h : S.At N p done (ts ++ rest) c c')
    (hts : ∀ t ∈ ts, t.kind ≠ .eof) :
    S.At N (p.along ts) (done ++ ts) rest (c.skip ts.length) (c'.skip ts.length) := by
  induction ts generalizing p done c c' with
  | nil =>
    rw [List.append_nil]
    exact h
  | cons t ts ih =>
    have hstep := (h.advance (hts t (by simp))).1
    rw [List.append_cons]
    exact ih hstep fun u hu => hts u (by simp [hu])

/-- Without a window the depth means nothing. -/
theorem At.anywhere {q : Depth} {done rest : List Token} (h : S.At N p done rest c c')
    (hw : S.window = none) : S.At N q done rest c c' where
  __ := h
  place w hw' := by
    rw [hw] at hw'
    contradiction

theorem At.skip_whole {done rest : List Token} (h : S.At N p done rest c c') (hw : S.window = none)
    (n : Nat) : ∃ done rest, S.At N p done rest (c.skip n) (c'.skip n) := by
  induction n generalizing done rest c c' with
  | zero => exact ⟨done, rest, h⟩
  | succ n ih =>
    have hstay (hc : c.advance = c) (hc' : c'.advance = c') :
        ∃ done rest, S.At N p done rest (c.skip (n + 1)) (c'.skip (n + 1)) := by
      rw [Cursor.skip, Cursor.skip, hc, hc']
      exact ih h
    cases rest with
    | nil =>
      obtain ⟨htail, htail', -⟩ := S.whole hw
      exact hstay (by simp [Cursor.advance, h.rest_eq, htail]) (by simp [Cursor.advance, h.rest_eq', htail'])
    | cons t rest =>
      by_cases ht : t.kind = .eof
      · exact hstay (by simp [Cursor.advance, h.rest_eq, ht]) (by simp [Cursor.advance, h.rest_eq', ht])
      · exact ih ((h.advance ht).1.anywhere hw)

/-- Behind layout no bracket is open. -/
theorem At.flat {n : Nat} {done rest : List Token} (h : S.At N ⟨n, d⟩ done rest c c')
    (hlt : c.remaining < N.bound)
    (hk : c.previousKind? = some .newline ∨ c.previousKind? = some .dedent) :
    S.At N (.flat d) done rest c c' where
  __ := h
  place w hw := by
    obtain ⟨rfl, hp, hprev⟩ := h.place w hw
    refine ⟨rfl, ?_, hprev⟩
    rw [Cursor.previousKind?, hprev hlt] at hk
    have hlast : ∃ t, done.getLast? = some t ∧ (t.kind = .newline ∨ t.kind = .dedent) := by
      cases hdone : done.getLast? with
      | none => simp [hdone] at hk
      | some t => exact ⟨t, rfl, by simpa [hdone] using hk⟩
    obtain ⟨t, ht, hk⟩ := hlast
    have hbrackets := Depth.brackets_along (p := {}) ht hk
    rw [hp] at hbrackets ⊢
    exact Depth.eq_flat hbrackets rfl

theorem At.map_kind {done rest : List Token} (h : S.At N p done rest c c') :
    c'.rest.map Token.kind = (rest ++ S.tail').map Token.kind := by
  rw [h.rest_eq', List.map_append, List.map_append]
  simp [relocate]

theorem remaining_skip_le (n : Nat) (c : Cursor) : (c.skip n).remaining ≤ c.remaining := by
  induction n generalizing c with
  | zero => exact Nat.le_refl _
  | succ n ih => exact Nat.le_trans (ih c.advance) (Cursor.remaining_advance_le c)

theorem remaining_synchronize_le (b : Bool) (c : Cursor) :
    (synchronize b c).remaining ≤ c.remaining := by
  unfold synchronize
  split
  · exact Nat.le_refl _
  · exact remaining_skip_le _ c

theorem remaining_synchronize_lt {t : Token} {ts : List Token} (h : c.rest = t :: ts)
    (he : t.kind ≠ .eof) (hd : t.kind ≠ .dedent) : (synchronize false c).remaining < c.remaining := by
  have hstep : c.advance.remaining < c.remaining := by
    simp [Cursor.advance, Cursor.remaining, h, he]
  unfold synchronize
  rw [Bool.false_and, if_neg Bool.false_ne_true, h]
  have hpos : 0 < brokenLength 0 (t :: ts) := brokenLength_pos he hd
  obtain ⟨m, hm⟩ := Nat.exists_eq_add_one.mpr hpos
  rw [hm]
  exact Nat.lt_of_le_of_lt (remaining_skip_le m c.advance) hstep

/-- What is passed over is the same on both sides, unless the window ends with a semicolon. -/
theorem At.skip_broken {n : Nat} {done rest : List Token} (h : S.At N ⟨n, d⟩ done rest c c')
    (hne : S.window ≠ none → rest ≠ []) :
    S.strayed.state (c.skip (brokenLength 0 c.rest)) ∨
      S.Beside N d (c.skip (brokenLength 0 c.rest)) (c'.skip (brokenLength 0 c'.rest)) := by
  rw [brokenLength_congr h.map_kind 0, h.rest_eq]
  cases hw : S.window with
  | none =>
    right
    obtain ⟨htail, htail', -⟩ := S.whole hw
    rw [htail, htail']
    exact (h.anywhere hw).skip_whole hw _
  | some w =>
    have hcut := S.cut w hw
    obtain ⟨rfl, hp, -⟩ := h.place w hw
    have hlined : Lined ⟨n, d⟩ rest := hp ▸ hcut.lined.right
    have hindent (ts : List Token) (t u : Token) (hs : (ts.headD t).kind.startsAfresh = true)
        (hu : ts.head? = some u) : u.kind ≠ .indent := by
      intro hi
      cases ts with
      | nil => simp at hu
      | cons v vs =>
        obtain rfl : v = u := by simpa using hu
        simp [hi, Kind.startsAfresh] at hs
    rcases hlined.passedOver (d := d) (j := 0) rfl with ⟨ts, us, heq, hts, hlen⟩ | ⟨hlast, hall⟩
    · right
      rw [hlen _ fun u => hindent _ _ u hcut.left, hlen _ fun u => hindent _ _ u hcut.right]
      rw [heq] at h hlined
      have hskip := h.skip fun t ht => hlined.ne_eof t (by simp [ht])
      rw [hts] at hskip
      exact ⟨_, _, hskip⟩
    · left
      have ht := List.getLast?_eq_some_getLast (hne (by simp [hw]))
      generalize rest.getLast _ = t at ht
      have hnext : S.next.kind ≠ .eof := by
        have hends := Kind.endsStatement_iff.mp (hcut.getLast?_rest t ht)
        have hlast := hlast t ht
        exact hcut.goesOn t (by rw [List.getLast?_append, ht]; rfl)
          ((hends.resolve_left hlast.1).resolve_left hlast.2)
      have hpos : 0 < brokenLength 0 S.tail := by
        have hafresh : S.next.kind.startsAfresh = true := hcut.left
        rw [next] at hafresh hnext
        cases htail : S.tail with
        | nil =>
          rw [htail] at hnext
          exact absurd S.last_kind hnext
        | cons u us =>
          rw [htail] at hafresh hnext
          refine brokenLength_pos hnext fun hd => ?_
          simp [hd, Kind.startsAfresh] at hafresh
      obtain ⟨m, hm⟩ := Nat.exists_eq_add_one.mpr hpos
      have hskip := (List.append_nil rest ▸ h).skip hlined.ne_eof
      rw [hall, hm, Cursor.skip_add]
      refine S.strayed.kept (remaining_skip_le m _) (strayed_advance (by simp [hw]) hskip.rest_eq hskip.last_eq ?_)
      rw [Cursor.kind, Cursor.current, hskip.rest_eq, hskip.last_eq]
      exact hnext

/-- What is passed over ends with a block or at the end of the stream. -/
theorem apart_skip_block (j : Nat) (c : Cursor) (hl : c.last.kind = .eof) :
    (c.skip (blockLength (j + 1) c.rest)).Apart := by
  generalize hrest : c.rest = rest
  induction rest generalizing c j with
  | nil => exact Or.inl (by simp [blockLength, Cursor.skip, Cursor.kind, Cursor.current, hrest, hl])
  | cons t ts ih =>
    by_cases he : t.kind = .eof
    · rw [blockLength, he]
      exact Or.inl (by simp [Cursor.skip, Cursor.kind, Cursor.current, hrest, he])
    have hnext : c.advance.rest = ts := by simp [Cursor.advance, hrest, he]
    have hlast : c.advance.last.kind = .eof := by rw [c.last_advance, hl]
    by_cases hi : t.kind = .indent
    · rw [blockLength_indent hi]
      exact ih (j + 1) c.advance hlast hnext
    by_cases hd : t.kind = .dedent
    · cases j with
      | zero =>
        rw [blockLength_last hd]
        exact Cursor.apart_advance hrest (by rw [hd]; rfl)
      | succ j =>
        rw [blockLength_dedent hd]
        exact ih j c.advance hlast hnext
    · rw [blockLength_other he hi hd]
      exact ih j c.advance hlast hnext

theorem apart_skip_broken (j : Nat) (c : Cursor) (hl : c.last.kind = .eof) :
    (c.skip (brokenLength j c.rest)).Apart := by
  generalize hrest : c.rest = rest
  induction rest generalizing c j with
  | nil => exact Or.inl (by simp [brokenLength, Cursor.skip, Cursor.kind, Cursor.current, hrest, hl])
  | cons t ts ih =>
    by_cases he : t.kind = .eof
    · rw [brokenLength.eq_def]
      simp only [he]
      exact Or.inl (by simp [Cursor.skip, Cursor.kind, Cursor.current, hrest, he])
    have hnext : c.advance.rest = ts := by simp [Cursor.advance, hrest, he]
    have hlast : c.advance.last.kind = .eof := by rw [c.last_advance, hl]
    by_cases hi : t.kind = .indent
    · rw [brokenLength_indent hi]
      exact ih (j + 1) c.advance hlast hnext
    by_cases hd : t.kind = .dedent
    · rcases j with _ | _ | j
      · rw [brokenLength_outer hd]
        exact Or.inr (Or.inl (by simp [Cursor.skip, Cursor.kind, Cursor.current, hrest, hd]))
      · rw [brokenLength_last hd]
        exact Cursor.apart_advance hrest (by rw [hd]; rfl)
      · rw [brokenLength_dedent hd]
        exact ih (j + 1) c.advance hlast hnext
    by_cases hn : t.kind = .newline
    · cases j with
      | succ j =>
        rw [brokenLength_inner hn]
        exact ih (j + 1) c.advance hlast hnext
      | zero =>
        rw [brokenLength_line hn]
        have hapart : c.advance.Apart := Cursor.apart_advance hrest (by rw [hn]; rfl)
        cases ts with
        | nil => exact hapart
        | cons u us =>
          by_cases hu : u.kind = .indent
          · have hue : u.kind ≠ .eof := by simp [hu]
            rw [leadingBlockLength, if_pos hu, blockLength_indent hu]
            have hblock := apart_skip_block 0 c.advance.advance (by rw [Cursor.last_advance, hlast])
            rwa [show c.advance.advance.rest = us by simp [Cursor.advance, hrest, he, hue]] at hblock
          · rw [leadingBlockLength, if_neg hu]
            exact hapart
    · rw [brokenLength_other he hi hd hn]
      exact ih j c.advance hlast hnext

theorem apart_synchronize (progressed : Bool) {c : Cursor} (hl : c.last.kind = .eof) :
    (synchronize progressed c).Apart := by
  unfold synchronize
  split
  · next hs =>
    simp only [Bool.and_eq_true, Bool.or_eq_true, beq_iff_eq, Cursor.previousKind?,
      Option.map_eq_some_iff] at hs
    right
    right
    rcases hs.2 with ⟨t, ht, hk⟩ | ⟨t, ht, hk⟩
    · exact ⟨t, ht, by rw [hk]; rfl⟩
    · exact ⟨t, ht, by rw [hk]; rfl⟩
  · exact apart_skip_broken 0 c hl

def settled (progressed : Bool) (c : Cursor) : Bool :=
  progressed && (c.previousKind? == some .newline || c.previousKind? == some .dedent)

theorem Out.synchronize {b : Bool} (h : S.Out N d c c') (hb : b = true ↔ c.remaining < N.bound) :
    S.strayed.state (synchronize b c) ∨ S.Beside N d (synchronize b c) (synchronize b c') := by
  obtain ⟨n, done, rest, hat, hend⟩ := h
  have hsettled : settled b c' = settled b c := by
    cases b with
    | false => rfl
    | true =>
      have hprev : c'.previousKind? = c.previousKind? := by
        obtain ⟨t, ht, ht'⟩ := hat.moved (hb.mp rfl)
        rw [Cursor.previousKind?, Cursor.previousKind?, ht, ht']
        rfl
      rw [settled, settled, hprev]
  change S.strayed.state (if settled b c then c else _) ∨
    S.Beside N d (if settled b c then c else _) (if settled b c' then c' else _)
  rw [hsettled]
  by_cases hs : settled b c = true
  · right
    rw [if_pos hs, if_pos hs]
    simp only [settled, Bool.and_eq_true, Bool.or_eq_true, beq_iff_eq] at hs
    exact ⟨done, rest, hat.flat (hb.mp hs.1) hs.2⟩
  · rw [if_neg hs, if_neg hs]
    refine hat.skip_broken fun hw hr => hs ?_
    -- at the end of the window the rule failed right behind a newline
    obtain ⟨hlt, hlast⟩ := hend hw hr
    obtain ⟨w, hw⟩ := Option.ne_none_iff_exists'.mp hw
    have hprev := (hat.place w hw).2.2 hlt
    simp [settled, hb.mpr hlt, Cursor.previousKind?, hprev, hlast]

/-- Recovery gets ahead of where the statement began. -/
theorem Out.synchronize_lt {b b₀ : Bool} {c₀ c₀' : Cursor} (h : S.Out ⟨c₀, c₀'⟩ d c c')
    (hb : b = true ↔ c.remaining < c₀.remaining) (h₀ : S.In b₀ N p c₀ c₀') (he : c₀.kind ≠ .eof)
    (hd : c₀.kind ≠ .dedent) : (Grammar.synchronize b c).remaining < c₀.remaining := by
  obtain ⟨n, done, rest, hat, -⟩ := h
  rcases Nat.lt_or_eq_of_le hat.le_bound with hlt | heq
  · exact Nat.lt_of_le_of_lt (remaining_synchronize_le b c) hlt
  · obtain rfl : c = c₀ := (hat.unmoved heq).1
    obtain rfl : b = false := by simpa using mt hb.mp (Nat.lt_irrefl _)
    obtain ⟨done₀, t, rest₀, hat₀, ht⟩ := h₀.exists_cons he
    rw [← ht] at he hd
    exact remaining_synchronize_lt hat₀.rest_eq he hd

end Seam

end Offside
