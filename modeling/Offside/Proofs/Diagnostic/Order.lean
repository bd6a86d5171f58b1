import Mathlib.Tactic.Common
import Offside.Proofs.Simulation

namespace Offside.Diagnostic

def isBefore (k : Offset) (d : Diagnostic) : Bool := decide (d.span.start < k)

variable {k : Offset} {d : Diagnostic} {ds xs ys : List Diagnostic}

theorem mem_sort : d ∈ sort ds ↔ d ∈ ds := List.mem_mergeSort

/-- A diagnostic goes behind those that stand before it. -/
theorem sort_cons (d : Diagnostic) (ds : List Diagnostic) : sort (d :: ds) =
    (sort ds).takeWhile (isBefore d.span.start) ++
      d :: (sort ds).dropWhile (isBefore d.span.start) := by
  have htrans : ∀ a b c : Diagnostic, decide (a.span.start ≤ b.span.start) = true →
      decide (b.span.start ≤ c.span.start) = true → decide (a.span.start ≤ c.span.start) = true := by
    intro a b c hab hbc
    exact decide_eq_true (UInt32.le_trans (of_decide_eq_true hab) (of_decide_eq_true hbc))
  have htotal : ∀ a b : Diagnostic,
      (decide (a.span.start ≤ b.span.start) || decide (b.span.start ≤ a.span.start)) = true := by
    intro a b
    simpa using UInt32.le_total a.span.start b.span.start
  obtain ⟨xs, ys, hcons, hsort, hxs⟩ := List.mergeSort_cons htrans htotal d ds
  have hsorted := List.pairwise_mergeSort htrans htotal (d :: ds)
  rw [hcons] at hsorted
  have hys := (List.pairwise_cons.mp (List.pairwise_append.mp hsorted).2.1).1
  have hbefore : ∀ b ∈ xs, isBefore d.span.start b = true := by
    intro b hb
    have := hxs b hb
    simpa [isBefore] using this
  have hbehind : ∀ b ∈ ys, isBefore d.span.start b = false := by
    intro b hb
    have := hys b hb
    simpa [isBefore] using this
  have htake : ys.takeWhile (isBefore d.span.start) = [] := by
    cases ys with
    | nil => rfl
    | cons y ys => simp [hbehind y (by simp)]
  have hdrop : ys.dropWhile (isBefore d.span.start) = ys := by
    cases ys with
    | nil => rfl
    | cons y ys => simp [hbehind y (by simp)]
  unfold sort
  rw [hcons, hsort, List.takeWhile_append_of_pos hbefore, List.dropWhile_append_of_pos hbefore,
    htake, hdrop, List.append_nil]

/-- Diagnostics before a position and those from it on are sorted apart. -/
theorem sort_split (k : Offset) (ds : List Diagnostic) :
    sort ds = sort (ds.filter (isBefore k)) ++ sort (ds.filter fun d => !isBefore k d) := by
  induction ds with
  | nil => simp [sort]
  | cons d ds ih =>
    rw [sort_cons, ih]
    have hfirst : ∀ b ∈ sort (ds.filter (isBefore k)), b.span.start < k := by
      intro b hb
      have := (List.mem_filter.mp (mem_sort.mp hb)).2
      exact of_decide_eq_true this
    have hlater : ∀ b ∈ sort (ds.filter fun d => !isBefore k d), k ≤ b.span.start := by
      intro b hb
      have := (List.mem_filter.mp (mem_sort.mp hb)).2
      simpa [isBefore] using this
    generalize hxs : sort (ds.filter (isBefore k)) = xs at *
    generalize hys : sort (ds.filter fun d => !isBefore k d) = ys at *
    by_cases hd : d.span.start < k
    · have hnot : ∀ b ∈ ys, isBefore d.span.start b = false := by
        intro b hb
        exact decide_eq_false (UInt32.not_lt.mpr (UInt32.le_trans (UInt32.le_of_lt hd) (hlater b hb)))
      have hk : isBefore k d = true := decide_eq_true hd
      have htake : (xs ++ ys).takeWhile (isBefore d.span.start) =
          xs.takeWhile (isBefore d.span.start) := by
        rw [List.takeWhile_append]
        split
        · next hlen =>
          have hall : xs.takeWhile (isBefore d.span.start) = xs :=
            (List.takeWhile_prefix _).eq_of_length hlen
          cases ys with
          | nil => rw [hall, List.takeWhile_nil, List.append_nil]
          | cons y ys => rw [hall, List.takeWhile_cons, hnot y (by simp)]; simp
        · rfl
      have hdrop : (xs ++ ys).dropWhile (isBefore d.span.start) =
          xs.dropWhile (isBefore d.span.start) ++ ys := by
        refine List.append_cancel_left (?_ : (xs ++ ys).takeWhile (isBefore d.span.start) ++ _ = _)
        rw [List.takeWhile_append_dropWhile, htake, ← List.append_assoc,
          List.takeWhile_append_dropWhile]
      rw [List.filter_cons_of_pos (by simpa using hk), List.filter_cons_of_neg (by simp [hk]),
        sort_cons, hxs, hys, htake, hdrop]
      simp
    · have hall : ∀ b ∈ xs, isBefore d.span.start b = true := by
        intro b hb
        exact decide_eq_true (UInt32.lt_of_lt_of_le (hfirst b hb) (UInt32.not_lt.mp hd))
      have hk : isBefore k d = false := decide_eq_false hd
      rw [List.filter_cons_of_neg (by simp [hk]), List.filter_cons_of_pos (by simp [hk]), sort_cons,
        hxs, hys, List.takeWhile_append_of_pos hall, List.dropWhile_append_of_pos hall,
        List.append_assoc]

/-- Two batches of diagnostics, each with some before a position and some from it on. -/
theorem sort_parts {xs' ys' : List Diagnostic} (hxs : ∀ d ∈ xs, d.span.start < k)
    (hxs' : ∀ d ∈ xs', d.span.start < k) (hys : ∀ d ∈ ys, k ≤ d.span.start)
    (hys' : ∀ d ∈ ys', k ≤ d.span.start) :
    sort ((xs ++ ys) ++ (xs' ++ ys')) = sort (xs ++ xs') ++ sort (ys ++ ys') := by
  have hpos {as : List Diagnostic} (h : ∀ d ∈ as, d.span.start < k) :
      as.filter (isBefore k) = as ∧ (as.filter fun d => !isBefore k d) = [] := by
    refine ⟨List.filter_eq_self.mpr fun d hd => decide_eq_true (h d hd), ?_⟩
    exact List.filter_eq_nil_iff.mpr fun d hd => by simp [isBefore, h d hd]
  have hneg {as : List Diagnostic} (h : ∀ d ∈ as, k ≤ d.span.start) :
      as.filter (isBefore k) = [] ∧ (as.filter fun d => !isBefore k d) = as := by
    refine ⟨List.filter_eq_nil_iff.mpr fun d hd => by simpa [isBefore] using h d hd, ?_⟩
    exact List.filter_eq_self.mpr fun d hd => by simpa [isBefore] using h d hd
  rw [sort_split k]
  simp only [List.filter_append, (hpos hxs).1, (hpos hxs).2, (hpos hxs').1, (hpos hxs').2,
    (hneg hys).1, (hneg hys).2, (hneg hys').1, (hneg hys').2, List.append_nil, List.nil_append]

/-- Moving diagnostics without changing their order keeps them sorted. -/
theorem sort_relocate {f : Offset → Offset} (hf : ∀ x ∈ ds, ∀ y ∈ ds,
    (x.span.start ≤ y.span.start ↔ f x.span.start ≤ f y.span.start)) :
    sort (relocate f ds) = relocate f (sort ds) := by
  refine (List.map_mergeSort fun x hx y hy => ?_).symm
  exact decide_eq_decide.mpr (hf x hx y hy)

end Offside.Diagnostic
