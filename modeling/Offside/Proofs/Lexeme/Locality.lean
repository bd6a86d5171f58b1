import Mathlib.Data.List.Induction
import Mathlib.Tactic.Common
import Offside.Lexeme

namespace Offside.Lexeme

variable {p : Char → Bool} {c : Char} {w v v' : List Char}

theorem takeWhile_append_of_feed (hp : p '\n' = false) (h : '\n' ∈ w) :
    (w ++ v).takeWhile p = w.takeWhile p := by
  induction w with
  | nil => simp at h
  | cons d w ih =>
    by_cases hd : p d = true
    · have hne : '\n' ≠ d := by
        rintro rfl
        simp [hp] at hd
      have hw : '\n' ∈ w := by simpa [hne] using h
      simp [hd, ih hw]
    · simp [hd]

/-- Dropping characters up to a line feed leaves it. -/
theorem feed_mem_drop_takeWhile (hp : p '\n' = false) (h : '\n' ∈ w) :
    '\n' ∈ w.drop (w.takeWhile p).length := by
  induction w with
  | nil => simp at h
  | cons d w ih =>
    by_cases hd : p d = true
    · have hne : '\n' ≠ d := by
        rintro rfl
        simp [hp] at hd
      have hw : '\n' ∈ w := by simpa [hne] using h
      simpa [hd] using ih hw
    · simpa [hd] using h

theorem length_takeWhile_le (p : Char → Bool) (w : List Char) :
    (w.takeWhile p).length ≤ w.length :=
  (List.takeWhile_prefix p).length_le

theorem drop_takeWhile_append (hp : p '\n' = false) (h : '\n' ∈ w) :
    (w ++ v).drop ((w ++ v).takeWhile p).length = w.drop (w.takeWhile p).length ++ v := by
  rw [takeWhile_append_of_feed hp h, List.drop_append_of_le_length (length_takeWhile_le p w)]

theorem word_append (h : '\n' ∈ w) : word c (w ++ v) = word c w := by
  rw [word, word, takeWhile_append_of_feed rfl h]

section Numbers

/-- The sign of an exponent is told by the character after the mark. -/
theorem exponent?_cons (e : Char) (w : List Char) : exponent? (e :: w) =
    if e = 'e' ∨ e = 'E' then
      let sign := if w.head? = some '+' ∨ w.head? = some '-' then 1 else 0
      let digits := ((w.drop sign).takeWhile Char.isDigit).length
      if digits = 0 then none else some (1 + sign + digits)
    else none := by
  cases w with
  | nil => simp [exponent?]
  | cons d w =>
    by_cases hplus : d = '+'
    · subst hplus
      rfl
    · by_cases hminus : d = '-'
      · subst hminus
        rfl
      · simp [exponent?, hplus, hminus]

theorem head?_append_of_feed (h : '\n' ∈ w) : (w ++ v).head? = w.head? := by
  cases w with
  | nil => simp at h
  | cons c w => rfl

theorem exponent?_append (h : '\n' ∈ w) : exponent? (w ++ v) = exponent? w := by
  cases w with
  | nil => simp at h
  | cons e w =>
    rw [List.cons_append, exponent?_cons, exponent?_cons]
    split
    · next he =>
      have hw : '\n' ∈ w := by
        rcases List.mem_cons.mp h with rfl | hw
        · simp at he
        · exact hw
      rw [head?_append_of_feed hw]
      by_cases hsign : w.head? = some '+' ∨ w.head? = some '-'
      · have hmem : '\n' ∈ w.drop 1 := by
          cases w with
          | nil => simp at hw
          | cons d w =>
            simp only [List.head?_cons, Option.some.injEq] at hsign
            rcases hsign with rfl | rfl <;> simpa using hw
        have hlen : 1 ≤ w.length := List.length_pos_of_mem hw
        simp only [if_pos hsign, List.drop_append_of_le_length hlen]
        rw [takeWhile_append_of_feed rfl hmem]
      · simp only [if_neg hsign, List.drop_zero]
        rw [takeWhile_append_of_feed rfl hw]
    · rfl

theorem fraction?_append (h : '\n' ∈ w) : fraction? (w ++ v) = fraction? w := by
  match w with
  | [c] =>
    obtain rfl : '\n' = c := by simpa using h
    rfl
  | c :: d :: w =>
    by_cases hc : c = '.'
    · subst hc
      simp only [List.cons_append, fraction?]
      split
      · next hd =>
        have hw : '\n' ∈ w := by
          rcases List.mem_cons.mp h with h | h
          · simp at h
          · rcases List.mem_cons.mp h with rfl | h
            · simp at hd
            · exact h
        rw [takeWhile_append_of_feed rfl hw]
      · rfl
    · simp [fraction?, hc]

/-- A fraction ends before a line feed. -/
theorem fraction?_le {n : Nat} (hf : fraction? w = some n) : n ≤ w.length ∧ ('\n' ∈ w → '\n' ∈ w.drop n) := by
  unfold fraction? at hf
  split at hf
  · next d w =>
    split at hf
    · next hd =>
      obtain rfl := Option.some.inj hf
      have hle := length_takeWhile_le isDigitOrUnderscore w
      refine ⟨by simp only [List.length_cons]; omega, fun h => ?_⟩
      have hw : '\n' ∈ w := by
        rcases List.mem_cons.mp h with h | h
        · simp at h
        · rcases List.mem_cons.mp h with rfl | h
          · simp at hd
          · exact h
      simpa [Nat.add_comm 2] using feed_mem_drop_takeWhile rfl hw
    · contradiction
  · contradiction

theorem floatTail?_append (h : '\n' ∈ w) : floatTail? (w ++ v) = floatTail? w := by
  have hdrop := drop_takeWhile_append (p := isDigitOrUnderscore) (v := v) rfl h
  have hrest := feed_mem_drop_takeWhile (p := isDigitOrUnderscore) rfl h
  unfold floatTail?
  dsimp only
  rw [hdrop, takeWhile_append_of_feed (p := isDigitOrUnderscore) rfl h]
  generalize w.drop (w.takeWhile isDigitOrUnderscore).length = rest at hrest
  simp only [fraction?_append hrest]
  split
  · next n hn =>
    obtain ⟨hle, hmem⟩ := fraction?_le hn
    rw [List.drop_append_of_le_length hle, exponent?_append (hmem hrest)]
  · rw [exponent?_append hrest]

theorem radixTail?_append (h : '\n' ∈ w) : radixTail? (w ++ v) = radixTail? w := by
  cases w with
  | nil => simp at h
  | cons mark w =>
    simp only [List.cons_append, radixTail?]
    split
    · rfl
    · next isDigit hmark =>
      have hne : '\n' ≠ mark := by
        rintro rfl
        simp [radixDigit?] at hmark
      have hw : '\n' ∈ w := by simpa [hne] using h
      have hfeed : (isDigit '\n' || '\n' == '_') = false := by
        unfold radixDigit? at hmark
        split at hmark
        · obtain rfl := Option.some.inj hmark
          decide
        · split at hmark
          · obtain rfl := Option.some.inj hmark
            decide
          · split at hmark
            · obtain rfl := Option.some.inj hmark
              decide
            · contradiction
      rw [takeWhile_append_of_feed (p := fun c => isDigit c || c == '_') hfeed hw]

theorem integerTail_append (h : '\n' ∈ w) : integerTail c (w ++ v) = integerTail c w := by
  simp only [integerTail, takeWhile_append_of_feed (p := isDigitOrUnderscore) rfl h, radixTail?_append h]

theorem number_append (h : '\n' ∈ w) : number c (w ++ v) = number c w := by
  rw [number, number, floatTail?_append h, integerTail_append h]

end Numbers

section Strings

theorem shortTail_cons {q : Char} (hc : c ≠ '\\') (w : List Char) : shortTail q (c :: w) =
    if c = '\n' then (0, false)
    else if c = q then (1, true)
    else ((shortTail q w).1 + 1, (shortTail q w).2) := by
  cases w <;> simp [shortTail, hc]

theorem longTail_cons {q : Char} (hc : c ≠ '\\') (w : List Char) : longTail q (c :: w) =
    if c = q ∧ [q, q].isPrefixOf w then (3, true)
    else ((longTail q w).1 + 1, (longTail q w).2) := by
  cases w <;> simp [longTail, hc]

theorem shortTail_append {q : Char} (h : '\n' ∈ w) : shortTail q (w ++ v) = shortTail q w := by
  induction w using List.twoStepInduction with
  | nil => simp at h
  | singleton c =>
    obtain rfl : '\n' = c := by simpa using h
    simp [shortTail_cons]
  | cons_cons c d w ih₂ ih =>
    by_cases hc : c = '\\'
    · subst hc
      by_cases hd : d = '\n'
      · simp [shortTail, hd]
      · have hw : '\n' ∈ w := by simpa [Ne.symm hd] using h
        simp [shortTail, hd, ih₂ hw]
    · rw [List.cons_append, shortTail_cons hc, shortTail_cons hc]
      by_cases hfeed : c = '\n'
      · simp [hfeed]
      · have hw : '\n' ∈ d :: w := by
          rcases List.mem_cons.mp h with rfl | hw
          · contradiction
          · exact hw
        rw [ih d hw]

theorem longTail_pos {q : Char} (h : (longTail q w).2 = true) : 3 ≤ (longTail q w).1 := by
  induction w using List.twoStepInduction with
  | nil => simp [longTail] at h
  | singleton c =>
    by_cases hc : c = '\\'
    · simp [longTail, hc] at h
    · simp [longTail_cons hc, longTail] at h
  | cons_cons c d w ih₂ ih =>
    by_cases hc : c = '\\'
    · subst hc
      simp only [longTail] at h ⊢
      have := ih₂ h
      omega
    · rw [longTail_cons hc] at h ⊢
      split at h
      · next hp => simp [hp]
      · next hp =>
        rw [if_neg hp]
        have := ih d h
        dsimp only
        omega

theorem isPrefixOf_append_of_le {p : List Char} (h : p.length ≤ w.length) :
    p.isPrefixOf (w ++ v) = p.isPrefixOf w := by
  rw [Bool.eq_iff_iff, List.isPrefixOf_iff_prefix, List.isPrefixOf_iff_prefix]
  constructor
  · exact fun hp => List.prefix_of_prefix_length_le hp (List.prefix_append w v) h
  · exact fun hp => hp.trans (List.prefix_append w v)

theorem isPrefixOf_append_of_feed {p : List Char} (hp : '\n' ∉ p) (h : '\n' ∈ w) :
    p.isPrefixOf (w ++ v) = p.isPrefixOf w := by
  rcases Nat.le_total p.length w.length with hle | hle
  · exact isPrefixOf_append_of_le hle
  · rw [Bool.eq_iff_iff, List.isPrefixOf_iff_prefix, List.isPrefixOf_iff_prefix]
    constructor
    · intro hpre
      have hw := List.prefix_of_prefix_length_le (List.prefix_append w v) hpre hle
      exact absurd (hw.subset h) hp
    · exact fun hpre => hpre.trans (List.prefix_append w v)

/-- A long string that is closed in a text is closed there whatever stands behind. -/
theorem longTail_append {q : Char} (hn : (longTail q (w ++ v)).1 ≤ w.length)
    (h : (longTail q (w ++ v)).2 = true) : longTail q (w ++ v') = longTail q (w ++ v) := by
  induction w using List.twoStepInduction with
  | nil =>
    have := longTail_pos h
    simp only [List.length_nil] at hn
    omega
  | singleton c =>
    have := longTail_pos h
    simp only [List.length_singleton] at hn
    omega
  | cons_cons c d w ih₂ ih =>
    have hpos := longTail_pos h
    by_cases hc : c = '\\'
    · subst hc
      simp only [List.cons_append, longTail, List.length_cons] at hn h ⊢
      rw [ih₂ (by omega) h]
    · have hlen : 2 ≤ (d :: w).length := by
        simp only [List.length_cons] at hn ⊢
        omega
      have hquotes (u : List Char) : [q, q].isPrefixOf (d :: w ++ u) = [q, q].isPrefixOf (d :: w) :=
        isPrefixOf_append_of_le hlen
      have hstep (u : List Char) : longTail q (c :: d :: w ++ u) =
          if c = q ∧ [q, q].isPrefixOf (d :: w) then (3, true)
          else ((longTail q (d :: w ++ u)).1 + 1, (longTail q (d :: w ++ u)).2) := by
        rw [List.cons_append, longTail_cons hc, hquotes]
      rw [hstep] at hn h
      rw [hstep, hstep]
      split
      · rfl
      · next hp =>
        rw [if_neg hp] at hn h
        rw [ih d (by simpa using hn) h]

/-- An unclosed long string covers all the text. -/
theorem longTail_false {q : Char} (h : (longTail q w).2 = false) : (longTail q w).1 = w.length := by
  induction w using List.twoStepInduction with
  | nil => rfl
  | singleton c =>
    by_cases hc : c = '\\'
    · simp [longTail, hc]
    · simp [longTail_cons hc, longTail]
  | cons_cons c d w ih₂ ih =>
    by_cases hc : c = '\\'
    · subst hc
      simp only [longTail] at h ⊢
      rw [ih₂ h]
      rfl
    · rw [longTail_cons hc] at h ⊢
      split at h
      · contradiction
      · next hp =>
        rw [if_neg hp, ih d h]
        rfl

end Strings

theorem continuation?_append (h : '\n' ∈ w) : continuation? (w ++ v) = continuation? w := by
  match w with
  | [c] =>
    obtain rfl : '\n' = c := by simpa using h
    rfl
  | c :: d :: w =>
    by_cases hc : c = '\n'
    · simp [hc, continuation?]
    · by_cases hr : c = '\r' ∧ d = '\n'
      · simp [hr.1, hr.2, continuation?]
      · simp_all [continuation?]

theorem operator?_append (h : '\n' ∈ w) : operator? (w ++ v) = operator? w := by
  have hfind (ks : List Kind) (hks : ∀ k ∈ ks, '\n' ∉ k.spelling.toList) :
      (ks.find? fun k => k.spelling.toList.isPrefixOf (w ++ v)) =
        ks.find? fun k => k.spelling.toList.isPrefixOf w := by
    induction ks with
    | nil => rfl
    | cons k ks ih =>
      rw [List.find?_cons, List.find?_cons, isPrefixOf_append_of_feed (hks k (by simp)) h,
        ih fun k hk => hks k (by simp [hk])]
  exact hfind Kind.operators (by decide)

theorem symbol_append (h : '\n' ∈ w) : symbol c (w ++ v) = symbol c w := by
  have hmem : '\n' ∈ c :: w := List.mem_cons_of_mem c h
  rw [symbol, symbol, ← List.cons_append, operator?_append hmem]

theorem quotation_append {q : Layout.LongQuote} (hc : c ≠ '\n') (h : '\n' ∈ w)
    (hn : (quotation c q (w ++ v)).2 ≤ w.length)
    (hv : v ≠ [] ∨ (quotation c q (w ++ v)).2 < w.length) :
    quotation c q (w ++ v') = quotation c q (w ++ v) := by
  have hfeed : '\n' ∉ [c, c] := by simpa using Ne.symm hc
  have hquotes (u : List Char) : [c, c].isPrefixOf (w ++ u) = [c, c].isPrefixOf w :=
    isPrefixOf_append_of_feed hfeed h
  unfold quotation at hn hv ⊢
  rw [hquotes] at hn hv
  rw [hquotes, hquotes]
  split at hn
  · next hp =>
    rw [if_pos hp] at hv
    rw [if_pos hp, if_pos hp]
    have hlen : 2 ≤ w.length := (List.isPrefixOf_iff_prefix.mp hp).length_le
    have hdrop (u : List Char) : (w ++ u).drop 2 = w.drop 2 ++ u := List.drop_append_of_le_length hlen
    rw [hdrop] at hn hv
    rw [hdrop, hdrop]
    dsimp only at hn hv ⊢
    cases hclosed : (longTail c (w.drop 2 ++ v)).2 with
    | true =>
      rw [longTail_append (by rw [List.length_drop]; omega) hclosed, hclosed]
    | false =>
      have hall := longTail_false hclosed
      rw [List.length_append, List.length_drop] at hall
      have hnil : v = [] := List.eq_nil_of_length_eq_zero (by omega)
      have := hv.resolve_left (absurd hnil)
      omega
  · next hp =>
    rw [if_neg hp, if_neg hp, shortTail_append h, shortTail_append h]

/-- What is recognised in a text that holds a line feed does not depend on what stands behind it,
but for a long string that may be closed only there. -/
theorem recognise_append (hc : c ≠ '\n') (h : '\n' ∈ w) (hn : (recognise c (w ++ v)).2 ≤ w.length)
    (hv : v ≠ [] ∨ (recognise c (w ++ v)).2 < w.length) :
    recognise c (w ++ v') = recognise c (w ++ v) := by
  unfold recognise at hn hv ⊢
  split
  · rw [word_append h, word_append h]
  rename_i hword
  rw [if_neg hword] at hn hv
  split
  · rw [number_append h, number_append h]
  rename_i hdigit
  rw [if_neg hdigit] at hn hv
  split
  · rw [takeWhile_append_of_feed rfl h, takeWhile_append_of_feed rfl h]
  rename_i hspace
  rw [if_neg hspace] at hn hv
  split
  · rw [continuation?_append h, continuation?_append h]
  rename_i hslash
  rw [if_neg hslash] at hn hv
  split
  · rw [takeWhile_append_of_feed rfl h, takeWhile_append_of_feed rfl h]
  rename_i hhash
  rw [if_neg hhash] at hn hv
  split
  · next hquote =>
    rw [if_pos hquote] at hn hv
    exact quotation_append hc h hn hv
  rename_i hdouble
  rw [if_neg hdouble] at hn hv
  split
  · next hquote =>
    rw [if_pos hquote] at hn hv
    exact quotation_append hc h hn hv
  · rw [symbol_append h, symbol_append h]

end Offside.Lexeme
