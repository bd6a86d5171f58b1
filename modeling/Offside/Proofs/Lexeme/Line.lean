import Offside.Proofs.Lexeme.Spelling
import Offside.Proofs.Scan.Lossless
import Offside.Proofs.Scan.Word

namespace Offside.Lexeme

open Layout (LongQuote)

variable {c d : Char} {cs w : List Char} {n m : Nat}

def OnLine (w : List Char) (n : Nat) : Prop := '\n' ∉ w.take n

theorem OnLine.cons (hd : d ≠ '\n') (h : OnLine w n) : OnLine (d :: w) (n + 1) := by
  rw [OnLine, List.take_succ_cons, List.mem_cons, not_or]
  exact ⟨hd.symm, h⟩

theorem OnLine.zero (w : List Char) : OnLine w 0 := List.not_mem_nil

theorem OnLine.add (h : OnLine w n) (h' : OnLine (w.drop n) m) : OnLine w (n + m) := by
  rw [OnLine, List.take_add, List.mem_append, not_or]
  exact ⟨h, h'⟩

theorem OnLine.takeWhile {p : Char → Bool} (hp : p '\n' = false) (w : List Char) :
    OnLine w (w.takeWhile p).length := by
  rw [OnLine, ← List.prefix_iff_eq_take.mp (List.takeWhile_prefix p)]
  intro hmem
  have hall := List.all_eq_true.mp List.all_takeWhile _ hmem
  rw [hp] at hall
  contradiction

section Numbers

theorem sign_onLine (w : List Char) :
    OnLine w (if w.head? = some '+' ∨ w.head? = some '-' then 1 else 0) := by
  split
  · next hsign =>
    cases w with
    | nil => exact List.not_mem_nil
    | cons d w =>
      refine .cons ?_ (.zero w)
      rcases hsign with hd | hd <;> obtain rfl := Option.some.inj hd <;> decide
  · exact .zero w

theorem exponent?_onLine (h : exponent? w = some n) : OnLine w n := by
  cases w with
  | nil => contradiction
  | cons e w =>
    rw [exponent?_cons] at h
    split at h
    · next he =>
      have hmark : e ≠ '\n' := by rcases he with rfl | rfl <;> decide
      have hsign := sign_onLine w
      dsimp only at h
      generalize (if w.head? = some '+' ∨ w.head? = some '-' then 1 else 0) = sign at h hsign
      split at h
      · contradiction
      · obtain rfl := Option.some.inj h
        rw [Nat.add_assoc, Nat.add_comm 1]
        exact .cons hmark (hsign.add (.takeWhile rfl _))
    · contradiction

theorem fraction?_onLine (h : fraction? w = some n) : OnLine w n := by
  unfold fraction? at h
  split at h
  · next d w =>
    split at h
    · next hd =>
      obtain rfl := Option.some.inj h
      rw [Nat.add_comm 2]
      refine .cons (by decide) (.cons ?_ (.takeWhile rfl w))
      rintro rfl
      contradiction
    · contradiction
  · contradiction

theorem floatTail?_onLine (h : floatTail? w = some n) : OnLine w n := by
  have hwhole : OnLine w (w.takeWhile isDigitOrUnderscore).length := .takeWhile rfl w
  unfold floatTail? at h
  dsimp only at h
  split at h
  · next m hfraction =>
    obtain rfl := Option.some.inj h
    refine (hwhole.add (fraction?_onLine hfraction)).add ?_
    rw [← List.drop_drop]
    cases hexponent : exponent? ((w.drop (w.takeWhile isDigitOrUnderscore).length).drop m) with
    | none => exact .zero _
    | some k => exact exponent?_onLine hexponent
  · obtain ⟨m, hexponent, rfl⟩ := Option.map_eq_some_iff.mp h
    exact hwhole.add (exponent?_onLine hexponent)

theorem radixTail?_onLine (h : radixTail? w = some n) : OnLine w n := by
  unfold radixTail? at h
  split at h
  · contradiction
  · next mark w =>
    split at h
    · contradiction
    · next isDigit hradix =>
      dsimp only at h
      split at h
      · contradiction
      · obtain rfl := Option.some.inj h
        have hmark : mark ≠ '\n' := by
          rintro rfl
          contradiction
        have hfeed : isDigit '\n' = false := (radixDigit?_mark hradix).2.2.2.2
        rw [Nat.add_comm 1]
        exact .cons hmark (.takeWhile (by simp [hfeed]) w)

theorem integerTail_onLine (c : Char) (w : List Char) : OnLine w (integerTail c w) := by
  have hdecimal : OnLine w (w.takeWhile isDigitOrUnderscore).length := .takeWhile rfl w
  unfold integerTail
  dsimp only
  split
  · cases h : radixTail? w with
    | none => exact hdecimal
    | some n => exact radixTail?_onLine h
  · exact hdecimal

end Numbers

/-- A string within a line ends before its line does. -/
theorem shortTail_onLine (q : Char) (w : List Char) : OnLine w (shortTail q w).1 := by
  have hplain {c : Char} {w : List Char} (hc : c ≠ '\\') (h : OnLine w (shortTail q w).1) :
      OnLine (c :: w) (shortTail q (c :: w)).1 := by
    rw [shortTail_cons hc]
    split
    · exact .zero _
    next hfeed =>
    split
    · exact .cons hfeed (.zero w)
    · exact .cons hfeed h
  induction w using List.twoStepInduction with
  | nil => exact .zero _
  | singleton c =>
    by_cases hc : c = '\\'
    · subst hc
      exact .cons (by decide) (.zero _)
    · exact hplain hc (.zero _)
  | cons_cons c d w ih₂ ih =>
    by_cases hc : c = '\\'
    · subst hc
      rw [shortTail]
      split
      · exact .cons (by decide) (.zero _)
      · next hfeed => exact .cons (by decide) (.cons hfeed ih₂)
    · exact hplain hc (ih d)

theorem symbol_onLine (hc : c ≠ '\n') (cs : List Char) :
    OnLine (c :: cs) ((symbol c cs).2 + 1) := by
  unfold symbol
  split
  · next k hk =>
    have hmem : k ∈ Kind.operators := List.mem_of_find?_eq_some hk
    have hstarts : k.spelling.toList <+: c :: cs := List.isPrefixOf_iff_prefix.mp
      (List.find?_some (p := fun k : Kind => k.spelling.toList.isPrefixOf (c :: cs)) hk)
    have hlength : k.spelling.length - 1 + 1 = k.spelling.toList.length := by
      have hpos := List.length_pos_iff.mpr (spelling_ne_nil k hmem)
      rw [String.length_toList] at hpos ⊢
      omega
    rw [OnLine, hlength, ← List.prefix_iff_eq_take.mp hstarts]
    intro hfeed
    have hsymbol := List.all_eq_true.mp (operators_spelling k hmem).1 _ hfeed
    contradiction
  · exact .cons hc (.zero cs)

/-- A string with its quote three times is a long one, and any other ends where a short one does. -/
theorem quotation_cases (c : Char) (q : LongQuote) (cs : List Char) :
    [c, c] <+: cs ∧ (∃ terminated, (quotation c q cs).1 = .longString q terminated) ∧
        2 ≤ (quotation c q cs).2 ∨
      ¬[c, c] <+: cs ∧ (∃ terminated, (quotation c q cs).1 = .string terminated) ∧
        (quotation c q cs).2 = (shortTail c cs).1 := by
  unfold quotation
  split
  · next h => exact Or.inl ⟨List.isPrefixOf_iff_prefix.mp h, ⟨_, rfl⟩, Nat.le_add_left _ _⟩
  · next h => exact Or.inr ⟨fun hp => h (List.isPrefixOf_iff_prefix.mpr hp), ⟨_, rfl⟩, rfl⟩

theorem quotation_onLine (hc : c ≠ '\n') (q : LongQuote) (cs : List Char) :
    (∃ terminated, (quotation c q cs).1 = .longString q terminated) ∨
      OnLine (c :: cs) ((quotation c q cs).2 + 1) := by
  rcases quotation_cases c q cs with ⟨-, hlong, -⟩ | ⟨-, -, hn⟩
  · exact Or.inl hlong
  · rw [hn]
    exact Or.inr (.cons hc (shortTail_onLine c cs))

/-- A lexeme is a continued line or a long string, or it stays on its line. -/
theorem recognise_onLine (hc : c ≠ '\n') (cs : List Char) :
    (recognise c cs).1 = .continuation ∨
      (∃ q terminated, (recognise c cs).1 = .longString q terminated) ∨
      OnLine (c :: cs) ((recognise c cs).2 + 1) := by
  have htoken {n : Nat} (h : OnLine cs n) : OnLine (c :: cs) (n + 1) := .cons hc h
  have hquotation (q : LongQuote) :
      (∃ q' terminated, (quotation c q cs).1 = .longString q' terminated) ∨
        OnLine (c :: cs) ((quotation c q cs).2 + 1) :=
    (quotation_onLine hc q cs).imp_left fun h => ⟨q, h⟩
  unfold recognise
  split
  · exact Or.inr (Or.inr (htoken (.takeWhile rfl cs)))
  split
  · right; right
    unfold number
    split
    · next hfloat => exact htoken (floatTail?_onLine hfloat)
    · exact htoken (integerTail_onLine c cs)
  split
  · exact Or.inr (Or.inr (htoken (.takeWhile rfl cs)))
  split
  · split
    · exact Or.inl rfl
    · exact Or.inr (Or.inr (htoken (.zero cs)))
  split
  · exact Or.inr (Or.inr (htoken (.takeWhile rfl cs)))
  split
  · exact Or.inr (hquotation .double)
  split
  · exact Or.inr (hquotation .single)
  split
  · exact Or.inr (Or.inr (htoken (.zero cs)))
  · exact Or.inr (Or.inr (symbol_onLine hc cs))

/-- A backslash at the end of a line continues it. -/
theorem recognise_continuation (h : (recognise c cs).1 = .continuation) :
    (c :: cs).take ((recognise c cs).2 + 1) = ['\\', '\n'] ∨
      (c :: cs).take ((recognise c cs).2 + 1) = ['\\', '\r', '\n'] := by
  have hpassing := recognise_passing c cs
  rwa [h] at hpassing

/-- What starts with a quote is a string. -/
theorem recognise_quote (q : LongQuote) (cs : List Char) :
    recognise q.mark cs = quotation q.mark q cs := by
  cases q <;> rfl

theorem delimiter_eq (q : LongQuote) : q.delimiter.toList = [q.mark, q.mark, q.mark] := by
  cases q <;> rfl

/-- A text starts with one delimiter only. -/
theorem eq_of_delimiter_prefix {q q' : LongQuote} (h : q.delimiter.toList <+: w)
    (h' : q'.delimiter.toList <+: w) : q = q' := by
  have hlength : q.delimiter.toList.length ≤ q'.delimiter.toList.length := by
    rw [delimiter_eq, delimiter_eq]
    exact Nat.le_refl _
  have hmark := List.prefix_of_prefix_length_le h h' hlength
  revert hmark
  cases q <;> cases q' <;> decide

/-- Only what starts with a quote is read as a long string. -/
theorem recognise_longString_mark {q : LongQuote} {terminated : Bool}
    (h : (recognise c cs).1 = .longString q terminated) : c = q.mark := by
  obtain ⟨q', rfl⟩ : ∃ q' : LongQuote, c = q'.mark :=
    recognise_string_mark (h ▸ rfl : (recognise c cs).1.kind? = some .string)
  rw [recognise_quote] at h
  rcases quotation_cases q'.mark q' cs with ⟨-, ⟨b, hlong⟩, -⟩ | ⟨-, ⟨b, hshort⟩, -⟩
  · rw [hlong] at h
    rw [(Lexeme.longString.inj h).1]
  · rw [hshort] at h
    contradiction

/-- What is read as a long string starts with its delimiter. -/
theorem recognise_longString_prefix {q : LongQuote} {terminated : Bool}
    (h : (recognise c cs).1 = .longString q terminated) :
    q.delimiter.toList <+: (c :: cs).take ((recognise c cs).2 + 1) := by
  obtain rfl := recognise_longString_mark h
  rw [recognise_quote] at h ⊢
  rcases quotation_cases q.mark q cs with ⟨hquotes, -, hn⟩ | ⟨-, ⟨b, hshort⟩, -⟩
  · rw [delimiter_eq, List.take_succ_cons, List.cons_prefix_cons]
    exact ⟨rfl, List.prefix_take_iff.mpr ⟨hquotes, hn⟩⟩
  · rw [hshort] at h
    contradiction

end Offside.Lexeme
