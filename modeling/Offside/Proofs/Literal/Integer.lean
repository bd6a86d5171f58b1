import Mathlib.Data.Nat.Digits.Defs
import Offside.Grammar.Operand
import Offside.Proofs.Literal

namespace Offside

namespace Literal

def IsDigit (radix d : Nat) (c : Char) : Prop :=
  d < radix ∧ (c = Nat.digitChar d ∨ c = (Nat.digitChar d).toUpper)

instance (radix d : Nat) (c : Char) : Decidable (IsDigit radix d c) :=
  inferInstanceAs (Decidable (_ ∧ _))

/-- Digits, the first of which counts most, with underscores anywhere. -/
inductive Digits (radix : Nat) : List Nat → List Char → Prop
  | nil : Digits radix [] []
  | digit {d : Nat} {ds : List Nat} {c : Char} {cs : List Char} (hc : IsDigit radix d c)
      (h : Digits radix ds cs) : Digits radix (d :: ds) (c :: cs)
  | gap {ds : List Nat} {cs : List Char} (h : Digits radix ds cs) : Digits radix ds ('_' :: cs)

/-- The marks behind a zero, and the radix that each stands for. -/
def marks : List (Char × Nat) := [('x', 16), ('X', 16), ('o', 8), ('O', 8), ('b', 2), ('B', 2)]

inductive Spelling : Nat → List Char → Prop
  | decimal {d : Nat} {ds : List Nat} {c : Char} {cs : List Char} (hc : IsDigit 10 d c)
      (h : Digits 10 ds cs) : Spelling (Nat.ofDigits 10 (d :: ds).reverse) (c :: cs)
  | marked {mark : Char} {radix : Nat} {ds : List Nat} {cs : List Char}
      (hmark : (mark, radix) ∈ marks) (h : Digits radix ds cs) (hne : ds ≠ []) :
      Spelling (Nat.ofDigits radix ds.reverse) ('0' :: mark :: cs)

section Characters

variable {radix d : Nat} {c mark : Char}

/-- What holds of the characters for the digits up to a radix, in both cases. -/
theorem IsDigit.elim {P : Nat → Char → Prop} {bound : Nat} (h : IsDigit radix d c)
    (hradix : radix ≤ bound)
    (hall : ∀ d < bound, P d (Nat.digitChar d) ∧ P d (Nat.digitChar d).toUpper) : P d c := by
  obtain ⟨hd, rfl | rfl⟩ := h
  · exact (hall d (Nat.lt_of_lt_of_le hd hradix)).1
  · exact (hall d (Nat.lt_of_lt_of_le hd hradix)).2

theorem IsDigit.decimal (h : IsDigit 10 d c) : c.isDigit = true :=
  h.elim (P := fun _ c => c.isDigit = true) (Nat.le_refl 10) (by decide)

theorem IsDigit.plain (h : IsDigit radix d c) (hradix : radix ≤ 16) : c ≠ '_' ∧ c ≠ '+' :=
  h.elim (P := fun _ c => c ≠ '_' ∧ c ≠ '+') hradix (by decide)

theorem IsDigit.value (h : IsDigit radix d c) (hradix : radix ≤ 16) :
    radixDigitValue? radix c = some d := by
  have hvalue : digitValue? c = some d :=
    h.elim (P := fun d c => digitValue? c = some d) hradix (by decide)
  rw [radixDigitValue?, hvalue, Option.filter_some, if_pos (decide_eq_true h.1)]

theorem marks_radix (h : (mark, radix) ∈ marks) : radix ≤ 16 ∧ mark ≠ '_' := by
  have hall : ∀ m ∈ marks, m.2 ≤ 16 ∧ m.1 ≠ '_' := by decide
  exact hall _ h

/-- A mark admits all digits of its radix. -/
theorem marks_radixDigit? (h : (mark, radix) ∈ marks) :
    ∃ isDigit, Lexeme.radixDigit? mark = some isDigit ∧
      ∀ d c, IsDigit radix d c → isDigit c = true := by
  have hall {bound : Nat} {isDigit : Char → Bool}
      (h : ∀ d < bound, isDigit (Nat.digitChar d) = true ∧ isDigit (Nat.digitChar d).toUpper = true)
      (d : Nat) (c : Char) (hc : IsDigit bound d c) : isDigit c = true :=
    hc.elim (P := fun _ c => isDigit c = true) (Nat.le_refl bound) h
  simp only [marks, List.mem_cons, Prod.mk.injEq, List.not_mem_nil, or_false] at h
  obtain ⟨rfl, rfl⟩ | ⟨rfl, rfl⟩ | ⟨rfl, rfl⟩ | ⟨rfl, rfl⟩ | ⟨rfl, rfl⟩ | ⟨rfl, rfl⟩ := h
  all_goals exact ⟨_, rfl, hall (by decide)⟩

theorem splitRadix_marked (h : (mark, radix) ∈ marks) (cs : List Char) :
    splitRadix ('0' :: mark :: cs) = (radix, cs) := by
  simp only [marks, List.mem_cons, Prod.mk.injEq, List.not_mem_nil, or_false] at h
  obtain ⟨rfl, rfl⟩ | ⟨rfl, rfl⟩ | ⟨rfl, rfl⟩ | ⟨rfl, rfl⟩ | ⟨rfl, rfl⟩ | ⟨rfl, rfl⟩ := h
  all_goals rfl

/-- Where no mark follows the first character, the text is decimal. -/
theorem splitRadix_decimal {cs : List Char} (h : ∀ c ∈ cs, c.isDigit = true) :
    splitRadix cs = (10, cs) := by
  unfold splitRadix
  split
  · next mark cs =>
    have hmark : mark.isDigit = true := h mark (by simp)
    have hne {m : Char} (hm : m.isDigit = false) : mark ≠ m := by
      rintro rfl
      rw [hm] at hmark
      contradiction
    rw [if_neg (not_or.mpr ⟨hne rfl, hne rfl⟩), if_neg (not_or.mpr ⟨hne rfl, hne rfl⟩),
      if_neg (not_or.mpr ⟨hne rfl, hne rfl⟩)]
  · rfl

end Characters

section Values

variable {radix : Nat} {ds : List Nat} {cs : List Char}

theorem Digits.forall_mem (h : Digits radix ds cs) {p : Char → Bool}
    (hdigit : ∀ d c, IsDigit radix d c → p c = true) (hgap : p '_' = true) :
    ∀ c ∈ cs, p c = true := by
  induction h with
  | nil => exact List.forall_mem_nil _
  | digit hc _ ih => exact List.forall_mem_cons.mpr ⟨hdigit _ _ hc, ih⟩
  | gap _ ih => exact List.forall_mem_cons.mpr ⟨hgap, ih⟩

theorem Digits.decimal (h : Digits 10 ds cs) : ∀ c ∈ cs, Lexeme.isDigitOrUnderscore c = true := by
  refine h.forall_mem (fun d c hc => ?_) rfl
  rw [Lexeme.isDigitOrUnderscore, hc.decimal, Bool.true_or]

/-- Without its underscores, a text of digits is one character for each. -/
theorem Digits.filter (h : Digits radix ds cs) (hradix : radix ≤ 16) :
    List.Forall₂ (IsDigit radix) ds (cs.filter (· != '_')) := by
  induction h with
  | nil => exact .nil
  | digit hc _ ih =>
    rw [List.filter_cons_of_pos (by simpa using (hc.plain hradix).1)]
    exact .cons hc ih
  | gap _ ih =>
    rw [List.filter_cons_of_neg (by decide)]
    exact ih

/-- Digits read after a value count below it. -/
theorem digitsValue?_digits (h : List.Forall₂ (IsDigit radix) ds cs) (hradix : radix ≤ 16)
    (value : Nat) : digitsValue? radix value cs =
      some (Nat.ofDigits radix ds.reverse + radix ^ ds.length * value) := by
  induction h generalizing value with
  | nil => simp [digitsValue?]
  | @cons d c ds cs hc _ ih =>
    rw [digitsValue?, hc.value hradix]
    dsimp only
    rw [ih, Nat.ofDigits_reverse_cons, List.length_cons, Nat.pow_succ]
    congr 1
    ring

theorem unsigned?_digits (h : List.Forall₂ (IsDigit radix) ds cs) (hradix : radix ≤ 16)
    (hne : ds ≠ []) : unsigned? radix cs = some (Nat.ofDigits radix ds.reverse) := by
  cases h with
  | nil => exact absurd rfl hne
  | @cons d c ds cs hc hcs =>
    have hvalue := digitsValue?_digits (.cons hc hcs) hradix 0
    rw [unsigned?, if_neg (by simp), hvalue, Nat.mul_zero, Nat.add_zero]
    exact fun rest heq => (hc.plain hradix).2 (List.cons.inj heq).1

/-- What is written comes apart into a radix and the digits of the number. -/
theorem Spelling.unsigned? {n : Nat} {text : List Char} (h : Spelling n text) :
    unsigned? (splitRadix (text.filter (· != '_'))).1 (splitRadix (text.filter (· != '_'))).2 =
      some n := by
  cases h with
  | @decimal d ds c cs hc hds =>
    have hdigits := Digits.digit hc hds
    have hall : ∀ e ∈ (c :: cs).filter (· != '_'), e.isDigit = true := by
      intro e he
      obtain ⟨he, hscore⟩ := List.mem_filter.mp he
      have heither := hdigits.decimal e he
      rw [Lexeme.isDigitOrUnderscore, Bool.or_eq_true] at heither
      exact heither.resolve_right fun heq => bne_iff_ne.mp hscore (beq_iff_eq.mp heq)
    rw [splitRadix_decimal hall]
    exact unsigned?_digits (hdigits.filter (Nat.le_of_ble_eq_true rfl))
      (Nat.le_of_ble_eq_true rfl) (List.cons_ne_nil d ds)
  | @marked mark radix ds cs hmark hds hne =>
    obtain ⟨hradix, hscore⟩ := marks_radix hmark
    have hfilter : ('0' :: mark :: cs).filter (· != '_') = '0' :: mark :: cs.filter (· != '_') := by
      rw [List.filter_cons_of_pos (by decide), List.filter_cons_of_pos (by simpa using hscore)]
    rw [hfilter, splitRadix_marked hmark]
    exact unsigned?_digits (hds.filter hradix) hradix hne

/-- The value of a literal is the number that it spells, if that fits in 64 bits. -/
theorem Spelling.integer? {n : Nat} {text : List Char} (h : Spelling n text) :
    (integer? (String.ofList text)).map UInt64.toNat = if n < 2 ^ 64 then some n else none := by
  rw [Literal.integer?, String.toList_ofList]
  dsimp only
  rw [h.unsigned?, Option.filter_some]
  split
  · next hfits =>
    have hlt : n < 2 ^ 64 := of_decide_eq_true hfits
    rw [if_pos hlt, Option.map_some, Option.map_some, UInt64.toNat_ofNat_of_lt' hlt]
  · next hwide =>
    rw [if_neg fun hlt : n < 2 ^ 64 => hwide (decide_eq_true hlt)]
    rfl

/-- A spelling of a number is a text of an integer token. -/
theorem Spelling.spells {n : Nat} {text : List Char} (h : Spelling n text) :
    Lexeme.Spells .integer text := by
  cases h with
  | decimal hc hds => exact .decimal hc.decimal hds.decimal
  | @marked mark radix ds cs hmark hds hne =>
    obtain ⟨isDigit, hisDigit, hall⟩ := marks_radixDigit? hmark
    refine .radix hisDigit ?_ (hds.forall_mem (fun d c hc => ?_) ?_)
    · rintro rfl
      cases hds
      exact hne rfl
    · rw [hall d c hc, Bool.true_or]
    · exact Bool.or_true _

end Values

end Literal

namespace Scan

variable {k : Kind} {text : List Char}

/-- A lexeme that is a token, on a line of its own: it is the only token, and it covers its text. -/
theorem scan_alone (cfg : Config) (h : Lexeme.Spells k text) (hk : k.lexeme = .token k)
    (hlayout : k.isLayout = false) :
    (scan cfg (String.ofList text ++ "\n")).diagnostics = [] ∧
      (scan cfg (String.ofList text ++ "\n")).tokens =
        [⟨k, String.ofList text, Span.ofNat 0 (Text.byteSize text)⟩,
          .layout .newline (Span.ofNat (Text.byteSize text) (Text.byteSize text + 1)),
          .layout .eof (Span.ofNat (Text.byteSize text + 1) (Text.byteSize text + 1))] := by
  obtain ⟨c, cs, rfl, hspace, hfeed, hmark⟩ := h.exists_cons
  let s : State := .start (String.ofList (c :: cs) ++ "\n")
  have hrest : s.rest = c :: (cs ++ ['\n']) := by
    change (String.ofList (c :: cs) ++ "\n").toList = _
    rw [String.toList_append, String.toList_ofList]
    rfl
  let t : State := (s.flushed.skip (cs.length + 1)).noting k
  have htake : s.flushed.rest.take (cs.length + 1) = c :: cs := by
    change s.rest.take _ = _
    rw [hrest, List.take_succ_cons, List.take_left]
  have hpos : t.pos = Text.byteSize (c :: cs) := by
    change 0 + Text.byteSize (s.flushed.rest.take _) = _
    rw [htake, Nat.zero_add]
  have hbehind : t.rest = ['\n'] := by
    change s.rest.drop _ = _
    rw [hrest, List.drop_succ_cons, List.drop_left]
  have hcontent : t.hasContent = true := by simp [t, State.noting, hlayout]
  -- the first step is the start of the line, the second one the lexeme
  have hstart : step cfg [] s = .next (flush s) s.flushed :=
    step_flush (State.sound_start _) rfl ⟨c, _, hrest, hspace, hfeed, hmark⟩ List.not_mem_nil
  have hlexeme : step cfg [] s.flushed = .next { tokens := [⟨k, String.ofList (c :: cs),
      Span.ofNat 0 (Text.byteSize (c :: cs))⟩] } t := by
    rw [step_lexeme (s := s.flushed) hrest rfl hfeed, h.recognise (Or.inr rfl), hk, ← hpos, ← htake]
    rfl
  have hscan : scan cfg (String.ofList (c :: cs) ++ "\n") = _ :=
    ((Reaches.single hstart).tail hlexeme).run_eq
  rw [hscan, run_lastFeed hbehind rfl rfl rfl hcontent, hpos]
  exact ⟨rfl, rfl⟩

/-- A spelling of a number on a line of its own is scanned as one integer token with that text, and
the rule for operands reads it as an integer literal with the text and the number, or without a value
if the number does not fit in 64 bits. -/
theorem scan_integer (cfg : Config) {n : Nat} (h : Literal.Spelling n text) :
    let size := Text.byteSize text
    let result := scan cfg (String.ofList text ++ "\n")
    result.diagnostics = [] ∧
      result.tokens = [⟨.integer, String.ofList text, Span.ofNat 0 size⟩,
        .layout .newline (Span.ofNat size (size + 1)),
        .layout .eof (Span.ofNat (size + 1) (size + 1))] ∧
      ∃ value, Grammar.primary (.ofTokens result.tokens) =
          .ok (.integer (Span.ofNat 0 size) (String.ofList text) value)
            (Cursor.ofTokens result.tokens).advance ∧
        value.map UInt64.toNat = if n < 2 ^ 64 then some n else none := by
  intro size result
  obtain ⟨hdiagnostics, htokens⟩ := scan_alone cfg h.spells rfl rfl
  refine ⟨hdiagnostics, htokens, Literal.integer? (String.ofList text), ?_, h.integer?⟩
  change Grammar.primary (.ofTokens (scan cfg (String.ofList text ++ "\n")).tokens) = _
  rw [htokens]
  rfl

/-- Underscores, both cases and a leading zero behind a mark. -/
theorem scan_integer_hex :
    let text := ['0', 'X', '_', '0', 'F', '_', 'f']
    let result := scan {} (String.ofList text ++ "\n")
    Literal.Spelling 255 text ∧ result.diagnostics = [] ∧
      result.tokens = [⟨.integer, "0X_0F_f", Span.ofNat 0 7⟩, .layout .newline (Span.ofNat 7 8),
        .layout .eof (Span.ofNat 8 8)] ∧
      ∃ value, Grammar.primary (.ofTokens result.tokens) =
          .ok (.integer (Span.ofNat 0 7) "0X_0F_f" value) (Cursor.ofTokens result.tokens).advance ∧
        value.map UInt64.toNat = some 255 := by
  intro text result
  have hdigits : Literal.Digits 16 [0, 15, 15] ['_', '0', 'F', '_', 'f'] :=
    .gap (.digit (by decide) (.digit (by decide) (.gap (.digit (by decide) .nil))))
  have h : Literal.Spelling 255 text := .marked (by decide) hdigits (by decide)
  exact ⟨h, scan_integer {} h⟩

end Scan

end Offside
