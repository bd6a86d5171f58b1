import Offside.Proofs.Lexeme.Locality

namespace Offside

namespace Kind

def brackets : List Kind :=
  [.openParen, .openBracket, .openCurly, .closeParen, .closeBracket, .closeCurly]

def lexeme (k : Kind) : Lexeme :=
  match k with
  | .openParen | .openBracket | .openCurly => .opener k
  | .closeParen | .closeBracket | .closeCurly => .closer k
  | .string => .string true
  | _ => .token k

end Kind

namespace Lexeme

inductive Exponent : List Char → Prop
  | mk {mark d : Char} {sign ds : List Char} (hmark : mark = 'e' ∨ mark = 'E')
      (hsign : sign = [] ∨ sign = ['+'] ∨ sign = ['-']) (hd : d.isDigit = true)
      (hds : ∀ c ∈ ds, c.isDigit = true) : Exponent (mark :: (sign ++ d :: ds))

/-- What may stand between two quotes within a line: a backslash hides the character after it. -/
inductive Quoted (quote : Char) : List Char → Prop
  | nil : Quoted quote []
  | plain {c : Char} {cs : List Char} (hquote : c ≠ quote) (hslash : c ≠ '\\') (hfeed : c ≠ '\n')
      (h : Quoted quote cs) : Quoted quote (c :: cs)
  | escape {c : Char} {cs : List Char} (hfeed : c ≠ '\n') (h : Quoted quote cs) :
      Quoted quote ('\\' :: c :: cs)

inductive Spells : Kind → List Char → Prop
  | name {c : Char} {cs : List Char} (hc : isWordStart c = true) (hcs : ∀ d ∈ cs, isWordChar d = true)
      (hfree : ∀ k ∈ Kind.words, k.spelling ≠ String.ofList (c :: cs)) :
      Spells .identifier (c :: cs)
  | word {k : Kind} (h : k ∈ Kind.words) : Spells k k.spelling.toList
  | operator {k : Kind} (h : k ∈ Kind.operators) : Spells k k.spelling.toList
  | bracket {k : Kind} (h : k ∈ Kind.brackets) : Spells k k.spelling.toList
  | decimal {d : Char} {ds : List Char} (hd : d.isDigit = true)
      (hds : ∀ c ∈ ds, isDigitOrUnderscore c = true) : Spells .integer (d :: ds)
  | radix {mark : Char} {isDigit : Char → Bool} {ds : List Char} (hmark : radixDigit? mark = some isDigit)
      (hne : ds ≠ []) (hds : ∀ c ∈ ds, (isDigit c || c == '_') = true) :
      Spells .integer ('0' :: mark :: ds)
  | fraction {d f : Char} {ds fs e : List Char} (hd : d.isDigit = true)
      (hds : ∀ c ∈ ds, isDigitOrUnderscore c = true) (hf : f.isDigit = true)
      (hfs : ∀ c ∈ fs, isDigitOrUnderscore c = true) (he : e = [] ∨ Exponent e) :
      Spells .float (d :: (ds ++ '.' :: f :: (fs ++ e)))
  | exponent {d : Char} {ds e : List Char} (hd : d.isDigit = true)
      (hds : ∀ c ∈ ds, isDigitOrUnderscore c = true) (he : Exponent e) :
      Spells .float (d :: (ds ++ e))
  | string {quote : Char} {cs : List Char} (hquote : quote = '\x22' ∨ quote = '\x27')
      (h : Quoted quote cs) : Spells .string (quote :: (cs ++ [quote]))

/-- What ends a lexeme in a line of lexemes with spaces between them. -/
def EndsLexeme (r : Char) : Prop := r = ' ' ∨ r = '\n'

variable {p : Char → Bool} {c r : Char} {cs v : List Char} {k : Kind}

theorem EndsLexeme.eq_false (h : EndsLexeme r) (hspace : p ' ' = false) (hfeed : p '\n' = false) :
    p r = false := by
  rcases h with rfl | rfl
  · exact hspace
  · exact hfeed

theorem takeWhile_ended (hcs : ∀ d ∈ cs, p d = true) (hr : p r = false) :
    (cs ++ r :: v).takeWhile p = cs := by
  rw [List.takeWhile_append_of_pos hcs, List.takeWhile_cons, hr]
  exact List.append_nil cs

section Words

theorem recognise_word (hc : isWordStart c = true) (hcs : ∀ d ∈ cs, isWordChar d = true)
    (hr : EndsLexeme r) : recognise c (cs ++ r :: v) =
      (.token ((Kind.ofWord? (String.ofList (c :: cs))).getD .identifier), cs.length) := by
  have hend : isWordChar r = false := hr.eq_false rfl rfl
  rw [recognise, if_pos hc, word, takeWhile_ended hcs hend]

theorem words_spelling : ∀ k ∈ Kind.words, k.spelling.toList.head?.all isWordStart = true ∧
    k.spelling.toList.tail.all isWordChar = true ∧ Kind.ofWord? k.spelling = some k ∧
      k.lexeme = .token k := by
  decide

theorem recognise_reserved (hk : k ∈ Kind.words) (hspell : k.spelling.toList = c :: cs)
    (hr : EndsLexeme r) : recognise c (cs ++ r :: v) = (k.lexeme, cs.length) := by
  obtain ⟨hc, hcs, hword, hlexeme⟩ := words_spelling k hk
  rw [hspell] at hc hcs
  rw [List.tail_cons] at hcs
  have htext : String.ofList (c :: cs) = k.spelling := by rw [← hspell, String.ofList_toList]
  rw [recognise_word hc (List.all_eq_true.mp hcs) hr, htext, hword, hlexeme]
  rfl

theorem recognise_name (hc : isWordStart c = true) (hcs : ∀ d ∈ cs, isWordChar d = true)
    (hfree : ∀ k ∈ Kind.words, k.spelling ≠ String.ofList (c :: cs)) (hr : EndsLexeme r) :
    recognise c (cs ++ r :: v) = (.token .identifier, cs.length) := by
  have hnone : Kind.ofWord? (String.ofList (c :: cs)) = none :=
    List.find?_eq_none.mpr fun k hk => by simpa using hfree k hk
  rw [recognise_word hc hcs hr, hnone]
  rfl

end Words

section Symbols

/-- Characters that no other lexeme than an operator or a bracket starts with. -/
def isSymbol (c : Char) : Bool :=
  !isWordStart c && !c.isDigit && !Layout.isSpace c && c != '\n' && c != '\\' && c != '#' &&
    c != '\x22' && c != '\x27'

theorem recognise_symbol (h : isSymbol c = true) : recognise c cs =
    match bracket? c with
    | some lexeme => (lexeme, 0)
    | none => symbol c cs := by
  simp only [isSymbol, Bool.and_eq_true, Bool.not_eq_true', bne_iff_ne] at h
  obtain ⟨⟨⟨⟨⟨⟨⟨hword, hdigit⟩, hspace⟩, -⟩, hslash⟩, hhash⟩, hdouble⟩, hsingle⟩ := h
  rw [recognise, hword, hdigit, hspace, if_neg hslash, if_neg hhash, if_neg hdouble, if_neg hsingle]
  rfl

theorem operators_spelling : ∀ k ∈ Kind.operators,
    k.spelling.toList.all (fun c => isSymbol c && bracket? c == none) = true ∧
      operator? k.spelling.toList = some k ∧ k.lexeme = .token k := by
  decide

theorem isPrefixOf_ended {s t : List Char} (h : r ∉ s) :
    s.isPrefixOf (t ++ r :: v) = s.isPrefixOf t := by
  induction s generalizing t with
  | nil => simp
  | cons d s ih =>
    have hd : d ≠ r := fun heq => h (heq ▸ List.mem_cons_self)
    have hs : r ∉ s := fun hmem => h (List.mem_cons_of_mem d hmem)
    cases t with
    | nil => simp [List.isPrefixOf, hd]
    | cons e t => rw [List.cons_append, List.isPrefixOf, List.isPrefixOf, ih hs]

/-- The longest operator is looked for in front of a space or a line feed only. -/
theorem operator?_ended {t : List Char} (hr : EndsLexeme r) : operator? (t ++ r :: v) = operator? t := by
  have hnone : ∀ k ∈ Kind.operators, r ∉ k.spelling.toList := by
    intro k hk hmem
    have hsymbol := List.all_eq_true.mp (operators_spelling k hk).1 r hmem
    have hother : isSymbol r = false := hr.eq_false rfl rfl
    rw [hother] at hsymbol
    contradiction
  unfold operator?
  generalize Kind.operators = ks at hnone
  induction ks with
  | nil => rfl
  | cons k ks ih =>
    rw [List.find?_cons, List.find?_cons, isPrefixOf_ended (hnone k List.mem_cons_self),
      ih fun k hk => hnone k (List.mem_cons_of_mem _ hk)]

theorem recognise_operator (hk : k ∈ Kind.operators) (hspell : k.spelling.toList = c :: cs)
    (hr : EndsLexeme r) : recognise c (cs ++ r :: v) = (k.lexeme, cs.length) := by
  obtain ⟨hchars, hoperator, hlexeme⟩ := operators_spelling k hk
  rw [hspell] at hchars hoperator
  have hfirst := List.all_eq_true.mp hchars c List.mem_cons_self
  rw [Bool.and_eq_true, beq_iff_eq] at hfirst
  have hlength : k.spelling.length = cs.length + 1 := by
    rw [← String.length_toList, hspell, List.length_cons]
  rw [recognise_symbol hfirst.1, hfirst.2, hlexeme]
  dsimp only
  rw [symbol, ← List.cons_append, operator?_ended hr, hoperator]
  simp [hlength]

theorem brackets_spelling : ∀ k ∈ Kind.brackets, k.spelling.toList.length = 1 ∧
    k.spelling.toList.all (fun c => isSymbol c && bracket? c == some k.lexeme) = true := by
  decide

theorem recognise_bracket (hk : k ∈ Kind.brackets) (hspell : k.spelling.toList = c :: cs) :
    recognise c (cs ++ v) = (k.lexeme, cs.length) := by
  obtain ⟨hlength, hchars⟩ := brackets_spelling k hk
  rw [hspell] at hlength hchars
  have hfirst := List.all_eq_true.mp hchars c List.mem_cons_self
  rw [Bool.and_eq_true, beq_iff_eq] at hfirst
  rw [recognise_symbol hfirst.1, hfirst.2, Nat.succ.inj hlength]

end Symbols

section Numbers

variable {d : Char} {ds e : List Char}

theorem isWordStart_digit (hd : d.isDigit = true) : isWordStart d = false := by
  have hscore : d ≠ '_' := by
    rintro rfl
    contradiction
  delta isWordStart Char.isAlpha Char.isUpper Char.isLower
  simp only [Char.isDigit, Bool.and_eq_true, decide_eq_true_eq, Bool.or_eq_false_iff,
    beq_eq_false_iff_ne, Bool.and_eq_false_iff, decide_eq_false_iff_not, UInt32.le_iff_toNat_le,
    ge_iff_le] at hd ⊢
  change 48 ≤ d.toNat ∧ d.toNat ≤ 57 at hd
  change (¬(65 ≤ d.toNat ∧ d.toNat ≤ 90) ∧ (¬97 ≤ d.toNat ∨ ¬d.toNat ≤ 122)) ∧ d ≠ '_'
  exact ⟨⟨by omega, by omega⟩, hscore⟩

theorem recognise_digit (hd : d.isDigit = true) : recognise d cs = number d cs := by
  rw [recognise, isWordStart_digit hd, hd]
  rfl

theorem Exponent.ne_point (he : Exponent e) : ∃ mark t, e = mark :: t ∧ isDigitOrUnderscore mark = false ∧
    mark ≠ '.' := by
  cases he with
  | mk hmark _ _ _ => rcases hmark with rfl | rfl <;> exact ⟨_, _, rfl, rfl, by decide⟩

theorem exponent?_ended (he : Exponent e) (hr : EndsLexeme r) :
    exponent? (e ++ r :: v) = some e.length := by
  cases he with
  | @mk mark d sign ds hmark hsign hd hds =>
    have hend : r.isDigit = false := hr.eq_false rfl rfl
    have hdigits : ((d :: ds) ++ r :: v).takeWhile Char.isDigit = d :: ds :=
      takeWhile_ended (List.forall_mem_cons.mpr ⟨hd, hds⟩) hend
    rw [List.cons_append, exponent?_cons, if_pos hmark, List.append_assoc]
    rcases hsign with rfl | rfl | rfl
    · have hplain : ¬(d = '+' ∨ d = '-') := by
        rintro (rfl | rfl) <;> contradiction
      simp only [List.nil_append, List.cons_append, List.head?_cons, Option.some.injEq, if_neg hplain,
        List.drop_zero]
      rw [← List.cons_append, hdigits]
      simp [Nat.add_comm]
    · simp only [List.cons_append, List.nil_append, List.head?_cons, true_or, if_true, List.drop_one,
        List.tail_cons]
      rw [← List.cons_append, hdigits]
      simp
      omega
    · simp only [List.cons_append, List.nil_append, List.head?_cons, or_true, if_true, List.drop_one,
        List.tail_cons]
      rw [← List.cons_append, hdigits]
      simp
      omega

/-- What comes behind the digits of a number that ends there is neither a fraction nor an exponent. -/
theorem fraction?_ended (hr : EndsLexeme r) : fraction? (r :: v) = none ∧ exponent? (r :: v) = none := by
  rcases hr with rfl | rfl <;> exact ⟨rfl, rfl⟩

theorem radixDigit?_digit (h : isDigitOrUnderscore c = true) : radixDigit? c = none := by
  have hne {m : Char} (hm : isDigitOrUnderscore m = false) : c ≠ m := by
    rintro rfl
    rw [hm] at h
    contradiction
  rw [radixDigit?, if_neg (not_or.mpr ⟨hne rfl, hne rfl⟩), if_neg (not_or.mpr ⟨hne rfl, hne rfl⟩),
    if_neg (not_or.mpr ⟨hne rfl, hne rfl⟩)]

theorem recognise_decimal (hd : d.isDigit = true) (hds : ∀ c ∈ ds, isDigitOrUnderscore c = true)
    (hr : EndsLexeme r) : recognise d (ds ++ r :: v) = (.token .integer, ds.length) := by
  have hend : isDigitOrUnderscore r = false := hr.eq_false rfl rfl
  obtain ⟨hfraction, hexponent⟩ := fraction?_ended hr (v := v)
  have hradix : radixTail? (ds ++ r :: v) = none := by
    cases ds with
    | nil => rcases hr with rfl | rfl <;> rfl
    | cons c ds =>
      rw [List.cons_append, radixTail?, radixDigit?_digit (hds c List.mem_cons_self)]
  have hfloat : floatTail? (ds ++ r :: v) = none := by
    simp only [floatTail?, takeWhile_ended hds hend, List.drop_left, hfraction, hexponent, Option.map_none]
  rw [recognise_digit hd, number, hfloat]
  simp only [integerTail, takeWhile_ended hds hend, hradix, Option.getD_none, ite_self]

/-- A radix mark is neither a digit nor the mark of a fraction or an exponent. -/
theorem radixDigit?_mark {isDigit : Char → Bool} (h : radixDigit? c = some isDigit) :
    isDigitOrUnderscore c = false ∧ c ≠ '.' ∧ ¬(c = 'e' ∨ c = 'E') ∧ isDigit ' ' = false ∧
      isDigit '\n' = false := by
  unfold radixDigit? at h
  split at h
  · next hx =>
    obtain rfl := Option.some.inj h
    rcases hx with rfl | rfl <;> decide
  split at h
  · next ho =>
    obtain rfl := Option.some.inj h
    rcases ho with rfl | rfl <;> decide
  split at h
  · next hb =>
    obtain rfl := Option.some.inj h
    rcases hb with rfl | rfl <;> decide
  · contradiction

theorem recognise_radix {isDigit : Char → Bool} (hmark : radixDigit? c = some isDigit) (hne : ds ≠ [])
    (hds : ∀ c ∈ ds, (isDigit c || c == '_') = true) (hr : EndsLexeme r) :
    recognise '0' (c :: ds ++ r :: v) = (.token .integer, (c :: ds).length) := by
  obtain ⟨hdigit, hpoint, hexponent, hspace, hfeed⟩ := radixDigit?_mark hmark
  have hend : (isDigit r || r == '_') = false := by
    rcases hr with rfl | rfl
    · rw [hspace]
      rfl
    · rw [hfeed]
      rfl
  have hfloat : floatTail? (c :: ds ++ r :: v) = none := by
    have hfraction : fraction? (c :: ds ++ r :: v) = none := by simp [fraction?, hpoint]
    have hnone : exponent? (c :: ds ++ r :: v) = none := by
      rw [List.cons_append, exponent?_cons, if_neg hexponent]
    have hwhole : (c :: ds ++ r :: v).takeWhile isDigitOrUnderscore = [] := by
      rw [List.cons_append, List.takeWhile_cons, hdigit]
      rfl
    simp only [floatTail?, hwhole, List.length_nil, List.drop_zero, hfraction, hnone, Option.map_none]
  have hlength : ds.length ≠ 0 := fun h => hne (List.eq_nil_of_length_eq_zero h)
  rw [recognise_digit rfl, number, hfloat]
  simp only [integerTail, if_true, List.cons_append, radixTail?, hmark, takeWhile_ended hds hend,
    if_neg hlength, Option.getD_some, List.length_cons, Nat.add_comm]

theorem recognise_exponent (hd : d.isDigit = true) (hds : ∀ c ∈ ds, isDigitOrUnderscore c = true)
    (he : Exponent e) (hr : EndsLexeme r) :
    recognise d (ds ++ e ++ r :: v) = (.token .float, (ds ++ e).length) := by
  obtain ⟨mark, t, rfl, hmark, hpoint⟩ := he.ne_point
  have hwhole : (ds ++ (mark :: t ++ r :: v)).takeWhile isDigitOrUnderscore = ds :=
    takeWhile_ended hds hmark
  have hfraction : fraction? (mark :: t ++ r :: v) = none := by simp [fraction?, hpoint]
  rw [recognise_digit hd, number, List.append_assoc]
  simp only [floatTail?, hwhole, List.drop_left, hfraction, exponent?_ended he hr, Option.map_some,
    List.length_append]

theorem recognise_fraction {f : Char} {fs : List Char} (hd : d.isDigit = true)
    (hds : ∀ c ∈ ds, isDigitOrUnderscore c = true) (hf : f.isDigit = true)
    (hfs : ∀ c ∈ fs, isDigitOrUnderscore c = true) (he : e = [] ∨ Exponent e) (hr : EndsLexeme r) :
    recognise d (ds ++ '.' :: f :: (fs ++ e) ++ r :: v) =
      (.token .float, (ds ++ '.' :: f :: (fs ++ e)).length) := by
  have hwhole : (ds ++ ('.' :: f :: (fs ++ e ++ r :: v))).takeWhile isDigitOrUnderscore = ds :=
    takeWhile_ended hds rfl
  -- the digits behind the point end with an exponent or with the number
  have hdigits : (fs ++ e ++ r :: v).takeWhile isDigitOrUnderscore = fs := by
    rcases he with rfl | he
    · rw [List.append_nil, takeWhile_ended hfs (hr.eq_false rfl rfl)]
    · obtain ⟨mark, t, rfl, hmark, -⟩ := he.ne_point
      rw [List.append_assoc]
      exact takeWhile_ended hfs hmark
  have hfraction : fraction? ('.' :: f :: (fs ++ e ++ r :: v)) = some (2 + fs.length) := by
    rw [fraction?, if_pos hf, hdigits]
  have hexponent : (exponent? (e ++ r :: v)).getD 0 = e.length := by
    rcases he with rfl | he
    · rw [List.nil_append, (fraction?_ended hr).2]
      rfl
    · rw [exponent?_ended he hr]
      rfl
  have hdrop : ('.' :: f :: (fs ++ e ++ r :: v)).drop (2 + fs.length) = e ++ r :: v := by
    rw [Nat.add_comm, List.drop_succ_cons, List.drop_succ_cons, List.append_assoc, List.drop_left]
  rw [recognise_digit hd, number, List.append_assoc, List.cons_append, List.cons_append]
  simp only [floatTail?, hwhole, List.drop_left, hfraction, hdrop, hexponent]
  simp
  omega

end Numbers

section Strings

variable {quote : Char}

theorem shortTail_quoted (hquote : quote ≠ '\n') (hslash : quote ≠ '\\') (h : Quoted quote cs) :
    shortTail quote (cs ++ quote :: v) = (cs.length + 1, true) := by
  induction h with
  | nil => simp [shortTail, hquote, hslash]
  | plain hq hs hf _ ih => simp [shortTail, hq, hs, hf, ih]
  | escape hf _ ih => simp [shortTail, hf, ih]

theorem quotation_quoted (q : Layout.LongQuote) (hfeed : quote ≠ '\n') (hslash : quote ≠ '\\')
    (hspace : quote ≠ ' ') (h : Quoted quote cs) (hr : EndsLexeme r) :
    quotation quote q (cs ++ quote :: r :: v) = (.string true, cs.length + 1) := by
  have hend : r ≠ quote := by
    rcases hr with rfl | rfl
    · exact hspace.symm
    · exact hfeed.symm
  -- no third quote follows: the string is not a long one
  have hshort : [quote, quote].isPrefixOf (cs ++ quote :: r :: v) = false := by
    cases h with
    | nil => simp [List.isPrefixOf, hend.symm]
    | plain hq _ _ _ => simp [List.isPrefixOf, hq.symm]
    | escape _ _ => simp [List.isPrefixOf, hslash]
  rw [quotation, hshort, shortTail_quoted hfeed hslash h]
  rfl

theorem recognise_quoted (hquote : quote = '\x22' ∨ quote = '\x27') (h : Quoted quote cs)
    (hr : EndsLexeme r) :
    recognise quote (cs ++ quote :: r :: v) = (.string true, cs.length + 1) := by
  rcases hquote with rfl | rfl
  · exact quotation_quoted .double (by decide) (by decide) (by decide) h hr
  · exact quotation_quoted .single (by decide) (by decide) (by decide) h hr

end Strings

/-- A text of a kind is recognised as a whole, and as that kind. -/
theorem Spells.recognise (h : Spells k (c :: cs)) (hr : EndsLexeme r) :
    recognise c (cs ++ r :: v) = (k.lexeme, cs.length) := by
  generalize ht : c :: cs = text at h
  cases h with
  | name hc hcs hfree =>
    obtain ⟨rfl, rfl⟩ := List.cons.inj ht
    exact recognise_name hc hcs hfree hr
  | word hk => exact recognise_reserved hk ht.symm hr
  | operator hk => exact recognise_operator hk ht.symm hr
  | bracket hk => exact recognise_bracket hk ht.symm
  | decimal hd hds =>
    obtain ⟨rfl, rfl⟩ := List.cons.inj ht
    exact recognise_decimal hd hds hr
  | radix hmark hne hds =>
    obtain ⟨rfl, rfl⟩ := List.cons.inj ht
    exact recognise_radix hmark hne hds hr
  | fraction hd hds hf hfs he =>
    obtain ⟨rfl, rfl⟩ := List.cons.inj ht
    exact recognise_fraction hd hds hf hfs he hr
  | exponent hd hds he =>
    obtain ⟨rfl, rfl⟩ := List.cons.inj ht
    exact recognise_exponent hd hds he hr
  | @string quote cs' hquote hcs =>
    obtain ⟨rfl, rfl⟩ := List.cons.inj ht
    rw [List.append_assoc, List.length_append]
    exact recognise_quoted hquote hcs hr

/-- Blanks are one lexeme. -/
theorem recognise_blank (hc : Layout.isSpace c = true) :
    recognise c cs = (.space, (cs.takeWhile Layout.isSpace).length) := by
  have hother : isWordStart c = false ∧ c.isDigit = false := by
    simp only [Layout.isSpace, Layout.isIndent, Bool.or_eq_true, beq_iff_eq] at hc
    rcases hc with ((rfl | rfl) | rfl) | rfl <;> decide
  rw [recognise, hother.1, hother.2, hc]
  rfl

theorem flush_of (hc : p c = true) (hp : [' ', '\t', '\x0c', '\r', '\n', '#'].any p = false) :
    Layout.isSpace c = false ∧ c ≠ '\n' ∧ c ≠ '#' := by
  have hne {d : Char} (hd : d ∈ [' ', '\t', '\x0c', '\r', '\n', '#']) : c ≠ d := by
    rintro rfl
    exact List.any_eq_false.mp hp c hd hc
  refine ⟨?_, hne (by simp), hne (by simp)⟩
  have hspace : c ≠ ' ' := hne (by simp)
  have htab : c ≠ '\t' := hne (by simp)
  have hform : c ≠ '\x0c' := hne (by simp)
  have hreturn : c ≠ '\r' := hne (by simp)
  simp [Layout.isSpace, Layout.isIndent, hspace, htab, hform, hreturn]

/-- A text of a kind is not empty, and no blank, line end or comment stands at its start. -/
theorem Spells.exists_cons {text : List Char} (h : Spells k text) : ∃ c cs, text = c :: cs ∧
    Layout.isSpace c = false ∧ c ≠ '\n' ∧ c ≠ '#' := by
  have hfixed (hk : k ∈ Kind.words ∨ k ∈ Kind.operators ∨ k ∈ Kind.brackets) :
      ∃ c cs, k.spelling.toList = c :: cs ∧ Layout.isSpace c = false ∧ c ≠ '\n' ∧ c ≠ '#' := by
    have hall : ∀ k ∈ Kind.words ++ (Kind.operators ++ Kind.brackets), k.spelling.toList ≠ [] ∧
        k.spelling.toList.head?.all (fun c => isWordStart c || isSymbol c) = true := by decide
    obtain ⟨hne, hhead⟩ := hall k (by simpa using hk)
    obtain ⟨c, cs, hspell⟩ := List.exists_cons_of_ne_nil hne
    rw [hspell] at hhead
    refine ⟨c, cs, hspell, ?_⟩
    rcases Bool.or_eq_true_iff.mp hhead with hc | hc
    · exact flush_of hc (by decide)
    · exact flush_of hc (by decide)
  cases h with
  | name hc => exact ⟨_, _, rfl, flush_of hc (by decide)⟩
  | word hk => exact hfixed (Or.inl hk)
  | operator hk => exact hfixed (Or.inr (Or.inl hk))
  | bracket hk => exact hfixed (Or.inr (Or.inr hk))
  | decimal hd => exact ⟨_, _, rfl, flush_of hd (by decide)⟩
  | radix => exact ⟨_, _, rfl, by decide⟩
  | fraction hd => exact ⟨_, _, rfl, flush_of hd (by decide)⟩
  | exponent hd => exact ⟨_, _, rfl, flush_of hd (by decide)⟩
  | string hquote => rcases hquote with rfl | rfl <;> exact ⟨_, _, rfl, by decide⟩

end Lexeme

end Offside
