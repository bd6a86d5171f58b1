import Offside.Proofs.Literal

namespace Offside

open Layout (LongQuote)

namespace QuoteStyle

variable {delimiter body cs : List Char} {c : Char}

/-- Text in which each backslash hides a character. -/
inductive Paired : List Char → Prop
  | nil : Paired []
  | plain {c : Char} {cs : List Char} (hslash : c ≠ '\\') (h : Paired cs) : Paired (c :: cs)
  | escape {c : Char} {cs : List Char} (h : Paired cs) : Paired ('\\' :: c :: cs)

/-- What stands behind the opening quotes of an unclosed literal. The delimiter is hidden by a backslash
wherever it stands, and the last backslash may have nothing to hide. -/
inductive Unclosed (delimiter : List Char) : List Char → Prop
  | nil : Unclosed delimiter []
  | slash : Unclosed delimiter ['\\']
  | plain {c : Char} {cs : List Char} (hslash : c ≠ '\\') (hopen : ¬delimiter <+: c :: cs)
      (h : Unclosed delimiter cs) : Unclosed delimiter (c :: cs)
  | escape {c : Char} {cs : List Char} (h : Unclosed delimiter cs) : Unclosed delimiter ('\\' :: c :: cs)

/-- How the text behind the opening quotes of a literal ends: with the delimiter, or without having been
closed. -/
inductive Ends (delimiter : List Char) : Bool → List Char → Prop
  | closed (inner : List Char) : Ends delimiter true (inner ++ delimiter)
  | unclosed {body : List Char} (h : Unclosed delimiter body) : Ends delimiter false body

theorem Ends.plain {terminated : Bool} (h : Ends delimiter terminated body) (hslash : c ≠ '\\')
    (hopen : ¬delimiter <+: c :: body) : Ends delimiter terminated (c :: body) := by
  cases h with
  | closed inner => exact .closed (c :: inner)
  | unclosed h => exact .unclosed (.plain hslash hopen h)

theorem Ends.escape {terminated : Bool} (h : Ends delimiter terminated body) (c : Char) :
    Ends delimiter terminated ('\\' :: c :: body) := by
  cases h with
  | closed inner => exact .closed ('\\' :: c :: inner)
  | unclosed h => exact .unclosed (.escape h)

theorem Paired.tail (h : Paired (c :: cs)) (hc : c ≠ '\\') : Paired cs := by
  cases h with
  | plain _ h => exact h
  | escape h => exact absurd rfl hc

theorem Paired.behind (h : Paired ('\\' :: c :: cs)) : Paired cs := by
  cases h with
  | plain hslash _ => exact absurd rfl hslash
  | escape h => exact h

/-- Where an unclosed literal ends with the delimiter, a backslash stands before that. -/
theorem Unclosed.exists_front (h : Unclosed delimiter body) (hne : delimiter ≠ [])
    (hslash : '\\' ∉ delimiter) (hend : delimiter <:+ body) :
    ∃ front, Paired front ∧ body = front ++ '\\' :: delimiter := by
  induction h with
  | nil => exact absurd (List.suffix_nil.mp hend) hne
  | slash =>
    rcases List.suffix_cons_iff.mp hend with rfl | hend
    · exact absurd (List.mem_singleton.mpr rfl) hslash
    · exact absurd (List.suffix_nil.mp hend) hne
  | plain hc hopen _ ih =>
    rcases List.suffix_cons_iff.mp hend with rfl | hend
    · exact absurd (List.prefix_refl _) hopen
    · obtain ⟨front, hfront, rfl⟩ := ih hend
      exact ⟨_ :: front, .plain hc hfront, rfl⟩
  | escape _ ih =>
    rcases List.suffix_cons_iff.mp hend with rfl | hend
    · exact absurd List.mem_cons_self hslash
    rcases List.suffix_cons_iff.mp hend with rfl | hend
    · exact ⟨[], .nil, rfl⟩
    · obtain ⟨front, hfront, rfl⟩ := ih hend
      exact ⟨_ :: _ :: front, .escape hfront, rfl⟩

theorem delimiter_ne_nil (style : QuoteStyle) : style.delimiter ≠ [] := by
  unfold delimiter
  split <;> exact List.cons_ne_nil _ _

theorem slash_notMem_delimiter (style : QuoteStyle) : '\\' ∉ style.delimiter := by
  have hmark : '\\' ≠ style.mark := (mark_ne (by decide) (by decide)).symm
  unfold delimiter
  split <;> simp [hmark]

section Scanned

open Lexeme

variable {q : Char}

/-- A string within a line ends with its quote, or unclosed. -/
theorem shortTail_ends (q : Char) (w : List Char) :
    Ends [q] (shortTail q w).2 (w.take (shortTail q w).1) := by
  have hplain {c : Char} {w : List Char} (hc : c ≠ '\\')
      (ih : Ends [q] (shortTail q w).2 (w.take (shortTail q w).1)) :
      Ends [q] (shortTail q (c :: w)).2 ((c :: w).take (shortTail q (c :: w)).1) := by
    rw [shortTail_cons hc]
    split
    · exact .unclosed .nil
    split
    · next hquote => exact hquote ▸ .closed []
    · next hquote => exact ih.plain hc (by simp [Ne.symm hquote])
  induction w using List.twoStepInduction with
  | nil => exact .unclosed .nil
  | singleton c =>
    by_cases hc : c = '\\'
    · subst hc
      exact .unclosed .slash
    · exact hplain hc (.unclosed .nil)
  | cons_cons c d w ih₂ ih =>
    by_cases hc : c = '\\'
    · subst hc
      rw [shortTail]
      split
      · exact .unclosed .slash
      · exact ih₂.escape d
    · exact hplain hc (ih d)

/-- A string over lines ends with its quote three times, or unclosed. -/
theorem longTail_ends (q : Char) (w : List Char) :
    Ends [q, q, q] (longTail q w).2 (w.take (longTail q w).1) := by
  have hplain {c : Char} {w : List Char} (hc : c ≠ '\\')
      (ih : Ends [q, q, q] (longTail q w).2 (w.take (longTail q w).1)) :
      Ends [q, q, q] (longTail q (c :: w)).2 ((c :: w).take (longTail q (c :: w)).1) := by
    rw [longTail_cons hc]
    split
    · next hquotes =>
      obtain ⟨rfl, hquotes⟩ := hquotes
      obtain ⟨v, rfl⟩ := List.isPrefixOf_iff_prefix.mp hquotes
      exact .closed []
    · next hquotes =>
      refine ih.plain hc fun hopen => hquotes ?_
      obtain ⟨hc, htwo⟩ := List.cons_prefix_cons.mp hopen
      exact ⟨hc.symm, List.isPrefixOf_iff_prefix.mpr (htwo.trans (List.take_prefix _ _))⟩
  induction w using List.twoStepInduction with
  | nil => exact .unclosed .nil
  | singleton c =>
    by_cases hc : c = '\\'
    · subst hc
      exact .unclosed .slash
    · exact hplain hc (.unclosed .nil)
  | cons_cons c d w ih₂ ih =>
    by_cases hc : c = '\\'
    · subst hc
      exact ih₂.escape d
    · exact hplain hc (ih d)

/-- What is read as a string opens with the quotes of a style, and ends with them if it is closed. -/
theorem quotation_ends (q : LongQuote) (cs : List Char) :
    ∃ (style : QuoteStyle) (body : List Char) (terminated : Bool),
      style.Opens ((q.mark :: cs).take ((quotation q.mark q cs).2 + 1)) body ∧
        Ends style.delimiter terminated body ∧
        (quotation q.mark q cs).1 =
          if style.long then .longString q terminated else .string terminated := by
  unfold quotation
  split
  · next hquotes =>
    obtain ⟨w, rfl⟩ := List.isPrefixOf_iff_prefix.mp hquotes
    exact ⟨⟨q, true⟩, w.take (longTail q.mark w).1, (longTail q.mark w).2, ⟨rfl, nofun⟩,
      longTail_ends q.mark w, rfl⟩
  · next hquotes =>
    refine ⟨⟨q, false⟩, cs.take (shortTail q.mark cs).1, (shortTail q.mark cs).2, ⟨rfl, fun _ hlong => ?_⟩,
      shortTail_ends q.mark cs, rfl⟩
    exact hquotes (List.isPrefixOf_iff_prefix.mpr (hlong.trans (List.take_prefix _ _)))

end Scanned

end QuoteStyle

namespace Literal

variable {style : QuoteStyle} {c : Char} {body front v : List Char} {text : String}

theorem digitValue?_slash : digitValue? '\\' = none := by decide

/-- An escape that takes no digits. -/
theorem resolve_escape (hx : c ≠ 'x') (cs : List Char) : resolve ('\\' :: c :: cs) =
    match escape? c with
    | some text => text ++ resolve cs
    | none => '\\' :: resolve (c :: cs) := by
  rw [resolve.eq_def]
  split
  · next heq => cases heq
  · next heq => cases heq; exact absurd rfl hx
  · next heq => cases heq; exact absurd rfl hx
  · next heq => cases heq; rfl
  · next hend heq => cases heq; exact absurd rfl (hend _ _ rfl)

/-- An escape whose digits are missing. -/
theorem resolve_noDigits {a : Char} (ha : digitValue? a = none) (cs : List Char) :
    resolve ('\\' :: 'x' :: a :: cs) = '\\' :: 'x' :: resolve (a :: cs) := by
  cases cs <;> simp only [resolve, ha]

/-- Text in which each backslash hides a character is resolved on its own, before a backslash. -/
theorem resolve_append_slash (h : QuoteStyle.Paired front) (v : List Char) :
    resolve (front ++ '\\' :: v) = resolve front ++ resolve ('\\' :: v) := by
  have hdigit {a : Char} {m : Nat} (h : digitValue? a = some m) : a ≠ '\\' := by
    rintro rfl
    cases digitValue?_slash.symm.trans h
  fun_induction resolve front with
  | case1 => rfl
  | case2 a b cs m n hb ha ih =>
    have hcs := (h.behind.tail (hdigit ha)).tail (hdigit hb)
    simp only [List.cons_append, resolve, ha, hb, ih hcs]
  | case3 a b cs m hb ha ih =>
    simp only [List.cons_append, resolve, ha, hb]
    exact congrArg _ (ih (h.behind.tail (hdigit ha)))
  | case4 a b cs ha ih =>
    rw [List.cons_append, List.cons_append, List.cons_append, resolve_noDigits ha]
    exact congrArg (fun cs => '\\' :: 'x' :: cs) (ih h.behind)
  | case5 a m ha =>
    -- a digit may stand before the backslash, but the backslash is none
    simp only [List.cons_append, List.nil_append, resolve, ha, digitValue?_slash]
  | case6 a ha ih =>
    rw [List.cons_append, List.cons_append, List.cons_append, resolve_noDigits ha]
    exact congrArg (fun cs => '\\' :: 'x' :: cs) (ih h.behind)
  | case7 c cs _ _ text he ih =>
    have hx : c ≠ 'x' := by
      rintro rfl
      cases he
    rw [List.cons_append, List.cons_append, resolve_escape hx, he, ih h.behind, List.append_assoc]
  | case8 c cs hlong hshort he ih =>
    have hc : c ≠ '\\' := by
      rintro rfl
      cases he
    by_cases hx : c = 'x'
    · -- the digits are missing, at the end of the text
      subst hx
      match cs with
      | [] => exact resolve_noDigits digitValue?_slash v
      | [a] => exact absurd rfl (hshort a rfl)
      | a :: b :: cs => exact absurd rfl (hlong a b cs rfl)
    · rw [List.cons_append, List.cons_append, resolve_escape hx, he]
      exact congrArg _ (ih (.plain hc h.behind))
  | case9 c cs _ _ hend ih =>
    have hslash : c ≠ '\\' := by
      rintro rfl
      cases h with
      | plain hslash _ => exact hslash rfl
      | escape _ => exact hend _ _ rfl rfl
    rw [List.cons_append, resolve_cons hslash, ih (h.tail hslash)]
    rfl

/-- The contents of a literal are taken from what stands behind its opening quotes. -/
theorem contents_of_opens (h : style.Opens text.toList body) :
    contents text = String.ofList (resolve (dropSuffix style.delimiter body)) := by
  rw [contents, openQuotes?_of_opens h]

theorem contents_closed {inner : List Char} (h : style.Opens text.toList (inner ++ style.delimiter)) :
    contents text = String.ofList (resolve inner) := by
  rw [contents_of_opens h, dropSuffix_append]

theorem resolve_delimiter (style : QuoteStyle) :
    resolve ('\\' :: style.delimiter) = style.delimiter := by
  obtain ⟨quote, long⟩ := style
  cases quote <;> cases long <;> rfl

/-- An unclosed literal has all its text for contents, but for an escaped delimiter at its end: only
the backslash of that stays. -/
theorem contents_unclosed (h : style.Opens text.toList body)
    (hbody : QuoteStyle.Unclosed style.delimiter body) :
    (¬ '\\' :: style.delimiter <:+ body → contents text = String.ofList (resolve body)) ∧
      ∀ front, body = front ++ '\\' :: style.delimiter →
        contents text = String.ofList (resolve front ++ ['\\']) ∧
          resolve body = resolve front ++ style.delimiter := by
  have hfront := hbody.exists_front style.delimiter_ne_nil style.slash_notMem_delimiter
  rw [contents_of_opens h]
  refine ⟨fun hend => ?_, fun front heq => ?_⟩
  · have hopen : style.delimiter.isSuffixOf body ≠ true := by
      intro hsuffix
      obtain ⟨front, -, rfl⟩ := hfront (List.isSuffixOf_iff_suffix.mp hsuffix)
      exact hend (List.suffix_append _ _)
    rw [dropSuffix, if_neg hopen]
  · obtain ⟨front', hpaired, heq'⟩ := hfront ⟨front ++ ['\\'], by rw [heq]; simp⟩
    obtain rfl : front' = front := List.append_cancel_right (heq'.symm.trans heq)
    have hsplit : body = (front' ++ ['\\']) ++ style.delimiter := by rw [heq]; simp
    rw [hsplit, dropSuffix_append, ← hsplit, heq, resolve_append_slash hpaired,
      resolve_append_slash hpaired, resolve_delimiter]
    exact ⟨rfl, rfl⟩

end Literal

/-- A text opens with one delimiter only. -/
theorem QuoteStyle.Opens.unique {style style' : QuoteStyle} {text body body' : List Char}
    (h : style.Opens text body) (h' : style'.Opens text body') :
    style.delimiter = style'.delimiter ∧ body = body' :=
  Prod.mk.inj (Option.some.inj ((Literal.openQuotes?_of_opens h).symm.trans
    (Literal.openQuotes?_of_opens h')))

namespace Scan

variable {cfg : Config} {stops : List Offset} {s t : State} {e : Emission} {x : Token}

/-- A string token is read as its quotes say, and reported if it is not closed. -/
theorem step_string (h : step cfg stops s = .next e t) (hx : x ∈ e.tokens) (hk : x.kind = .string) :
    ∃ (style : QuoteStyle) (body : List Char) (terminated : Bool), style.Opens x.text.toList body ∧
      QuoteStyle.Ends style.delimiter terminated body ∧
      e.diagnostics = if terminated then [] else [⟨.unterminatedString, x.span⟩] := by
  obtain ⟨⟨hinside, c, cs, hrest, hc, hkind⟩, -, -⟩ := step_token h hx (by rw [hk]; rfl)
  rw [step_lexeme hrest hinside hc] at h
  obtain ⟨rfl, -⟩ := Step.next.inj h
  rw [hk] at hkind
  obtain ⟨q, rfl⟩ := Lexeme.recognise_string_mark hkind
  obtain ⟨style, body, terminated, hopens, hends, hlexeme⟩ := QuoteStyle.quotation_ends q cs
  rw [Lexeme.recognise_quote] at hx ⊢
  have htoken : x = ⟨.string, String.ofList ((q.mark :: cs).take ((Lexeme.quotation q.mark q cs).2 + 1)),
      Span.ofNat s.pos (s.skip ((Lexeme.quotation q.mark q cs).2 + 1)).pos⟩ := by
    rw [accept_tokens, hlexeme, hrest] at hx
    cases hl : style.long <;> rw [hl] at hx <;> exact List.mem_singleton.mp hx
  refine ⟨style, body, terminated, ?_, hends, ?_⟩
  · rw [htoken, String.toList_ofList]
    exact hopens
  · rw [htoken, hlexeme]
    cases style.long <;> rfl

/-- A line start reports its indentation only. -/
theorem lineStart_diagnostics (h : lineStart cfg stops s = .next e t) :
    ∀ d ∈ e.diagnostics, d.cause ≠ .unterminatedString := by
  rcases lineStart_cases h with ⟨-, rfl, -⟩ | ⟨-, -, rfl, -⟩ | ⟨-, -, -, rfl, -⟩
  · exact List.forall_mem_nil _
  · exact List.forall_mem_nil _
  · unfold entering indentTo
    dsimp only
    refine List.forall_mem_append.mpr ⟨?_, ?_⟩
    · split
      · exact List.forall_mem_singleton.mpr Cause.noConfusion
      · exact List.forall_mem_nil _
    · split
      · exact List.forall_mem_nil _
      split
      · exact List.forall_mem_nil _
      · exact List.forall_mem_nil _
      · dsimp only
        split
        · exact List.forall_mem_nil _
        · exact List.forall_mem_singleton.mpr Cause.noConfusion

/-- What is reported as unclosed is what a step has read. -/
theorem step_unclosed {p : Span} (h : step cfg stops s = .next e t)
    (hd : ⟨.unterminatedString, p⟩ ∈ e.diagnostics) : p = Span.ofNat s.pos t.pos ∧ s.pos < t.pos := by
  rcases step_cases h with ⟨-, -, hstart⟩ | ⟨cs, -, -, rfl, -⟩ | ⟨c, cs, -, hl, -, rfl, rfl⟩
  · exact absurd rfl (lineStart_diagnostics hstart _ hd)
  · unfold lineFeed at hd
    split at hd <;> exact absurd hd List.not_mem_nil
  · refine ⟨?_, step_pos_lt h hl⟩
    generalize (Lexeme.recognise c cs).1 = l at hd
    cases l with
    | string terminated =>
      cases terminated with
      | true => exact absurd hd List.not_mem_nil
      | false => exact (Diagnostic.mk.inj (List.mem_singleton.mp hd)).2
    | longString q terminated =>
      cases terminated with
      | true => exact absurd hd List.not_mem_nil
      | false => exact (Diagnostic.mk.inj (List.mem_singleton.mp hd)).2
    | unknown => cases (Diagnostic.mk.inj (List.mem_singleton.mp hd)).1
    | _ => exact absurd hd List.not_mem_nil

/-- What a step reads does not stand before it. -/
theorem not_between_of_step {a i j : Nat} (h : i < j) (hj : j < UInt32.size) :
    ¬(Span.ofNat i j).Between a i := by
  intro hbetween
  have hstop := (hbetween.inside (Nat.lt_trans h hj)).2.2
  have hlt := ofNat_lt h hj
  rw [UInt32.lt_iff_toNat_lt] at hlt
  exact Nat.not_le.mpr hlt (UInt32.le_iff_toNat_le.mp hstop)

/-- How the string tokens of a stretch end, and which of them are reported as unclosed. Positions tell
them apart as long as the text is not too long for these. -/
theorem Reaches.string (h : Reaches cfg stops s e t) (hx : x ∈ e.tokens) (hk : x.kind = .string) :
    ∃ (style : QuoteStyle) (body : List Char) (terminated : Bool), style.Opens x.text.toList body ∧
      QuoteStyle.Ends style.delimiter terminated body ∧
      (terminated = false → ⟨.unterminatedString, x.span⟩ ∈ e.diagnostics) ∧
      (s.limit < UInt32.size → terminated = true → ⟨.unterminatedString, x.span⟩ ∉ e.diagnostics) := by
  induction h with
  | refl => exact absurd hx List.not_mem_nil
  | @tail e e' t u h hstep ih =>
    have hlimit : u.pos ≤ s.limit := (h.covers.trans (step_covers hstep)).pos_le_limit
    rcases List.mem_append.mp hx with hx | hx
    · obtain ⟨style, body, terminated, hopens, hends, hreported, hquiet⟩ := ih hx
      refine ⟨style, body, terminated, hopens, hends,
        fun hopen => List.mem_append_left _ (hreported hopen), fun hsize hclosed hd => ?_⟩
      -- a later step reports what it reads itself, and that stands behind this token
      refine (List.mem_append.mp hd).elim (hquiet hsize hclosed) fun hnew => ?_
      obtain ⟨hspan, hlt⟩ := step_unclosed hstep hnew
      exact not_between_of_step hlt (by omega) (hspan ▸ h.covers.between.tokens x hx)
    · obtain ⟨style, body, terminated, hopens, hends, hdiagnostics⟩ := step_string hstep hx hk
      obtain ⟨hread, -, hspan⟩ := step_token hstep hx (by rw [hk]; rfl)
      refine ⟨style, body, terminated, hopens, hends, fun hopen => List.mem_append_right _ ?_,
        fun hsize hclosed hd => ?_⟩
      · rw [hdiagnostics, hopen]
        exact List.mem_singleton.mpr rfl
      · rw [Emission.append_diagnostics, hdiagnostics, hclosed, if_pos rfl, List.append_nil] at hd
        exact not_between_of_step (step_pos_lt hstep hread.inside) (by omega)
          (hspan ▸ h.covers.between.diagnostics _ hd)

theorem finish_diagnostics (t : State) :
    ∀ d ∈ (finish t ++ endMark t.pos).diagnostics, d.cause ≠ .unterminatedString := by
  have hmark : (endMark t.pos).diagnostics = [] := rfl
  rw [Emission.append_diagnostics, hmark, List.append_nil, finish]
  cases t.openers.getLast? with
  | none => exact List.forall_mem_nil _
  | some o => exact List.forall_mem_singleton.mpr Cause.noConfusion

/-- The contents of the string tokens of a text. A token that is not reported as unclosed ends with the
delimiter that it opens with, and its contents stand between the two. One that is reported has all that
stands behind its opening delimiter for contents, unless it ends with an escaped delimiter: of that only
the backslash stays. -/
theorem scan_contents (cfg : Config) (source : String) (hx : x ∈ (scan cfg source).tokens)
    (hk : x.kind = .string) : ∃ (style : QuoteStyle) (body : List Char), style.Opens x.text.toList body ∧
      (⟨.unterminatedString, x.span⟩ ∉ (scan cfg source).diagnostics →
        ∃ inner, body = inner ++ style.delimiter ∧
          Literal.contents x.text = String.ofList (Literal.resolve inner)) ∧
      (Text.byteSize source.toList < UInt32.size →
        ⟨.unterminatedString, x.span⟩ ∈ (scan cfg source).diagnostics →
          (¬ '\\' :: style.delimiter <:+ body →
            Literal.contents x.text = String.ofList (Literal.resolve body)) ∧
          ∀ front, body = front ++ '\\' :: style.delimiter →
            Literal.contents x.text = String.ofList (Literal.resolve front ++ ['\\']) ∧
              Literal.resolve body = Literal.resolve front ++ style.delimiter) := by
  obtain ⟨e, t, h, -, hrun, hx⟩ := exists_end_of_token hx (by rw [hk]; rfl)
  obtain ⟨style, body, terminated, hopens, hends, hreported, hquiet⟩ := h.string hx hk
  have hlimit : (State.start source).limit = Text.byteSize source.toList := Nat.zero_add _
  rw [hlimit] at hquiet
  have hsame : ⟨.unterminatedString, x.span⟩ ∈ (scan cfg source).diagnostics ↔
      ⟨.unterminatedString, x.span⟩ ∈ e.diagnostics := by
    rw [hrun]
    refine List.mem_append.trans (or_iff_left fun hend => ?_)
    exact finish_diagnostics t _ hend rfl
  refine ⟨style, body, hopens, fun hclosed => ?_, fun hsize hopen => ?_⟩
  · rw [hsame] at hclosed
    cases hends with
    | closed inner => exact ⟨inner, rfl, Literal.contents_closed hopens⟩
    | unclosed => exact absurd (hreported rfl) hclosed
  · rw [hsame] at hopen
    cases hends with
    | closed inner => exact absurd hopen (hquiet hsize rfl)
    | unclosed hbody => exact Literal.contents_unclosed hopens hbody

/-- The literal is not closed, since its last quote is escaped. That quote is not among the contents. -/
theorem scan_contents_escaped :
    ⟨.unterminatedString, Span.ofNat 4 8⟩ ∈ (scan {} "x = 'a\\'\n").diagnostics ∧
      Literal.contents "'a\\'" = String.ofList (Literal.resolve ['a'] ++ ['\\']) ∧
      Literal.resolve "a\\'".toList = Literal.resolve ['a'] ++ ['\x27'] := by
  have hx : ⟨.string, "'a\\'", Span.ofNat 4 8⟩ ∈ (scan {} "x = 'a\\'\n").tokens := by decide +kernel
  have hopen : ⟨.unterminatedString, Span.ofNat 4 8⟩ ∈ (scan {} "x = 'a\\'\n").diagnostics := by
    decide +kernel
  obtain ⟨style, body, hopens, -, hunclosed⟩ := scan_contents {} "x = 'a\\'\n" hx rfl
  have hquotes : QuoteStyle.Opens ⟨.single, false⟩ "'a\\'".toList "a\\'".toList :=
    ⟨by decide, fun _ => by decide⟩
  obtain ⟨hdelimiter, rfl⟩ := hopens.unique hquotes
  rw [hdelimiter] at hunclosed
  exact ⟨hopen, (hunclosed (by decide +kernel) hopen).2 ['a'] rfl⟩

/-- Not every unclosed literal keeps its text. -/
theorem not_contents_each : ¬∀ (cfg : Config) (source : String), ∀ x ∈ (scan cfg source).tokens,
    x.kind = .string → ∃ (style : QuoteStyle) (body : List Char), style.Opens x.text.toList body ∧
      (⟨.unterminatedString, x.span⟩ ∉ (scan cfg source).diagnostics →
        ∃ inner, body = inner ++ style.delimiter ∧
          Literal.contents x.text = String.ofList (Literal.resolve inner)) ∧
      (⟨.unterminatedString, x.span⟩ ∈ (scan cfg source).diagnostics →
        Literal.contents x.text = String.ofList (Literal.resolve body)) := by
  intro hall
  obtain ⟨style, body, hopens, -, hkept⟩ := hall {} "x = 'a\\'\n" ⟨.string, "'a\\'", Span.ofNat 4 8⟩
    (by decide +kernel) rfl
  have hquotes : QuoteStyle.Opens ⟨.single, false⟩ "'a\\'".toList "a\\'".toList :=
    ⟨by decide, fun _ => by decide⟩
  obtain ⟨-, rfl⟩ := hopens.unique hquotes
  exact absurd (hkept (by decide +kernel)) (by decide +kernel)

end Scan

end Offside
