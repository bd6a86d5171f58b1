import Offside.Literal.Contents
import Offside.Proofs.Lexeme.Line
import Offside.Proofs.Lexeme.Spelling
import Offside.Proofs.Scan.Flush

namespace Offside

open Layout (LongQuote)

structure QuoteStyle where
  quote : LongQuote
  long : Bool
  deriving DecidableEq

namespace QuoteStyle

def mark (style : QuoteStyle) : Char := style.quote.mark

def delimiter (style : QuoteStyle) : List Char :=
  if style.long then [style.mark, style.mark, style.mark] else [style.mark]

/-- How a character of a string may be written. A backslash and the quote are escaped, and so is a
line feed unless the quotes are long; a return, a tab and the null character may be. -/
inductive Writes (style : QuoteStyle) : Char → List Char → Prop
  | backslash : Writes style '\\' ['\\', '\\']
  | mark : Writes style style.mark ['\\', style.mark]
  | feed : Writes style '\n' ['\\', 'n']
  | carriage : Writes style '\r' ['\\', 'r']
  | tab : Writes style '\t' ['\\', 't']
  | null : Writes style '\x00' ['\\', '0']
  | raw {c : Char} (hslash : c ≠ '\\') (hmark : c ≠ style.mark) (hfeed : c = '\n' → style.long = true) :
      Writes style c [c]

/-- A text opens with the quotes of a style, and goes on behind them. Where three quotes stand, the
style is a long one. -/
structure Opens (style : QuoteStyle) (text body : List Char) : Prop where
  text_eq : text = style.delimiter ++ body
  short : style.long = false → ¬[style.mark, style.mark] <+: body

def literal (style : QuoteStyle) (pieces : List (List Char)) : List Char :=
  style.delimiter ++ (pieces.flatten ++ style.delimiter)

variable {style : QuoteStyle} {c : Char} {piece : List Char} {cs : List Char} {pieces : List (List Char)}
  {v : List Char}

theorem mark_cases (style : QuoteStyle) : style.mark = '\x22' ∨ style.mark = '\x27' := by
  obtain ⟨quote, long⟩ := style
  cases quote
  · exact Or.inl rfl
  · exact Or.inr rfl

theorem mark_ne {d : Char} (hdouble : d ≠ '\x22') (hsingle : d ≠ '\x27') : style.mark ≠ d := by
  rcases style.mark_cases with h | h
  · exact h ▸ hdouble.symm
  · exact h ▸ hsingle.symm

/-- A piece is a backslash with one character behind it that is no line feed, or a character that is
neither a backslash nor the quote. -/
theorem Writes.cases (h : style.Writes c piece) :
    (∃ e, piece = ['\\', e] ∧ e ≠ '\n') ∨
      (piece = [c] ∧ c ≠ '\\' ∧ c ≠ style.mark ∧ (c = '\n' → style.long = true)) := by
  cases h with
  | raw hslash hmark hfeed => exact Or.inr ⟨rfl, hslash, hmark, hfeed⟩
  | mark => exact Or.inl ⟨_, rfl, mark_ne (by decide) (by decide)⟩
  | _ => exact Or.inl ⟨_, rfl, by decide⟩

section Scanned

open Lexeme

/-- What is written with one quote on each side may stand between them. -/
theorem quoted_of_writes (hlong : style.long = false) (h : List.Forall₂ style.Writes cs pieces) :
    Quoted style.mark pieces.flatten := by
  induction h with
  | nil => exact .nil
  | cons hpiece _ ih =>
    rcases hpiece.cases with ⟨e, rfl, he⟩ | ⟨rfl, hslash, hmark, hfeed⟩
    · exact .escape he ih
    · refine .plain hmark hslash (fun hc => ?_) ih
      rw [hfeed hc] at hlong
      contradiction

/-- What is written with three quotes on each side ends at the closing ones. -/
theorem longTail_writes (h : List.Forall₂ style.Writes cs pieces) :
    longTail style.mark (pieces.flatten ++ style.mark :: style.mark :: style.mark :: v) =
      (pieces.flatten.length + 3, true) := by
  have hslash : style.mark ≠ '\\' := mark_ne (by decide) (by decide)
  induction h with
  | nil =>
    rw [List.flatten_nil, List.nil_append, longTail_cons hslash]
    simp [List.isPrefixOf]
  | cons hpiece _ ih =>
    rcases hpiece.cases with ⟨e, rfl, -⟩ | ⟨rfl, hne, hmark, -⟩
    · simp [longTail, ih]
    · rw [List.flatten_cons, List.append_assoc, List.singleton_append, longTail_cons hne, ih]
      simp [hmark]

theorem quotation_long (q : LongQuote) (v : List Char) : quotation q.mark q (q.mark :: q.mark :: v) =
    (.longString q (longTail q.mark v).2, (longTail q.mark v).1 + 2) := by
  simp [quotation, List.isPrefixOf]

def lexeme (style : QuoteStyle) : Lexeme :=
  if style.long then .longString style.quote true else .string true

/-- Before a line feed, a literal is recognised as a whole. -/
theorem recognise_literal (h : List.Forall₂ style.Writes cs pieces) :
    ∃ ds, style.literal pieces = style.mark :: ds ∧
      recognise style.mark (ds ++ '\n' :: v) = (style.lexeme, ds.length) := by
  obtain ⟨quote, long⟩ := style
  cases long with
  | true =>
    refine ⟨quote.mark :: quote.mark :: (pieces.flatten ++ [quote.mark, quote.mark, quote.mark]), rfl, ?_⟩
    have htail := longTail_writes (v := '\n' :: v) h
    rw [mark, recognise_quote, List.cons_append, List.cons_append, quotation_long, List.append_assoc]
    change longTail quote.mark (pieces.flatten ++ ([quote.mark, quote.mark, quote.mark] ++ '\n' :: v)) = _
      at htail
    rw [htail]
    simp [lexeme]
  | false =>
    refine ⟨pieces.flatten ++ [quote.mark], rfl, ?_⟩
    have hquoted := quoted_of_writes rfl h
    rw [List.append_assoc, List.length_append]
    exact recognise_quoted (mark_cases ⟨quote, false⟩) hquoted (Or.inr rfl)

end Scanned

end QuoteStyle

namespace Literal

variable {style : QuoteStyle} {c : Char} {piece : List Char} {cs : List Char} {pieces : List (List Char)}
  {v : List Char}

theorem resolve_cons (hc : c ≠ '\\') (cs : List Char) : resolve (c :: cs) = c :: resolve cs := by
  rw [resolve.eq_def]
  split
  all_goals simp_all

/-- A piece is resolved to the character that it is written for. -/
theorem resolve_writes (h : style.Writes c piece) (v : List Char) :
    resolve (piece ++ v) = c :: resolve v := by
  cases h with
  | raw hslash => exact resolve_cons hslash v
  | mark =>
    rcases style.mark_cases with h | h
    · rw [h]
      rfl
    · rw [h]
      rfl
  | _ => rfl

theorem resolve_flatten (h : List.Forall₂ style.Writes cs pieces) : resolve pieces.flatten = cs := by
  induction h with
  | nil => rfl
  | cons hpiece _ ih => rw [List.flatten_cons, resolve_writes hpiece, ih]

theorem dropSuffix_append (tail body : List Char) : dropSuffix tail (body ++ tail) = body := by
  rw [dropSuffix, if_pos (List.isSuffixOf_iff_suffix.mpr (List.suffix_append body tail)),
    List.length_append, Nat.add_sub_cancel, List.take_left]

/-- The quotes that a text opens with are those of its style. -/
theorem openQuotes?_of_opens {text body : List Char} (h : style.Opens text body) :
    openQuotes? text = some (style.delimiter, body) := by
  have hmark := style.mark_cases
  obtain ⟨rfl, hshort⟩ := h
  obtain ⟨quote, long⟩ := style
  cases long with
  | true =>
    change openQuotes? (quote.mark :: quote.mark :: quote.mark :: body) = _
    rw [openQuotes?, if_pos ⟨hmark, by simp [List.isPrefixOf]⟩]
    rfl
  | false =>
    change openQuotes? (quote.mark :: body) = _
    rw [openQuotes?, if_neg fun hquotes => hshort rfl (List.isPrefixOf_iff_prefix.mp hquotes.2),
      if_pos (by cases quote <;> rfl)]
    rfl

theorem opens_literal (h : List.Forall₂ style.Writes cs pieces) :
    style.Opens (style.literal pieces) (pieces.flatten ++ style.delimiter) := by
  refine ⟨rfl, fun hlong => ?_⟩
  -- the character behind the opening quote is no quote, or it is the closing one and the last
  have hquoted := QuoteStyle.quoted_of_writes hlong h
  have hdelimiter : style.delimiter = [style.mark] := by rw [QuoteStyle.delimiter, hlong]; rfl
  rw [hdelimiter]
  generalize pieces.flatten = body at hquoted
  cases hquoted with
  | nil => simp
  | plain hquote _ _ _ => simp [hquote.symm]
  | escape _ _ =>
    have hslash : style.mark ≠ '\\' := QuoteStyle.mark_ne (by decide) (by decide)
    simp [hslash]

theorem contents_literal (h : List.Forall₂ style.Writes cs pieces) :
    contents (String.ofList (style.literal pieces)) = String.ofList cs := by
  rw [contents, String.toList_ofList, openQuotes?_of_opens (opens_literal h)]
  dsimp only
  rw [dropSuffix_append, resolve_flatten h]

end Literal

namespace Scan

variable {style : QuoteStyle} {cs : List Char} {pieces : List (List Char)}

/-- A literal is put out as a string token, and content of its line. -/
theorem accept_literal (style : QuoteStyle) (n : Nat) (s : State) :
    (accept style.lexeme n s).1.tokens =
        [⟨.string, String.ofList (s.rest.take n), Span.ofNat s.pos (s.skip n).pos⟩] ∧
      (accept style.lexeme n s).1.diagnostics = [] ∧
      (accept style.lexeme n s).2 = (s.skip n).noting .string := by
  obtain ⟨quote, long⟩ := style
  cases long <;> exact ⟨rfl, rfl, rfl⟩

/-- The last line feed of a text ends its line, where no bracket and no block is open. -/
theorem run_lastFeed {cfg : Config} {stops : List Offset} {s : State} (hrest : s.rest = ['\n'])
    (hl : s.atLineStart = false) (ho : s.openers = []) (hlevels : s.levels = [0])
    (hc : s.hasContent = true) :
    run cfg stops s = ⟨{ tokens := [.layout .newline (Span.ofNat s.pos (s.pos + 1)),
      .layout .eof (Span.ofNat (s.pos + 1) (s.pos + 1))] }, none⟩ := by
  have hfeed : step cfg stops s = .next (lineFeed s).1 (lineFeed s).2 := step_lineFeed hrest hl
  rw [lineFeed_outer ho, hc, if_pos rfl] at hfeed
  let t : State := { s.skip 1 with hasContent := false, atLineStart := true }
  have hend : t.rest = [] := by
    change s.rest.drop 1 = []
    rw [hrest]
    rfl
  have hpos : t.pos = s.pos + 1 := by
    change s.pos + Text.byteSize (s.rest.take 1) = s.pos + 1
    rw [hrest]
    rfl
  have hfinish : finish t = {} := by
    rw [finish, show t.levels = [0] from hlevels, show t.openers = [] from ho]
    rfl
  rw [run_of_next hfeed, run_of_done (step_end hend), hfinish, hpos]
  rfl

/-- Before the line feed behind a literal, the literal has been put out, and nothing else. -/
theorem reaches_literal (cfg : Config) (h : List.Forall₂ style.Writes cs pieces) :
    let text := String.ofList (style.literal pieces)
    let size := Text.byteSize (style.literal pieces)
    ∃ (e : Emission) (t : State), Reaches cfg [] (.start (text ++ "\n")) e t ∧
      e.tokens = [⟨.string, text, Span.ofNat 0 size⟩] ∧ e.diagnostics = [] ∧ t.rest = ['\n'] ∧
        t.pos = size ∧ t.atLineStart = false ∧ t.openers = [] ∧ t.levels = [0] ∧ t.hasContent = true := by
  intro text size
  obtain ⟨ds, hds, hrecognise⟩ := QuoteStyle.recognise_literal (v := []) h
  let s : State := .start (text ++ "\n")
  have hrest : s.rest = style.mark :: (ds ++ ['\n']) := by
    change (text ++ "\n").toList = _
    rw [String.toList_append, String.toList_ofList, hds]
    rfl
  have hflush : StartsFlush s.rest := by
    refine ⟨style.mark, _, hrest, ?_⟩
    rcases style.mark_cases with hmark | hmark <;> rw [hmark] <;> decide
  -- the first step is the start of the line, the second one the literal
  have hstart : step cfg [] s = .next (flush s) s.flushed :=
    step_flush (State.sound_start _) rfl hflush List.not_mem_nil
  obtain ⟨htokens, hdiagnostics, hnext⟩ := accept_literal style (ds.length + 1) s.flushed
  have hlexeme : step cfg [] s.flushed = .next (accept style.lexeme (ds.length + 1) s.flushed).1
      ((s.flushed.skip (ds.length + 1)).noting .string) := by
    rw [step_lexeme (s := s.flushed) hrest rfl (QuoteStyle.mark_ne (by decide) (by decide)),
      hrecognise, hnext]
  have htake : s.flushed.rest.take (ds.length + 1) = style.literal pieces := by
    change s.rest.take _ = _
    rw [hrest, hds, List.take_succ_cons, List.take_left]
  have hpos : (s.flushed.skip (ds.length + 1)).pos = size := by
    change 0 + Text.byteSize (s.flushed.rest.take _) = _
    rw [htake, Nat.zero_add]
  have hbehind : (s.flushed.skip (ds.length + 1)).rest = ['\n'] := by
    change s.rest.drop _ = _
    rw [hrest, List.drop_succ_cons, List.drop_left]
  rw [htake, hpos] at htokens
  refine ⟨_, _, (Reaches.single hstart).tail hlexeme, ?_, ?_, hbehind, hpos, rfl, rfl, rfl, rfl⟩
  · rw [Emission.append_tokens, htokens]
    rfl
  · rw [Emission.append_diagnostics, hdiagnostics]
    rfl

/-- A literal on a line of its own is scanned as one string token that covers it, with its text as it
is written. Nothing is reported, and the contents of the literal are the string. -/
theorem scan_literal (cfg : Config) {string : String} {pieces : List (List Char)}
    (h : List.Forall₂ style.Writes string.toList pieces) :
    let text := String.ofList (style.literal pieces)
    let size := Text.byteSize (style.literal pieces)
    (scan cfg (text ++ "\n")).diagnostics = [] ∧
      (scan cfg (text ++ "\n")).tokens = [⟨.string, text, Span.ofNat 0 size⟩,
        .layout .newline (Span.ofNat size (size + 1)),
        .layout .eof (Span.ofNat (size + 1) (size + 1))] ∧
      Literal.contents text = string := by
  intro text size
  have hcontents : Literal.contents text = string := by
    rw [Literal.contents_literal h, String.ofList_toList]
  obtain ⟨e, t, hreaches, htokens, hdiagnostics, hrest, hpos, hline, hopeners, hlevels, hcontent⟩ :=
    reaches_literal cfg h
  have hscan : scan cfg (text ++ "\n") = (run cfg [] t).after e := hreaches.run_eq
  rw [run_lastFeed hrest hline hopeners hlevels hcontent, hpos, Result.after] at hscan
  refine ⟨?_, ?_, hcontents⟩
  · rw [hscan, Emission.append_diagnostics, hdiagnostics]
    rfl
  · rw [hscan, Emission.append_tokens, htokens]
    rfl

/-- Backslashes side by side, one of them before the closing quote, and both quotes. -/
theorem scan_literal_escapes :
    let style : QuoteStyle := ⟨.single, false⟩
    let pieces := [['\\', '\\'], ['\\', '\x27'], ['\x22'], ['é'], ['\\', 'n'], ['\\', '\\']]
    List.Forall₂ style.Writes "\\'\"é\n\\".toList pieces ∧
      (scan {} (String.ofList (style.literal pieces) ++ "\n")).diagnostics = [] ∧
      (scan {} (String.ofList (style.literal pieces) ++ "\n")).tokens =
        [⟨.string, "'\\\\\\'\"é\\n\\\\'", Span.ofNat 0 13⟩, .layout .newline (Span.ofNat 13 14),
          .layout .eof (Span.ofNat 14 14)] ∧
      Literal.contents "'\\\\\\'\"é\\n\\\\'" = "\\'\"é\n\\" := by
  intro style pieces
  have h : List.Forall₂ style.Writes "\\'\"é\n\\".toList pieces :=
    .cons .backslash (.cons .mark (.cons (.raw (by decide) (by decide) (by decide))
      (.cons (.raw (by decide) (by decide) (by decide)) (.cons .feed (.cons .backslash .nil)))))
  exact ⟨h, scan_literal {} h⟩

end Scan

end Offside
