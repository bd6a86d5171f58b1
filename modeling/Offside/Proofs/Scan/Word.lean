import Offside.Proofs.Lexeme.Spelling
import Offside.Proofs.Scan.Token

namespace Offside

namespace Lexeme

variable {c : Char} {cs : List Char} {k : Kind}

theorem words_disjoint : ∀ k ∈ Kind.words, k ∉ Kind.operators ∧ k ∉ Kind.brackets ∧
    k ∉ [.identifier, .integer, .float, .string] := by
  decide

theorem words_isLayout : ∀ k ∈ Kind.words, k.isLayout = false := by decide

theorem bracket?_kind {l : Lexeme} (h : bracket? c = some l) (hk : l.kind? = some k) :
    k ∈ Kind.brackets := by
  unfold bracket? at h
  split at h <;> cases h <;> cases hk <;> decide

theorem symbol_kind (hk : (symbol c cs).1.kind? = some k) : k ∈ Kind.operators := by
  unfold symbol at hk
  split at hk
  · next j hj =>
    cases hk
    exact List.mem_of_find?_eq_some hj
  · cases hk

theorem word_text (hk : k ∈ Kind.words) (h : (word c cs).1.kind? = some k) :
    String.ofList ((c :: cs).take ((word c cs).2 + 1)) = k.spelling := by
  obtain ⟨-, -, hother⟩ := words_disjoint k hk
  have htake : cs.take (cs.takeWhile isWordChar).length = cs.takeWhile isWordChar :=
    (List.prefix_iff_eq_take.mp (List.takeWhile_prefix isWordChar)).symm
  change String.ofList (c :: cs.take (cs.takeWhile isWordChar).length) = k.spelling
  rw [htake]
  have hkind := Option.some.inj h
  cases hword : Kind.ofWord? (String.ofList (c :: cs.takeWhile isWordChar)) with
  | none =>
    rw [hword] at hkind
    exact absurd (hkind ▸ by decide) hother
  | some j =>
    rw [hword] at hkind
    obtain rfl : j = k := hkind
    have hfound := List.find?_some (p := fun k : Kind => k.spelling == _) hword
    exact (beq_iff_eq.mp hfound).symm

theorem recognise_text (hk : k ∈ Kind.words) (h : (recognise c cs).1.kind? = some k) :
    String.ofList ((c :: cs).take ((recognise c cs).2 + 1)) = k.spelling := by
  obtain ⟨hoperator, hbracket, hother⟩ := words_disjoint k hk
  have hnone {p : Prop} (h : none = some k) : p := nomatch h
  have hsome {j : Kind} {p : Prop} (hj : j ∈ [.identifier, .integer, .float, .string]) (h : some j = some k) : p :=
    absurd (Option.some.inj h ▸ hj) hother
  have hquotation (q : Layout.LongQuote) {p : Prop} (h : (quotation c q cs).1.kind? = some k) : p := by
    unfold quotation at h
    split at h <;> exact hsome (by decide) h
  unfold recognise at h ⊢
  split
  · next hword =>
    rw [if_pos hword] at h
    exact word_text hk h
  next hword =>
  -- no other branch puts out a word
  rw [if_neg hword] at h
  exfalso
  split at h
  · unfold number at h
    split at h <;> exact hsome (by decide) h
  split at h
  · exact hnone h
  split at h
  · split at h <;> exact hnone h
  split at h
  · exact hnone h
  split at h
  · exact hquotation _ h
  split at h
  · exact hquotation _ h
  split at h
  · next hl => exact hbracket (bracket?_kind hl h)
  · exact hoperator (symbol_kind h)

/-- What is read as a string starts with a quote. -/
theorem recognise_string_mark (h : (recognise c cs).1.kind? = some .string) :
    ∃ q : Layout.LongQuote, c = q.mark := by
  have hstring : Kind.string ∉ Kind.words ∧ Kind.string ∉ Kind.brackets ∧
      Kind.string ∉ Kind.operators := by decide
  unfold recognise at h
  split at h
  · exfalso
    have hkind := Option.some.inj h
    cases hword : Kind.ofWord? (String.ofList (c :: cs.takeWhile isWordChar)) with
    | none =>
      rw [hword] at hkind
      cases hkind
    | some j =>
      rw [hword] at hkind
      obtain rfl : j = .string := hkind
      exact hstring.1 (List.mem_of_find?_eq_some hword)
  split at h
  · unfold number at h
    split at h <;> cases h
  split at h
  · cases h
  split at h
  · split at h <;> cases h
  split at h
  · cases h
  split at h
  · next hmark => exact ⟨.double, hmark⟩
  split at h
  · next hmark => exact ⟨.single, hmark⟩
  exfalso
  split at h
  · next l hl => exact hstring.2.1 (bracket?_kind hl h)
  · exact hstring.2.2 (symbol_kind h)

end Lexeme

namespace Scan

variable {cfg : Config} {stops : List Offset} {s t : State} {e : Emission}

theorem step_word {x : Token} (h : step cfg stops s = .next e t) (hx : x ∈ e.tokens)
    (hk : x.kind ∈ Kind.words) : x.text = x.kind.spelling := by
  obtain ⟨⟨hinside, c, cs, hrest, hc, hkind⟩, -, -⟩ := step_token h hx (Lexeme.words_isLayout _ hk)
  rw [step_lexeme hrest hinside hc] at h
  obtain ⟨rfl, -⟩ := Step.next.inj h
  rw [accept_tokens, hkind, hrest] at hx
  have htext := congrArg Token.text (List.mem_singleton.mp hx)
  exact htext.trans (Lexeme.recognise_text hk hkind)

theorem Reaches.word {x : Token} (h : Reaches cfg stops s e t) (hx : x ∈ e.tokens)
    (hk : x.kind ∈ Kind.words) : x.text = x.kind.spelling := by
  induction h with
  | refl => exact absurd hx List.not_mem_nil
  | tail _ hstep ih => exact (List.mem_append.mp hx).elim ih fun hx => step_word hstep hx hk

theorem end_isLayout (t : State) : ∀ x ∈ (finish t ++ endMark t.pos).tokens, x.kind.isLayout = true := by
  intro x hx
  simp only [finish, endMark, Emission.append_tokens, List.mem_append, List.mem_replicate,
    List.mem_singleton] at hx
  rcases hx with (hx | ⟨-, rfl⟩) | rfl
  · split at hx
    · obtain rfl := List.mem_singleton.mp hx
      rfl
    · exact absurd hx List.not_mem_nil
  · rfl
  · rfl

/-- A token with text is put out before the end of the text. -/
theorem exists_end_of_token {source : String} {x : Token} (hx : x ∈ (scan cfg source).tokens)
    (hk : x.kind.isLayout = false) : ∃ e t, Reaches cfg [] (.start source) e t ∧ t.rest = [] ∧
      scan cfg source = ⟨e ++ (finish t ++ endMark t.pos), none⟩ ∧ x ∈ e.tokens := by
  obtain ⟨e, t, h, hr, hrun⟩ := exists_end cfg (.start source)
  refine ⟨e, t, h, hr, hrun, ?_⟩
  have htokens : x ∈ e.tokens ++ (finish t ++ endMark t.pos).tokens := by
    rw [scan, hrun] at hx
    exact hx
  refine (List.mem_append.mp htokens).resolve_right fun hend => ?_
  rw [end_isLayout t x hend] at hk
  contradiction

theorem scan_word {source : String} {x : Token} (hx : x ∈ (scan cfg source).tokens)
    (hk : x.kind ∈ Kind.words) : x.text = x.kind.spelling := by
  obtain ⟨e, t, h, -, -, hx⟩ := exists_end_of_token hx (Lexeme.words_isLayout _ hk)
  exact h.word hx hk

end Scan

end Offside
