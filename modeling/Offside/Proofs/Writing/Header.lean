import Offside.Proofs.Writing.Line

namespace Offside

theorem Convention.ofWord?_word (convention : Convention) :
    Convention.ofWord? convention.word = some convention := by
  cases convention <;> rfl

theorem Cursor.At.peek_ne {c d : Cursor} {t : Token} {ps : List Piece} {k : Kind} (h : c.At t ps d)
    (hk : c.advance.kind ≠ k) (heof : k ≠ .eof) : c.peek 1 ≠ k := by
  rw [h.peeked]
  split
  · exact heof.symm
  · exact hk

namespace Grammar

open Rule

variable {c d m : Cursor} {n : Nat} {allowed : ConventionSet}

section Words

theorem raises?_ok (b : Bool) (hread : c.Read (if b then [.name "raises"] else []) d)
    (hd : d.kind ≠ .identifier) : raises? c = .ok b d := by
  rw [raises?, current_run]
  cases b with
  | true =>
    obtain ⟨t, hat, ht, htext⟩ := Cursor.Read.at_name hread
    obtain rfl := hat.rest.eq_of_nil
    rw [if_pos (by rw [hat.current]; exact ⟨ht, htext⟩)]
    rfl
  | false =>
    obtain rfl := hread.eq_of_nil
    rw [if_neg fun h => hd h.1]
    rfl

theorem convention?_none (h : c.kind = .identifier → c.peek 1 ≠ .identifier ∧ c.peek 1 ≠ .star) :
    convention? allowed c = .ok none c := by
  rw [convention?, current_run, peek_run, if_neg fun hk => hk.2.elim (h hk.1).1 (h hk.1).2]
  rfl

/-- A convention is read before a name; where there is none, no name or star may follow the first
token. -/
theorem convention?_ok {o : Option Convention} {ps : List Piece}
    (haccepts : ∀ convention ∈ o, allowed.accepts convention = true)
    (hread : c.Read ((o.map fun convention => Piece.name convention.word).toList ++ ps) d)
    (hname : o ≠ none → ∃ name, .name name ∈ ps.head?)
    (hnone : c.Read ps d → c.kind = .identifier → c.peek 1 ≠ .identifier ∧ c.peek 1 ≠ .star) :
    ∃ m, convention? allowed c = .ok o m ∧ m.Read ps d := by
  cases o with
  | none => exact ⟨c, convention?_none (hnone hread), hread⟩
  | some convention =>
    obtain ⟨t, hat, ht, htext⟩ := Cursor.Read.at_name hread
    obtain ⟨name, hhead⟩ := hname nofun
    obtain ⟨qs, rfl⟩ := List.head?_eq_some_iff.mp hhead
    obtain ⟨u, hatu, hu, -⟩ := hat.rest.at_name
    have hpeek := (hat.peek_eq rfl).trans (hatu.kind.trans hu)
    refine ⟨c.advance, ?_, hat.rest⟩
    rw [convention?, current_run, peek_run, if_pos ⟨hat.kind.trans ht, Or.inl hpeek⟩, hat.current, conventionBy,
      htext, Convention.ofWord?_word]
    dsimp only
    rw [if_pos (haccepts convention rfl), advance_run]
    rfl

/-- Behind the first token of a type stands no name or star. -/
theorem peek_of_type : ∀ {t : TypeExpr} {c d : Cursor}, c.Read t.pieces d → d.kind ≠ .identifier →
    d.kind ≠ .star → c.peek 1 ≠ .identifier ∧ c.peek 1 ≠ .star
  | .symbol s name, c, d, hread, hname, hstar => by
    obtain ⟨t, hat, -⟩ := at_typeName hread
    obtain rfl := hat.rest.eq_of_nil
    exact ⟨hat.peek_ne hname (by decide), hat.peek_ne hstar (by decide)⟩
  | .qualified _ base _, c, d, hread, _, _ => by
    obtain ⟨m, hm, hrest⟩ := hread.split
    obtain ⟨t, hat, ht⟩ := hrest.at_fixed (by decide)
    have hk := hat.kind.trans ht
    exact peek_of_type (t := base) hm (by simp [hk]) (by simp [hk])
  | .generic _ base _, c, d, hread, _, _ => by
    obtain ⟨m, hm, hrest⟩ := hread.split
    obtain ⟨t, hat, ht⟩ := hrest.at_fixed (by decide)
    have hk := hat.kind.trans ht
    exact peek_of_type (t := base) hm (by simp [hk]) (by simp [hk])

/-- A type starts with a name. -/
theorem kind_of_type : ∀ {t : TypeExpr} {c d : Cursor}, c.Read t.pieces d →
    c.kind = .identifier ∨ c.kind = .kwNone
  | .symbol s name, c, d, hread => by
    obtain ⟨t, hat, hk, -⟩ := at_typeName hread
    rwa [hat.kind]
  | .qualified _ base _, c, d, hread => by
    obtain ⟨m, hm, -⟩ := hread.split
    exact kind_of_type (t := base) hm
  | .generic _ base _, c, d, hread => by
    obtain ⟨m, hm, -⟩ := hread.split
    exact kind_of_type (t := base) hm

end Words

section Parameters

theorem variadicTail_ok {p : Parameter} (start : Offset) (h : p.Proper allowed) (hvariadic : p.variadic = true)
    (hread : c.Read (.name p.name :: (Piece.declared p.declaredType ++ Piece.defaulted p.default)) d)
    (hclear : Clear (.name p.name :: (Piece.declared p.declaredType ++ Piece.defaulted p.default)))
    (hd : d.kind = .comma ∨ d.kind = .closeParen) :
    ∃ p', variadicTail start none c = .ok p' d ∧ p'.plain = p.plain := by
  obtain ⟨hconvention, hdefault⟩ := h.variadic hvariadic
  obtain ⟨t, hat, ht, htext⟩ := hread.at_name
  rw [hdefault] at hat hclear
  obtain ⟨m, hm, hrest⟩ := hat.rest.split
  obtain rfl := hrest.eq_of_nil
  have hends : m.kind ≠ .assignment ∧ m.kind ≠ .colon ∧ m.kind ≠ .dot ∧ m.kind ≠ .openBracket := by
    rcases hd with hd | hd <;> simp [hd]
  obtain ⟨t', htype, hφ⟩ := declaredType_ok h.declared hm hclear.tail.left hends.2.1 hends.2.2.1 hends.2.2.2
  refine ⟨⟨⟨start, m.previousEnd⟩, none, t.text, t', none, true⟩, ?_, ?_⟩
  · rw [variadicTail, bind_ok (expect_ok (hat.kind.trans ht)), if_neg (by simp), bind_ok htype, kind_run,
      if_neg hends.1, hat.current]
    rfl
  · simp only [Parameter.plain, hφ, hconvention, hdefault, hvariadic, htext, Option.map_none]

theorem parameter_writes {p : Parameter} (h : p.Proper allowed) (hclear : Clear p.pieces) :
    Writes (parameter allowed) Parameter.plain Parameter.pieces (· == .closeParen) n p := by
  intro c d _ hread hfollow
  have hd : d.kind = .comma ∨ d.kind = .closeParen := hfollow.imp_right beq_iff_eq.mp
  unfold Parameter.pieces at hread hclear
  by_cases hvariadic : p.variadic = true
  · rw [if_pos hvariadic, (h.variadic hvariadic).1] at hread hclear
    obtain ⟨t, hat, ht⟩ := Cursor.Read.at_fixed hread (by decide)
    have hk := hat.kind.trans ht
    obtain ⟨p', hp, hφ⟩ := variadicTail_ok c.current.span.start h hvariadic hat.rest hclear.tail hd
    refine ⟨by simp [hk], p', ?_, hφ⟩
    rw [parameter, here_run, bind_ok (convention?_none (by simp [hk])), bind_ok (eat_ok hk), if_pos rfl]
    exact hp
  · rw [if_neg hvariadic, List.append_nil] at hread hclear
    obtain ⟨m, hconvention, hm⟩ := convention?_ok h.accepted hread (fun _ => ⟨p.name, rfl⟩)
      fun hread _ => by
        obtain ⟨t, hat, -⟩ := hread.at_name
        obtain ⟨l, hl, hrest⟩ := hat.rest.split
        have hk : c.advance.kind = .colon ∨ c.advance.kind = .assignment ∨ c.advance.kind = .comma ∨
            c.advance.kind = .closeParen := by
          rcases kind_introduced hl (by decide) with hk | rfl
          · exact Or.inl hk
          · rcases kind_introduced hrest (by decide) with hk | rfl
            · exact Or.inr (Or.inl hk)
            · exact Or.inr (Or.inr hd)
        constructor <;> refine hat.peek_ne (fun h => ?_) (by decide) <;> simp [h] at hk
    obtain ⟨t, hat, ht, htext⟩ := hm.at_name
    have hk := hat.kind.trans ht
    have hstarts : c.kind = .identifier := by
      cases hp : p.convention with
      | none =>
        rw [hp] at hread
        obtain ⟨u, hatu, hu, -⟩ := Cursor.Read.at_name hread
        exact hatu.kind.trans hu
      | some convention =>
        rw [hp] at hread
        obtain ⟨u, hatu, hu, -⟩ := Cursor.Read.at_name hread
        exact hatu.kind.trans hu
    obtain ⟨t', e', hφ₁, hφ₂, hparts⟩ := declared_default_ok (g := fun declaredType value => do
      return Parameter.mk ⟨c.current.span.start, ← previousEnd⟩ p.convention t.text declaredType value false)
      h.declared h.default hat.rest hclear.right.tail (hd.imp_right fun h => by rw [h]; rfl)
    refine ⟨by simp [hstarts], ⟨⟨c.current.span.start, d.previousEnd⟩, p.convention, t.text, t', e', false⟩,
      ?_, ?_⟩
    · rw [parameter, here_run, bind_ok hconvention, bind_ok (eat_not (by simp [hk])),
        if_neg Bool.false_ne_true, bind_ok (expectDetailed_ok hk), hat.current]
      exact hparts
    · simp only [Parameter.plain, hφ₁, hφ₂, htext, Bool.not_eq_true _ |>.mp hvariadic]

theorem parameters_ok {ps : List Parameter} {qs : List Piece} (h : ∀ p ∈ ps, p.Proper allowed)
    (hread : c.Read (.fixed .openParen :: (Piece.commaList (ps.map Parameter.pieces) ++
      .fixed .closeParen :: qs)) d)
    (hclear : Clear (Piece.commaList (ps.map Parameter.pieces))) :
    ∃ ps' m, parameters allowed c = .ok ps' m ∧ ps'.map Parameter.plain = ps.map Parameter.plain ∧
      m.Read qs d := by
  obtain ⟨t, hat, ht⟩ := hread.at_fixed (by decide)
  obtain ⟨m, hm, hclose⟩ := hat.rest.split
  obtain ⟨u, hatu, hu⟩ := hclose.at_fixed (by decide)
  have hk := hatu.kind.trans hu
  have hwrites : ∀ p ∈ ps, Writes (parameter allowed) Parameter.plain Parameter.pieces
      (· == .closeParen) c.remaining p := fun p hp =>
    parameter_writes (h p hp) (hclear.commaList _ (List.mem_map_of_mem hp))
  obtain ⟨ps', hps, hφ⟩ := listUpTo_writes hwrites hat.lt hm hk (by decide)
  refine ⟨ps', m.advance, ?_, hφ, hatu.rest⟩
  rw [parameters, bind_ok (expect_ok (hat.kind.trans ht)), bind_ok hps, bind_ok (expect_ok hk)]
  rfl

end Parameters

section Heads

variable {h : FunctionHead}

theorem result?_ok (hproper : h.Proper allowed)
    (hread : c.Read (Piece.introduced .arrow (fun t =>
      (h.returnConvention.map fun c => Piece.name c.word).toList ++ t.pieces) h.returnType) d)
    (hclear : Clear (Piece.introduced .arrow (fun t =>
      (h.returnConvention.map fun c => Piece.name c.word).toList ++ t.pieces) h.returnType))
    (hd : d.kind = .colon) :
    ∃ t', result? allowed c = .ok (h.returnConvention, t') d ∧
      t'.map TypeExpr.plain = h.returnType.map TypeExpr.plain := by
  cases hreturn : h.returnType with
  | none =>
    rw [hreturn] at hread
    obtain rfl := hread.eq_of_nil
    have hnone : h.returnConvention = none := by
      by_contra hne
      obtain ⟨t, ht, -⟩ := hproper.named hne
      rw [hreturn] at ht
      cases ht
    refine ⟨none, ?_, rfl⟩
    rw [result?, bind_ok (eat_not (by simp [hd])), hnone]
    rfl
  | some type =>
    rw [hreturn] at hread hclear
    obtain ⟨t, hat, ht⟩ := Cursor.Read.at_fixed hread (by decide)
    obtain ⟨m, hconvention, hm⟩ := convention?_ok hproper.accepted hat.rest
      (fun hne => by
        obtain ⟨type', htype, hname⟩ := hproper.named hne
        rw [hreturn] at htype
        cases htype
        exact hname)
      fun hread _ => peek_of_type hread (by simp [hd]) (by simp [hd])
    obtain ⟨t', htype, hφ⟩ := typeExpr_ok (hproper.returnType type hreturn) hm hclear.tail.right
      (by simp [hd]) (by simp [hd])
    refine ⟨some t', ?_, congrArg some hφ⟩
    rw [result?, bind_ok (eat_ok (hat.kind.trans ht)), if_pos rfl, bind_ok hconvention, bind_ok htype]
    rfl

theorem functionHead_ok (hproper : h.Proper allowed) (hread : c.Read h.pieces d) (hclear : Clear h.pieces)
    (hd : d.kind = .colon) :
    c.kind = h.word.kind ∧ ∃ start h', functionHead allowed c = .ok (start, h') d ∧ h'.plain = h.plain := by
  obtain ⟨t, hat, ht⟩ := hread.at_fixed (by cases h.word <;> decide)
  obtain ⟨u, hatu, hu, htext⟩ := hat.rest.at_name
  obtain ⟨m, hm, hrest⟩ := hatu.rest.split
  obtain ⟨v, hatv, hv⟩ := hrest.at_fixed (by decide)
  have hclear := (show Clear (.fixed h.word.kind :: .name h.name :: (_ ++ .fixed .openParen :: _)) from
    hclear).tail.tail
  obtain ⟨ts', hts, hφ₁⟩ := typeParameters_ok hproper.typeParameters hm hclear.left
    (by simp [hatv.kind, hv])
  have hclear := hclear.right.tail
  obtain ⟨ps', l, hps, hφ₂, hl⟩ := parameters_ok hproper.parameters hrest hclear.left
  have hclear := hclear.right.tail
  obtain ⟨e, he, hresult⟩ := hl.split
  have hname : e.kind ≠ .identifier := by
    rcases kind_introduced hresult (by decide) with hk | rfl
    · simp [hk]
    · simp [hd]
  obtain ⟨t', htype, hφ₃⟩ := result?_ok hproper hresult hclear.right hd
  have hlate : raises? d = .ok false d := raises?_ok false ⟨[], ⟨rfl, rfl, rfl⟩, .nil⟩ (by simp [hd])
  refine ⟨hat.kind.trans ht, c.current.span.start, ⟨h.word, u.text, ts', ps', h.returnConvention, t', h.raises⟩,
    ?_, ?_⟩
  · rw [functionHead, advance_run, bind_ok (expectDetailed_ok (hatu.kind.trans hu)), bind_ok hts,
      bind_ok hps, bind_ok (raises?_ok h.raises he hname), bind_ok htype]
    refine (bind_ok hlate).trans ?_
    rw [hat.current, hatu.current, ht, Bool.or_false]
    cases h.word <;> rfl
  · simp only [FunctionHead.plain, hφ₁, hφ₂, hφ₃, htext]

theorem bases?_ok {bases : List TypeExpr} (h : ∀ t ∈ bases, t.Proper)
    (hread : c.Read (TypeHead.basesPieces bases) d) (hclear : Clear (TypeHead.basesPieces bases))
    (hd : d.kind = .colon) :
    ∃ bases', bases? c = .ok bases' d ∧ bases'.map TypeExpr.plain = bases.map TypeExpr.plain := by
  cases bases with
  | nil =>
    obtain rfl := hread.eq_of_nil
    exact ⟨[], bind_ok (eat_not (by simp [hd])), rfl⟩
  | cons first rest =>
    obtain ⟨t, hat, ht⟩ := hread.at_fixed (by decide)
    obtain ⟨m, hm, hclose⟩ := hat.rest.split
    obtain ⟨u, hatu, hu⟩ := hclose.at_fixed (by decide)
    obtain rfl := hatu.rest.eq_of_nil
    have hk := hatu.kind.trans hu
    have hwrites : ∀ t ∈ first :: rest, Writes (typeExpr .lowest) TypeExpr.plain TypeExpr.pieces
        (· == .closeParen) c.remaining t := fun t ht c e _ hread hfollow => by
      have hends : e.kind ≠ .dot ∧ e.kind ≠ .openBracket := by
        rcases hfollow with hk | hk
        · simp [hk]
        · simp [beq_iff_eq.mp hk]
      have hclear := hclear.tail.left.commaList _ (List.mem_map_of_mem ht)
      refine ⟨?_, typeExpr_ok (h t ht) hread hclear hends.1 hends.2⟩
      rcases kind_of_type hread with hk | hk <;> simp [hk]
    obtain ⟨bases', hbases, hφ⟩ := listUpTo_writes hwrites hat.lt hm hk (by decide)
    refine ⟨bases', ?_, hφ⟩
    rw [bases?, bind_ok (eat_ok (hat.kind.trans ht)), if_pos rfl, bind_ok hbases, bind_ok (expect_ok hk)]
    rfl

theorem typeHead_ok {h : TypeHead} (hproper : h.Proper) (hread : c.Read h.pieces d) (hclear : Clear h.pieces)
    (hd : d.kind = .colon) :
    c.kind = h.word.kind ∧
      ∃ start h', typeHead h.word c = .ok (start, h') d ∧ h'.plain = h.plain := by
  obtain ⟨t, hat, ht⟩ := hread.at_fixed (by cases h.word <;> decide)
  obtain ⟨u, hatu, hu, htext⟩ := hat.rest.at_name
  obtain ⟨m, hm, hrest⟩ := hatu.rest.split
  have hclear := (show Clear (.fixed h.word.kind :: .name h.name :: (_ ++ _)) from hclear).tail.tail
  have hbracket : m.kind ≠ .openBracket := by
    unfold TypeHead.basesPieces at hrest
    split at hrest
    · obtain rfl := hrest.eq_of_nil
      simp [hd]
    · obtain ⟨v, hatv, hv⟩ := hrest.at_fixed (by decide)
      simp [hatv.kind, hv]
  obtain ⟨ts', hts, hφ₁⟩ := typeParameters_ok hproper.typeParameters hm hclear.left hbracket
  obtain ⟨bases', hbases, hφ₂⟩ := bases?_ok hproper.bases hrest hclear.right hd
  refine ⟨hat.kind.trans ht, c.current.span.start, ⟨h.word, u.text, ts', bases'⟩, ?_, ?_⟩
  · rw [typeHead, advance_run, bind_ok (expectDetailed_ok (hatu.kind.trans hu)), bind_ok hts,
      bind_ok hbases, hatu.current]
    rfl
  · simp only [TypeHead.plain, hφ₁, hφ₂, htext]

theorem forTarget_ok {p : Pattern} (h : p.Proper) (hread : c.Read p.pieces d) (hclear : Clear p.pieces)
    (hd : d.kind = .kwIn) : ∃ p', forTarget c = .ok p' d ∧ p'.plain = p.plain := by
  have hlevel : .trailer ≤ (p.expr.written .free).level := by
    change .trailer ≤ p.expr.enclosed.level
    rw [Expr.level_enclosed]
    exact p.trailer_le
  have hcap := Level.trailer_le_cap hlevel
  have hcomparison : d.level = .comparison := by rw [level_eq_ofKind] <;> simp [hd, Level.ofKind]
  have hends : (p.expr.written .free).Ends d := by
    refine ⟨?_, fun q _ => ?_, fun _ => by simp [hd]⟩
    · rw [hcomparison]
      exact Nat.le_trans (show Level.comparison ≤ .trailer by decide) hcap
    · rw [hd]
      cases q <;> first | trivial | rfl | exact fun h => by cases h
  obtain ⟨e', he, hφ⟩ := expr_written h (by decide)
    (show Level.comparison < _ from Nat.lt_of_lt_of_le (by decide) hlevel) hread hclear hends
    (by rw [hcomparison]; exact Nat.le_refl _)
  obtain ⟨p', hp, hplain⟩ := target_ok h hφ d
  refine ⟨p', ?_, hplain⟩
  rw [forTarget, bind_ok he, kind_run, if_neg (by simp [hd])]
  exact hp

theorem forHead_ok {p : Pattern} {e : Expr} (hp : p.Proper) (he : e.Proper)
    (hread : c.Read (.fixed .kwFor :: (p.pieces ++ .fixed .kwIn :: (e.written .free).pieces)) d)
    (hclear : Clear (.fixed .kwFor :: (p.pieces ++ .fixed .kwIn :: (e.written .free).pieces)))
    (hd : d.kind = .colon) :
    c.kind = .kwFor ∧ ∃ start p' e', forHead c = .ok (start, p', e') d ∧ p'.plain = p.plain ∧
      e'.plain = e.plain := by
  obtain ⟨t, hat, ht⟩ := hread.at_fixed (by decide)
  obtain ⟨m, hm, hrest⟩ := hat.rest.split
  obtain ⟨u, hatu, hu⟩ := hrest.at_fixed (by decide)
  obtain ⟨p', htarget, hφ₁⟩ := forTarget_ok hp hm hclear.tail.left (hatu.kind.trans hu)
  obtain ⟨e', hiterable, hφ₂⟩ := exprList_plain he hatu.rest hclear.tail.right.tail (by rw [hd]; rfl)
    (by simp [hd])
  refine ⟨hat.kind.trans ht, c.current.span.start, p', e', ?_, hφ₁, hφ₂⟩
  rw [forHead, advance_run, bind_ok htarget, bind_ok (expect_ok (hatu.kind.trans hu)), bind_ok hiterable]
  rfl

/-- A word and a condition, before the colon of a body. -/
theorem conditionHead_ok {e : Expr} {k : Kind} (hk : k ≠ .eof) (he : e.Proper)
    (hread : c.Read (.fixed k :: (e.written .free).pieces) d)
    (hclear : Clear (.fixed k :: (e.written .free).pieces)) (hd : d.kind = .colon) :
    c.kind = k ∧ ∃ start e', conditionHead c = .ok (start, e') d ∧ e'.plain = e.plain := by
  obtain ⟨t, hat, ht⟩ := hread.at_fixed hk
  obtain ⟨e', hexpr, hφ⟩ := expr_free he hat.rest hclear.tail (by rw [hd]; rfl)
  refine ⟨hat.kind.trans ht, c.current.span.start, e', ?_,
    (Expr.plain_eq_of_spanless hφ).trans (he.plain_written .free)⟩
  rw [conditionHead, advance_run, bind_ok hexpr]
  rfl

end Heads

section Decorators

theorem argued_of_proper {a : Argument} (h : a.value.Proper) : Argued (a.mapParts Place.enclose) := by
  have hvalue : (a.mapParts Place.enclose).value = a.value.written .value := by cases a <;> rfl
  obtain ⟨hshaped, hsuits⟩ := h.written_suits (show Place.value ≠ .right .primary by decide)
  rw [Argued, hvalue]
  exact ⟨(known_of_shaped hshaped).alone hshaped hsuits.2, of_decide_eq_true hsuits.1⟩

theorem plain_arguments {as as' : List Argument} (h : ∀ a ∈ as, a.value.Proper)
    (heq : as'.map Argument.spanless = (as.map (Argument.mapParts Place.enclose)).map Argument.spanless) :
    as'.map Argument.plain = as.map Argument.plain := by
  have hplain := congrArg (List.map (Argument.mapParts fun _ => Expr.unwrapped)) heq
  refine (Expr.mapParts_mapSpans as').symm.trans (hplain.trans ((Expr.mapParts_mapSpans _).trans ?_))
  rw [List.map_map]
  refine List.map_congr_left fun a ha => ?_
  have hvalue := (h a ha).plain_written .value
  cases a with
  | positional value => exact congrArg Argument.positional hvalue
  | keyword s name value => exact congrArg (Argument.keyword default name) hvalue

theorem decorator?_ok {x : Decorator} (h : x.Proper) (hread : c.Read x.pieces d) (hclear : Clear x.pieces) :
    c.kind = .atSign ∧ ∃ x', decorator? c = .ok (some x') d ∧ x'.plain = x.plain := by
  obtain ⟨t, hat, ht⟩ := hread.at_fixed (by decide)
  obtain ⟨m, hm, hrest⟩ := hat.rest.split
  obtain ⟨l, hl, hend⟩ := hrest.split
  obtain ⟨u, hatu, hu⟩ := hend.at_fixed (by decide)
  obtain rfl := hatu.rest.eq_of_nil
  have hk := hat.kind.trans ht
  have hk' := hatu.kind.trans hu
  have hclear := (show Clear (.fixed .atSign :: (_ ++ (_ ++ _))) from hclear).tail.right.left
  have harguments : m.kind ≠ .dot ∧ ∃ as', as'.map (List.map Argument.plain) =
      x.arguments.map (List.map Argument.plain) ∧
        (if m.kind = .openParen then some <$> callArguments expr else pure none :
          Rule (Option (List Argument))) m = .ok as' l := by
    cases harguments : x.arguments with
    | none =>
      rw [harguments] at hl
      obtain rfl := hl.eq_of_nil
      refine ⟨by simp [hk'], none, rfl, ?_⟩
      rw [if_neg (by simp [hk'])]
      rfl
    | some as =>
      rw [harguments] at hl hclear
      have hproper := h.arguments as harguments
      have hargued : ∀ a ∈ as.map (Argument.mapParts Place.enclose), Argued a :=
        List.forall_mem_map.mpr fun a ha => argued_of_proper (hproper a ha)
      obtain ⟨hparen, as', hφ, hcall⟩ :=
        callArguments_ok (expr_faithful m.remaining) hargued (Nat.le_refl _) hl hclear
      refine ⟨by simp [hparen], some as', congrArg some (plain_arguments hproper hφ), ?_⟩
      rw [if_pos hparen]
      exact bind_ok hcall
  obtain ⟨hdot, as', hφ, hcall⟩ := harguments
  refine ⟨hk, ⟨⟨c.current.span.start, l.previousEnd⟩, x.path, as'⟩, ?_, ?_⟩
  · rw [decorator?, kind_run, if_pos hk, advance_run, bind_ok (dottedName_ok h.path hm hdot).2, kind_run]
    by_cases hparen : m.kind = .openParen
    · rw [if_pos hparen] at hcall ⊢
      exact (bind_ok hcall).trans (bind_ok (expect_ok hk'))
    · rw [if_neg hparen] at hcall ⊢
      exact (bind_ok hcall).trans (bind_ok (expect_ok hk'))
  · simp only [Decorator.plain, hφ]

end Decorators

end Grammar

end Offside
