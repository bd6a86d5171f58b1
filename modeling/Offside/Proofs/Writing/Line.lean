import Offside.Proofs.Writing.Listing

namespace Offside

def Kind.endsLine : Kind → Bool
  | .newline | .semicolon => true
  | _ => false

theorem Kind.endsExpr_of_endsLine {k : Kind} (h : k.endsLine = true) : k.endsExpr = true := by
  revert h
  cases k <;> decide

theorem Kind.ne_of_endsLine {k k' : Kind} (h : k.endsLine = true) (h' : k'.endsLine = false) : k ≠ k' := by
  rintro rfl
  rw [h] at h'
  cases h'

namespace Grammar

open Rule

variable {c d m : Cursor} {n : Nat}

theorem ended_ok {α : Type} {rule : Rule α} {a : α} {e : Cursor} (h : rule c = .ok a d)
    (hend : endOfStatement d = .ok () e) : ended rule c = .ok a e := by
  rw [ended, bind_ok h, bind_ok hend]
  rfl

section Parts

variable {declaredType : Option TypeExpr} {value : Option Expr}

theorem declaredType_ok (h : ∀ t ∈ declaredType, t.Proper) (hread : c.Read (Piece.declared declaredType) d)
    (hclear : Clear (Piece.declared declaredType)) (hcolon : d.kind ≠ .colon) (hdot : d.kind ≠ .dot)
    (hbracket : d.kind ≠ .openBracket) :
    ∃ t', declaredType? c = .ok t' d ∧ t'.map TypeExpr.plain = declaredType.map TypeExpr.plain := by
  refine introduced_ok hread (by decide) hcolon fun t ht e he => ?_
  cases ht
  exact typeExpr_ok (h t rfl) he hclear.tail hdot hbracket

theorem default_ok (h : ∀ e ∈ value, e.Proper) (hread : c.Read (Piece.defaulted value) d)
    (hclear : Clear (Piece.defaulted value)) (hassignment : d.kind ≠ .assignment)
    (hd : d.kind.endsExpr = true) :
    ∃ e', default? c = .ok e' d ∧ e'.map Expr.plain = value.map Expr.plain := by
  refine introduced_ok hread (by decide) hassignment fun e he m hm => ?_
  cases he
  obtain ⟨e', hexpr, hφ⟩ := expr_free (h e rfl) hm hclear.tail hd
  exact ⟨e', hexpr, (Expr.plain_eq_of_spanless hφ).trans ((h e rfl).plain_written .free)⟩

/-- A declared type and a value, either of which may be missing. -/
theorem declared_default_ok {α : Type} {g : Option TypeExpr → Option Expr → Rule α}
    (htypes : ∀ t ∈ declaredType, t.Proper) (hvalues : ∀ e ∈ value, e.Proper)
    (hread : c.Read (Piece.declared declaredType ++ Piece.defaulted value) d)
    (hclear : Clear (Piece.declared declaredType ++ Piece.defaulted value))
    (hd : d.kind = .comma ∨ d.kind.isClosing = true) :
    ∃ t' e', t'.map TypeExpr.plain = declaredType.map TypeExpr.plain ∧
      e'.map Expr.plain = value.map Expr.plain ∧
        (do let t ← declaredType?; let e ← default?; g t e : Rule α) c = g t' e' d := by
  obtain ⟨m, hm, hrest⟩ := hread.split
  have hends : d.kind.endsExpr = true ∧ d.kind ≠ .assignment ∧ d.kind ≠ .colon ∧ d.kind ≠ .dot ∧
      d.kind ≠ .openBracket := by
    generalize d.kind = k at hd
    revert hd
    cases k <;> decide
  have hmiddle : m.kind ≠ .colon ∧ m.kind ≠ .dot ∧ m.kind ≠ .openBracket := by
    rcases kind_introduced hrest (by decide) with hk | rfl
    · rw [hk]
      decide
    · exact hends.2.2
  obtain ⟨t', ht, hφ₁⟩ := declaredType_ok htypes hm hclear.left hmiddle.1 hmiddle.2.1 hmiddle.2.2
  obtain ⟨e', he, hφ₂⟩ := default_ok hvalues hrest hclear.right hends.2.1 hends.1
  exact ⟨t', e', hφ₁, hφ₂, (bind_ok ht).trans (bind_ok he)⟩

theorem typeParameter_writes {p : TypeParameter} (h : p.Proper) (hclear : Clear p.pieces) :
    Writes typeParameter TypeParameter.plain TypeParameter.pieces (· == .closeBracket) n p := by
  intro c d _ hread hfollow
  cases p with
  | inferOnly s =>
    obtain ⟨t, hat, ht⟩ := hread.at_fixed (by decide)
    obtain rfl := hat.rest.eq_of_nil
    have hk := hat.kind.trans ht
    refine ⟨by simp [hk], .inferOnly c.current.span, ?_, rfl⟩
    rw [typeParameter, kind_run, if_pos hk]
    rfl
  | named s name declaredType value =>
    obtain ⟨t, hat, ht, rfl⟩ := Cursor.Read.at_name hread
    have hk := hat.kind.trans ht
    have hd : d.kind = .comma ∨ d.kind.isClosing = true := by
      refine hfollow.imp_right fun h => ?_
      rw [beq_iff_eq.mp h]
      rfl
    obtain ⟨t', e', hφ₁, hφ₂, hparts⟩ := declared_default_ok (g := fun declaredType value => do
      return TypeParameter.named ⟨c.current.span.start, ← previousEnd⟩ c.current.text declaredType value)
      h.1 h.2 hat.rest hclear.tail hd
    refine ⟨by simp [hk], .named ⟨c.current.span.start, d.previousEnd⟩ c.current.text t' e', ?_, ?_⟩
    · rw [typeParameter, kind_run, if_neg (by simp [hk]), bind_ok (expectDetailed_ok hk)]
      exact hparts
    · simp only [TypeParameter.plain, hφ₁, hφ₂, hat.current]

theorem typeParameters_ok {ps : List TypeParameter} (h : ∀ p ∈ ps, p.Proper)
    (hread : c.Read (TypeParameter.listed ps) d) (hclear : Clear (TypeParameter.listed ps))
    (hd : d.kind ≠ .openBracket) :
    ∃ ps', typeParameters? c = .ok ps' d ∧ ps'.map TypeParameter.plain = ps.map TypeParameter.plain := by
  cases ps with
  | nil =>
    obtain rfl := hread.eq_of_nil
    exact ⟨[], by rw [typeParameters?, kind_run, if_neg hd]; rfl, rfl⟩
  | cons first rest =>
    obtain ⟨t, hat, ht⟩ := hread.at_fixed (by decide)
    obtain ⟨m, hm, hclose⟩ := hat.rest.split
    obtain ⟨t', hat', ht'⟩ := hclose.at_fixed (by decide)
    obtain rfl := hat'.rest.eq_of_nil
    have hk := hat.kind.trans ht
    have hk' := hat'.kind.trans ht'
    have hwrites : ∀ p ∈ first :: rest, Writes typeParameter TypeParameter.plain TypeParameter.pieces
        (· == .closeBracket) c.remaining p := fun p hp =>
      typeParameter_writes (h p hp) (hclear.tail.left.commaList _ (List.mem_map_of_mem hp))
    obtain ⟨hstart, ps', hps, hφ⟩ := commaList_writes hwrites (List.cons_ne_nil _ _) hat.lt hm
      (by simp [hk']) (by simp [hk'])
    refine ⟨ps', ?_, hφ⟩
    rw [typeParameters?, kind_run, if_pos hk, typeParameters, bind_ok (expect_ok hk), kind_run,
      if_neg (by simpa using hstart), bind_ok hps, bind_ok (expect_ok hk')]
    rfl

end Parts

section Names

variable {path : List String} {expected : String}

theorem dottedName_ok (hne : path ≠ []) (hread : c.Read (Piece.dotted path) d) (hd : d.kind ≠ .dot) :
    c.kind = .identifier ∧ dottedName expected c = .ok path d := by
  have hrest (names : List String) (c : Cursor)
      (hread : c.Read (names.flatMap fun part => [.fixed .dot, .name part]) d) :
      Rule.repeated nameRound c = .ok names d := by
    induction names generalizing c with
    | nil =>
      obtain rfl := hread.eq_of_nil
      refine many_none ?_
      rw [nameRound, kind_run, peek_run, if_neg (by simp [hd])]
      rfl
    | cons name names ih =>
      obtain ⟨t, hat, ht⟩ := Cursor.Read.at_fixed hread (by decide)
      obtain ⟨u, hatu, hu, rfl⟩ := hat.rest.at_name
      have hpeek := (hat.peek_eq rfl).trans (hatu.kind.trans hu)
      refine many_cons ?_ (Nat.lt_trans hatu.lt hat.lt) (ih _ hatu.rest)
      rw [nameRound, kind_run, peek_run, if_pos (by simp [hat.kind, ht, hpeek]), dotName, advance_run, ← hatu.current]
      rfl
  obtain ⟨first, rest, rfl⟩ := List.exists_cons_of_ne_nil hne
  obtain ⟨t, hat, ht, rfl⟩ := Cursor.Read.at_name hread
  have hk := hat.kind.trans ht
  refine ⟨hk, ?_⟩
  rw [dottedName, bind_ok (expectDetailed_ok hk), bind_ok (hrest rest _ hat.rest), hat.current]
  rfl

theorem asName_ok {asName : Option String}
    (hread : c.Read (Piece.introduced .kwAs (fun name => [.name name]) asName) d) (hd : d.kind ≠ .kwAs) :
    asName? c = .ok asName d := by
  obtain ⟨asName', hname, hφ⟩ : ∃ asName', asName? c = .ok asName' d ∧ asName'.map id = asName.map id :=
    introduced_ok hread (by decide) hd fun name _ e he => by
      obtain ⟨t, hat, ht, rfl⟩ := Cursor.Read.at_name he
      obtain rfl := hat.rest.eq_of_nil
      refine ⟨t.text, ?_, rfl⟩
      rw [bind_ok (expect_ok (hat.kind.trans ht)), hat.current]
      rfl
  rw [Option.map_id] at hφ
  exact (show asName' = asName from hφ) ▸ hname

theorem importName_ok {name : ImportName} (hne : name.path ≠ []) (hread : c.Read name.pieces d)
    (hdot : d.kind ≠ .dot) (hd : d.kind ≠ .kwAs) :
    ∃ name', importName c = .ok name' d ∧ name'.plain = name.plain := by
  obtain ⟨m, hm, hrest⟩ := hread.split
  have hmiddle : m.kind ≠ .dot := by
    rcases kind_introduced hrest (by decide) with hk | rfl
    · simp [hk]
    · exact hdot
  refine ⟨⟨⟨c.current.span.start, d.previousEnd⟩, name.path, name.asName⟩, ?_, rfl⟩
  rw [importName, here_run, bind_ok (dottedName_ok hne hm hmiddle).2, bind_ok (asName_ok hrest hd)]
  rfl

theorem importedName_ok {name : ImportName} {word : String} (hpath : name.path = [word])
    (hread : c.Read name.pieces d) (hd : d.kind ≠ .kwAs) :
    ∃ name', importedName c = .ok name' d ∧ name'.plain = name.plain := by
  rw [ImportName.pieces, hpath] at hread
  obtain ⟨t, hat, ht, rfl⟩ := Cursor.Read.at_name hread
  refine ⟨⟨⟨t.span.start, d.previousEnd⟩, [t.text], name.asName⟩, ?_, ?_⟩
  · rw [importedName, bind_ok (expect_ok (hat.kind.trans ht)), bind_ok (asName_ok hat.rest hd),
      hat.current]
    rfl
  · rw [ImportName.plain, ImportName.plain, hpath]

theorem importTargets_ok {targets : ImportTargets} (h : targets.Proper) (hread : c.Read targets.pieces d)
    (hd : d.kind.endsLine = true) :
    ∃ targets', importTargets c = .ok targets' d ∧ targets'.plain = targets.plain := by
  cases targets with
  | wildcard =>
    obtain ⟨t, hat, ht⟩ := hread.at_fixed (by decide)
    obtain rfl := hat.rest.eq_of_nil
    refine ⟨.wildcard, ?_, rfl⟩
    rw [importTargets, bind_ok (eat_ok (hat.kind.trans ht))]
    rfl
  | listed names =>
    obtain ⟨hne, hnames⟩ := h
    obtain ⟨names', hlist, hφ⟩ : ∃ names', commaList (fun _ => false) importedName c = .ok names' d ∧
        names'.map ImportName.plain = names.map ImportName.plain :=
      separated_ok hne hread (Kind.ne_of_endsLine hd rfl) fun name hname e m he hm => by
        obtain ⟨word, hpath⟩ := hnames name hname
        refine importedName_ok hpath he ?_
        rcases hm with hk | rfl
        · simp [hk]
        · exact Kind.ne_of_endsLine hd rfl
    have hk : c.kind = .identifier := by
      obtain ⟨name, names, rfl⟩ := List.exists_cons_of_ne_nil hne
      obtain ⟨word, hpath⟩ := hnames name List.mem_cons_self
      obtain ⟨e, he, -⟩ := hread.split
      rw [ImportName.pieces, hpath] at he
      obtain ⟨t, hat, ht, -⟩ := Cursor.Read.at_name he
      exact hat.kind.trans ht
    refine ⟨.listed names', ?_, congrArg ImportTargets.listed hφ⟩
    rw [importTargets, bind_ok (eat_not (by simp [hk])), if_neg Bool.false_ne_true,
      bind_ok (eat_not (by simp [hk])), if_neg Bool.false_ne_true, bind_ok hlist]
    rfl

theorem dots_ok (level : Nat) (hread : c.Read (List.replicate level (.fixed .dot)) d) (hd : d.kind ≠ .dot) :
    ∃ dots : List Unit, dots.length = level ∧
      Rule.repeated dotRound c = .ok dots d := by
  induction level generalizing c with
  | zero =>
    obtain rfl := hread.eq_of_nil
    refine ⟨[], rfl, many_none ?_⟩
    rw [dotRound, bind_ok (eat_not hd)]
    rfl
  | succ level ih =>
    obtain ⟨t, hat, ht⟩ := Cursor.Read.at_fixed hread (by decide)
    obtain ⟨dots, hlength, hdots⟩ := ih hat.rest
    refine ⟨() :: dots, congrArg Nat.succ hlength, many_cons ?_ hat.lt hdots⟩
    rw [dotRound, bind_ok (eat_ok (hat.kind.trans ht))]
    rfl

end Names

end Grammar

end Offside
