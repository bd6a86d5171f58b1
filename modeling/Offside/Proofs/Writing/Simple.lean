import Offside.Proofs.Writing.Line

namespace Offside

def Stmt.FromLine (s : Stmt) : Prop :=
  ∀ c d e : Cursor, c.Read s.line d → Clear s.line → d.kind.endsLine = true →
    Grammar.endOfStatement d = .ok () e →
      ∃ s', Grammar.simpleStmt c.kind c = .ok s' e ∧ s'.plain = s.plain

namespace Grammar

open Rule Stmt

variable {c d m : Cursor} {s : Span} {isVar : Bool} {target : Pattern} {value : Expr}
  {declaredType : Option TypeExpr}

theorem fromLine_import {names : List ImportName} (hne : names ≠ []) (hpaths : ∀ n ∈ names, n.path ≠ []) :
    FromLine (.importModules s names) := by
  intro c d e hread _ hd hend
  obtain ⟨t, hat, ht⟩ := hread.at_fixed (by decide)
  obtain ⟨names', hlist, hφ⟩ : ∃ names', commaList (fun _ => false) importName c.advance = .ok names' d ∧
      names'.map ImportName.plain = names.map ImportName.plain :=
    separated_ok hne hat.rest (Kind.ne_of_endsLine hd rfl) fun name hname m e he hm => by
      refine importName_ok (hpaths name hname) he ?_ ?_ <;> rcases hm with hk | rfl
      · simp [hk]
      · exact Kind.ne_of_endsLine hd rfl
      · simp [hk]
      · exact Kind.ne_of_endsLine hd rfl
  rw [hat.kind, ht]
  refine ⟨.importModules ⟨c.current.span.start, d.previousEnd⟩ names', ended_ok ?_ hend,
    congrArg (Stmt.importModules default) hφ⟩
  rw [advance_run, bind_ok hlist]
  rfl

theorem fromLine_importFrom {level : Nat} {path : List String} {targets : ImportTargets}
    (horigin : level = 0 → path ≠ []) (htargets : targets.Proper) :
    FromLine (.importFrom s level path targets) := by
  intro c d e hread _ hd hend
  obtain ⟨t, hat, ht⟩ := hread.at_fixed (by decide)
  obtain ⟨m, hm, hrest⟩ := hat.rest.split
  obtain ⟨l, hl, hrest⟩ := hrest.split
  obtain ⟨u, hatu, hu⟩ := hrest.at_fixed (by decide)
  have hk := hatu.kind.trans hu
  have hpath : path ≠ [] → m.kind = .identifier ∧ dottedName "expected module name" m = .ok path l :=
    fun hne => dottedName_ok hne hl (by simp [hk])
  have hnone : path = [] → m = l := by
    rintro rfl
    exact hl.eq_of_nil
  have hdot : m.kind ≠ .dot := by
    by_cases hne : path = []
    · simp [hnone hne, hk]
    · simp [(hpath hne).1]
  obtain ⟨dots, rfl, hdots⟩ := dots_ok level hm hdot
  obtain ⟨targets', htaken, hφ⟩ := importTargets_ok htargets hatu.rest hd
  rw [hat.kind, ht]
  refine ⟨.importFrom ⟨c.current.span.start, d.previousEnd⟩ dots.length path targets', ended_ok ?_ hend,
    congrArg (Stmt.importFrom default _ path) hφ⟩
  rw [advance_run, bind_ok hdots, kind_run]
  by_cases hne : path = []
  · have hdots : dots.isEmpty = false := by
      cases dots with
      | nil => exact absurd hne (horigin rfl)
      | cons => rfl
    obtain rfl := hnone hne
    rw [if_neg (by simp [hk, hdots]), hne]
    change (expect .kwImport >>= _) m = _
    rw [bind_ok (expect_ok hk), bind_ok htaken]
    rfl
  · rw [if_pos (by simp [(hpath hne).1]), bind_ok (hpath hne).2]
    change (expect .kwImport >>= _) l = _
    rw [bind_ok (expect_ok hk), bind_ok htaken]
    rfl

theorem simpleStmt_operand {k : Kind} (h : k.startsOperand = true) : simpleStmt k = expressionStmt := by
  cases k <;> first | rfl | cases h

/-- What a statement without a word of its own begins with. -/
theorem exprList_line {e : Expr} (h : e.Proper) (hread : c.Read (e.written .free).pieces m)
    (hclear : Clear (e.written .free).pieces) (hm : m.kind.endsExpr = true) (hcomma : m.kind ≠ .comma) :
    ∃ e', e'.spanless = (e.written .free).spanless ∧ exprList c = .ok e' m ∧
      ∀ {d : Cursor} {s : Stmt} {u : Cursor}, afterExprList c.current.span.start e' m = .ok s d →
        endOfStatement d = .ok () u → simpleStmt c.kind c = .ok s u := by
  obtain ⟨e', he, hφ⟩ := exprList_ok h hread hclear hm hcomma
  obtain ⟨hshaped, hsuits⟩ := h.written_suits (show Place.free ≠ .right .primary by decide)
  refine ⟨e', hφ, he, fun hafter hend => ?_⟩
  rw [simpleStmt_operand (hshaped.begins hsuits.2 hread).starts]
  refine ended_ok ?_ hend
  rw [here_run, bind_ok he]
  exact hafter

theorem fromLine_expression (h : value.Proper) : FromLine (.expression s value) := by
  intro c d e hread hclear hd hend
  obtain ⟨value', hφ, -, hline⟩ := exprList_line h hread hclear (Kind.endsExpr_of_endsLine hd)
    (Kind.ne_of_endsLine hd rfl)
  refine ⟨.expression value'.span value', hline ?_ hend, congrArg (Stmt.expression default)
    ((Expr.plain_eq_of_spanless hφ).trans (h.plain_written .free))⟩
  rw [afterExprList, kind_run]
  generalize d.kind = k at hd
  cases k <;> first | rfl | cases hd

/-- The value of an assignment. -/
theorem value_ok (h : value.Proper) (hread : c.Read (value.written .free).pieces d)
    (hclear : Clear (value.written .free).pieces) (hd : d.kind.endsLine = true) :
    ∃ value', exprList c = .ok value' d ∧ value'.plain = value.plain :=
  exprList_plain h hread hclear (Kind.endsExpr_of_endsLine hd) (Kind.ne_of_endsLine hd rfl)

/-- From its equals sign, the rest of an assignment. -/
theorem binding_value {left : Expr} (start : Offset) (isVar : Bool) (t' : Option TypeExpr)
    (htarget : target.Proper) (hleft : left.spanless = (target.expr.written .free).spanless) (h : value.Proper)
    (hread : c.Read (.fixed .assignment :: (value.written .free).pieces) d)
    (hclear : Clear (.fixed .assignment :: (value.written .free).pieces)) (hd : d.kind.endsLine = true) :
    ∃ p' value', p'.plain = target.plain ∧ value'.plain = value.plain ∧
      binding start isVar left t' c = .ok (.assignment ⟨start, d.previousEnd⟩ isVar p' t' value') d := by
  obtain ⟨u, hat, hu⟩ := hread.at_fixed (by decide)
  obtain ⟨value', hvalue, hφ⟩ := value_ok h hat.rest hclear.tail hd
  obtain ⟨p', hp, hplain⟩ := target_ok htarget hleft d
  refine ⟨p', value', hplain, hφ, ?_⟩
  rw [binding, bind_ok (eat_ok (hat.kind.trans hu)), if_pos rfl, bind_ok hvalue, bind_ok hp]
  rfl

/-- Without an equals sign, a declaration. -/
theorem binding_name {left : Expr} {name : String} {t' : Option TypeExpr} (start : Offset)
    (hleft : left.spanless = .symbol default name) (hd : d.kind ≠ .assignment) :
    binding start isVar left t' d = .ok (.declaration ⟨start, d.previousEnd⟩ isVar name t') d := by
  rw [binding, bind_ok (eat_not hd), if_neg Bool.false_ne_true]
  cases left with
  | symbol s name' =>
    obtain rfl := (Expr.symbol.inj hleft).2
    rfl
  | _ => cases hleft

/-- What begins a statement with `var`. -/
theorem varStmt_line {e : Expr} (h : e.Proper) (hc : c.kind = .kwVar)
    (hstart : c.advance.kind = .identifier ∨ c.advance.kind = .openParen)
    (hread : c.advance.Read (e.written .free).pieces m) (hclear : Clear (e.written .free).pieces)
    (hm : m.kind.endsExpr = true) (hcomma : m.kind ≠ .comma) :
    ∃ e', e'.spanless = (e.written .free).spanless ∧
      ∀ {t' : Option TypeExpr} {l d u : Cursor} {s : Stmt}, declaredType? m = .ok t' l →
        binding c.current.span.start true e' t' l = .ok s d → endOfStatement d = .ok () u →
          simpleStmt c.kind c = .ok s u := by
  obtain ⟨e', he, hφ⟩ := exprList_ok h hread hclear hm hcomma
  refine ⟨e', hφ, fun ht hbinding hend => ?_⟩
  rw [hc]
  refine ended_ok ?_ hend
  rw [advance_run, kind_run]
  rcases hstart with hk | hk
  · rw [hk]
    change (exprList >>= _) c.advance = _
    rw [bind_ok he, bind_ok ht]
    exact hbinding
  · rw [hk]
    change (exprList >>= _) c.advance = _
    rw [bind_ok he, bind_ok ht]
    exact hbinding

theorem startsTarget_kind {ps : List Piece} (hread : c.Read ps d)
    (h : ∃ p ∈ ps.head?, p.startsTarget = true) : c.kind = .identifier ∨ c.kind = .openParen := by
  obtain ⟨p, hp, hstart⟩ := h
  obtain ⟨qs, rfl⟩ := List.head?_eq_some_iff.mp hp
  unfold Piece.startsTarget at hstart
  split at hstart
  · obtain ⟨t, hat, ht, -⟩ := hread.at_name
    exact Or.inl (hat.kind.trans ht)
  · obtain ⟨t, hat, ht⟩ := hread.at_fixed (by decide)
    exact Or.inr (hat.kind.trans ht)
  · cases hstart

theorem fromLine_assignment (htarget : target.Proper)
    (hstart : isVar = true → ∃ p ∈ target.pieces.head?, p.startsTarget = true)
    (htypes : ∀ t ∈ declaredType, t.Proper) (h : value.Proper) :
    FromLine (.assignment s isVar target declaredType value) := by
  intro c d u hread hclear hd hend
  cases isVar with
  | true =>
    obtain ⟨t, hat, ht⟩ :=
      (show c.Read (.fixed .kwVar :: (target.pieces ++ _)) d from hread).at_fixed (by decide)
    obtain ⟨m, hm, hrest⟩ := hat.rest.split
    obtain ⟨l, hl, hvalue⟩ := hrest.split
    have hclear := (show Clear (.fixed .kwVar :: (target.pieces ++ _)) from hclear).tail
    obtain ⟨v, hatv, hv⟩ := hvalue.at_fixed (by decide)
    have hk := hatv.kind.trans hv
    have hfollow : m.kind.endsExpr = true ∧ m.kind ≠ .comma := by
      rcases kind_introduced hl (by decide) with hk' | rfl
      · rw [hk']; decide
      · rw [hk]; decide
    obtain ⟨left, hleft, hline⟩ := varStmt_line htarget (hat.kind.trans ht)
      (startsTarget_kind hm (hstart rfl)) hm hclear.left hfollow.1 hfollow.2
    obtain ⟨t', htype, hφ⟩ := declaredType_ok htypes hl hclear.right.left (by simp [hk]) (by simp [hk])
      (by simp [hk])
    obtain ⟨p', value', hp, hv', hbinding⟩ := binding_value c.current.span.start true t'
      htarget hleft h hvalue hclear.right.right hd
    refine ⟨_, hline htype hbinding hend, ?_⟩
    simp only [Stmt.plain, hp, hv', hφ]
  | false =>
    obtain ⟨m, hm, hrest⟩ := (show c.Read (target.pieces ++ _) d from hread).split
    have hclear : Clear (target.pieces ++ _) := hclear
    cases declaredType with
    | none =>
      obtain ⟨v, hatv, hv⟩ := Cursor.Read.at_fixed hrest (by decide)
      have hk := hatv.kind.trans hv
      obtain ⟨left, hleft, -, hline⟩ := exprList_line htarget hm hclear.left (by rw [hk]; decide)
        (by simp [hk])
      obtain ⟨value', hvalue, hφ⟩ := value_ok h hatv.rest hclear.right.tail hd
      obtain ⟨p', hp, hplain⟩ := target_ok htarget hleft m.advance
      refine ⟨.assignment ⟨c.current.span.start, d.previousEnd⟩ false p' none value', hline ?_ hend, ?_⟩
      · rw [afterExprList, kind_run, hk]
        change (advance >>= _) m = _
        rw [advance_run, bind_ok hp, bind_ok hvalue]
        rfl
      · simp only [Stmt.plain, hplain, hφ, Option.map_none]
    | some t =>
      obtain ⟨v, hatv, hv⟩ := Cursor.Read.at_fixed hrest (by decide)
      obtain ⟨l, hl, hvalue⟩ := hatv.rest.split
      obtain ⟨w, hatw, hw⟩ := hvalue.at_fixed (by decide)
      have hk := hatv.kind.trans hv
      have hk' := hatw.kind.trans hw
      obtain ⟨left, hleft, -, hline⟩ := exprList_line htarget hm hclear.left (by rw [hk]; decide)
        (by simp [hk])
      obtain ⟨t', htype, hφ⟩ := typeExpr_ok (htypes t rfl) hl hclear.right.tail.left (by simp [hk'])
        (by simp [hk'])
      obtain ⟨p', value', hp, hv', hbinding⟩ := binding_value c.current.span.start false
        (some t') htarget hleft h hvalue hclear.right.tail.right hd
      refine ⟨.assignment ⟨c.current.span.start, d.previousEnd⟩ false p' (some t') value',
        hline ?_ hend, ?_⟩
      · rw [afterExprList, kind_run, hk]
        change (advance >>= _) m = _
        rw [advance_run, bind_ok htype]
        exact hbinding
      · simp only [Stmt.plain, hp, hv', Option.map_some, hφ]

theorem fromLine_declaration {name : String} (htypes : ∀ t ∈ declaredType, t.Proper)
    (htyped : isVar = false → declaredType ≠ none) : FromLine (.declaration s isVar name declaredType) := by
  intro c d u hread hclear hd hend
  have hname : (Expr.symbol default name).Proper := ⟨.symbol, rfl⟩
  have hassignment : d.kind ≠ .assignment := Kind.ne_of_endsLine hd rfl
  cases isVar with
  | true =>
    obtain ⟨t, hat, ht⟩ :=
      (show c.Read (.fixed .kwVar :: ([.name name] ++ Piece.declared declaredType)) d from
        hread).at_fixed (by decide)
    obtain ⟨m, hm, hrest⟩ := hat.rest.split
    obtain ⟨v, hatv, hv, -⟩ := hm.at_name
    have hclear :=
      (show Clear (.fixed .kwVar :: ([.name name] ++ Piece.declared declaredType)) from hclear).tail
    have hfollow : m.kind.endsExpr = true ∧ m.kind ≠ .comma := by
      rcases kind_introduced hrest (by decide) with hk | rfl
      · rw [hk]; decide
      · exact ⟨Kind.endsExpr_of_endsLine hd, Kind.ne_of_endsLine hd rfl⟩
    obtain ⟨left, hleft, hline⟩ := varStmt_line hname (hat.kind.trans ht)
      (Or.inl (hatv.kind.trans hv)) hm hclear.left hfollow.1 hfollow.2
    obtain ⟨t', htype, hφ⟩ := declaredType_ok htypes hrest hclear.right (Kind.ne_of_endsLine hd rfl)
      (Kind.ne_of_endsLine hd rfl) (Kind.ne_of_endsLine hd rfl)
    exact ⟨_, hline htype (binding_name _ hleft hassignment) hend,
      congrArg (Stmt.declaration default true name) hφ⟩
  | false =>
    obtain ⟨t, rfl⟩ := Option.ne_none_iff_exists'.mp (htyped rfl)
    obtain ⟨m, hm, hrest⟩ := (show c.Read ([.name name] ++ Piece.declared (some t)) d from hread).split
    obtain ⟨v, hatv, hv⟩ := Cursor.Read.at_fixed hrest (by decide)
    have hk := hatv.kind.trans hv
    have hclear : Clear ([.name name] ++ Piece.declared (some t)) := hclear
    obtain ⟨left, hleft, -, hline⟩ := exprList_line hname hm hclear.left (by rw [hk]; decide)
      (by simp [hk])
    obtain ⟨t', htype, hφ⟩ := typeExpr_ok (htypes t rfl) hatv.rest hclear.right.tail
      (Kind.ne_of_endsLine hd rfl) (Kind.ne_of_endsLine hd rfl)
    refine ⟨.declaration ⟨c.current.span.start, d.previousEnd⟩ false name (some t'), hline ?_ hend,
      congrArg (Stmt.declaration default false name) (congrArg some hφ)⟩
    rw [afterExprList, kind_run, hk]
    change (advance >>= _) m = _
    rw [advance_run, bind_ok htype]
    exact binding_name _ hleft hassignment

theorem afterExprList_augmented {op : BinaryOp} {start : Offset} {first : Expr}
    (h : op.augmentedKind ≠ .eof) (hc : c.kind = op.augmentedKind) :
    afterExprList start first c = augmented start first op c := by
  rw [afterExprList, kind_run, hc]
  cases op <;> first | rfl | exact absurd rfl h

theorem BinaryOp.augmentedKind_endsExpr (op : BinaryOp) : op.augmentedKind.endsExpr = true := by
  cases op <;> rfl

theorem fromLine_augmented {op : BinaryOp} (hop : op.augmentedKind ≠ .eof) (htarget : target.Proper)
    (hsingle : target.isSequence = false) (h : value.Proper) : FromLine (.augmented s op target value) := by
  intro c d u hread hclear hd hend
  obtain ⟨m, hm, hrest⟩ := (show c.Read (target.pieces ++ _) d from hread).split
  obtain ⟨t, hat, ht⟩ := hrest.at_fixed hop
  have hk := hat.kind.trans ht
  have hcomma : m.kind ≠ .comma := by
    rw [hk]
    cases op <;> decide
  have hclear : Clear (target.pieces ++ _) := hclear
  obtain ⟨left, hleft, -, hline⟩ := exprList_line htarget hm hclear.left
    (hk ▸ BinaryOp.augmentedKind_endsExpr op) hcomma
  obtain ⟨p', hp, hplain⟩ := target_ok htarget hleft m.advance
  obtain ⟨value', hvalue, hφ⟩ := value_ok h hat.rest hclear.right.tail hd
  refine ⟨.augmented ⟨c.current.span.start, d.previousEnd⟩ op p' value', hline ?_ hend,
    congrArg₂ (Stmt.augmented default op) hplain hφ⟩
  rw [afterExprList_augmented hop hk, augmented, advance_run, bind_ok hp]
  have hsingle : p'.plain.isSequence = false := by
    rw [hplain]
    cases target <;> first | rfl | cases hsingle
  cases p' with
  | tuple | list => cases hsingle
  | symbol | member | subscript =>
    change (exprList >>= _) m.advance = _
    rw [bind_ok hvalue]
    rfl

/-- What an alias stands for is read as a type argument is. -/
theorem aliasValue_ok {v : AliasValue} (h : v.Proper) (hread : c.Read v.pieces d) (hclear : Clear v.pieces)
    (hd : d.kind.endsExpr = true) :
    ∃ e', expr .lowest c = .ok e' d ∧ (match TypeExpr.ofExpr? e' with
      | some t => AliasValue.type t
      | none => .value e').plain = v.plain := by
  have hargument {a : TypeArgument} (h : a.Nested) (hread : c.Read (a.expr.written .free).pieces d)
      (hclear : Clear (a.expr.written .free).pieces) :
      ∃ e', expr .lowest c = .ok e' d ∧ (TypeArgument.ofExpr e').plain = a.plain := by
    obtain ⟨e', he, hφ⟩ := expr_free h.proper hread hclear hd
    exact ⟨e', he, (ofExpr_of_spanless hφ).trans (h.read fun _ _ => rfl)⟩
  cases v with
  | type t =>
    obtain ⟨e', he, hplain⟩ := hargument (a := .type t) h hread hclear
    refine ⟨e', he, ?_⟩
    rw [TypeArgument.ofExpr] at hplain
    cases ht : TypeExpr.ofExpr? e' with
    | some t' =>
      rw [ht] at hplain
      exact congrArg AliasValue.type (TypeArgument.type.inj hplain)
    | none =>
      rw [ht] at hplain
      cases hplain
  | value e =>
    obtain ⟨e', he, hplain⟩ := hargument (a := .value e) h hread hclear
    refine ⟨e', he, ?_⟩
    rw [TypeArgument.ofExpr] at hplain
    cases ht : TypeExpr.ofExpr? e' with
    | some t' =>
      rw [ht] at hplain
      cases hplain
    | none =>
      rw [ht] at hplain
      exact congrArg AliasValue.value (TypeArgument.value.inj hplain)

theorem fromLine_aliasing {name : String} {ps : List TypeParameter} {v : AliasValue}
    (hps : ∀ p ∈ ps, p.Proper) (h : v.Proper) : FromLine (.aliasing s name ps v) := by
  intro c d u hread hclear hd hend
  obtain ⟨t, hat, ht⟩ := hread.at_fixed (by decide)
  obtain ⟨t₁, hat₁, ht₁, rfl⟩ := hat.rest.at_name
  obtain ⟨m, hm, hrest⟩ := hat₁.rest.split
  obtain ⟨t₂, hat₂, ht₂⟩ := hrest.at_fixed (by decide)
  have hk := hat₂.kind.trans ht₂
  have hclear := (show Clear (.fixed .kwAlias :: .name _ :: (TypeParameter.listed ps ++ _)) from
    hclear).tail.tail
  obtain ⟨ps', hps', hφ₁⟩ := typeParameters_ok hps hm hclear.left (by simp [hk])
  obtain ⟨e', he, hφ₂⟩ := aliasValue_ok h hat₂.rest hclear.right.tail (Kind.endsExpr_of_endsLine hd)
  rw [hat.kind, ht]
  refine ⟨.aliasing ⟨c.current.span.start, d.previousEnd⟩ t₁.text ps' (match TypeExpr.ofExpr? e' with
    | some t => AliasValue.type t
    | none => .value e'), ended_ok ?_ hend, congrArg₂ (Stmt.aliasing default t₁.text) hφ₁ hφ₂⟩
  rw [advance_run, bind_ok (expectDetailed_ok (hat₁.kind.trans ht₁)), bind_ok hps', bind_ok (expect_ok hk),
    bind_ok he, hat₁.current]
  rfl

theorem simpleStmt_leave (word : LeaveWord) : simpleStmt word.kind = leaveStmt word := by
  cases word <;> rfl

theorem fromLine_leave {word : LeaveWord} {value : Option Expr} (h : ∀ e ∈ value, e.Proper) :
    FromLine (.leave s word value) := by
  intro c d u hread hclear hd hend
  obtain ⟨t, hat, ht⟩ := hread.at_fixed (by cases word <;> decide)
  rw [hat.kind, ht, simpleStmt_leave]
  cases value with
  | none =>
    obtain rfl := hat.rest.eq_of_nil
    refine ⟨.leave ⟨c.current.span.start, c.advance.previousEnd⟩ word none, ended_ok ?_ hend, rfl⟩
    rw [advance_run, kind_run]
    generalize c.advance.kind = k at hd
    cases k <;> first | rfl | cases hd
  | some e =>
    have hclear : Clear (.fixed word.kind :: (e.written .free).pieces) := hclear
    obtain ⟨value', hvalue, hφ⟩ := value_ok (h e rfl) hat.rest hclear.tail hd
    obtain ⟨hshaped, hsuits⟩ := (h e rfl).written_suits (show Place.free ≠ .right .primary by decide)
    have hstarts := (hshaped.begins hsuits.2 hat.rest).starts
    refine ⟨.leave ⟨c.current.span.start, d.previousEnd⟩ word (some value'), ended_ok ?_ hend,
      congrArg (Stmt.leave default word) (congrArg some hφ)⟩
    have hsome : (some <$> exprList : Rule (Option Expr)) c.advance = .ok (some value') d :=
      bind_ok hvalue
    rw [advance_run, kind_run]
    generalize c.advance.kind = k at hstarts
    cases k <;> first
      | exact bind_ok hsome
      | cases hstarts

theorem fromLine_bare {word : BareWord} : FromLine (.bare s word) := by
  intro c d u hread _ _ hend
  obtain ⟨t, hat, ht⟩ := hread.at_fixed (by cases word <;> decide)
  obtain rfl := hat.rest.eq_of_nil
  rw [hat.kind, ht]
  refine ⟨.bare t.span word, ?_, rfl⟩
  have hbare : bareStmt c = .ok (.bare t.span word) u := by
    refine ended_ok ?_ hend
    rw [advance_run, hat.current, bareBy, ht]
    cases word <;> rfl
  cases word <;> exact hbare

theorem fromLine_of_proper {allowed : ConventionSet} {s : Stmt} (h : s.Proper allowed)
    (hsimple : s.isSimple = true) : s.FromLine := by
  cases h with
  | importModules hne hpaths => exact fromLine_import hne hpaths
  | importFrom horigin htargets => exact fromLine_importFrom horigin htargets
  | expression h => exact fromLine_expression h
  | assignment htarget hstart htypes h => exact fromLine_assignment htarget hstart htypes h
  | augmented hop htarget hsingle h => exact fromLine_augmented hop htarget hsingle h
  | declaration htypes htyped => exact fromLine_declaration htypes htyped
  | aliasing hps h => exact fromLine_aliasing hps h
  | leave h => exact fromLine_leave h
  | bare => exact fromLine_bare
  | _ => cases hsimple

end Grammar

end Offside
