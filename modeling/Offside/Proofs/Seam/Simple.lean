import Offside.Proofs.Seam.Header

namespace Offside

/-- A statement could begin or a block could end here: the cursor is behind a mark that ends
statements, or before one that ends a block or the stream. -/
def Cursor.Apart (c : Cursor) : Prop :=
  c.kind = .eof ∨ c.kind = .dedent ∨ ∃ t, c.previous = some t ∧ t.kind.endsStatement = true

theorem Cursor.apart_advance {c : Cursor} {t : Token} {ts : List Token} (hc : c.rest = t :: ts)
    (hk : t.kind.endsStatement = true) : c.advance.Apart := by
  have he : t.kind ≠ .eof := by
    intro he
    rw [he] at hk
    contradiction
  exact Or.inr (Or.inr ⟨t, by simp [advance, hc, he], hk⟩)

namespace Seam

open Grammar

variable {S : Seam} {P : Cursor → Cursor → Prop} {b : Bool} {N : Origin} {d : Nat} {k : Kind}
  {c c' : Cursor}

/-- Cursors behind a statement, perhaps at the end of the window. What ends a statement there is
a dedent only for a compound one. -/
def Edge (S : Seam) (compound : Bool) (N : Origin) (d : Nat) (c c' : Cursor) : Prop :=
  ∃ done rest, S.At N (.flat d) done rest c c' ∧ (c.remaining < N.bound ∧ (S.cancels = true ∨ c.Apart)) ∧
    (compound = false → S.window ≠ none → rest = [] → done.getLast?.map Token.kind ≠ some .dedent)

/-- Cursors outside brackets, perhaps at the end of the window. -/
def Beside (S : Seam) (N : Origin) (d : Nat) (c c' : Cursor) : Prop :=
  ∃ done rest, S.At N (.flat d) done rest c c'

theorem Edge.loosen {compound : Bool} (h : S.Edge compound N d c c') : S.Edge true N d c c' := by
  obtain ⟨done, rest, hat, hlt, -⟩ := h
  exact ⟨done, rest, hat, hlt, nofun⟩

theorem In.edge (h : S.In true N (.flat d) c c') (he : c.kind = .eof) : S.Edge false N d c c' := by
  obtain ⟨done, rest, hat, hne, hlt⟩ := h
  exact ⟨done, rest, hat, ⟨hlt rfl, Or.inr (Or.inl he)⟩, fun _ hw hr => absurd hr (hne hw)⟩

theorem In.beside (h : S.In b N (.flat d) c c') : S.Beside N d c c' := by
  obtain ⟨done, rest, hat, -, -⟩ := h
  exact ⟨done, rest, hat⟩

theorem Edge.beside {compound : Bool} (h : S.Edge compound N d c c') : S.Beside N d c c' := by
  obtain ⟨done, rest, hat, -, -⟩ := h
  exact ⟨done, rest, hat⟩

/-- What statements find out that began behind the origin of others holds for those too. -/
theorem Edge.resume {compound : Bool} {p : Depth} {e e' : Cursor} (h : S.In b N p c c')
    (h₂ : S.Edge compound ⟨c, c'⟩ d e e') : S.Edge compound N d e e' := by
  rcases h.moved_or_origin with ⟨done, rest, hat, -, hlt⟩ | hN
  · obtain ⟨done₂, rest₂, hat₂, hlt₂, hlast⟩ := h₂
    exact ⟨done₂, rest₂, hat.resume (hlt rfl) hat₂, hlt₂.imp_left (Nat.lt_trans · (hlt rfl)), hlast⟩
  · exact hN ▸ h₂

theorem not_edge_nowhere {compound : Bool} : ¬S.Edge compound nowhere.1 d c c' := by
  rintro ⟨done, rest, -, ⟨hlt, -⟩, -⟩
  exact absurd hlt (Nat.not_lt_zero _)

/-- At the end of the window both sides have a token that starts afresh. -/
theorem At.startsAfresh {p : Depth} {done : List Token} (h : S.At N p done [] c c')
    (hw : S.window ≠ none) : c.kind.startsAfresh = true ∧ c'.kind.startsAfresh = true := by
  obtain ⟨w, hw⟩ := Option.ne_none_iff_exists'.mp hw
  have hcut := S.cut w hw
  rw [Cursor.kind, Cursor.kind, Cursor.current, Cursor.current, h.rest_eq, h.rest_eq', h.last_eq,
    h.last_eq']
  exact ⟨hcut.left, hcut.right⟩

/-- Behind a statement the two sides agree on tokens that could belong to it, and these are inside
the window. -/
theorem Edge.seen {compound : Bool} (h : S.Edge compound N d c c') (hk : k.startsAfresh = false) :
    c.kind = k ∧ S.In true N (.flat d) c c' ∨ c.kind ≠ k ∧ c'.kind ≠ k := by
  obtain ⟨done, rest, hat, hlt, -⟩ := h
  by_cases hseam : S.window ≠ none ∧ rest = []
  · obtain ⟨hw, rfl⟩ := hseam
    obtain ⟨h, h'⟩ := hat.startsAfresh hw
    right
    constructor
    · rintro rfl
      rw [h] at hk
      contradiction
    · rintro rfl
      rw [h'] at hk
      contradiction
  · have hin : S.In true N (.flat d) c c' :=
      ⟨done, rest, hat, fun hw hr => hseam ⟨hw, hr⟩, fun _ => hlt.1⟩
    rw [hin.kind]
    by_cases hc : c.kind = k
    · exact Or.inl ⟨hc, hin⟩
    · exact Or.inr ⟨hc, hc⟩

/-- Over the mark that ends a statement. -/
theorem In.advance_edge (h : S.In b N (.flat d) c c') (hk : c.kind = k)
    (hmark : k = .newline ∨ k = .semicolon) : S.Edge false N d c.advance c'.advance := by
  subst hk
  have heof : c.kind ≠ .eof := by
    rcases hmark with h | h <;> rw [h] <;> nofun
  obtain ⟨done, t, rest, hat₀, ht⟩ := h.exists_cons heof
  rw [← ht] at hmark heof
  obtain ⟨hat, hlt⟩ := hat₀.advance heof
  have hp : Depth.after (.flat d) t.kind = .flat d := by
    rcases hmark with h | h <;> rw [h] <;> rfl
  rw [hp] at hat
  refine ⟨done ++ [t], rest, hat, ⟨hlt, Or.inr ?_⟩, fun _ _ _ => ?_⟩
  · exact Cursor.apart_advance hat₀.rest_eq (by rcases hmark with h | h <;> rw [h] <;> rfl)
  · rcases hmark with h | h <;> simp [h]

/-- A newline leads to a place where a rule may fail, too. -/
theorem In.advance_out (h : S.In b N (.flat d) c c') (hk : c.kind = .newline) :
    S.Out N d c.advance c'.advance := by
  obtain ⟨done, t, rest, hat, ht⟩ := h.exists_cons (by rw [hk]; nofun)
  rw [hk] at ht
  obtain ⟨hat, hlt⟩ := hat.advance (by rw [ht]; nofun)
  rw [ht] at hat
  exact ⟨0, done ++ [t], rest, hat, fun _ _ => ⟨hlt, by simp [ht]⟩⟩

theorem advance_edge {E : Cursor → Cursor → Prop} (hmark : k = .newline ∨ k = .semicolon) :
    S.Alike (Where (S.In b N (.flat d)) fun c => c.kind = k) (S.Edge false N d) E Rule.advance
      Rule.advance :=
  advancing fun _ _ hP hin => hin.advance_edge hP.2 hmark

theorem advance_out {E : Cursor → Cursor → Prop} :
    S.Alike (Where (S.In b N (.flat d)) fun c => c.kind = .newline)
      (fun c c' => S.Edge false N d c c' ∧ S.Out N (Depth.flat d).blocks c c') E Rule.advance
      Rule.advance :=
  advancing fun _ _ hP hin => ⟨hin.advance_edge hP.2 (Or.inl rfl), hin.advance_out hP.2⟩

theorem expect_newline :
    S.Alike (S.In b N (.flat d)) (S.Edge false N d) (S.Out N (Depth.flat d).blocks)
      (Rule.expect .newline) (Rule.expect .newline) :=
  expecting (fun _ _ hin he => hin.advance_edge he (Or.inl rfl))
    (fault_relocate (fun t => .unexpectedToken t.shown) fun _ => rfl)

theorem eat_newline_alike {E : Cursor → Cursor → Prop} :
    S.Alike (S.Edge false N d) (S.Edge false N d) E (Rule.eat .newline) (Rule.eat .newline) where
  onward c := by
    unfold Rule.eat
    split
    · exact c.remaining_advance_le
    · exact Directed.refl c
  agree c c' h := by
    right
    unfold Rule.eat
    rcases h.seen (k := .newline) rfl with ⟨hc, hin⟩ | ⟨hc, hc'⟩
    · rw [if_pos hc, if_pos (hin.kind.trans hc)]
      exact .ok (hin.advance_edge hc (Or.inl rfl))
    · rw [if_neg hc, if_neg hc']
      exact .ok h

theorem endOfStatement_alike :
    S.Alike (S.In true N (.flat d)) (S.Edge false N d) (S.Out N (Depth.flat d).blocks) endOfStatement endOfStatement := by
  refine kind_bind fun k => ?_
  split
  · refine (advance_edge (Or.inr rfl)).bind fun _ => eat_newline_alike.bind fun _ => ?_
    exact Sim.pure rfl fun _ _ => id
  · exact (advance_edge (Or.inl rfl)).bind fun _ => Sim.pure rfl fun _ _ => id
  · exact Sim.pure rfl fun _ _ h => h.1.edge h.2
  · exact unexpected (p := .flat d)

section Statements

variable {α : Type} [Relocate α]

theorem ended_alike {x x' : Rule α} (h : S.Alike P (S.In true N (.flat d)) (S.Out N (Depth.flat d).blocks) x x') :
    S.Alike P (S.Edge false N d) (S.Out N (Depth.flat d).blocks) (ended x) (ended x') :=
  h.bind fun _ => endOfStatement_alike.bind fun _ => Sim.pure rfl fun _ _ => id

theorem expressionStmt_alike [S.Before P N (.flat d)] :
    S.Alike P (S.Edge false N d) (S.Out N (Depth.flat d).blocks) expressionStmt expressionStmt := by
  refine ended_alike (here_bind fun start => exprList_alike.bind fun first => ?_)
  exact afterExprList_alike start first (.flat d)

theorem varStmt_alike [S.Before P N (.flat d)] :
    S.Alike (Where P fun c => c.kind = .kwVar) (S.Edge false N d) (S.Out N (Depth.flat d).blocks)
      varStmt varStmt := by
  refine ended_alike ((advance rfl).bind fun t => kind_bind fun k => ?_)
  have hleft : S.Alike (S.In true N (.flat d)) (S.In true N (.flat d)) (S.Out N (Depth.flat d).blocks)
      (exprList >>= fun left => declaredType? >>= fun type => binding t.span.start true left type)
      (exprList >>= fun left => declaredType? >>= fun type =>
        binding (relocate S.move t).span.start true left type) :=
    exprList_alike.bind fun left => (declaredType?_alike (.flat d)).bind fun type =>
      binding_alike t.span.start true left type (.flat d)
  split
  · exact hleft.forget
  · exact hleft.forget
  · exact unexpectedDetailed (p := .flat d) _

theorem aliasStmt_alike [S.Before P N (.flat d)] :
    S.Alike (Where P fun c => c.kind = .kwAlias) (S.Edge false N d) (S.Out N (Depth.flat d).blocks)
      aliasStmt aliasStmt := by
  refine ended_alike ((advance rfl).bind fun t => (expectDetailed rfl _).bind fun name => ?_)
  refine (typeParameters?_alike _).bind fun types => (expect rfl).bind fun _ => ?_
  refine (expr_alike .lowest).bind fun e => previousEnd_bind fun o => stay ?_
  rw [TypeExpr.ofExpr?_relocate]
  cases TypeExpr.ofExpr? e <;> rfl

theorem leaving_alike (start : Offset) (word : LeaveWord) (value : Option Expr) :
    S.Inline N (leaving start word value) (leaving (S.move start) word (relocate S.move value)) :=
  fun _ => previousEnd_bind fun _ => stay rfl

theorem leaveStmt_alike [S.Before P N (.flat d)] (word : LeaveWord) (hk : k.isBoundary = false)
    (hp : Depth.after (.flat d) k = .flat d) :
    S.Alike (Where P fun c => c.kind = k) (S.Edge false N d) (S.Out N (Depth.flat d).blocks)
      (leaveStmt word) (leaveStmt word) := by
  refine ended_alike ((advance hk).bind fun t => ?_)
  rw [hp]
  refine kind_bind fun k => Sim.bind ?_ fun value => leaving_alike t.span.start word value _
  cases k using leaveValue_cases with
  | absent => exact stay rfl
  | present => exact exprList_alike.forget.map fun _ => rfl

theorem bareStmt_alike [S.Before P N (.flat d)] (hk : k.isBoundary = false) (hp : Depth.after (.flat d) k = .flat d) :
    S.Alike (Where P fun c => c.kind = k) (S.Edge false N d) (S.Out N (Depth.flat d).blocks)
      bareStmt bareStmt := by
  refine ended_alike ((advance hk).bind fun t => ?_)
  unfold bareBy
  rw [hp, kind_relocate]
  split
  · exact stay rfl
  · exact stay rfl
  · exact stay rfl
  · exact fail (p := .flat d) rfl

theorem importStmt_alike [S.Before P N (.flat d)] :
    S.Alike (Where P fun c => c.kind = .kwImport) (S.Edge false N d) (S.Out N (Depth.flat d).blocks)
      importStmt importStmt := by
  refine ended_alike ((advance rfl).bind fun t => (commaList (importName_alike _)).bind fun names => ?_)
  exact previousEnd_bind fun o => stay rfl

theorem importingFrom_alike (start : Offset) (level : Nat) (path : List String) :
    S.Inline N (importingFrom start level path) (importingFrom (S.move start) level path) := fun p =>
  (expect rfl).bind fun _ => (importTargets_alike p).bind fun _ => previousEnd_bind fun _ => stay rfl

theorem importFromStmt_alike [S.Before P N (.flat d)] :
    S.Alike (Where P fun c => c.kind = .kwFrom) (S.Edge false N d) (S.Out N (Depth.flat d).blocks)
      importFromStmt importFromStmt := by
  refine ended_alike ((advance rfl).bind fun t => ?_)
  refine Sim.bind (repeated (eat_bind rfl (stay rfl) (stay rfl))) fun dots => ?_
  have hdots : relocate S.move dots = dots := List.map_id _
  rw [hdots]
  have hend (path : List String) :
      S.Alike (S.In true N (.flat d)) (S.In true N (.flat d)) (S.Out N (Depth.flat d).blocks)
        (importingFrom t.span.start dots.length path)
        (importingFrom (S.move t.span.start) dots.length (relocate S.move path)) := by
    rw [relocate_texts]
    exact importingFrom_alike _ _ _ _
  refine kind_bind fun k => Sim.ite (fun _ => ?_) fun _ => ?_
  · exact (dottedName_alike _ _).forget.bind hend
  · exact (stay rfl).bind hend

theorem simpleStmt_alike [S.Before P N (.flat d)] :
    S.Alike (Where P fun c => c.kind = k) (S.Edge false N d) (S.Out N (Depth.flat d).blocks)
      (simpleStmt k) (simpleStmt k) := by
  cases k using simpleStmt_cases with
  | modules => exact importStmt_alike
  | names => exact importFromStmt_alike
  | var => exact varStmt_alike
  | aliasing => exact aliasStmt_alike
  | leave word => cases word <;> exact leaveStmt_alike _ rfl rfl
  | bare word => cases word <;> exact bareStmt_alike rfl rfl
  | expression => exact expressionStmt_alike.forget

theorem decorating_alike (start : Offset) (path : List String) (arguments : Option (List Argument)) :
    S.Alike (S.In true N (.flat d)) (S.Edge false N d) (S.Out N (Depth.flat d).blocks)
      (decorating start path arguments) (decorating (S.move start) path (relocate S.move arguments)) :=
  previousEnd_bind fun _ => expect_newline.bind fun _ => Sim.pure rfl fun _ _ => id

/-- A decorator's line. -/
theorem decorator_alike [S.Before P N (.flat d)] :
    S.Alike (Where P fun c => c.kind = .atSign) (S.Edge false N d) (S.Out N (Depth.flat d).blocks)
      decorator? decorator? := by
  refine kind_bind fun k => Sim.ite (fun hk => ?_) fun hk => ?_
  · subst hk
    refine (advance rfl).bind fun t => (dottedName_alike _ _).bind fun path => ?_
    rw [relocate_texts]
    refine kind_bind fun k => Sim.ite (fun _ => ?_) fun _ => ?_
    · refine Sim.bind ?_ (decorating_alike t.span.start path)
      exact (callArguments_alike fun level p => expr_alike level).forget.map fun _ => rfl
    · exact (stay rfl).bind (decorating_alike t.span.start path)
  · exact Sim.pure rfl fun c c' h => absurd (h.2.symm.trans h.1.2) hk

theorem decorator?_of_ne {c : Cursor} (h : c.kind ≠ .atSign) : decorator? c = .ok none c := by
  rw [decorator?, Rule.kind_run, if_neg h]
  rfl

theorem decorating_ne_none {c e : Cursor} {start : Offset} {path : List String}
    {arguments : Option (List Argument)} : decorating start path arguments c ≠ .ok none e := by
  intro h
  obtain ⟨o, v, -, h⟩ := bind_eq_ok.mp h
  obtain ⟨t, w, -, h⟩ := bind_eq_ok.mp h
  cases h

theorem decorator?_ne_none {c e : Cursor} (h : decorator? c = .ok none e) : c.kind ≠ .atSign := by
  intro hk
  rw [decorator?, Rule.kind_run, if_pos hk] at h
  obtain ⟨t, u, -, h⟩ := bind_eq_ok.mp h
  obtain ⟨path, v, -, h⟩ := bind_eq_ok.mp h
  obtain ⟨k, w, -, h⟩ := bind_eq_ok.mp h
  dsimp only at h
  split at h
  · obtain ⟨arguments, w, -, h⟩ := bind_eq_ok.mp h
    exact decorating_ne_none h
  · obtain ⟨arguments, w, -, h⟩ := bind_eq_ok.mp h
    exact decorating_ne_none h

end Statements

end Seam

end Offside
