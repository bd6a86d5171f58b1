import Mathlib
import Offside.Proofs.Writing.Block
import Offside.Proofs.Writing.Header

namespace Offside

theorem Block.kind_pieces {b : Block} {c d : Cursor} (h : c.Read b.pieces d) : c.kind = .colon := by
  cases b with
  | mk s inline body =>
    obtain ⟨t, hat, ht⟩ := h.at_fixed (by decide)
    exact hat.kind.trans ht

namespace Grammar

open Rule Seam

variable {cfg : Config} {sub : StmtRule Stmt} {n : Nat} {q : Progress} {c d : Cursor}

structure Readable (cfg : Config) (b : Block) : Prop where
  filled : b.Filled
  proper : ∀ s ∈ b.body, s.Proper cfg.conventions
  inside : ∀ s ∈ b.body, FromPieces cfg s

theorem Readable.suite_ok {b : Block} (h : Readable cfg b) (hcancel : cfg.cancel = false)
    (hsub : FaithfulStmt cfg sub n) (hn : q.remaining ≤ n) (hread : q.cursor.Read b.pieces d)
    (hclear : Clear b.pieces) :
    ∃ b', suite cfg sub q = .ok b' { q with cursor := d } ∧ b'.plain = b.plain :=
  Grammar.suite_ok hcancel hsub hn h.filled h.proper h.inside hread hclear

section Compound

variable {s : Span} {b : Block} (hcancel : cfg.cancel = false)

include hcancel

theorem fromPieces_function {head : FunctionHead} (hhead : head.Proper cfg.conventions)
    (hbody : Readable cfg b) : FromPieces cfg (.function s head b) := by
  intro sub n q d hsub hn hread hclear _ _
  obtain ⟨m, hm, hrest⟩ := (show q.cursor.Read (head.pieces ++ b.pieces) d from hread).split
  have hclear : Clear (head.pieces ++ b.pieces) := hclear
  obtain ⟨hk, start, head', hhead, hφ₁⟩ := functionHead_ok hhead hm hclear.left (b.kind_pieces hrest)
  obtain ⟨b', hsuite, hφ₂⟩ := hbody.suite_ok (q := { q with cursor := m }) hcancel hsub
    (Nat.le_trans hm.remaining_le hn) hrest hclear.right
  refine ⟨.function ⟨start, b'.span.stop⟩ head' b', ?_, congrArg₂ (Stmt.function default) hφ₁ hφ₂⟩
  have hfunction : functionStmt cfg sub q =
      .ok (.function ⟨start, b'.span.stop⟩ head' b') { q with cursor := d } :=
    (lifted_bind_ok hhead).trans (bind_ok hsuite)
  refine (lifted_bind_ok (x := Rule.kind) rfl).trans ?_
  rw [hk]
  cases head.word <;> exact hfunction

theorem fromPieces_typeDecl {head : TypeHead} (hhead : head.Proper) (hbody : Readable cfg b) :
    FromPieces cfg (.typeDecl s head b) := by
  intro sub n q d hsub hn hread hclear _ _
  obtain ⟨m, hm, hrest⟩ := (show q.cursor.Read (head.pieces ++ b.pieces) d from hread).split
  have hclear : Clear (head.pieces ++ b.pieces) := hclear
  obtain ⟨hk, start, head', hhead, hφ₁⟩ := typeHead_ok hhead hm hclear.left (b.kind_pieces hrest)
  obtain ⟨b', hsuite, hφ₂⟩ := hbody.suite_ok (q := { q with cursor := m }) hcancel hsub
    (Nat.le_trans hm.remaining_le hn) hrest hclear.right
  refine ⟨.typeDecl ⟨start, b'.span.stop⟩ head' b', ?_, congrArg₂ (Stmt.typeDecl default) hφ₁ hφ₂⟩
  have htype : typeStmt cfg sub head.word q =
      .ok (.typeDecl ⟨start, b'.span.stop⟩ head' b') { q with cursor := d } :=
    (lifted_bind_ok hhead).trans (bind_ok hsuite)
  refine (lifted_bind_ok (x := Rule.kind) rfl).trans ?_
  rw [hk]
  generalize head.word = word at htype
  cases word <;> exact htype

theorem fromPieces_whileLoop {condition : Expr} (hcondition : condition.Proper) (hbody : Readable cfg b) :
    FromPieces cfg (.whileLoop s condition b) := by
  intro sub n q d hsub hn hread hclear _ _
  obtain ⟨m, hm, hrest⟩ := (show q.cursor.Read ((.fixed .kwWhile :: (condition.written .free).pieces) ++
    b.pieces) d from hread).split
  have hclear : Clear ((.fixed .kwWhile :: (condition.written .free).pieces) ++ b.pieces) := hclear
  obtain ⟨hk, start, condition', hhead, hφ₁⟩ := conditionHead_ok (by decide) hcondition hm hclear.left
    (b.kind_pieces hrest)
  obtain ⟨b', hsuite, hφ₂⟩ := hbody.suite_ok (q := { q with cursor := m }) hcancel hsub
    (Nat.le_trans hm.remaining_le hn) hrest hclear.right
  refine ⟨.whileLoop ⟨start, b'.span.stop⟩ condition' b', ?_, congrArg₂ (Stmt.whileLoop default) hφ₁ hφ₂⟩
  refine (lifted_bind_ok (x := Rule.kind) rfl).trans ?_
  rw [hk]
  exact (lifted_bind_ok hhead).trans (bind_ok hsuite)

theorem fromPieces_forLoop {target : Pattern} {iterable : Expr} (htarget : target.Proper)
    (hiterable : iterable.Proper) (hbody : Readable cfg b) :
    FromPieces cfg (.forLoop s target iterable b) := by
  intro sub n q d hsub hn hread hclear _ _
  have hpieces : (Stmt.forLoop s target iterable b).pieces =
      (.fixed .kwFor :: (target.pieces ++ .fixed .kwIn :: (iterable.written .free).pieces)) ++ b.pieces := by
    rw [Stmt.pieces, List.cons_append, List.append_assoc, List.cons_append]
  rw [hpieces] at hread hclear
  obtain ⟨m, hm, hrest⟩ := hread.split
  obtain ⟨hk, start, target', iterable', hhead, hφ₁, hφ₂⟩ := forHead_ok htarget hiterable hm hclear.left
    (b.kind_pieces hrest)
  obtain ⟨b', hsuite, hφ₃⟩ := hbody.suite_ok (q := { q with cursor := m }) hcancel hsub
    (Nat.le_trans hm.remaining_le hn) hrest hclear.right
  refine ⟨.forLoop ⟨start, b'.span.stop⟩ target' iterable' b', ?_, by simp only [Stmt.plain, hφ₁, hφ₂, hφ₃]⟩
  refine (lifted_bind_ok (x := Rule.kind) rfl).trans ?_
  rw [hk]
  exact (lifted_bind_ok hhead).trans (bind_ok hsuite)

theorem elifs_ok {cs : List ElifClause} (hconditions : ∀ clause ∈ cs, clause.condition.Proper)
    (hbodies : ∀ clause ∈ cs, Readable cfg clause.body) (hsub : FaithfulStmt cfg sub n)
    (hn : q.remaining ≤ n) (hread : q.cursor.Read (ElifClause.piecesAll cs) d)
    (hclear : Clear (ElifClause.piecesAll cs)) (hd : d.kind ≠ .kwElif) :
    ∃ cs', many Progress.remaining (elifClause? cfg sub) q = .ok cs' { q with cursor := d } ∧
      cs'.map ElifClause.plain = cs.map ElifClause.plain := by
  induction cs generalizing q with
  | nil =>
    obtain rfl := hread.eq_of_nil
    refine ⟨[], many_none ((lifted_bind_ok (x := Rule.kind) rfl).trans ?_), rfl⟩
    rw [if_neg hd]
    rfl
  | cons clause cs ih =>
    obtain ⟨s, condition, b⟩ := clause
    obtain ⟨hcondition, hconditions⟩ := List.forall_mem_cons.mp hconditions
    obtain ⟨hbody, hbodies⟩ := List.forall_mem_cons.mp hbodies
    obtain ⟨l, hl, hothers⟩ := (show q.cursor.Read (((.fixed .kwElif :: (condition.written .free).pieces) ++
      b.pieces) ++ ElifClause.piecesAll cs) d from hread).split
    obtain ⟨m, hm, hrest⟩ := hl.split
    have hclear : Clear (((.fixed .kwElif :: (condition.written .free).pieces) ++ b.pieces) ++
      ElifClause.piecesAll cs) := hclear
    have hle := hrest.remaining_le
    have hlt := hm.remaining_lt rfl
    obtain ⟨hk, start, condition', hhead, hφ₁⟩ := conditionHead_ok (by decide) hcondition hm
      hclear.left.left (b.kind_pieces hrest)
    obtain ⟨b', hsuite, hφ₂⟩ := hbody.suite_ok (q := { q with cursor := m }) hcancel hsub
      (Nat.le_trans hm.remaining_le hn) hrest hclear.left.right
    have hlt' : ({ q with cursor := l } : Progress).remaining < q.remaining := Nat.lt_of_le_of_lt hle hlt
    obtain ⟨cs', hmany, hφs⟩ := ih (q := { q with cursor := l }) hconditions hbodies
      (Nat.le_trans (Nat.le_of_lt hlt') hn) hothers hclear.right
    refine ⟨.mk ⟨start, b'.span.stop⟩ condition' b' :: cs', many_cons ?_ hlt' hmany,
      congrArg₂ List.cons (congrArg₂ (ElifClause.mk default) hφ₁ hφ₂) hφs⟩
    refine (lifted_bind_ok (x := Rule.kind) rfl).trans ?_
    rw [if_pos hk]
    exact (lifted_bind_ok hhead).trans (bind_ok hsuite)

theorem elseBody?_ok {o : Option Block} (hbody : ∀ b ∈ o, Readable cfg b) (hsub : FaithfulStmt cfg sub n)
    (hn : q.remaining ≤ n) (hread : q.cursor.Read (Block.elsePieces o) d)
    (hclear : Clear (Block.elsePieces o)) (hd : d.kind ≠ .kwElse) :
    ∃ o', elseBody? cfg sub q = .ok o' { q with cursor := d } ∧
      o'.map Block.plain = o.map Block.plain := by
  cases o with
  | none =>
    obtain rfl := hread.eq_of_nil
    exact ⟨none, lifted_bind_ok (eat_not hd), rfl⟩
  | some b =>
    obtain ⟨t, hat, ht⟩ := Cursor.Read.at_fixed hread (by decide)
    obtain ⟨b', hsuite, hφ⟩ := (hbody b rfl).suite_ok (q := { q with cursor := q.cursor.advance }) hcancel
      hsub (Nat.le_trans (Nat.le_of_lt hat.lt) hn) hat.rest hclear.tail
    exact ⟨some b', (lifted_bind_ok (eat_ok (hat.kind.trans ht))).trans (bind_ok hsuite), congrArg some hφ⟩

omit hcancel in
theorem kind_elsePieces {o : Option Block} (hread : c.Read (Block.elsePieces o) d) :
    c.kind = .kwElse ∨ c = d := by
  cases o with
  | none => exact Or.inr hread.eq_of_nil
  | some b =>
    obtain ⟨t, hat, ht⟩ := Cursor.Read.at_fixed hread (by decide)
    exact Or.inl (hat.kind.trans ht)

theorem fromPieces_conditional {condition : Expr} {elifs : List ElifClause} {otherwise : Option Block}
    (hcondition : condition.Proper) (hbody : Readable cfg b)
    (hconditions : ∀ clause ∈ elifs, clause.condition.Proper)
    (hbodies : ∀ clause ∈ elifs, Readable cfg clause.body) (hlast : ∀ b ∈ otherwise, Readable cfg b) :
    FromPieces cfg (.conditional s condition b elifs otherwise) := by
  intro sub n q d hsub hn hread hclear helif helse
  obtain ⟨m, hm, hrest⟩ := (show q.cursor.Read ((.fixed .kwIf :: (condition.written .free).pieces) ++
    (b.pieces ++ (ElifClause.piecesAll elifs ++ Block.elsePieces otherwise))) d from hread).split
  have hclear : Clear ((.fixed .kwIf :: (condition.written .free).pieces) ++
    (b.pieces ++ (ElifClause.piecesAll elifs ++ Block.elsePieces otherwise))) := hclear
  obtain ⟨m₂, hm₂, hrest⟩ := hrest.split
  obtain ⟨m₃, hm₃, hrest⟩ := hrest.split
  have hle := hm.remaining_le
  have hle₂ := hm₂.remaining_le
  have hle₃ := hm₃.remaining_le
  obtain ⟨hk, start, condition', hhead, hφ₁⟩ := conditionHead_ok (by decide) hcondition hm hclear.left
    (b.kind_pieces hm₂)
  obtain ⟨b', hsuite, hφ₂⟩ := hbody.suite_ok (q := { q with cursor := m }) hcancel hsub
    (Nat.le_trans hle hn) hm₂ hclear.right.left
  have hfollow : m₃.kind ≠ .kwElif := by
    rcases kind_elsePieces hrest with hk | rfl
    · simp [hk]
    · exact helif
  obtain ⟨elifs', helifs, hφ₃⟩ := elifs_ok (q := { q with cursor := m₂ }) hcancel hconditions hbodies hsub
    (Nat.le_trans (Nat.le_trans hle₂ hle) hn) hm₃ hclear.right.right.left hfollow
  obtain ⟨otherwise', helse, hφ₄⟩ := elseBody?_ok (q := { q with cursor := m₃ }) hcancel hlast hsub
    (Nat.le_trans (Nat.le_trans hle₃ (Nat.le_trans hle₂ hle)) hn) hrest hclear.right.right.right helse
  have hif : ∃ stop, ifStmt cfg sub q =
      .ok (.conditional ⟨start, stop⟩ condition' b' elifs' otherwise') { q with cursor := d } :=
    ⟨_, (lifted_bind_ok hhead).trans ((bind_ok hsuite).trans ((bind_ok helifs).trans (bind_ok helse)))⟩
  obtain ⟨stop, hif⟩ := hif
  refine ⟨.conditional ⟨start, stop⟩ condition' b' elifs' otherwise', ?_, ?_⟩
  · refine (lifted_bind_ok (x := Rule.kind) rfl).trans ?_
    rw [hk]
    exact hif
  · simp only [Stmt.plain, ElifClause.plainAll_eq_map, Block.plainOpt_eq_map, hφ₁, hφ₂, hφ₃, hφ₄]

omit hcancel in
theorem decorators_ok {xs : List Decorator} (h : ∀ x ∈ xs, x.Proper)
    (hread : c.Read (xs.flatMap Decorator.pieces) d) (hclear : Clear (xs.flatMap Decorator.pieces))
    (hd : d.kind ≠ .atSign) :
    ∃ xs', Rule.repeated decorator? c = .ok xs' d ∧ xs'.map Decorator.plain = xs.map Decorator.plain := by
  induction xs generalizing c with
  | nil =>
    obtain rfl := hread.eq_of_nil
    exact ⟨[], many_none (decorator?_of_ne hd), rfl⟩
  | cons x xs ih =>
    obtain ⟨hx, hxs⟩ := List.forall_mem_cons.mp h
    rw [List.flatMap_cons] at hread hclear
    obtain ⟨m, hm, hrest⟩ := hread.split
    obtain ⟨-, x', hdecorator, hφ⟩ := decorator?_ok hx hm hclear.left
    obtain ⟨xs', hmany, hφs⟩ := ih hxs hrest hclear.right
    exact ⟨x' :: xs', many_cons hdecorator (hm.remaining_lt rfl) hmany, congrArg₂ List.cons hφ hφs⟩

omit hcancel in
/-- Behind decorators a definition is read as it is without. -/
theorem definition_eq_statement {defined : Stmt} (h : defined.isDefinition = true)
    (hread : q.cursor.Read defined.pieces d) :
    q.cursor.kind ≠ .atSign ∧ definition cfg sub q = statement cfg sub q := by
  have hkind {k : Kind} {ps : List Piece} (hread : q.cursor.Read (.fixed k :: ps) d)
      (hk : k = .kwDef ∨ k = .kwFn ∨ k = .kwStruct ∨ k = .kwTrait) :
      q.cursor.kind ≠ .atSign ∧ definition cfg sub q = statement cfg sub q := by
    obtain ⟨t, hat, ht⟩ := hread.at_fixed (by rcases hk with rfl | rfl | rfl | rfl <;> decide)
    have hstart := hat.kind.trans ht
    refine ⟨by rcases hk with rfl | rfl | rfl | rfl <;> simp [hstart], ?_⟩
    refine (lifted_bind_ok (x := Rule.kind) rfl).trans
      (Eq.trans ?_ (lifted_bind_ok (x := Rule.kind) rfl).symm)
    rw [hstart]
    rcases hk with rfl | rfl | rfl | rfl <;> rfl
  cases defined with
  | function s head b => exact hkind (k := head.word.kind) hread (by cases head.word <;> simp [FunctionWord.kind])
  | typeDecl s head b => exact hkind (k := head.word.kind) hread (by cases head.word <;> simp [TypeWord.kind])
  | _ => cases h

omit hcancel in
theorem fromPieces_decorated {xs : List Decorator} {defined : Stmt} (hne : xs ≠ [])
    (h : ∀ x ∈ xs, x.Proper) (hdefined : defined.isDefinition = true) (hfrom : FromPieces cfg defined) :
    FromPieces cfg (.decorated s xs defined) := by
  intro sub n q d hsub hn hread hclear helif helse
  obtain ⟨m, hm, hrest⟩ := (show q.cursor.Read (xs.flatMap Decorator.pieces ++ defined.pieces) d from
    hread).split
  have hclear : Clear (xs.flatMap Decorator.pieces ++ defined.pieces) := hclear
  have hk : q.cursor.kind = .atSign := by
    obtain ⟨x, xs, rfl⟩ := List.exists_cons_of_ne_nil hne
    rw [List.flatMap_cons] at hm
    obtain ⟨t, hat, ht⟩ := hm.at_fixed (by decide)
    exact hat.kind.trans ht
  obtain ⟨hne, hdefinition⟩ : m.kind ≠ .atSign ∧
      definition cfg sub { q with cursor := m } = statement cfg sub { q with cursor := m } :=
    definition_eq_statement (q := { q with cursor := m }) hdefined hrest
  obtain ⟨xs', hdecorators, hφ₁⟩ := decorators_ok h hm hclear.left hne
  obtain ⟨inner, hinner, hφ₂⟩ := hfrom sub n { q with cursor := m } d hsub
    (Nat.le_trans hm.remaining_le hn) hrest hclear.right helif helse
  refine ⟨.decorated ⟨q.cursor.current.span.start, inner.span.stop⟩ xs' inner, ?_,
    congrArg₂ (Stmt.decorated default) hφ₁ hφ₂⟩
  refine (lifted_bind_ok (x := Rule.kind) rfl).trans ?_
  rw [hk]
  refine (lifted_bind_ok (x := Rule.here) rfl).trans ((lifted_bind_ok hdecorators).trans ?_)
  exact bind_ok (hdefinition.trans hinner)

/-- From where a statement is written it is read, with the statements inside it. -/
theorem fromPieces_of_proper {s : Stmt} (h : s.Proper cfg.conventions) : FromPieces cfg s := by
  have hsimple {s : Stmt} (h : s.Proper cfg.conventions) (hs : s.isSimple = true)
      (hpieces : s.pieces = s.line ++ [.fixed .newline]) : FromPieces cfg s := by
    intro sub n q d _ _ hread hclear _ _
    rw [hpieces] at hread hclear
    obtain ⟨m, hm, hrest⟩ := hread.split
    obtain ⟨t, hat, ht⟩ := hrest.at_fixed (by decide)
    obtain rfl := hat.rest.eq_of_nil
    have hk := hat.kind.trans ht
    exact statement_line h hs hm hclear.left (by rw [hk]; rfl) (endOfStatement_newline hk)
  induction h with
  | function hhead hfilled hinside ih => exact fromPieces_function hcancel hhead ⟨hfilled, hinside, ih⟩
  | typeDecl hhead hfilled hinside ih => exact fromPieces_typeDecl hcancel hhead ⟨hfilled, hinside, ih⟩
  | conditional hcondition hfilled hinside hclauses hinside' hlast hinside'' ih ih' ih'' =>
    exact fromPieces_conditional hcancel hcondition ⟨hfilled, hinside, ih⟩
      (fun clause hc => (hclauses clause hc).1)
      (fun clause hc => ⟨(hclauses clause hc).2, hinside' clause hc, ih' clause hc⟩)
      fun b hb => ⟨hlast b hb, hinside'' b hb, ih'' b hb⟩
  | forLoop htarget hiterable hfilled hinside ih =>
    exact fromPieces_forLoop hcancel htarget hiterable ⟨hfilled, hinside, ih⟩
  | whileLoop hcondition hfilled hinside ih =>
    exact fromPieces_whileLoop hcancel hcondition ⟨hfilled, hinside, ih⟩
  | decorated hne hdecorators hdefinition _ ih =>
    exact fromPieces_decorated hne hdecorators hdefinition ih
  | importModules hne hpaths => exact hsimple (.importModules hne hpaths) rfl rfl
  | importFrom horigin htargets => exact hsimple (.importFrom horigin htargets) rfl rfl
  | expression h => exact hsimple (.expression h) rfl rfl
  | assignment htarget hstart htypes h => exact hsimple (.assignment htarget hstart htypes h) rfl rfl
  | augmented hop htarget hsingle h => exact hsimple (.augmented hop htarget hsingle h) rfl rfl
  | declaration htypes htyped => exact hsimple (.declaration htypes htyped) rfl rfl
  | aliasing hps h => exact hsimple (.aliasing hps h) rfl rfl
  | leave h => exact hsimple (.leave h) rfl rfl
  | bare => exact hsimple .bare rfl rfl

end Compound

section Stream

variable {body : List Stmt} {ts : List Token} {t : Token}

theorem ofTokens_append (ts : List Token) (ht : t.kind = .eof) : Cursor.ofTokens (ts ++ [t]) = ⟨none, ts, t⟩ := by
  unfold Cursor.ofTokens
  rw [List.getLast?_concat]
  simp [ht]

/-- A stream of statements is read back from what it is written with, without a fault. -/
theorem parse_written (hcancel : cfg.cancel = false) (h : ∀ s ∈ body, s.Proper cfg.conventions)
    (hspells : Spells (Stmt.piecesAll body) ts) (hclear : Clear (Stmt.piecesAll body)) (ht : t.kind = .eof) :
    ∃ body', parse cfg (ts ++ [t]) = ⟨body', [], false⟩ ∧ body'.map Stmt.plain = body.map Stmt.plain := by
  have hread : (Cursor.mk none ts t).Read (Stmt.piecesAll body) ⟨ts.getLast?, [], t⟩ :=
    ⟨ts, ⟨(List.append_nil ts).symm, rfl, (Option.or_none).symm⟩, hspells⟩
  obtain ⟨body', hstatements, hφ⟩ : ∃ body',
      statements cfg (· == .eof) (fun k => k == .newline || k == .dedent) (recovering (stmt cfg))
        { cursor := ⟨none, ts, t⟩ } = (body', { cursor := ⟨ts.getLast?, [], t⟩ }) ∧
      body'.map Stmt.plain = body.map Stmt.plain :=
    statements_ok hcancel (show FaithfulStmt cfg (stmt cfg) (ts.length + 1) from fun _ _ => rfl)
      (Nat.lt_succ_self _) h (fun s hs => fromPieces_of_proper hcancel (h s hs))
      (fun k hk => by cases k <;> first | exact ⟨rfl, rfl⟩ | cases hk) hread hclear
      (show (t.kind == .eof) = true by simp [ht]) (show t.kind ≠ .kwElif by simp [ht])
      (show t.kind ≠ .kwElse by simp [ht])
  refine ⟨body', ?_, hφ⟩
  rw [parse, topLevel, ofTokens_append ts ht, hstatements]
  exact congrArg (Parsed.mk _ _) (Progress.cancelled_eq _ hcancel)

/-- As in a conditional with an inline and an indented block. -/
theorem parse_written_conditional :
    ∃ body', parse {} ([⟨.kwIf, "if", ⟨0, 2⟩⟩, ⟨.identifier, "a", ⟨3, 4⟩⟩, ⟨.colon, ":", ⟨4, 5⟩⟩,
      ⟨.kwReturn, "return", ⟨6, 12⟩⟩, ⟨.identifier, "a", ⟨13, 14⟩⟩, ⟨.semicolon, ";", ⟨14, 15⟩⟩,
      ⟨.kwPass, "pass", ⟨16, 20⟩⟩, ⟨.newline, "", ⟨20, 21⟩⟩, ⟨.kwElse, "else", ⟨21, 25⟩⟩,
      ⟨.colon, ":", ⟨25, 26⟩⟩, ⟨.newline, "", ⟨26, 27⟩⟩, ⟨.indent, "", ⟨27, 29⟩⟩,
      ⟨.identifier, "b", ⟨29, 30⟩⟩, ⟨.plusEquals, "+=", ⟨31, 33⟩⟩, ⟨.identifier, "a", ⟨34, 35⟩⟩,
      ⟨.newline, "", ⟨35, 36⟩⟩, ⟨.dedent, "", ⟨36, 36⟩⟩] ++ [⟨.eof, "", ⟨36, 36⟩⟩]) = ⟨body', [], false⟩ ∧
      body'.map Stmt.plain = [.conditional default (.symbol default "a")
        (.mk default true [.leave default .kwReturn (some (.symbol default "a")), .bare default .kwPass]) []
        (some (.mk default false
          [.augmented default .add (.symbol default "b") (.symbol default "a")]))].map Stmt.plain := by
  have hname {name : String} : (Expr.symbol default name).Proper := ⟨.symbol, rfl⟩
  have hproper : ∀ s ∈ [.conditional default (.symbol default "a")
      (.mk default true [.leave default .kwReturn (some (.symbol default "a")), .bare default .kwPass]) []
      (some (.mk default false [.augmented default .add (.symbol default "b") (.symbol default "a")]))],
      Stmt.Proper .both s := by
    refine List.forall_mem_singleton.mpr (.conditional hname ⟨List.cons_ne_nil _ _, ?_⟩ ?_
      (List.forall_mem_nil _) (List.forall_mem_nil _) ?_ ?_)
    · simp [Block.body, Stmt.isSimple]
    · simp only [Block.body, List.mem_cons, List.not_mem_nil, or_false]
      rintro s (rfl | rfl)
      · exact .leave fun e he => by cases he; exact hname
      · exact .bare
    · rintro b ⟨⟩
      exact ⟨List.cons_ne_nil _ _, fun h => by cases h⟩
    · rintro b ⟨⟩ s hs
      obtain rfl := List.mem_singleton.mp hs
      exact .augmented (by decide) hname rfl hname
  refine parse_written rfl hproper ?_ (by decide) rfl
  exact .token (.fixed rfl) (.token (.name rfl rfl) (.token (.fixed rfl) (.token (.fixed rfl)
    (.token (.name rfl rfl) (.token (.fixed rfl) (.token (.fixed rfl) (.token (.fixed rfl)
    (.token (.fixed rfl) (.token (.fixed rfl) (.token (.fixed rfl) (.token (.fixed rfl)
    (.token (.name rfl rfl) (.token (.fixed rfl) (.token (.name rfl rfl) (.token (.fixed rfl)
    (.token (.fixed rfl) .nil))))))))))))))))

/-- Whether statements come back from whatever tokens spell them. -/
def ReadBack (cfg : Config) (body : List Stmt) : Prop :=
  ∀ (ts : List Token) (t : Token), Spells (Stmt.piecesAll body) ts → t.kind = .eof →
    ∃ body', parse cfg (ts ++ [t]) = ⟨body', [], false⟩ ∧ body'.map Stmt.plain = body.map Stmt.plain

theorem not_readBack {p : Parsed} (hspells : Spells (Stmt.piecesAll body) ts) (ht : t.kind = .eof)
    (hparse : parse cfg (ts ++ [t]) = p)
    (hne : p.diagnostics = [] → p.body.map Stmt.plain ≠ body.map Stmt.plain) : ¬ReadBack cfg body := by
  intro h
  obtain ⟨body', hbody, hplain⟩ := h ts t hspells ht
  rw [hparse] at hbody
  subst hbody
  exact hne rfl hplain

set_option maxRecDepth 1024 in
/-- Behind `var` a list is refused before it is read. -/
theorem parse_var_list : parse {} ([⟨.kwVar, "var", ⟨0, 3⟩⟩, ⟨.openBracket, "[", ⟨4, 5⟩⟩,
      ⟨.identifier, "a", ⟨5, 6⟩⟩, ⟨.closeBracket, "]", ⟨6, 7⟩⟩, ⟨.assignment, "=", ⟨8, 9⟩⟩,
      ⟨.identifier, "b", ⟨10, 11⟩⟩, ⟨.newline, "", ⟨11, 12⟩⟩] ++ [⟨.eof, "", ⟨12, 12⟩⟩]) =
    ⟨[.error ⟨0, 12⟩], [⟨.unexpectedTokenDetailed "[" "expected identifier during variable declaration",
      ⟨4, 5⟩⟩], false⟩ := by cbv

set_option maxRecDepth 1024 in
/-- Before `None` a convention word is read as the name of a type. -/
theorem parse_ref_none : parse {} ([⟨.kwDef, "def", ⟨0, 3⟩⟩, ⟨.identifier, "f", ⟨4, 5⟩⟩,
      ⟨.openParen, "(", ⟨5, 6⟩⟩, ⟨.closeParen, ")", ⟨6, 7⟩⟩, ⟨.arrow, "->", ⟨8, 10⟩⟩,
      ⟨.identifier, "ref", ⟨11, 14⟩⟩, ⟨.kwNone, "None", ⟨15, 19⟩⟩, ⟨.colon, ":", ⟨19, 20⟩⟩,
      ⟨.kwPass, "pass", ⟨21, 25⟩⟩, ⟨.newline, "", ⟨25, 26⟩⟩] ++ [⟨.eof, "", ⟨26, 26⟩⟩]) =
    ⟨[.error ⟨0, 26⟩], [⟨.unexpectedToken "None", ⟨15, 19⟩⟩], false⟩ := by cbv

/-- What does not come back: a statement once the parse is cancelled, a caret that gives up a value
right before a sign, a list behind `var`, and a convention of the result before `None`. -/
theorem not_readBack_each :
    ¬ReadBack { cancel := true } [.bare default .kwPass] ∧
    ¬ReadBack {} [.expression default
      (.binary default .add (.transfer default (.symbol default "a")) (.symbol default "b"))] ∧
    ¬ReadBack {} [.assignment default true (.list default [.symbol default "a"]) none
      (.symbol default "b")] ∧
    ¬ReadBack {} [.function default
      ⟨.kwDef, "f", [], [], some .reference, some (.symbol default "None"), false⟩
      (.mk default true [.bare default .kwPass])] := by
  refine ⟨?_, ?_, ?_, ?_⟩
  · have hparse : parse { cancel := true } ([⟨.kwPass, "pass", ⟨0, 4⟩⟩, ⟨.newline, "", ⟨4, 5⟩⟩] ++
        [⟨.eof, "", ⟨5, 5⟩⟩]) = ⟨[], [], true⟩ := by cbv
    exact not_readBack (.token (.fixed rfl) (.token (.fixed rfl) .nil)) rfl hparse
      fun _ => (List.cons_ne_nil _ _).symm
  · have hparse : parse {} ([⟨.identifier, "a", ⟨0, 1⟩⟩, ⟨.caret, "^", ⟨1, 2⟩⟩, ⟨.plus, "+", ⟨3, 4⟩⟩,
        ⟨.identifier, "b", ⟨5, 6⟩⟩, ⟨.newline, "", ⟨6, 7⟩⟩] ++ [⟨.eof, "", ⟨7, 7⟩⟩]) =
        ⟨[.expression ⟨0, 6⟩ (.binary ⟨0, 6⟩ .bitXor (.symbol ⟨0, 1⟩ "a")
          (.unary ⟨3, 6⟩ .plus (.symbol ⟨5, 6⟩ "b")))], [], false⟩ := by
      refine Seam.parse_of_stmt (r := { cursor := ⟨some ⟨.newline, "", ⟨6, 7⟩⟩, [], ⟨.eof, "", ⟨7, 7⟩⟩⟩ }) rfl rfl
        ?_ rfl (by decide)
      rw [Seam.stmt_eq_statement]
      change lifted expressionStmt _ = _
      cbv
    exact not_readBack (.token (.name rfl rfl) (.token (.transfer rfl) (.token (.fixed rfl)
      (.token (.name rfl rfl) (.token (.fixed rfl) .nil))))) rfl hparse fun _ h => by cases h
  · exact not_readBack (.token (.fixed rfl) (.token (.fixed rfl) (.token (.name rfl rfl) (.cons .absent
      (.token (.fixed rfl) (.token (.fixed rfl) (.token (.name rfl rfl) (.token (.fixed rfl) .nil))))))))
      rfl parse_var_list fun h => absurd h (List.cons_ne_nil _ _)
  · exact not_readBack (.token (.fixed rfl) (.token (.name rfl rfl) (.token (.fixed rfl) (.token (.fixed rfl)
      (.token (.fixed rfl) (.token (.name rfl rfl) (.token (.word rfl rfl) (.token (.fixed rfl)
      (.token (.fixed rfl) (.token (.fixed rfl) .nil)))))))))) rfl parse_ref_none
      fun h => absurd h (List.cons_ne_nil _ _)

end Stream

end Grammar

end Offside
