import Offside.Proofs.Building
import Offside.Proofs.Tree.Nodes

namespace Offside.Grammar

open Rule Cursor

variable {α β : Type} {before : List Diagnostic} {owed : Nat} {p q : Progress}

namespace Progress

def Grows (p q : Progress) : Prop := p.diagnostics <+: q.diagnostics

instance : Std.Refl Grows := ⟨fun p => List.prefix_refl p.diagnostics⟩

instance : IsTrans Progress Grows := ⟨fun _ _ _ h h' => List.IsPrefix.trans h h'⟩

/-- Faults have been added to those from before: at least one for each of so many error marks, and
none if there is no mark. -/
def Accounts (before : List Diagnostic) (marks : Nat) (q : Progress) : Prop :=
  ∃ added, q.diagnostics = before ++ added ∧ marks ≤ added.length ∧ (marks = 0 → added = [])

theorem accounts_self (q : Progress) : q.Accounts q.diagnostics 0 :=
  ⟨[], (List.append_nil _).symm, Nat.le_refl 0, fun _ => rfl⟩

/-- One more mark stands for all faults found in its place, and there is one at least. -/
theorem Accounts.mark (h : p.Accounts before owed) (hgrows : p.Grows q) {fault : Diagnostic} {c : Cursor} :
    ({ q with cursor := c, diagnostics := q.diagnostics ++ [fault] } : Progress).Accounts before (owed + 1) := by
  obtain ⟨added, heq, hle, -⟩ := h
  obtain ⟨inner, hinner⟩ := hgrows
  -- the marks found in this place are given up, but not their faults
  refine ⟨added ++ inner ++ [fault], ?_, ?_, fun hzero => absurd hzero (Nat.succ_ne_zero owed)⟩
  · change q.diagnostics ++ [fault] = _
    rw [← hinner, heq, List.append_assoc, List.append_assoc, List.append_assoc]
  · simp only [List.length_append, List.length_singleton]
    omega

end Progress

/-- Given faults for so many error marks, a rule leaves faults for the marks of its value. When it
fails, it keeps the faults. -/
structure Accounts (owed : Nat) (marks : α → Nat) (x : StmtRule α) : Prop where
  returned : ∀ before, Yields (fun q => q.Live ∧ q.Accounts before owed) x fun a q =>
    q.Live ∧ q.Accounts before (marks a)
  kept : Moves Progress.Grows (fun _ => True) x

namespace Accounts

variable {marks : α → Nat} {marks' : β → Nat} {x y : StmtRule α} {g : α → StmtRule β}

theorem pure {a : α} (h : owed = marks a) : Accounts owed marks (Pure.pure a) where
  returned _ := Yields.pure fun _ hq => h ▸ hq
  kept := Moves.pure

theorem throw {e : Diagnostic} : Accounts owed marks (throw e) where
  returned _ := Yields.throw
  kept := Moves.throw

theorem ite {P : Prop} [Decidable P] (hx : P → Accounts owed marks x) (hy : ¬P → Accounts owed marks y) :
    Accounts owed marks (if P then x else y) := by
  split
  · exact hx ‹_›
  · exact hy ‹_›

theorem bind (hx : Accounts owed marks x) (hg : ∀ a, Accounts (marks a) marks' (g a)) :
    Accounts owed marks' (x >>= g) where
  returned before := (hx.returned before).bind fun a => (hg a).returned before
  kept := hx.kept.bind fun a => (hg a).kept

theorem map {φ : α → β} (hx : Accounts owed marks x) (h : ∀ a, marks a = marks' (φ a)) :
    Accounts owed marks' (φ <$> x) :=
  hx.bind (g := fun a => Pure.pure (φ a)) fun a => pure (h a)

theorem many {size : Progress → Nat} {step : StmtRule (Option α)}
    (h : ∀ owed, Accounts owed (fun o => owed + (o.toList.map marks).sum) step) :
    Accounts owed (fun as => owed + (as.map marks).sum) (many size step) where
  returned before := by
    refine (Yields.many_list (J := fun as (q : Progress) =>
      q.Live ∧ q.Accounts before (owed + (as.map marks).sum)) (fun as => ?_) []).before fun _ hq => hq
    refine ((h _).returned before).weaken fun o q hq => ?_
    rw [List.map_append, List.sum_append, ← Nat.add_assoc]
    exact hq
  kept := Moves.many (h 0).kept fun _ _ _ _ => trivial

end Accounts

/-- Rules over tokens record nothing. -/
theorem lifted_accounts {x : Rule α} {V : α → Prop} {marks : α → Nat} (hx : Makes Cursor.Live V x)
    (hmarks : ∀ a, V a → owed = marks a) : Accounts owed marks (lifted x) where
  returned before q a r hq hr := by
    obtain ⟨hlive, hvalue⟩ := lifted_makes hx q a r hq.1 hr
    have hsame : r.diagnostics = q.diagnostics := by
      unfold lifted at hr
      split at hr
      · cases hr
        rfl
      · cases hr
    refine ⟨hlive, ?_⟩
    rw [← hmarks a hvalue, Progress.Accounts, hsame]
    exact hq.2
  kept q _ := by
    unfold lifted
    split
    · exact List.prefix_refl _
    · exact List.prefix_refl _

theorem lifted_kind_accounts : Accounts owed (fun _ => owed) (lifted Rule.kind) :=
  lifted_accounts (makes_of_moves fun c _ => Std.Refl.refl c) fun _ _ => rfl

structure Accounting (sub : StmtRule Stmt) : Prop extends
    Advances (fun _ c => c.last.kind = .eof) Ahead sub where
  accounts : ∀ owed, Accounts owed (fun s => owed + s.marks) sub

section Suites

variable {sub : StmtRule Stmt} {cfg : Config} {stop blank : Kind → Bool}

/-- A statement that fails leaves one mark, and faults for it. -/
theorem recovering_accounts (hsub : Accounting sub) (hq : q.Live ∧ q.Accounts before owed) :
    (recovering sub q).2.Live ∧
      (recovering sub q).2.Accounts before (owed + (recovering sub q).1.marks) := by
  have hmoved := recovering_moved (n := 0) track_ahead hsub.toAdvances hq.1
  refine ⟨track_ahead.along (n := 0) hq.1 hmoved, ?_⟩
  have hreturned := (hsub.accounts owed).returned before q
  have hkept := (hsub.accounts owed).kept q trivial
  unfold recovering
  cases hr : sub q with
  | ok s r => exact (hreturned s r hq hr).2
  | error fault r =>
    rw [hr] at hkept
    exact hq.2.mark hkept

theorem accounts_poll (cfg : Config) (hq : q.Live ∧ q.Accounts before owed) :
    (q.poll cfg).Live ∧ (q.poll cfg).Accounts before owed := by
  unfold Progress.Live Progress.Accounts
  rw [q.poll_cursor, q.poll_diagnostics]
  exact hq

/-- Over the statements of a body their marks add up. -/
theorem statements_accounts {one : Progress → Stmt × Progress}
    (hone : ∀ owed (q : Progress), q.Live ∧ q.Accounts before owed →
      (one q).2.Live ∧ (one q).2.Accounts before (owed + (one q).1.marks))
    (hq : q.Live ∧ q.Accounts before owed) :
    (statements cfg stop blank one q).2.Live ∧ (statements cfg stop blank one q).2.Accounts before
      (owed + ((statements cfg stop blank one q).1.map Stmt.marks).sum) := by
  refine statements_invariant cfg q
    (I := fun ss p => p.Live ∧ p.Accounts before (owed + (ss.map Stmt.marks).sum))
    (fun ss p hp => ?_) (fun ss p hp => ?_) (fun ss p _ _ hp => ?_) [] hq
  · exact accounts_poll cfg hp
  · exact hp.imp_left Progress.Live.advance
  · rw [List.map_append, List.sum_append, List.map_singleton, List.sum_singleton, ← Nat.add_assoc]
    exact hone _ p hp

theorem recovering_grows (hsub : Accounting sub) (q : Progress) : q.Grows (recovering sub q).2 := by
  have hkept := (hsub.accounts 0).kept q trivial
  unfold recovering
  cases hr : sub q with
  | ok s r =>
    rw [hr] at hkept
    exact hkept
  | error fault r =>
    rw [hr] at hkept
    exact hkept.trans (List.prefix_append r.diagnostics [fault])

theorem statements_grows {one : Progress → Stmt × Progress} (hone : ∀ q : Progress, q.Grows (one q).2) :
    q.Grows (statements cfg stop blank one q).2 := by
  refine statements_invariant cfg q (I := fun _ p => q.Grows p) (fun _ p hp => ?_) (fun _ p hp => hp)
    (fun _ p _ _ hp => hp.trans (hone p)) [] (Std.Refl.refl q)
  rwa [Progress.Grows, p.poll_diagnostics]

variable (hsub : Accounting sub)

include hsub

theorem blockBody_accounts :
    Accounts owed (fun body => owed + (body.map Stmt.marks).sum) (blockBody cfg sub) where
  returned before q body r hq hr := by
    obtain ⟨hlive, haccounts⟩ : (Seam.blockLoop cfg sub q).2.Live ∧
        (Seam.blockLoop cfg sub q).2.Accounts before
        (owed + ((Seam.blockLoop cfg sub q).1.map Stmt.marks).sum) :=
      statements_accounts (fun _ _ => recovering_accounts hsub) hq
    rw [Seam.blockBody_run] at hr
    cases hr
    unfold Progress.Live Progress.Accounts
    rw [closeBlock_diagnostics]
    rcases closeBlock_cursor cfg (Seam.blockLoop cfg sub q).2 with h | h
    · rw [h]
      exact ⟨hlive, haccounts⟩
    · rw [h]
      exact ⟨hlive.advance, haccounts⟩
  kept q _ := by
    have hall : q.Grows (Seam.blockLoop cfg sub q).2 := statements_grows (recovering_grows hsub)
    rw [Seam.blockBody_run]
    change q.diagnostics <+: (closeBlock cfg _).diagnostics
    rwa [closeBlock_diagnostics]

theorem inlineStmt_accounts : Accounts owed (fun s => owed + s.marks) (inlineStmt sub) := by
  refine lifted_kind_accounts.bind fun k => Accounts.ite (fun _ => ?_) fun _ => hsub.accounts owed
  exact lifted_accounts (V := fun _ => False) yields_unexpectedDetailed fun _ => False.elim

theorem inlineBody_accounts : Accounts owed (fun b => owed + b.marks) (inlineBody sub) := by
  -- a round goes on from the state that it looks at
  have hline (owed : Nat) (p : Progress) :
      Accounts owed (fun o : Option Stmt => owed + (o.toList.map Stmt.marks).sum) (bodyRoundAt p.cursor sub) :=
    Accounts.ite (fun _ => Accounts.pure rfl) fun _ =>
      (inlineStmt_accounts hsub).map fun s => rfl
  have hstep (owed : Nat) :
      Accounts owed (fun o : Option Stmt => owed + (o.toList.map Stmt.marks).sum) (bodyRound sub) :=
    ⟨fun before q => (hline owed q).returned before q, fun q => (hline owed q).kept q⟩
  refine (lifted_accounts (makes_of_moves fun c _ => Std.Refl.refl c) fun _ _ => rfl).bind fun start => ?_
  refine (inlineStmt_accounts hsub).bind fun first => (Accounts.many hstep).bind fun rest => ?_
  refine Accounts.pure ?_
  rw [Block.marks_eq_sum]
  exact Nat.add_assoc _ _ _

theorem suite_accounts : Accounts owed (fun b => owed + b.marks) (suite cfg sub) := by
  refine (lifted_accounts expect_makes fun _ _ => rfl).bind fun _ => ?_
  refine lifted_kind_accounts.bind fun k => Accounts.ite (fun _ => ?_) fun _ => inlineBody_accounts hsub
  refine (lifted_accounts advance_makes fun _ _ => rfl).bind fun newline => ?_
  refine lifted_kind_accounts.bind fun k => Accounts.ite (fun _ => ?_) fun _ => Accounts.throw
  refine (lifted_accounts advance_makes fun _ _ => rfl).bind fun indent => ?_
  refine (blockBody_accounts hsub).bind fun body => Accounts.pure ?_
  rw [Block.marks_eq_sum]
  rfl

/-- The marks of a statement made of a header and a suite are those of the suite. -/
theorem headed_accounts {x : Rule α} {V : α → Prop} {f : α → Block → β} (marks : β → Nat)
    (hx : Makes Cursor.Live V x) (hf : ∀ v b, marks (f v b) = owed + b.marks) :
    Accounts owed marks (lifted x >>= fun v => suite cfg sub >>= fun b => pure (f v b)) :=
  (lifted_accounts hx fun _ _ => rfl).bind fun v => (suite_accounts hsub).bind fun b =>
    Accounts.pure (hf v b).symm

theorem elifClause?_accounts :
    Accounts owed (fun o => owed + (o.toList.map ElifClause.marks).sum) (elifClause? cfg sub) := by
  refine lifted_kind_accounts.bind fun k => Accounts.ite (fun _ => ?_) fun _ => Accounts.pure rfl
  exact headed_accounts hsub (fun o => owed + (o.toList.map ElifClause.marks).sum) conditionHead_makes
    (f := fun v b => some (ElifClause.mk ⟨v.1, b.span.stop⟩ v.2 b)) fun _ _ => rfl

theorem elseBody?_accounts :
    Accounts owed (fun o => owed + (o.toList.map Block.marks).sum) (elseBody? cfg sub) :=
  (lifted_accounts eat_makes fun _ _ => rfl).bind fun _ =>
    Accounts.ite (fun _ => (suite_accounts hsub).map fun _ => rfl) fun _ => Accounts.pure rfl

abbrev AccountsStmt (owed : Nat) (x : StmtRule Stmt) : Prop :=
  Accounts owed (fun s => owed + s.marks) x

theorem functionStmt_accounts : AccountsStmt owed (functionStmt cfg sub) :=
  headed_accounts hsub _ functionHead_makes (f := fun v b => Stmt.function ⟨v.1, b.span.stop⟩ v.2 b)
    fun _ _ => by rw [Stmt.marks_function]

theorem typeStmt_accounts (word : TypeWord) : AccountsStmt owed (typeStmt cfg sub word) :=
  headed_accounts hsub _ (typeHead_makes word) (f := fun v b => Stmt.typeDecl ⟨v.1, b.span.stop⟩ v.2 b)
    fun _ _ => by rw [Stmt.marks_typeDecl]

theorem ifStmt_accounts : AccountsStmt owed (ifStmt cfg sub) := by
  refine (lifted_accounts conditionHead_makes fun _ _ => rfl).bind fun v => ?_
  refine (suite_accounts hsub).bind fun body => ?_
  refine (Accounts.many fun _ => elifClause?_accounts hsub).bind fun elifs => ?_
  refine (elseBody?_accounts hsub).bind fun otherwise => Accounts.pure ?_
  rw [Stmt.marks_conditional, ← Nat.add_assoc, ← Nat.add_assoc]

theorem forStmt_accounts : AccountsStmt owed (forStmt cfg sub) :=
  headed_accounts hsub _ forHead_makes (f := fun v b => Stmt.forLoop ⟨v.1, b.span.stop⟩ v.2.1 v.2.2 b)
    fun _ _ => by rw [Stmt.marks_forLoop]

theorem whileStmt_accounts : AccountsStmt owed (whileStmt cfg sub) :=
  headed_accounts hsub _ conditionHead_makes (f := fun v b => Stmt.whileLoop ⟨v.1, b.span.stop⟩ v.2 b)
    fun _ _ => by rw [Stmt.marks_whileLoop]

theorem definition_accounts : AccountsStmt owed (definition cfg sub) := by
  refine lifted_kind_accounts.bind fun k => ?_
  cases k using definition_cases with
  | function => exact functionStmt_accounts hsub
  | type word => exact typeStmt_accounts hsub word
  | other =>
    exact (lifted_accounts (makes_of_moves fun c _ => Std.Refl.refl c) fun _ _ => rfl).bind fun _ =>
      Accounts.throw

theorem decoratedStmt_accounts : AccountsStmt owed (decoratedStmt cfg sub) := by
  refine (lifted_accounts (makes_of_moves fun c _ => Std.Refl.refl c) fun _ _ => rfl).bind fun start => ?_
  refine (lifted_accounts (Makes.many decorator?_makes) fun _ _ => rfl).bind fun decorators => ?_
  refine (definition_accounts hsub).bind fun inner => Accounts.pure ?_
  rw [Stmt.marks_decorated]

omit hsub in
theorem simpleStmt_accounts {k : Kind} : AccountsStmt owed (lifted (simpleStmt k)) := by
  have hline : MakesLine default (simpleStmt k) := simpleStmt_makes k
  refine lifted_accounts hline fun s hs => ?_
  rw [Stmt.marks_of_isSimple hs.2, Nat.add_zero]

theorem statement_accounts : AccountsStmt owed (statement cfg sub) := by
  refine lifted_kind_accounts.bind fun k => ?_
  cases k using statement_cases with
  | indent => exact lifted_accounts (V := fun _ => False) yields_unexpectedDetailed fun _ => False.elim
  | function => exact functionStmt_accounts hsub
  | type word => exact typeStmt_accounts hsub word
  | conditional => exact ifStmt_accounts hsub
  | forLoop => exact forStmt_accounts hsub
  | whileLoop => exact whileStmt_accounts hsub
  | decorated => exact decoratedStmt_accounts hsub
  | simple => exact simpleStmt_accounts

end Suites

section Streams

variable {cfg : Config}

/-- Statements inside a statement that began before so many tokens. -/
theorem innerStmt_accounting (m : Nat) : Accounting (Seam.innerStmt cfg m) := by
  -- the statements inside begin before fewer tokens
  induction m using Nat.strongRecOn with
  | _ m ih =>
    refine ⟨innerStmt_advances track_ahead leaves_ahead m,
      fun owed => ⟨fun before q s r hq hr => ?_, fun q _ => ?_⟩⟩
    · by_cases hlt : q.remaining < m
      · rw [Seam.innerStmt_of_lt hlt, Seam.stmt_eq_statement] at hr
        exact (statement_accounts (ih q.remaining hlt)).returned before q s r hq hr
      · rw [Seam.innerStmt, if_neg hlt] at hr
        cases hr
    · by_cases hlt : q.remaining < m
      · rw [Seam.innerStmt_of_lt hlt, Seam.stmt_eq_statement]
        have hall : AccountsStmt owed (statement cfg (Seam.innerStmt cfg q.remaining)) :=
          statement_accounts (ih q.remaining hlt)
        exact hall.kept q trivial
      · rw [Seam.innerStmt, if_neg hlt]
        exact Std.Refl.refl q

theorem stmt_accounting : Accounting (stmt cfg) where
  toAdvances := stmt_advances track_ahead leaves_ahead
  accounts owed :=
    { returned := fun before q s r hq hr => by
        rw [Seam.stmt_eq_statement] at hr
        exact (statement_accounts (innerStmt_accounting q.remaining)).returned before q s r hq hr
      kept := fun q _ => by
        rw [Seam.stmt_eq_statement]
        have hall : AccountsStmt owed (statement cfg (Seam.innerStmt cfg q.remaining)) :=
          statement_accounts (innerStmt_accounting q.remaining)
        exact hall.kept q trivial }

def Parsed.marks (p : Parsed) : Nat := (p.body.flatMap Stmt.nodes).countP Stmt.isError

theorem parse_accounts (cfg : Config) (tokens : List Token) :
    (parse cfg tokens).marks ≤ (parse cfg tokens).diagnostics.length ∧
      ((parse cfg tokens).marks = 0 → (parse cfg tokens).diagnostics = []) := by
  let start : Progress := { cursor := Cursor.ofTokens tokens }
  have hlive : start.Live := last_ofTokens tokens
  obtain ⟨-, added, heq, hle, hnone⟩ : (topLevel cfg tokens).2.Live ∧ (topLevel cfg tokens).2.Accounts []
      (0 + ((topLevel cfg tokens).1.map Stmt.marks).sum) :=
    statements_accounts (fun _ _ => recovering_accounts stmt_accounting)
      ⟨hlive, start.accounts_self⟩
  rw [Nat.zero_add] at hle hnone
  have hfaults : (parse cfg tokens).diagnostics = added := heq
  rw [Parsed.marks, List.countP_flatMap, hfaults]
  exact ⟨hle, hnone⟩

/-- No fault is silent and none is invented: the faults are empty exactly when no error mark stands
in the body, at whatever depth, and the marks are never more than the faults. -/
theorem parse_marks_faults (cfg : Config) (tokens : List Token) :
    ((parse cfg tokens).diagnostics = [] ↔
      ∀ s ∈ (parse cfg tokens).body.flatMap Stmt.nodes, s.isError = false) ∧
    ((parse cfg tokens).body.flatMap Stmt.nodes).countP Stmt.isError ≤
      (parse cfg tokens).diagnostics.length := by
  obtain ⟨hle, hnone⟩ := parse_accounts cfg tokens
  have hclean : (parse cfg tokens).marks = 0 ↔
      ∀ s ∈ (parse cfg tokens).body.flatMap Stmt.nodes, s.isError = false := by
    simp only [Parsed.marks, List.countP_eq_zero, Bool.not_eq_true]
  refine ⟨⟨fun hempty => ?_, fun hmarks => hnone (hclean.mpr hmarks)⟩, hle⟩
  rw [hempty] at hle
  exact hclean.mp (Nat.le_zero.mp hle)

end Streams

end Offside.Grammar
