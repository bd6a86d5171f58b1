import Offside.Proofs.Extent.Stmt
import Offside.Proofs.Validity.Simple

namespace Offside.Grammar

open Rule Cursor

variable {α β : Type}

def Progress.Live (q : Progress) : Prop := q.cursor.Live

theorem lifted_makes {x : Rule α} {V : α → Prop} (h : Makes Cursor.Live V x) :
    Makes Progress.Live V (lifted x) :=
  lifted_yields h

/-- What lines, headers and blocks give to the statements, blocks and clauses built from them. -/
structure Builds (cfg : Config) (S : Stmt → Prop) (B : Block → Prop) (C : ElifClause → Prop) :
    Prop where
  error : ∀ span, S (.error span)
  line : ∀ k, Makes Cursor.Live (fun s => S s ∧ s.isSimple = true) (simpleStmt k)
  block : ∀ span inline body, (∀ s ∈ body, S s) →
    (inline = true → body ≠ [] ∧ ∀ s ∈ body, s.isSimple = true) → B (.mk span inline body)
  function : Makes Cursor.Live (fun v => ∀ span b, B b → S (.function span v.2 b))
    (functionHead cfg.conventions)
  typeDecl : ∀ word, Makes Cursor.Live (fun v => ∀ span b, B b → S (.typeDecl span v.2 b)) (typeHead word)
  clause : Makes Cursor.Live (fun v => ∀ span b, B b → C (.mk span v.2 b)) conditionHead
  conditional : Makes Cursor.Live (fun v => ∀ span b elifs otherwise, B b → (∀ c ∈ elifs, C c) →
    (∀ b ∈ otherwise, B b) → S (.conditional span v.2 b elifs otherwise)) conditionHead
  forLoop : Makes Cursor.Live (fun v => ∀ span b, B b → S (.forLoop span v.2.1 v.2.2 b)) forHead
  whileLoop : Makes Cursor.Live (fun v => ∀ span b, B b → S (.whileLoop span v.2 b)) conditionHead
  decorated : ∀ span ds s, ds ≠ [] → (∀ d ∈ ds, d.Valid) → s.isDefinition = true → S s →
    S (.decorated span ds s)

structure Building (S : Stmt → Prop) (sub : StmtRule Stmt) : Prop extends
    Advances (fun _ c => c.last.kind = .eof) Ahead sub where
  makes : Makes Progress.Live S sub
  simple : Yields (fun q => q.Live ∧ startsCompound q.cursor.kind = false) sub fun s _ =>
    s.isSimple = true

variable {cfg : Config} {S : Stmt → Prop} {B : Block → Prop} {C : ElifClause → Prop}
  {sub : StmtRule Stmt} {stop blank : Kind → Bool} {q : Progress} {k : Kind}

section Bodies

theorem Progress.Live.advance (h : q.Live) : q.advance.Live :=
  track_ahead.along (n := 0) h q.cursor.ahead_advance

theorem Progress.Live.poll (h : q.Live) : (q.poll cfg).Live := by rwa [Progress.Live, q.poll_cursor]

theorem statements_built {one : Progress → Stmt × Progress}
    (hone : ∀ q : Progress, q.Live → (one q).2.Live ∧ S (one q).1) (hq : q.Live) :
    (statements cfg stop blank one q).2.Live ∧ ∀ s ∈ (statements cfg stop blank one q).1, S s := by
  refine statements_invariant cfg q (I := fun ss p => p.Live ∧ ∀ s ∈ ss, S s) (fun ss p hp => ?_)
    (fun ss p hp => ?_) (fun ss p _ _ hp => ?_) [] ⟨hq, List.forall_mem_nil _⟩
  · exact hp.imp_left Progress.Live.poll
  · exact hp.imp_left Progress.Live.advance
  · obtain ⟨hlive, hs⟩ := hone p hp.1
    exact ⟨hlive, List.forall_mem_append.mpr ⟨hp.2, List.forall_mem_singleton.mpr hs⟩⟩

theorem Progress.Live.closeBlock (h : q.Live) : (closeBlock cfg q).Live := by
  rcases closeBlock_cursor cfg q with hc | hc
  · rwa [Progress.Live, hc]
  · rw [Progress.Live, hc]
    exact h.advance

variable (herror : ∀ span, S (.error span)) (hsub : Building S sub)

include herror hsub

theorem recovering_built (hq : q.Live) : (recovering sub q).2.Live ∧ S (recovering sub q).1 := by
  have hmoved := recovering_moved (n := 0) track_ahead hsub.toAdvances hq
  refine ⟨track_ahead.along (n := 0) hq hmoved, ?_⟩
  have hone := hsub.makes q
  unfold recovering
  cases hr : sub q with
  | ok s r => exact (hone s r hq hr).2
  | error e r => exact herror _

theorem blockBody_makes : Makes Progress.Live (fun ss => ∀ s ∈ ss, S s) (blockBody cfg sub) := by
  intro q body r hq hr
  cases hr
  refine (statements_built (fun _ => recovering_built herror hsub) hq).imp_left fun hlive => ?_
  exact hlive.closeBlock

end Bodies

section Suites

variable (hb : Builds cfg S B C) (hsub : Building S sub)

include hsub

theorem inlineStmt_makes :
    Makes Progress.Live (fun s => S s ∧ s.isSimple = true) (inlineStmt sub) := by
  refine yields_on_kind fun k => Yields.ite (fun _ => ?_) fun hk => ?_
  · exact fun q s r _ hr => by cases hr
  · intro q s r hq hr
    have hcompound : startsCompound q.cursor.kind = false := by rw [hq.2, Bool.eq_false_iff]; exact hk
    obtain ⟨hlive, hbuilt⟩ := hsub.makes q s r hq.1 hr
    exact ⟨hlive, hbuilt, hsub.simple q s r ⟨hq.1, hcompound⟩ hr⟩

include hb

theorem inlineBody_makes : Makes Progress.Live B (inlineBody sub) := by
  have hstep : Makes Progress.Live (fun o => ∀ s ∈ o, S s ∧ s.isSimple = true) (bodyRound sub) := by
    -- a round goes on from the state that it looks at
    intro q o r hq hr
    obtain ⟨p, u, hp, hr⟩ := bind_eq_ok.mp hr
    cases hp
    have hline : Makes Progress.Live (fun o => ∀ s ∈ o, S s ∧ s.isSimple = true) (bodyRoundAt q.cursor sub) :=
      Yields.ite (fun _ => Makes.pure Option.forall_mem_none) fun _ => Makes.map (inlineStmt_makes hsub)
        fun _ => Option.forall_mem_some (V := fun s : Stmt => S s ∧ s.isSimple = true)
    exact hline q o r hq hr
  refine (lifted_makes (makes_of_moves fun c _ => Std.Refl.refl c)).bind fun start _ => ?_
  refine (inlineStmt_makes hsub).bind fun first hfirst => (Makes.many hstep).bind fun rest hrest => ?_
  have hall : ∀ s ∈ first :: rest, S s ∧ s.isSimple = true :=
    List.forall_mem_cons.mpr ⟨hfirst, hrest⟩
  exact Makes.pure (hb.block _ _ _ (fun s hs => (hall s hs).1) fun _ =>
    ⟨List.cons_ne_nil _ _, fun s hs => (hall s hs).2⟩)

theorem suite_makes : Makes Progress.Live B (suite cfg sub) := by
  refine (lifted_makes expect_makes).bind fun _ _ => yields_on_kind fun k => ?_
  refine Yields.before (P := Progress.Live) ?_ fun _ hq => hq.1
  refine Yields.ite (fun _ => ?_) fun _ => inlineBody_makes hb hsub
  refine (lifted_makes advance_makes).bind fun newline _ => yields_on_kind fun k => ?_
  refine Yields.before (P := Progress.Live) ?_ fun _ hq => hq.1
  refine Yields.ite (fun _ => ?_) fun _ => Yields.throw
  refine (lifted_makes advance_makes).bind fun indent _ => ?_
  refine (blockBody_makes hb.error hsub).bind fun body hbody => Makes.pure ?_
  exact hb.block _ false body hbody fun h => by cases h

/-- A statement made of a header and a suite. -/
theorem headed_makes {x : Rule α} {V : β → Prop} {f : α → Block → β}
    (hx : Makes Cursor.Live (fun v => ∀ b, B b → V (f v b)) x) :
    Makes Progress.Live V (lifted x >>= fun v => suite cfg sub >>= fun b => pure (f v b)) :=
  (lifted_makes hx).bind fun _ hv => (suite_makes hb hsub).bind fun b hbuilt => Makes.pure (hv b hbuilt)

theorem elifClause?_makes : Makes Progress.Live (fun o => ∀ c ∈ o, C c) (elifClause? cfg sub) := by
  refine yields_on_kind fun k => Yields.before (P := Progress.Live) ?_ fun _ hq => hq.1
  refine Yields.ite (fun _ => ?_) fun _ => Makes.pure Option.forall_mem_none
  refine headed_makes hb hsub (V := fun o : Option ElifClause => ∀ c ∈ o, C c)
    (f := fun (v : Offset × Expr) b => some (ElifClause.mk ⟨v.1, b.span.stop⟩ v.2 b)) ?_
  exact hb.clause.of fun v hv b hbuilt => Option.forall_mem_some (hv ⟨v.1, b.span.stop⟩ b hbuilt)

theorem elseBody?_makes : Makes Progress.Live (fun o => ∀ b ∈ o, B b) (elseBody? cfg sub) :=
  (lifted_makes eat_makes).bind fun _ _ => Yields.ite
    (fun _ => Makes.map (suite_makes hb hsub) fun _ => Option.forall_mem_some)
    fun _ => Makes.pure Option.forall_mem_none

theorem ifStmt_makes : Makes Progress.Live S (ifStmt cfg sub) := by
  refine (lifted_makes hb.conditional).bind fun v hv => (suite_makes hb hsub).bind fun body hbody => ?_
  refine (Makes.many (elifClause?_makes hb hsub)).bind fun elifs helifs => ?_
  refine (elseBody?_makes hb hsub).bind fun otherwise hotherwise => Makes.pure ?_
  exact hv _ body elifs otherwise hbody helifs hotherwise

abbrev MakesDefinition (S : Stmt → Prop) (x : StmtRule Stmt) : Prop :=
  Makes Progress.Live (fun s => S s ∧ s.isDefinition = true) x

theorem functionStmt_makes : MakesDefinition S (functionStmt cfg sub) :=
  headed_makes hb hsub (f := fun v b => Stmt.function ⟨v.1, b.span.stop⟩ v.2 b)
    (hb.function.of fun _ hv b hbuilt => ⟨hv _ b hbuilt, rfl⟩)

theorem typeStmt_makes (word : TypeWord) : MakesDefinition S (typeStmt cfg sub word) :=
  headed_makes hb hsub (f := fun v b => Stmt.typeDecl ⟨v.1, b.span.stop⟩ v.2 b)
    ((hb.typeDecl word).of fun _ hv b hbuilt => ⟨hv _ b hbuilt, rfl⟩)

theorem definition_makes : MakesDefinition S (definition cfg sub) := by
  refine yields_on_kind fun k => Yields.before (P := Progress.Live) ?_ fun _ hq => hq.1
  cases k using definition_cases with
  | function => exact functionStmt_makes hb hsub
  | type word => exact typeStmt_makes hb hsub word
  | other => exact Yields.after fun _ => Yields.throw

omit hb hsub in
/-- Where a decorator starts, one is returned. -/
theorem decorator?_ne_none : Yields (fun c => c.kind = .atSign) decorator? fun o _ => o ≠ none := by
  refine yields_kind_bind fun k => Yields.given (fun c hc => hc.2.symm.trans hc.1) fun hk => ?_
  rw [if_pos hk]
  refine Yields.after fun t => Yields.after fun path => yields_kind fun _ => ?_
  have hend (arguments : Option (List Argument)) :
      Yields (fun _ => True) (decorating t.span.start path arguments) fun o _ => o ≠ none :=
    Yields.after fun _ => Yields.after fun _ => Yields.pure fun _ _ => Option.some_ne_none _
  exact Yields.ite (fun _ => Yields.after hend) fun _ => Yields.after hend

omit hb hsub in
theorem decorators_makes : Yields (fun c => c.Live ∧ c.kind = .atSign) (Rule.repeated decorator?)
    fun ds d => d.Live ∧ ds ≠ [] ∧ ∀ d ∈ ds, d.Valid := by
  intro c ds d hc hr
  obtain ⟨hlive, hvalid⟩ := Makes.many decorator?_makes c ds d hc.1 hr
  refine ⟨hlive, ?_, hvalid⟩
  -- no decorators would mean that the first round found none
  rintro rfl
  exact decorator?_ne_none c none d hc.2 (many_eq_nil hr) rfl

theorem decoratedStmt_makes : Yields (fun q => q.Live ∧ q.cursor.kind = .atSign) (decoratedStmt cfg sub)
    fun s r => r.Live ∧ S s := by
  refine Yields.bind (Q := fun _ q => q.Live ∧ q.cursor.kind = .atSign) (fun q _ _ hq hr => ?_) fun start => ?_
  · cases hr
    exact hq
  refine Yields.bind_known (lifted_yields decorators_makes) fun ds hds => ?_
  refine Yields.bind_known (Yields.before (definition_makes hb hsub) fun _ hq => hq) fun s hs => ?_
  exact Makes.pure (hb.decorated _ ds s hds.1 hds.2 hs.2 hs.1)

theorem statement_makes : Makes Progress.Live S (statement cfg sub) := by
  have hlive {k : Kind} {x : StmtRule Stmt} (h : Makes Progress.Live S x) :
      Yields (fun q => q.Live ∧ q.cursor.kind = k) x fun s r => r.Live ∧ S s :=
    h.before fun _ hq => hq.1
  refine yields_on_kind fun k => ?_
  cases k using statement_cases with
  | indent => exact fun q s r _ hr => by cases hr
  | function => exact hlive ((functionStmt_makes hb hsub).of fun _ hs => hs.1)
  | type word => exact hlive ((typeStmt_makes hb hsub word).of fun _ hs => hs.1)
  | conditional => exact hlive (ifStmt_makes hb hsub)
  | forLoop =>
    exact hlive (headed_makes hb hsub (f := fun v b => Stmt.forLoop ⟨v.1, b.span.stop⟩ v.2.1 v.2.2 b)
      (hb.forLoop.of fun _ hv b hbuilt => hv _ b hbuilt))
  | whileLoop =>
    exact hlive (headed_makes hb hsub (f := fun v b => Stmt.whileLoop ⟨v.1, b.span.stop⟩ v.2 b)
      (hb.whileLoop.of fun _ hv b hbuilt => hv _ b hbuilt))
  | decorated => exact decoratedStmt_makes hb hsub
  | simple k => exact hlive ((lifted_makes (hb.line k)).of fun _ hs => hs.1)

omit hsub in
theorem statement_simple : Yields (fun q => q.Live ∧ startsCompound q.cursor.kind = false)
    (statement cfg sub) fun s _ => s.isSimple = true := by
  have hkind : Yields (fun q : Progress => q.Live ∧ startsCompound q.cursor.kind = false)
      (statement cfg sub) fun s q => q.Live ∧ s.isSimple = true := by
    refine yields_on_kind fun k => Yields.given (p := startsCompound k = false)
      (fun q hq => hq.2 ▸ hq.1.2) fun hk => Yields.before (P := Progress.Live) ?_ fun _ hq => hq.1.1
    -- the kinds that start a definition, a branch, a loop or decorators are excluded
    cases k using statement_cases with
    | indent => exact fun q s r _ hr => by cases hr
    | simple k => exact (lifted_makes (hb.line k)).of fun _ hs => hs.2
    | function word | type word => cases word <;> contradiction
    | conditional | forLoop | whileLoop | decorated => contradiction
  exact hkind.weaken fun _ _ hs => hs.2

end Suites

section Streams

variable (hb : Builds cfg S B C)

include hb

theorem innerStmt_building (m : Nat) : Building S (Seam.innerStmt cfg m) := by
  -- the statements inside begin before fewer tokens
  induction m using Nat.strongRecOn with
  | _ m ih =>
    refine ⟨innerStmt_advances track_ahead leaves_ahead m, fun q s r hq hr => ?_, fun q s r hq hr => ?_⟩
    all_goals
      by_cases hlt : q.remaining < m
      · rw [Seam.innerStmt_of_lt hlt, Seam.stmt_eq_statement] at hr
        first
        | exact statement_makes hb (ih q.remaining hlt) q s r hq hr
        | exact statement_simple hb q s r hq hr
      · rw [Seam.innerStmt, if_neg hlt] at hr
        cases hr

theorem stmt_building : Building S (stmt cfg) where
  toAdvances := stmt_advances track_ahead leaves_ahead
  makes q s r hq hr := by
    rw [Seam.stmt_eq_statement] at hr
    exact statement_makes hb (innerStmt_building hb q.remaining) q s r hq hr
  simple q s r hq hr := by
    rw [Seam.stmt_eq_statement] at hr
    exact statement_simple hb q s r hq hr

/-- What the parser returns has the property, whatever the tokens are. -/
theorem parse_built (tokens : List Token) : ∀ s ∈ (parse cfg tokens).body, S s := by
  have hlive : Progress.Live { cursor := Cursor.ofTokens tokens } := last_ofTokens tokens
  exact (statements_built (fun _ => recovering_built hb.error (stmt_building hb)) hlive).2

end Streams

end Offside.Grammar
