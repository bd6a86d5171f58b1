import Offside.Proofs.Nesting.Simple
import Offside.Proofs.Seam.Parse

namespace Offside.Grammar

open Rule Cursor Region
open Seam (blockLoop)

variable {α β : Type} {a o : Offset} {rs : List Region} {P : Cursor → Prop} {k : Kind}
  {regions : α → List Region}

abbrev Arranges (P : Cursor → Prop) (x : StmtRule α) (regions : α → List Region) : Prop :=
  ∀ o, Yields (fun q : Progress => q.cursor.Fresh o ∧ P q.cursor) x fun v r => r.cursor.Laid o (regions v)

/-- What was laid before it stays in front of it. -/
theorem Arranges.behind {x : StmtRule α} (h : Arranges P x regions) (hx : Onwards P x) :
    Yields (fun q : Progress => q.cursor.Laid a rs ∧ P q.cursor) x
      fun v r => r.cursor.Laid a (rs ++ regions v) := by
  intro q v r hq hr
  have hmove := hx q ⟨hq.1.last_eof, hq.2⟩
  rw [hr] at hmove
  exact hq.1.append (h _ q v r ⟨hq.1.fresh, hq.2⟩ hr) hmove

theorem arranges_on_kind {g : Kind → StmtRule α} (hg : ∀ k, Arranges (fun c => c.kind = k) (g k) regions) :
    Arranges P (lifted Rule.kind >>= g) regions :=
  fun o => yields_on_kind fun k => (hg k o).before fun _ hq => ⟨hq.1.1, hq.2⟩

theorem lifted_after {x : Rule α} {g : α → StmtRule β} {Q : β → Progress → Prop} (hx : InnerFrom P x)
    (hg : ∀ v, Yields (fun q : Progress => q.cursor.Laid a rs) (g v) Q) :
    Yields (fun q : Progress => q.cursor.Laid a rs ∧ P q.cursor) (lifted x >>= g) Q :=
  (lifted_yields (laid_of_moves (hx.along track_ahead))).bind hg

structure Arranging (sub : StmtRule Stmt) : Prop extends
    Advances (fun _ c => c.last.kind = .eof) Ahead sub where
  lays : Arranges (fun _ => True) sub fun s => [s.region]

section Recovering

variable {sub : StmtRule Stmt} {cfg : Config} {q : Progress} (hsub : Arranging sub)

include hsub

theorem Arranging.behind : Yields (fun q : Progress => q.cursor.Laid a rs) sub fun s r =>
    r.cursor.Laid a (rs ++ [s.region]) :=
  (hsub.lays.behind (hsub.keeps 0)).before fun _ hq => ⟨hq, trivial⟩

/-- An error mark goes up to the last token that was passed over. -/
theorem recovering_lays (hq : q.cursor.Laid a rs) (hlt : (recovering sub q).2.remaining < q.remaining) :
    (recovering sub q).2.cursor.Laid a (rs ++ [(recovering sub q).1.region]) := by
  have hmoved := recovering_moved (n := 0) track_ahead hsub.toAdvances hq.last_eof
  revert hmoved hlt
  unfold recovering
  cases hr : sub q with
  | ok s r => exact fun _ _ => hsub.behind q s r hq hr
  | error e r =>
    intro hlt hmoved
    have hlt : (synchronize (decide (r.remaining < q.remaining)) r.cursor).remaining < q.remaining := hlt
    dsimp only at hmoved ⊢
    rw [if_pos hlt]
    refine (hq.ahead hmoved).snoc hq.le hq.stop_le_current (nested_leaf (Offset.le_max_right _ _)) ?_
    obtain ⟨us, htook⟩ := hmoved
    exact Offset.max_le (UInt32.le_refl _) (htook.start_le_previousEnd hq.ordered hlt)

theorem statements_lays {stop blank : Kind → Bool}
    (hone : ∀ q : Progress, q.cursor.last.kind = .eof → stop q.cursor.kind = false →
      blank q.cursor.kind = false → (recovering sub q).2.remaining < q.remaining)
    (hq : q.cursor.Laid a rs) : (statements cfg stop blank (recovering sub) q).2.cursor.Laid a
      (rs ++ (statements cfg stop blank (recovering sub) q).1.map Stmt.region) := by
  refine statements_invariant cfg q (I := fun ss p => p.cursor.Laid a (rs ++ ss.map Stmt.region))
    (fun ss p hp => ?_) (fun ss p hp => ?_) (fun ss p hs hb hp => ?_) [] ?_
  · rwa [p.poll_cursor]
  · exact hp.ahead p.cursor.ahead_advance
  · rw [List.map_append, ← List.append_assoc]
    exact recovering_lays hsub hp (hone p hp.last_eof hs hb)
  · rwa [List.map_nil, List.append_nil]

end Recovering

section Suites

variable {sub : StmtRule Stmt} {cfg : Config} (hsub : Arranging sub)

include hsub

theorem inlineStmt_lays : Yields (fun q : Progress => q.cursor.Laid a rs) (inlineStmt sub) fun s r =>
    r.cursor.Laid a (rs ++ [s.region]) := by
  have hstart {k : Kind} : Yields (fun q : Progress => q.cursor.Laid a rs ∧ q.cursor.kind = k)
      (if startsCompound k then Rule.unexpectedDetailed "compound statements need an indented block" else sub)
      fun s r => r.cursor.Laid a (rs ++ [s.region]) :=
    Yields.ite (fun _ q s r _ hr => by cases hr) fun _ => hsub.behind.before fun _ hq => hq.1
  exact Yields.read (φ := fun q : Progress => q.cursor.kind) fun k => hstart

theorem inlineBody_lays : Arranges P (inlineBody sub) fun b => [b.region] := by
  intro o
  have hstep (ss : List Stmt) : Yields (fun q : Progress => q.cursor.Laid o (ss.map Stmt.region)) (bodyRound sub)
      fun s r => r.cursor.Laid o ((ss ++ s.toList).map Stmt.region) := by
    intro q s r hq hr
    obtain ⟨p, u, hp, hr⟩ := bind_eq_ok.mp hr
    cases hp
    have hline : Yields (fun q : Progress => q.cursor.Laid o (ss.map Stmt.region)) (bodyRoundAt q.cursor sub)
        fun s r => r.cursor.Laid o ((ss ++ s.toList).map Stmt.region) := by
      refine Yields.ite (fun _ => Yields.pure fun r hr => by simpa using hr) fun _ => Yields.map ?_
      exact (inlineStmt_lays hsub).weaken fun s r hr => by simpa using hr
    exact hline q s r hq hr
  intro q b r hq hr
  obtain ⟨start, u, hu, hr⟩ := bind_eq_ok.mp hr
  cases hu
  obtain ⟨first, v, hfirst, hr⟩ := bind_eq_ok.mp hr
  obtain ⟨rest, w, hrest, hr⟩ := bind_eq_ok.mp hr
  cases hr
  have hv : v.cursor.Laid o ([first].map Stmt.region) := inlineStmt_lays hsub q first v hq.1.laid hfirst
  have hlaid : r.cursor.Laid o ((first :: rest).map Stmt.region) :=
    Yields.many_list (J := fun (ss : List Stmt) (q : Progress) => q.cursor.Laid o (ss.map Stmt.region)) hstep
      [first] v rest r hv hrest
  have hlast : ((first :: rest).map Stmt.region).getLast? =
      some ((first :: rest).getLastD first).region := by
    rw [List.getLast?_map, List.getLastD_eq_getLast?, List.getLast?_cons]
    rfl
  have hblock := hlaid.reaching hlast (List.Sublist.refl _)
  rw [Stmt.span_region, ← Stmt.regions_eq_map, ← hq.1.start] at hblock
  exact hq.1.start ▸ hblock

theorem blockBody_lays : Yields (fun q : Progress => q.cursor.Laid a rs) (blockBody cfg sub) fun body r =>
    r.cursor.Laid a (rs ++ body.map Stmt.region) := by
  intro q body r hq hr
  cases hr
  have hloop : (blockLoop cfg sub q).2.cursor.Laid a (rs ++ (blockLoop cfg sub q).1.map Stmt.region) := by
    refine statements_lays hsub (fun r hr hs hb => ?_) hq
    simp only [Bool.or_eq_false_iff, beq_eq_false_iff_ne] at hs hb
    exact hsub.ahead r hr hs.2 (by simp [Kind.isBlank, hb, hs.1])
  rcases closeBlock_cursor cfg (blockLoop cfg sub q).2 with hc | hc
  · rw [hc]
    exact hloop
  · rw [hc]
    exact hloop.ahead (blockLoop cfg sub q).2.cursor.ahead_advance

omit hsub in
/-- A block goes from its first statement to the last one; without any it is where its indent ends. -/
theorem blockOf_laid {c : Cursor} {t : Token} {body : List Stmt}
    (h : c.Laid a (rs ++ [leaf t.span] ++ body.map Stmt.region)) (hle : t.span.start ≤ t.span.stop) :
    c.Laid a (rs ++ [(blockOf false t.span.stop body).region]) := by
  cases body with
  | nil =>
    rw [List.map_nil, List.append_nil] at h
    exact h.narrow_last ⟨hle, UInt32.le_refl _, nested_leaf (UInt32.le_refl _)⟩
  | cons s ss =>
    have hbody : c.Laid a (rs ++ (s :: ss).map Stmt.region) :=
      h.sublist ((List.sublist_append_left rs _).append (List.Sublist.refl _))
    obtain ⟨l, hl⟩ := List.getLast?_isSome.mpr (List.cons_ne_nil s ss) |> Option.isSome_iff_exists.mp
    have hregion : (blockOf false t.span.stop (s :: ss)).region =
        .mk ⟨s.span.start, l.span.stop⟩ ((s :: ss).map Stmt.region) := by
      rw [blockOf, hl, Block.region, Stmt.regions_eq_map]
      rfl
    rw [hregion]
    refine hbody.through ⟨s.region, rfl, by simp⟩ (List.Sublist.refl _) ⟨l.region, ?_, by simp⟩
    rw [List.getLast?_map, hl]
    rfl

theorem suite_lays : Yields (fun q : Progress => q.cursor.Laid a rs) (suite cfg sub) fun b r =>
    r.cursor.Laid a (rs ++ [b.region]) := by
  intro q b r hq hr
  obtain ⟨t, u, ht, hr⟩ := bind_eq_ok.mp hr
  have hu : u.cursor.Laid a rs :=
    lifted_yields (laid_of_moves (P := fun _ => True) ((expect_inner rfl).along track_ahead)) q t u
      ⟨hq, trivial⟩ ht
  obtain ⟨k, v, hk, hr⟩ := bind_eq_ok.mp hr
  cases hk
  split at hr
  · obtain ⟨newline, v, hv, hr⟩ := bind_eq_ok.mp hr
    cases hv
    have hv : u.advance.cursor.Laid a rs := hu.ahead u.cursor.ahead_advance
    obtain ⟨k, w, hw, hr⟩ := bind_eq_ok.mp hr
    cases hw
    split at hr
    · next hi =>
      have hi : u.advance.cursor.kind = .indent := hi
      obtain ⟨indent, w, hw, hr⟩ := bind_eq_ok.mp hr
      cases hw
      obtain ⟨body, x, hbody, hr⟩ := bind_eq_ok.mp hr
      cases hr
      have hindent := hv.take (by simp [hi])
      exact blockOf_laid (blockBody_lays hsub u.advance.advance body r hindent hbody)
        hv.ordered.current_le
    · cases hr
  · exact (inlineBody_lays (P := fun _ => True) hsub).behind
      (inlineBody_keeps track_ahead hsub.toAdvances) u b r ⟨hu, trivial⟩ hr

/-- What is made of a header and a suite goes from the one to the other. -/
theorem headed_lays (regions : α → List Region) {x : Rule (Offset × α)} (hx : HeadStarts k x)
    (hlays : Lays x fun v => regions v.2) {f : Offset × α → Block → β} {regions' : β → List Region}
    (hf : ∀ v b, regions' (f v b) = [.mk ⟨v.1, b.span.stop⟩ (regions v.2 ++ [b.region])]) :
    Arranges (fun c => c.kind = k) (lifted x >>= fun v => suite cfg sub >>= fun b => pure (f v b))
      regions' := by
  intro o q s r hq hr
  obtain ⟨v, u, hv, hr⟩ := bind_eq_ok.mp hr
  obtain ⟨b, w, hb, hr⟩ := bind_eq_ok.mp hr
  cases hr
  have hstart := lifted_starts (fun m => hx m o) q v u ⟨⟨hq.1.laid.last_eof, hq.1.start⟩, hq.2⟩ hv
  have hparts := suite_lays hsub u b r (lifted_yields (hlays o []) q v u hq.1.laid hv) hb
  rw [hf, hstart, ← Block.span_region]
  exact hparts.reaching List.getLast?_concat (List.Sublist.refl _)

theorem functionStmt_lays (hk : k.isBoundary = false) :
    Arranges (fun c => c.kind = k) (functionStmt cfg sub) fun s => [s.region] :=
  headed_lays hsub FunctionHead.regions (functionHead_starts hk) functionHead_lays
    (f := fun v b => Stmt.function ⟨v.1, b.span.stop⟩ v.2 b) fun _ _ => rfl

theorem typeStmt_lays (word : TypeWord) (hk : k.isBoundary = false) :
    Arranges (fun c => c.kind = k) (typeStmt cfg sub word) fun s => [s.region] :=
  headed_lays hsub TypeHead.regions (typeHead_starts word hk) (typeHead_lays word)
    (f := fun v b => Stmt.typeDecl ⟨v.1, b.span.stop⟩ v.2 b) fun _ _ => rfl

theorem forStmt_lays : Arranges (fun c => c.kind = .kwFor) (forStmt cfg sub) fun s => [s.region] :=
  headed_lays hsub (fun v => [v.1.region, v.2.region]) forHead_starts forHead_lays
    (f := fun v b => Stmt.forLoop ⟨v.1, b.span.stop⟩ v.2.1 v.2.2 b) fun _ _ => rfl

theorem whileStmt_lays : Arranges (fun c => c.kind = .kwWhile) (whileStmt cfg sub) fun s => [s.region] :=
  headed_lays hsub (fun e => [e.region]) (conditionHead_starts rfl) conditionHead_lays
    (f := fun v b => Stmt.whileLoop ⟨v.1, b.span.stop⟩ v.2 b) fun _ _ => rfl

theorem elifClause?_lays : Yields (fun q : Progress => q.cursor.Laid a rs) (elifClause? cfg sub)
    fun r s => s.cursor.Laid a (rs ++ r.toList.map ElifClause.region) := by
  have hclause : Arranges (fun _ => True) (elifClause? cfg sub) fun r => r.toList.map ElifClause.region := by
    refine arranges_on_kind fun k o => Yields.ite (fun hk => ?_) fun _ => Yields.pure fun q hq => hq.1.laid
    subst hk
    exact headed_lays hsub (fun e => [e.region]) (conditionHead_starts rfl) conditionHead_lays
      (f := fun v b => some (ElifClause.mk ⟨v.1, b.span.stop⟩ v.2 b)) (fun _ _ => rfl) o
  exact (hclause.behind (elifClause?_keeps track_ahead leaves_ahead hsub.toAdvances)).before fun _ hq =>
    ⟨hq, trivial⟩

theorem elseBody?_lays : Yields (fun q : Progress => q.cursor.Laid a rs) (elseBody? cfg sub)
    fun b r => r.cursor.Laid a (rs ++ Block.optionRegions b) := by
  refine Yields.before (lifted_after (P := fun _ => True) (eat_inner rfl) fun _ =>
    Yields.ite (fun _ => ?_) fun _ => ?_) fun _ hq => ⟨hq, trivial⟩
  · exact Yields.map (suite_lays hsub)
  · exact Yields.pure fun q hq => by simpa [Block.optionRegions] using hq

omit hsub in
/-- The last body of a conditional, which it ends with. -/
theorem exists_last_body (condition : Region) (body : Block) (elifs : List ElifClause)
    (otherwise : Option Block) :
    ∃ l, ([condition, body.region] ++ (ElifClause.regions elifs ++ Block.optionRegions otherwise)).getLast? =
      some l ∧ l.span.stop = (match otherwise, elifs.getLast? with
        | some block, _ => block.span.stop
        | none, some clause => clause.span.stop
        | none, none => body.span.stop) := by
  cases otherwise with
  | some block =>
    refine ⟨block.region, ?_, by simp⟩
    rw [Block.optionRegions, ← List.append_assoc, List.getLast?_concat]
  | none =>
    have hnone : Block.optionRegions none = [] := rfl
    rw [hnone, List.append_nil, List.getLast?_append, ElifClause.regions_eq_map, List.getLast?_map]
    cases elifs.getLast? with
    | some clause => exact ⟨clause.region, rfl, by simp⟩
    | none => exact ⟨body.region, rfl, by simp⟩

theorem ifStmt_lays : Arranges (fun c => c.kind = .kwIf) (ifStmt cfg sub) fun s => [s.region] := by
  intro o q s r hq hr
  obtain ⟨v, u, hv, hr⟩ := bind_eq_ok.mp hr
  obtain ⟨body, w, hbody, hr⟩ := bind_eq_ok.mp hr
  obtain ⟨elifs, x, helifs, hr⟩ := bind_eq_ok.mp hr
  obtain ⟨otherwise, y, hother, hr⟩ := bind_eq_ok.mp hr
  cases hr
  have hstart := lifted_starts (fun m => conditionHead_starts rfl m o) q v u
    ⟨⟨hq.1.laid.last_eof, hq.1.start⟩, hq.2⟩ hv
  subst hstart
  have hw : w.cursor.Laid v.1 ([v.2.region, body.region] ++ [].map ElifClause.region) :=
    suite_lays hsub u body w (lifted_yields (conditionHead_lays v.1 []) q v u hq.1.laid hv) hbody
  have hx := Yields.many_list
    (J := fun (cs : List ElifClause) (q : Progress) =>
      q.cursor.Laid v.1 ([v.2.region, body.region] ++ cs.map ElifClause.region))
    (fun cs => (elifClause?_lays hsub).weaken fun c r hr => by simpa using hr) [] w elifs x hw helifs
  have hy := elseBody?_lays hsub x otherwise r hx hother
  rw [List.nil_append, ← ElifClause.regions_eq_map, List.append_assoc] at hy
  obtain ⟨l, hl, hstop⟩ := exists_last_body v.2.region body elifs otherwise
  have hstmt := hy.reaching hl (List.Sublist.refl _)
  rw [hstop] at hstmt
  exact hstmt

theorem definition_lays : Arranges P (definition cfg sub) fun s => [s.region] := by
  refine arranges_on_kind fun k => ?_
  cases k using definition_cases with
  | function word => exact functionStmt_lays hsub (by cases word <;> rfl)
  | type word => exact typeStmt_lays hsub word (by cases word <;> rfl)
  | other k => exact fun o => Yields.after fun _ => Yields.throw

theorem decoratedStmt_lays : Arranges P (decoratedStmt cfg sub) fun s => [s.region] := by
  intro o q s r hq hr
  obtain ⟨start, u, hu, hr⟩ := bind_eq_ok.mp hr
  cases hu
  obtain ⟨decorators, v, hv, hr⟩ := bind_eq_ok.mp hr
  obtain ⟨inner, w, hw, hr⟩ := bind_eq_ok.mp hr
  cases hr
  have hv : v.cursor.Laid o (decorators.map Decorator.region) := by
    have hlaid := lifted_yields (many_lays (fun d => [d.region]) decorator?_lays o []) q decorators v hq.1.laid hv
    rwa [List.map_eq_flatMap]
  have hinner := (definition_lays (P := fun _ => True) hsub).behind
    (definition_keeps track_ahead leaves_ahead hsub.toAdvances) v inner r ⟨hv, trivial⟩ hw
  have hstmt := hinner.reaching List.getLast?_concat (List.Sublist.refl _)
  rw [Stmt.span_region, ← hq.1.start] at hstmt
  exact hq.1.start ▸ hstmt

omit hsub in
theorem simpleStmt_arranges (k : Kind) :
    Arranges (fun c => c.kind = k) (lifted (simpleStmt k)) fun s => [s.region] :=
  fun o => lifted_yields (simpleStmt_lays k o)

theorem statement_lays : Arranges P (statement cfg sub) fun s => [s.region] := by
  refine arranges_on_kind fun k => ?_
  cases k using statement_cases with
  | indent => exact fun o q s r _ hr => by cases hr
  | function word => exact functionStmt_lays hsub (by cases word <;> rfl)
  | type word => exact typeStmt_lays hsub word (by cases word <;> rfl)
  | conditional => exact ifStmt_lays hsub
  | forLoop => exact forStmt_lays hsub
  | whileLoop => exact whileStmt_lays hsub
  | decorated => exact decoratedStmt_lays hsub
  | simple k => exact simpleStmt_arranges k

end Suites

theorem innerStmt_arranging {cfg : Config} (m : Nat) :
    Arranging (Seam.innerStmt cfg m) := by
  induction m using Nat.strongRecOn with
  | _ m ih =>
    refine ⟨innerStmt_advances track_ahead leaves_ahead m, fun o q s r hq hr => ?_⟩
    by_cases hlt : q.remaining < m
    · rw [Seam.innerStmt_of_lt hlt, Seam.stmt_eq_statement] at hr
      exact statement_lays (P := fun _ => True) (ih q.remaining hlt) o q s r hq hr
    · rw [Seam.innerStmt, if_neg hlt] at hr
      cases hr

theorem stmt_arranging (cfg : Config) : Arranging (stmt cfg) where
  toAdvances := stmt_advances track_ahead leaves_ahead
  lays o q s r hq hr := by
    rw [Seam.stmt_eq_statement] at hr
    exact statement_lays (P := fun _ => True) (innerStmt_arranging q.remaining) o q s r hq hr

section Streams

variable {cfg : Config} {ts : List Token} {last : Token}

theorem streamLoop_lays (cfg : Config) {q : Progress} (hq : q.cursor.Laid a rs) :
    q.Moved Ahead (streamLoop cfg q).2 ∧
      (streamLoop cfg q).2.cursor.Laid a (rs ++ (streamLoop cfg q).1.map Stmt.region) := by
  have hsub := stmt_arranging cfg
  have hone (q : Progress) (hl : q.cursor.last.kind = .eof) (hs : (q.cursor.kind == .eof) = false)
      (hb : q.cursor.kind.isBlank = false) : (recovering (stmt cfg) q).2.remaining < q.remaining :=
    hsub.ahead q hl (by simpa using hs) hb
  refine ⟨?_, statements_lays hsub hone hq⟩
  refine (statements_moved (n := 0) track_ahead (fun q hl hs hb => ?_) (fun q hl hs _ => ?_) hq.last_eof).1
  · exact ⟨recovering_moved (n := 0) track_ahead hsub.toAdvances hl, hone q hl hs hb⟩
  · exact ⟨q.cursor.ahead_advance, Cursor.remaining_advance_lt hl (by simpa using hs)⟩

/-- The statements of a stream of tokens in order lie in it one behind the other, with their parts. -/
theorem parse_laid (horder : InOrder (ts ++ [last])) (hl : last.kind = .eof) :
    (Region.mk ⟨0, last.span.stop⟩ ((parse cfg (ts ++ [last])).body.map Stmt.region)).Nested := by
  have hstart : (Cursor.mk none ts last).Laid 0 [] :=
    ⟨hl, horder, UInt32.zero_le, List.forall_mem_nil _, .nil, List.forall_mem_nil _⟩
  obtain ⟨⟨us, htook⟩, hlaid⟩ := streamLoop_lays cfg (q := { cursor := ⟨none, ts, last⟩ }) hstart
  rw [Offside.parse_run hl]
  have hend := hlaid.ordered.previousEnd_le_last
  rw [htook.last_eq] at hend
  exact .mk UInt32.zero_le
    (fun r hr => ⟨UInt32.zero_le, UInt32.le_trans (hlaid.bounds r hr).2 hend⟩) hlaid.apart hlaid.nested

end Streams

end Offside.Grammar
