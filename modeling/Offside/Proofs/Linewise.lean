import Offside.Proofs.Seam

namespace Offside

/-- Two ways in which a line may go on: on the left it ends with a newline, and on the right with a
newline or a semicolon. -/
structure Fork where
  mark : Token
  mark' : Token
  tail : List Token
  tail' : List Token
  last : Token
  last' : Token
  mark_kind : mark.kind = .newline
  mark_kind' : mark'.kind = .newline ∨ mark'.kind = .semicolon
  last_kind : last.kind = .eof
  last_kind' : last'.kind = .eof

namespace Fork

variable (F : Fork) (t u v : Token) (us : List Token) {k n : Kind}

def left : Cursor := ⟨some t, us ++ F.mark :: F.tail, F.last⟩

def right : Cursor := ⟨some t, us ++ F.mark' :: F.tail', F.last'⟩

theorem left_kind_nil : (F.left t []).kind = .newline := F.mark_kind

theorem right_kind_nil : (F.right t []).kind = .newline ∨ (F.right t []).kind = .semicolon :=
  F.mark_kind'

theorem left_remaining : (F.left t us).remaining = us.length + (F.tail.length + 1) := by
  simp [left, Cursor.remaining]

theorem right_remaining : (F.right t us).remaining = us.length + (F.tail'.length + 1) := by
  simp [right, Cursor.remaining]

/-- Both cursors have moved on by a step, or they are at an end mark. -/
theorem advance_cons : ∃ w vs, vs <:+ u :: us ∧ us.length ≤ vs.length ∧
    (F.left t (u :: us)).advance = F.left w vs ∧ (F.right t (u :: us)).advance = F.right w vs := by
  by_cases hu : u.kind = .eof
  · exact ⟨t, u :: us, List.suffix_refl _, Nat.le_succ _, if_pos hu, if_pos hu⟩
  · exact ⟨u, us, List.suffix_cons u us, Nat.le_refl _, if_neg hu, if_neg hu⟩

/-- What stands at the end of the line is no kind of token that stands on it. -/
theorem kind_eq_iff (hk : k.isBoundary = false) :
    ((F.left t us).kind = k ↔ (F.right t us).kind = k) ∧ ((F.left t us).kind = k → us ≠ []) := by
  cases us with
  | cons u us => exact ⟨Iff.rfl, fun _ => List.cons_ne_nil u us⟩
  | nil =>
    have hleft : (F.left t []).kind ≠ k := by
      rw [F.left_kind_nil]
      rintro rfl
      contradiction
    have hright : (F.right t []).kind ≠ k := by
      rcases F.right_kind_nil t with h | h
      all_goals
        rw [h]
        rintro rfl
        contradiction
    exact ⟨iff_of_false hleft hright, fun h => absurd h hleft⟩

/-- The token behind the current one is seen alike on both sides, if it stands on the line. -/
theorem peek_eq_iff (hn : n.isBoundary = false) :
    ((F.left t (u :: us)).peek 1 = n ↔ (F.right t (u :: us)).peek 1 = n) ∧
      ((F.left t (u :: us)).peek 1 = n → us ≠ []) := by
  -- it is what the current token is once the first one is taken away
  have hleft : (F.left t (u :: us)).peek 1 = (F.left u us).kind := by cases us <;> rfl
  have hright : (F.right t (u :: us)).peek 1 = (F.right u us).kind := by cases us <;> rfl
  rw [hleft, hright]
  exact F.kind_eq_iff u us hn

theorem level_eq : (F.right t us).level = (F.left t us).level := by
  cases us with
  | nil =>
    have hlowest {c : Cursor} (hc : c.kind = .newline ∨ c.kind = .semicolon) : c.level = .lowest := by
      unfold Cursor.level
      rcases hc with h | h
      all_goals
        rw [h]
        rfl
    rw [hlowest (F.right_kind_nil t), hlowest (Or.inl (F.left_kind_nil t))]
  | cons u us =>
    have hoperand : ((F.right t (u :: us)).peek 1).startsOperand =
        ((F.left t (u :: us)).peek 1).startsOperand := by
      cases us with
      | cons v us => rfl
      | nil =>
        change F.mark'.kind.startsOperand = F.mark.kind.startsOperand
        rw [F.mark_kind]
        rcases F.mark_kind' with h | h
        · rw [h]
        · rw [h]
          rfl
    have hin := (F.peek_eq_iff t u us (n := .kwIn) rfl).1
    unfold Cursor.level
    rw [hoperand]
    simp only [← hin]
    rfl

end Fork

/-- A rule that stays on the line where it returns, and returns the same whatever the line ends with.
It may count on so many tokens before the end of the line. -/
class Linewise {α : Type} (n : Nat) (x : Rule α) : Prop where
  run : ∀ (F : Fork) (t : Token) (us : List Token) {a : α} {d : Cursor}, n ≤ us.length →
    x (F.left t us) = .ok a d →
      ∃ w vs, vs <:+ us ∧ d = F.left w vs ∧ x (F.right t us) = .ok a (F.right w vs)

/-- A rule that cannot return where a line ends. -/
class Stuck {α : Type} (x : Rule α) : Prop where
  ne_ok : ∀ {c d : Cursor} {a : α}, c.kind.isBoundary = true → x c ≠ .ok a d

section Combinators

variable {α β : Type} {n : Nat} {x y : Rule α} {g : α → Rule β}

theorem Linewise.of_error (h : ∀ c, ∃ e d, x c = .error e d) : Linewise n x where
  run F t us a d _ hx := by
    obtain ⟨e, u, herror⟩ := h (F.left t us)
    rw [herror] at hx
    contradiction

/-- A rule that is stuck at the end of the line may count on one token. -/
theorem Linewise.of_stuck [hs : Stuck x] [hx : Linewise 1 x] : Linewise 0 x where
  run F t us a d _ h := by
    cases us with
    | nil => exact absurd h (hs.ne_ok (by rw [F.left_kind_nil]; rfl))
    | cons u us => exact hx.run F t (u :: us) (Nat.le_add_left 1 _) h

instance [hx : Linewise 0 x] : Linewise (n + 1) x where
  run F t us _ _ _ h := hx.run F t us (Nat.zero_le _) h

instance (a : α) : Linewise n (pure a) where
  run F t us b d _ h := by
    cases h
    exact ⟨t, us, List.suffix_refl us, rfl, rfl⟩

instance (e : Diagnostic) : Linewise n (throw e : Rule α) := .of_error fun c => ⟨e, c, rfl⟩

theorem Linewise.bind (hx : Linewise n x) (hg : ∀ a, Linewise 0 (g a)) : Linewise n (x >>= g) where
  run F t us b d hn h := by
    obtain ⟨a, u, hfirst, hsecond⟩ := bind_eq_ok.mp h
    obtain ⟨w, vs, hvs, rfl, hright⟩ := hx.run F t us hn hfirst
    obtain ⟨w', ws, hws, hd, hright'⟩ := (hg a).run F w vs (Nat.zero_le _) hsecond
    exact ⟨w', ws, hws.trans hvs, hd, (bind_ok hright).trans hright'⟩

instance [hx : Linewise n x] [hg : ∀ a, Linewise 0 (g a)] : Linewise n (x >>= g) := .bind hx hg

instance {φ : α → β} [Linewise n x] : Linewise n (φ <$> x) :=
  inferInstanceAs (Linewise n (x >>= fun a => pure (φ a)))

instance {p : Prop} [Decidable p] [Linewise n x] [Linewise n y] : Linewise n (if p then x else y) := by
  split <;> infer_instance

/-- Both sides have as many tokens before the end of the line, so a loop goes on or ends on both. -/
theorem remaining_lt_iff (F : Fork) (t w : Token) (us vs : List Token) :
    (F.left w vs).remaining < (F.left t us).remaining ↔
      (F.right w vs).remaining < (F.right t us).remaining := by
  rw [F.left_remaining, F.left_remaining, F.right_remaining, F.right_remaining]
  omega

instance {step : Rule (Option α)} [hstep : Linewise 0 step] : Linewise 0 (many Cursor.remaining step) where
  run F t us as d _ h := by
    -- by induction on what is left on the left side; the right side goes through the same rounds
    generalize hc : F.left t us = c at h
    induction c using WellFounded.induction (measure Cursor.remaining).wf generalizing t us as with
    | _ c ih =>
      subst hc
      rw [many] at h
      cases hfirst : step (F.left t us) with
      | error e u =>
        rw [hfirst] at h
        contradiction
      | ok o u =>
        obtain ⟨w, vs, hvs, rfl, hright⟩ := hstep.run F t us (Nat.zero_le _) hfirst
        rw [hfirst] at h
        cases o with
        | none =>
          cases h
          exact ⟨w, vs, hvs, rfl, many_none hright⟩
        | some a =>
          dsimp only at h
          split at h
          · next hlt =>
            cases hrest : many Cursor.remaining step (F.left w vs) with
            | error e d' =>
              rw [hrest] at h
              contradiction
            | ok bs d' =>
              rw [hrest] at h
              cases h
              obtain ⟨w', ws, hws, hd, hright'⟩ := ih _ hlt w vs bs (Nat.zero_le _) rfl hrest
              have hlt' := (remaining_lt_iff F t w us vs).mp hlt
              exact ⟨w', ws, hws.trans hvs, hd, many_cons hright hlt' hright'⟩
          · next hge =>
            cases h
            refine ⟨w, vs, hvs, rfl, ?_⟩
            rw [many, hright]
            exact if_neg (mt (remaining_lt_iff F t w us vs).mpr hge)

instance {step : α → Rule (Option α)} [hstep : ∀ a, Linewise 0 (step a)] (a : α) :
    Linewise 0 (iterate Cursor.remaining step a) where
  run F t us z d _ h := by
    generalize hc : F.left t us = c at h
    induction c using WellFounded.induction (measure Cursor.remaining).wf generalizing t us a with
    | _ c ih =>
      subst hc
      rw [iterate] at h
      cases hfirst : step a (F.left t us) with
      | error e u =>
        rw [hfirst] at h
        contradiction
      | ok o u =>
        obtain ⟨w, vs, hvs, rfl, hright⟩ := (hstep a).run F t us (Nat.zero_le _) hfirst
        rw [hfirst] at h
        cases o with
        | none =>
          cases h
          exact ⟨w, vs, hvs, rfl, iterate_none hright⟩
        | some b =>
          dsimp only at h
          split at h
          · next hlt =>
            obtain ⟨w', ws, hws, hd, hright'⟩ := ih _ hlt b w vs (Nat.zero_le _) rfl h
            have hlt' := (remaining_lt_iff F t w us vs).mp hlt
            exact ⟨w', ws, hws.trans hvs, hd, (iterate_some hright hlt').trans hright'⟩
          · next hge =>
            cases h
            refine ⟨w, vs, hvs, rfl, ?_⟩
            rw [iterate, hright]
            exact if_neg (mt (remaining_lt_iff F t w us vs).mpr hge)

instance [hx : Stuck x] : Stuck (x >>= g) where
  ne_ok hc h := by
    obtain ⟨a, u, hfirst, -⟩ := bind_eq_ok.mp h
    exact hx.ne_ok hc hfirst

instance {φ : α → β} [Stuck x] : Stuck (φ <$> x) :=
  inferInstanceAs (Stuck (x >>= fun a => pure (φ a)))

end Combinators

namespace Rule

variable {α : Type} {n : Nat} {x y : Rule α}

instance (cause : Cause) (span : Span) : Linewise n (Rule.fail cause span : Rule α) :=
  .of_error fun c => ⟨_, c, rfl⟩

instance : Linewise n (Rule.unexpected : Rule α) := .of_error fun c => ⟨_, c, rfl⟩

instance (message : String) : Linewise n (Rule.unexpectedDetailed message : Rule α) :=
  .of_error fun c => ⟨_, c, rfl⟩

instance : Stuck (Rule.unexpected : Rule α) := ⟨fun _ h => nomatch h⟩

instance (message : String) : Stuck (Rule.unexpectedDetailed message : Rule α) := ⟨fun _ h => nomatch h⟩

instance : Linewise n Rule.previousEnd where
  run F t us a d _ h := by
    cases h
    exact ⟨t, us, List.suffix_refl us, rfl, rfl⟩

section Looking

/-- Where a token of the line is before the cursor, it can be looked at. -/
theorem linewise_seen {β : Type} (φ : Cursor → β) {g : β → Rule α}
    (hφ : ∀ (F : Fork) (t u : Token) (us : List Token), φ (F.right t (u :: us)) = φ (F.left t (u :: us)))
    [hg : ∀ b, Linewise (n + 1) (g b)] : Linewise (n + 1) (fun c => g (φ c) c) where
  run F t us a d hn h := by
    cases us with
    | nil => exact absurd hn (Nat.not_succ_le_zero n)
    | cons u us =>
      rw [hφ]
      exact (hg _).run F t (u :: us) hn h

instance {g : Kind → Rule α} [∀ k, Linewise (n + 1) (g k)] : Linewise (n + 1) (Rule.kind >>= g) :=
  linewise_seen Cursor.kind fun _ _ _ _ => rfl

instance {g : Token → Rule α} [∀ t, Linewise (n + 1) (g t)] : Linewise (n + 1) (Rule.current >>= g) :=
  linewise_seen Cursor.current fun _ _ _ _ => rfl

instance {g : Offset → Rule α} [∀ o, Linewise (n + 1) (g o)] : Linewise (n + 1) (Rule.here >>= g) :=
  linewise_seen (fun c => c.current.span.start) fun _ _ _ _ => rfl

instance {g : Offset → Rule α} [hg : ∀ o, Stuck (g o)] : Stuck (Rule.here >>= g) where
  ne_ok {c _ _} hc h := (hg c.current.span.start).ne_ok hc h

instance {g : Offset → Rule α} [∀ o, Linewise 0 (g o)] [∀ o, Stuck (g o)] :
    Linewise 0 (Rule.here >>= g) :=
  .of_stuck

/-- A rule that is chosen by the kind of the current token. The kinds that end a line choose the same
one. -/
theorem linewise_kind {g : Kind → Rule α} (y : Rule α) [hy : Linewise 0 y] (hnewline : g .newline = y)
    (hsemicolon : g .semicolon = y) (hg : ∀ k, Linewise 1 (g k)) : Linewise 0 (Rule.kind >>= g) where
  run F t us a d _ h := by
    cases us with
    | cons u us => exact (hg u.kind).run F t (u :: us) (Nat.le_add_left 1 _) h
    | nil =>
      have hleft : (Rule.kind >>= g) (F.left t []) = y (F.left t []) := by
        rw [← hnewline]
        exact congrArg (g · _) (F.left_kind_nil t)
      have hright : (Rule.kind >>= g) (F.right t []) = y (F.right t []) := by
        rcases F.right_kind_nil t with hk | hk
        · rw [← hnewline]
          exact congrArg (g · _) hk
        · rw [← hsemicolon]
          exact congrArg (g · _) hk
      rw [hleft] at h
      rw [hright]
      exact hy.run F t [] (Nat.zero_le _) h

theorem stuck_kind {g : Kind → Rule α} (h : ∀ k, k.isBoundary = true → Stuck (g k)) :
    Stuck (Rule.kind >>= g) where
  ne_ok {c _ _} hc hx := (h c.kind hc).ne_ok hc hx

end Looking

section Taking

instance : Linewise (n + 1) Rule.advance where
  run F t us a d hn h := by
    cases us with
    | nil => exact absurd hn (Nat.not_succ_le_zero n)
    | cons u us =>
      obtain ⟨w, vs, hvs, -, hleft, hright⟩ := F.advance_cons t u us
      cases h
      refine ⟨w, vs, hvs, hleft, ?_⟩
      rw [← hright]
      rfl

/-- Behind a step there is a token less to count on. -/
theorem linewise_advance {g : Token → Rule α} (hg : ∀ t, Linewise n (g t)) :
    Linewise (n + 1) (Rule.advance >>= g) where
  run F t us a d hn h := by
    cases us with
    | nil => exact absurd hn (Nat.not_succ_le_zero n)
    | cons u us =>
      obtain ⟨w, vs, hvs, hlength, hleft, hright⟩ := F.advance_cons t u us
      change g u (F.left t (u :: us)).advance = .ok a d at h
      change ∃ w vs, _ ∧ _ ∧ g u (F.right t (u :: us)).advance = .ok a (F.right w vs)
      rw [hleft] at h
      rw [hright]
      rw [List.length_cons] at hn
      obtain ⟨w', ws, hws, hd, hx⟩ := (hg u).run F w vs (by omega) h
      exact ⟨w', ws, hws.trans hvs, hd, hx⟩

instance (priority := high) {g : Token → Rule α} [hg : ∀ t, Linewise n (g t)] :
    Linewise (n + 1) (Rule.advance >>= g) := linewise_advance hg

variable {k : Kind} [hk : Fact (k.isBoundary = false)]

instance [hx : Linewise 1 x] [hy : Linewise 0 y] :
    Linewise 0 (Rule.kind >>= fun l => if l = k then x else y) where
  run F t us a d _ h := by
    obtain ⟨hiff, hne⟩ := F.kind_eq_iff t us hk.out
    change (if (F.left t us).kind = k then x else y : Rule α) _ = _ at h
    change ∃ w vs, _ ∧ _ ∧ (if (F.right t us).kind = k then x else y : Rule α) _ = _
    by_cases hc : (F.left t us).kind = k
    · rw [if_pos hc] at h
      rw [if_pos (hiff.mp hc)]
      exact hx.run F t us (List.length_pos_iff.mpr (hne hc)) h
    · rw [if_neg hc] at h
      rw [if_neg (mt hiff.mpr hc)]
      exact hy.run F t us (Nat.zero_le _) h

instance [hy : Stuck y] : Stuck (Rule.kind >>= fun l => if l = k then x else y) := by
  refine stuck_kind fun l hl => ?_
  rw [if_neg]
  · exact hy
  · rintro rfl
    rw [hk.out] at hl
    contradiction

instance [hx : Linewise 2 x] [hy : Linewise 1 y] :
    Linewise 1 (Rule.peek 1 >>= fun l => if l = k then x else y) where
  run F t us a d hn h := by
    cases us with
    | nil => contradiction
    | cons u us =>
      obtain ⟨hiff, hne⟩ := F.peek_eq_iff t u us hk.out
      change (if (F.left t (u :: us)).peek 1 = k then x else y : Rule α) _ = _ at h
      change ∃ w vs, _ ∧ _ ∧ (if (F.right t (u :: us)).peek 1 = k then x else y : Rule α) _ = _
      by_cases hc : (F.left t (u :: us)).peek 1 = k
      · rw [if_pos hc] at h
        rw [if_pos (hiff.mp hc)]
        exact hx.run F t (u :: us) (Nat.succ_le_succ (List.length_pos_iff.mpr (hne hc))) h
      · rw [if_neg hc] at h
        rw [if_neg (mt hiff.mpr hc)]
        exact hy.run F t (u :: us) (Nat.le_add_left 1 _) h

/-- A choice by whether two kinds of token come next. -/
theorem linewise_two (k₁ k₂ : Kind) [hk₁ : Fact (k₁.isBoundary = false)]
    [hk₂ : Fact (k₂.isBoundary = false)] (g : Bool → Rule α) (hx : Linewise 2 (g true))
    (hy : Linewise 0 (g false)) :
    Linewise 0 (Rule.kind >>= fun l => Rule.peek 1 >>= fun l' => g (l = k₁ && l' = k₂)) where
  run F t us a d _ h := by
    change g (decide ((F.left t us).kind = k₁) && decide ((F.left t us).peek 1 = k₂)) _ = _ at h
    change ∃ w vs, _ ∧ _ ∧
      g (decide ((F.right t us).kind = k₁) && decide ((F.right t us).peek 1 = k₂)) _ = _
    obtain ⟨hiff, hne⟩ := F.kind_eq_iff t us hk₁.out
    by_cases hc : (F.left t us).kind = k₁
    · obtain ⟨u, us, rfl⟩ := List.exists_cons_of_ne_nil (hne hc)
      obtain ⟨hiff', hne'⟩ := F.peek_eq_iff t u us hk₂.out
      by_cases hc' : (F.left t (u :: us)).peek 1 = k₂
      · simp only [hc, hc', decide_true, Bool.and_true] at h
        simp only [hiff.mp hc, hiff'.mp hc', decide_true, Bool.and_true]
        exact hx.run F t (u :: us) (Nat.succ_le_succ (List.length_pos_iff.mpr (hne' hc'))) h
      · simp only [hc', decide_false, Bool.and_false] at h
        simp only [mt hiff'.mpr hc', decide_false, Bool.and_false]
        exact hy.run F t (u :: us) (Nat.zero_le _) h
    · simp only [hc, decide_false, Bool.false_and] at h
      simp only [mt hiff.mpr hc, decide_false, Bool.false_and]
      exact hy.run F t us (Nat.zero_le _) h

omit hk in
theorem eat_eq : Rule.eat k = Rule.kind >>= fun l =>
    if l = k then Rule.advance >>= fun _ => pure true else pure false := by
  funext c
  change _ = (if c.kind = k then _ else _ : Rule Bool) c
  unfold Rule.eat
  split <;> rfl

omit hk in
theorem expect_eq :
    Rule.expect k = Rule.kind >>= fun l => if l = k then Rule.advance else Rule.unexpected := by
  funext c
  change _ = (if c.kind = k then _ else _ : Rule Token) c
  unfold Rule.expect
  split <;> rfl

omit hk in
theorem expectDetailed_eq (message : String) : Rule.expectDetailed k message = Rule.kind >>= fun l =>
    if l = k then Rule.advance else Rule.unexpectedDetailed message := by
  funext c
  change _ = (if c.kind = k then _ else _ : Rule Token) c
  unfold Rule.expectDetailed
  split <;> rfl

instance : Linewise 0 (Rule.eat k) := by rw [eat_eq]; infer_instance

instance : Linewise 0 (Rule.expect k) := by rw [expect_eq]; infer_instance

instance : Stuck (Rule.expect k) := by rw [expect_eq]; infer_instance

instance (message : String) : Linewise 0 (Rule.expectDetailed k message) := by
  rw [expectDetailed_eq]; infer_instance

instance (message : String) : Stuck (Rule.expectDetailed k message) := by
  rw [expectDetailed_eq]; infer_instance

end Taking

section Kinds

instance : Fact (Kind.comma.isBoundary = false) := ⟨rfl⟩

instance : Fact (Kind.colon.isBoundary = false) := ⟨rfl⟩

instance : Fact (Kind.dot.isBoundary = false) := ⟨rfl⟩

instance : Fact (Kind.star.isBoundary = false) := ⟨rfl⟩

instance : Fact (Kind.slashSlash.isBoundary = false) := ⟨rfl⟩

instance : Fact (Kind.assignment.isBoundary = false) := ⟨rfl⟩

instance : Fact (Kind.identifier.isBoundary = false) := ⟨rfl⟩

instance : Fact (Kind.string.isBoundary = false) := ⟨rfl⟩

instance : Fact (Kind.openParen.isBoundary = false) := ⟨rfl⟩

instance : Fact (Kind.closeParen.isBoundary = false) := ⟨rfl⟩

instance : Fact (Kind.openBracket.isBoundary = false) := ⟨rfl⟩

instance : Fact (Kind.closeBracket.isBoundary = false) := ⟨rfl⟩

instance : Fact (Kind.closeCurly.isBoundary = false) := ⟨rfl⟩

instance : Fact (Kind.kwNot.isBoundary = false) := ⟨rfl⟩

instance : Fact (Kind.kwIn.isBoundary = false) := ⟨rfl⟩

instance : Fact (Kind.kwElse.isBoundary = false) := ⟨rfl⟩

instance : Fact (Kind.kwAs.isBoundary = false) := ⟨rfl⟩

instance : Fact (Kind.kwImport.isBoundary = false) := ⟨rfl⟩

end Kinds

section Lists

variable {item : Rule α} [Linewise 0 item]

instance {step : Rule (Option α)} [Linewise 0 step] : Linewise 0 (Rule.repeated step) := by
  unfold Rule.repeated; infer_instance

instance (k : Kind) [Fact (k.isBoundary = false)] : Linewise 0 (Rule.introduced k item) := by
  unfold Rule.introduced; infer_instance

end Lists

end Rule

end Offside
