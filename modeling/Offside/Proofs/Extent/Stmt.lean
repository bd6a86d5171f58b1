import Offside.Proofs.Moves.Stmt
import Offside.Proofs.Span

namespace Offside

open Grammar

namespace Cursor

variable {c d : Cursor} {us : List Token}

/-- The tokens around a cursor: the one consumed last and those to come. -/
def window (c : Cursor) : List Token := c.previous.toList ++ (c.rest ++ [c.last])

def Ordered (c : Cursor) : Prop := InOrder c.window

theorem Took.window_sublist (h : c.Took us d) : d.window.Sublist c.window := by
  rw [window, window, h.previous_eq, h.last_eq, h.rest_eq, List.append_assoc]
  cases hus : us.getLast? with
  | none =>
    rw [List.getLast?_eq_none_iff.mp hus]
    exact List.Sublist.refl _
  | some t =>
    obtain ⟨vs, rfl⟩ := List.getLast?_eq_some_iff.mp hus
    rw [Option.some_or, List.append_assoc]
    refine List.Sublist.trans ?_ (List.sublist_append_right _ _)
    exact List.sublist_append_right _ _

theorem Took.ordered (h : c.Took us d) (hc : c.Ordered) : d.Ordered := hc.sublist h.window_sublist

theorem Ordered.previousEnd_le (h : c.Ordered) : c.previousEnd ≤ c.current.span.start := by
  unfold previousEnd
  cases hp : c.previous with
  | none => exact UInt32.le_refl _
  | some t =>
    have hpairs := h.disjoint
    rw [window, hp, Option.toList_some, List.singleton_append, List.pairwise_cons] at hpairs
    refine hpairs.1 _ ?_
    rw [current]
    cases c.rest <;> simp

theorem Ordered.current_le (h : c.Ordered) : c.current.span.start ≤ c.current.span.stop := by
  refine h.start_le _ (List.mem_append_right _ ?_)
  rw [current]
  cases c.rest <;> simp

/-- A token that has been taken ends before the cursor does. -/
theorem Took.stop_le (h : c.Took us d) (hc : c.Ordered) {t : Token} (ht : t ∈ us) :
    t.span.stop ≤ d.previousEnd := by
  obtain ⟨ws, w, hw⟩ := List.eq_nil_or_concat us |>.resolve_left (List.ne_nil_of_mem ht)
  rw [List.concat_eq_append] at hw
  subst hw
  have hprevious : d.previousEnd = w.span.stop := by
    rw [previousEnd, h.previous_eq, List.getLast?_concat]
    rfl
  rw [hprevious]
  have horder : InOrder (ws ++ [w]) := hc.sublist (by
    rw [window, h.rest_eq, List.append_assoc (ws ++ [w])]
    exact (List.sublist_append_left _ _).trans (List.sublist_append_right _ _))
  rcases List.mem_append.mp ht with hin | hlast
  · have hle := (List.pairwise_append.mp horder.disjoint).2.2 t hin w (List.mem_singleton_self w)
    exact UInt32.le_trans hle (horder.start_le w (by simp))
  · rw [List.mem_singleton.mp hlast]
    exact UInt32.le_refl _

/-- What ended before the cursor does so when it has moved on. -/
theorem Took.previousEnd_le (h : c.Took us d) (hc : c.Ordered) : c.previousEnd ≤ d.previousEnd := by
  cases us with
  | nil =>
    rw [previousEnd, previousEnd, h.previous_eq, current, current, h.last_eq, h.rest_eq]
    exact UInt32.le_refl _
  | cons t us =>
    have hcurrent : c.current = t := by rw [current, h.rest_eq]; rfl
    have hstop := h.stop_le hc List.mem_cons_self
    rw [← hcurrent] at hstop
    exact UInt32.le_trans hc.previousEnd_le (UInt32.le_trans hc.current_le hstop)

/-- Where the cursor was before it moved is not behind it. -/
theorem Took.start_le_previousEnd (h : c.Took us d) (hc : c.Ordered) (hlt : d.remaining < c.remaining) :
    c.current.span.start ≤ d.previousEnd := by
  cases us with
  | nil =>
    rw [remaining, remaining, h.rest_eq] at hlt
    exact absurd hlt (Nat.lt_irrefl _)
  | cons t us =>
    have hcurrent : c.current = t := by rw [current, h.rest_eq]; rfl
    have hstop := h.stop_le hc List.mem_cons_self
    rw [← hcurrent] at hstop
    exact UInt32.le_trans hc.current_le hstop

theorem Took.start_le_start (h : c.Took us d) (hc : c.Ordered) :
    c.current.span.start ≤ d.current.span.start := by
  cases us with
  | nil =>
    rw [current, current, h.last_eq, h.rest_eq]
    exact UInt32.le_refl _
  | cons t us =>
    refine UInt32.le_trans (h.start_le_previousEnd hc ?_) (h.ordered hc).previousEnd_le
    rw [remaining, remaining, h.rest_eq, List.length_append]
    exact Nat.lt_add_of_pos_left (Nat.succ_pos _)

end Cursor

namespace Grammar

open Rule Cursor

abbrev Onwards {α : Type} (P : Cursor → Prop) (x : StmtRule α) : Prop :=
  Keeps (fun _ c => c.last.kind = .eof) Ahead 0 P x

section Rules

variable {α β : Type} {P : Cursor → Prop} {k : Kind}

theorem lifted_yields {x : Rule α} {Q : α → Cursor → Prop} (h : Yields P x Q) :
    Yields (fun q : Progress => P q.cursor) (lifted x) fun v r => Q v r.cursor := by
  intro q v r hq hr
  unfold lifted at hr
  cases hx : x q.cursor with
  | error e c => simp [hx] at hr
  | ok w c =>
    simp only [hx] at hr
    cases hr
    exact h q.cursor _ c hq hx

theorem yields_on_kind {C : Progress → Prop} {Q : α → Progress → Prop} {g : Kind → StmtRule α}
    (hg : ∀ k, Yields (fun q => C q ∧ q.cursor.kind = k) (g k) Q) : Yields C (lifted Rule.kind >>= g) Q :=
  Yields.read (φ := fun q : Progress => q.cursor.kind) hg

/-- The rest of a rule decides what it returns. -/
theorem Yields.after {σ : Type} {P : σ → Prop} {R : β → σ → Prop} {x : EStateM Diagnostic σ α}
    {g : α → EStateM Diagnostic σ β} (hg : ∀ a, Yields (fun _ => True) (g a) R) :
    Yields P (x >>= g) R :=
  Yields.bind (Q := fun _ _ => True) (fun _ _ _ _ _ => trivial) hg

abbrev HeadStarts (k : Kind) (x : Rule (Offset × α)) : Prop :=
  ∀ m o, Yields (fun c => Starts m o c ∧ c.kind = k) x fun v _ => v.1 = o

theorem functionHead_starts {allowed : ConventionSet} (hk : k.isBoundary = false) :
    HeadStarts k (functionHead allowed) :=
  fun _ _ => yields_opening hk fun _ ho => Yields.after fun _ => Yields.after fun _ =>
    Yields.after fun _ => Yields.after fun _ => Yields.after fun _ => Yields.after fun _ =>
      Yields.pure fun _ _ => ho

theorem typeHead_starts (word : TypeWord) (hk : k.isBoundary = false) : HeadStarts k (typeHead word) :=
  fun _ _ => yields_opening hk fun _ ho => Yields.after fun _ => Yields.after fun _ =>
    Yields.after fun _ => Yields.pure fun _ _ => ho

theorem forHead_starts : HeadStarts .kwFor forHead :=
  fun _ _ => yields_opening rfl fun _ ho => Yields.after fun _ => Yields.after fun _ =>
    Yields.after fun _ => Yields.pure fun _ _ => ho

theorem conditionHead_starts (hk : k.isBoundary = false) : HeadStarts k conditionHead :=
  fun _ _ => yields_opening hk fun _ ho => Yields.after fun _ => Yields.pure fun _ _ => ho

end Rules

section Starts

variable {α : Type} {o : Offset} {P : Cursor → Prop} {k : Kind} {cfg : Config} {sub : StmtRule Stmt}

def Progress.StartsAt (o : Offset) (q : Progress) : Prop :=
  q.cursor.last.kind = .eof ∧ q.cursor.current.span.start = o

abbrev StartsThere (P : Cursor → Prop) (x : StmtRule Stmt) : Prop :=
  ∀ o, Yields (fun q : Progress => q.StartsAt o ∧ P q.cursor) x fun s _ => s.span.start = o

theorem lifted_starts {x : Rule α} {Q : α → Cursor → Prop}
    (h : ∀ m, Yields (fun c => Starts m o c ∧ P c) x Q) :
    Yields (fun q : Progress => q.StartsAt o ∧ P q.cursor) (lifted x) fun v r => Q v r.cursor :=
  fun q v r hq hr => lifted_yields (h q.remaining) q v r ⟨⟨⟨hq.1.1, Nat.le_refl _⟩, hq.1.2⟩, hq.2⟩ hr

theorem headed_starts {x : Rule (Offset × α)} (hx : HeadStarts k x) {g : Offset × α → StmtRule Stmt}
    (hg : ∀ v, Yields (fun _ => True) (g v) fun s _ => s.span.start = v.1) :
    StartsThere (fun c => c.kind = k) (lifted x >>= g) :=
  fun o => (lifted_starts fun m => hx m o).bind fun v => Yields.given (fun _ h => h) fun h =>
    h ▸ (hg v).before fun _ _ => trivial

theorem functionStmt_starts (hk : k.isBoundary = false) :
    StartsThere (fun c => c.kind = k) (functionStmt cfg sub) :=
  headed_starts (functionHead_starts hk) fun _ => Yields.after fun _ => Yields.pure fun _ _ => rfl

theorem typeStmt_starts (word : TypeWord) (hk : k.isBoundary = false) :
    StartsThere (fun c => c.kind = k) (typeStmt cfg sub word) :=
  headed_starts (typeHead_starts word hk) fun _ => Yields.after fun _ => Yields.pure fun _ _ => rfl

theorem forStmt_starts : StartsThere (fun c => c.kind = .kwFor) (forStmt cfg sub) :=
  headed_starts forHead_starts fun _ => Yields.after fun _ => Yields.pure fun _ _ => rfl

theorem whileStmt_starts : StartsThere (fun c => c.kind = .kwWhile) (whileStmt cfg sub) :=
  headed_starts (conditionHead_starts rfl) fun _ => Yields.after fun _ => Yields.pure fun _ _ => rfl

theorem ifStmt_starts : StartsThere (fun c => c.kind = .kwIf) (ifStmt cfg sub) :=
  headed_starts (conditionHead_starts rfl) fun _ => Yields.after fun _ => Yields.after fun _ =>
    Yields.after fun _ => Yields.pure fun _ _ => rfl

theorem decoratedStmt_starts : StartsThere P (decoratedStmt cfg sub) := by
  intro o q s r hq hr
  obtain ⟨start, u, hu, hr⟩ := bind_eq_ok.mp hr
  cases hu
  obtain ⟨decorators, v, -, hr⟩ := bind_eq_ok.mp hr
  obtain ⟨inner, w, -, hr⟩ := bind_eq_ok.mp hr
  cases hr
  exact hq.1.2

theorem simpleStmt_starts (k : Kind) : StartsThere (fun c => c.kind = k) (lifted (simpleStmt k)) := by
  intro o
  refine lifted_starts (P := fun c => c.kind = k) (Q := fun (s : Stmt) _ => s.span.start = o) fun m => ?_
  obtain ⟨body, hbody, -, hspans⟩ := simpleStmt_ended (m := m) (o := o) k
  rw [hbody]
  refine hspans.bind fun s => Yields.given (p := s.span.start = o) (fun c hc => by rw [hc.2]) fun hs => ?_
  exact Yields.after fun _ => Yields.pure fun _ _ => hs

theorem statement_starts : StartsThere P (statement cfg sub) := by
  have hseen {k : Kind} {x : StmtRule Stmt} (h : StartsThere (fun c => c.kind = k) x) (o : Offset) :
      Yields (fun q : Progress => (q.StartsAt o ∧ P q.cursor) ∧ q.cursor.kind = k) x fun s _ => s.span.start = o :=
    (h o).before fun _ hq => ⟨hq.1.1, hq.2⟩
  refine fun o => yields_on_kind fun k => ?_
  cases k using statement_cases with
  | indent => exact fun q s r _ hr => by cases hr
  | function word => cases word <;> exact hseen (functionStmt_starts rfl) o
  | type word => cases word <;> exact hseen (typeStmt_starts _ rfl) o
  | conditional => exact hseen ifStmt_starts o
  | forLoop => exact hseen forStmt_starts o
  | whileLoop => exact hseen whileStmt_starts o
  | decorated => exact hseen decoratedStmt_starts o
  | simple k => exact hseen (simpleStmt_starts k) o

/-- A statement or error mark starts at the first token of what was taken for it. -/
theorem recovering_starts {q : Progress} (hq : q.cursor.last.kind = .eof) :
    (recovering (stmt cfg) q).1.span.start = q.cursor.current.span.start := by
  have hone : StartsThere (fun _ => True) (statement cfg (Seam.innerStmt cfg q.remaining)) := statement_starts
  unfold recovering
  rw [Seam.stmt_eq_statement]
  cases hr : statement cfg (Seam.innerStmt cfg q.remaining) q with
  | ok s r => exact hone _ q s r ⟨⟨hq, rfl⟩, trivial⟩ hr
  | error e r => rfl

end Starts

end Grammar

end Offside
