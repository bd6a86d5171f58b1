import Offside.Grammar.Operand
import Offside.Proofs.Seam

namespace Offside.Seam

variable {S : Seam} {α β : Type} [Relocate α] [Relocate β]
  {P Q E : Cursor → Cursor → Prop} {b : Bool} {N : Origin} {p : Depth} {k : Kind}

class Within (S : Seam) (P : Cursor → Cursor → Prop) (b : outParam Bool) (N : outParam Origin)
    (p : outParam Depth) : Prop where
  inside : ∀ c c', P c c' → S.In b N p c c'

instance : S.Within (S.In b N p) b N p := ⟨fun _ _ => id⟩

instance {φ : Cursor → Prop} [h : S.Within P b N p] : S.Within (Where P φ) b N p :=
  ⟨fun c c' hP => h.inside c c' hP.1⟩

/-- Relations that put both cursors before the same token, inside the window or behind it. -/
class Before (S : Seam) (P : Cursor → Cursor → Prop) (N : outParam Origin) (p : outParam Depth) :
    Prop where
  place : ∀ c c', P c c' → S.Over N p c c' ∨ ∃ b, S.In b N p c c'

instance : S.Before (S.Over N p) N p := ⟨fun _ _ => Or.inl⟩

instance [h : S.Within P b N p] : S.Before P N p := ⟨fun c c' hP => Or.inr ⟨b, h.inside c c' hP⟩⟩

instance {φ : Cursor → Prop} [h : S.Before P N p] : S.Before (Where P φ) N p :=
  ⟨fun c c' hP => h.place c c' hP.1⟩

theorem Before.current [h : S.Before P N p] {c c' : Cursor} (hP : P c c') :
    c'.current = relocate S.move c.current := by
  rcases h.place c c' hP with hend | ⟨b, hin⟩
  · exact hend.current
  · exact hin.current

theorem Before.kind [h : S.Before P N p] {c c' : Cursor} (hP : P c c') : c'.kind = c.kind := by
  rw [Cursor.kind, Cursor.kind, h.current hP, kind_relocate]

theorem kind_bind [h : S.Before P N p] {g g' : Kind → Rule α}
    (hg : ∀ k, S.Alike (Where P fun c => c.kind = k) Q E (g k) (g' k)) :
    S.Alike P Q E (Rule.kind >>= g) (Rule.kind >>= g') :=
  Sim.read (φ := Cursor.kind) (fun _ _ hP => h.kind hP) hg

theorem current_bind [h : S.Before P N p] {g g' : Token → Rule α}
    (hg : ∀ t, S.Alike (Where P fun c => c.current = t) Q E (g t) (g' (relocate S.move t))) :
    S.Alike P Q E (Rule.current >>= g) (Rule.current >>= g') :=
  Sim.read (φ := Cursor.current) (fun _ _ hP => h.current hP) hg

theorem here_bind [h : S.Before P N p] {g g' : Offset → Rule α}
    (hg : ∀ o, S.Alike P Q E (g o) (g' (S.move o))) :
    S.Alike P Q E (Rule.here >>= g) (Rule.here >>= g') :=
  Sim.read (φ := fun c : Cursor => c.current.span.start)
    (fun _ _ hP => by rw [h.current hP]; rfl) fun o => (hg o).forget

theorem here_alike [h : S.Before P N p] : S.Alike P P E Rule.here Rule.here where
  onward := Directed.refl
  agree c c' hP := by
    change _ ∨ Agree _ _ _ (.ok c.current.span.start c) (.ok c'.current.span.start c')
    rw [h.current hP]
    exact Or.inr (.ok hP)

theorem previousEnd_bind [h : S.Within P true N p] {g g' : Offset → Rule α}
    (hg : ∀ o, S.Alike P Q E (g o) (g' (S.move o))) :
    S.Alike P Q E (Rule.previousEnd >>= g) (Rule.previousEnd >>= g') :=
  Sim.read (φ := Cursor.previousEnd) (fun c c' hP => (h.inside c c' hP).previousEnd)
    fun o => (hg o).forget

/-- One token of lookahead stays inside the window where no statement can end. -/
theorem peek_bind [h : S.Within P b N p] {g g' : Kind → Rule α} (hk : k.endsStatement = false)
    (hg : ∀ n, S.Alike (Where (Where P fun c => c.kind = k) fun c => c.peek 1 = n) Q E (g n) (g' n)) :
    S.Alike (Where P fun c => c.kind = k) Q E (Rule.peek 1 >>= g) (Rule.peek 1 >>= g') :=
  Sim.read (φ := fun c : Cursor => c.peek 1)
    (fun c c' hP => (h.inside c c' hP.1).peek (by rw [hP.2]; exact hk)) hg

theorem advancing [h : S.Within P b N p]
    (hQ : ∀ c c', P c c' → S.In b N p c c' → Q c.advance c'.advance) :
    S.Alike P Q E Rule.advance Rule.advance where
  onward := Cursor.remaining_advance_le
  agree c c' hP := by
    have hin := h.inside c c' hP
    change _ ∨ Agree _ _ _ (.ok c.current c.advance) (.ok c'.current c'.advance)
    rw [hin.current]
    exact Or.inr (.ok (hQ c c' hP hin))

theorem advance [h : S.Before P N p] (hk : k.isBoundary = false) :
    S.Alike (Where P fun c => c.kind = k) (S.In true N (p.after k)) E Rule.advance Rule.advance where
  onward := Cursor.remaining_advance_le
  agree c c' hP := by
    change _ ∨ Agree _ _ _ (.ok c.current c.advance) (.ok c'.current c'.advance)
    rw [h.current hP.1]
    rcases h.place c c' hP.1 with hend | ⟨b, hin⟩
    · have heof : c.kind ≠ .eof := fun he => by simp [← hP.2, he, Kind.isBoundary] at hk
      exact Or.inl (strayed_advance hend.window hend.rest_eq hend.last_eq heof)
    · exact Or.inr (.ok (hin.advance hP.2 hk))

/-- After the token looked ahead from, the cursor is at the token seen. -/
theorem advance_peeked [S.Within P b N p] {n : Kind} (hk : k.isBoundary = false)
    (hn : n.isBoundary = false) :
    S.Alike (Where (Where P fun c => c.kind = k) fun c => c.peek 1 = n)
      (Where (S.In true N (p.after k)) fun c => c.kind = n) E Rule.advance Rule.advance := by
  refine advancing fun c c' hP hin => ⟨hin.advance hP.1.2 hk, ?_⟩
  have heof : c.kind ≠ .eof := fun he => by simp [← hP.1.2, he, Kind.isBoundary] at hk
  have hpeek : c.peek 1 ≠ .eof := fun he => by simp [← hP.2, he, Kind.isBoundary] at hn
  exact (Cursor.kind_advance heof hpeek).symm.trans hP.2

theorem eat_bind [h : S.Within P b N p] {g g' : Bool → Rule α} (hk : k.isBoundary = false)
    (ht : S.Alike (S.In true N (p.after k)) Q E (g true) (g' true))
    (hf : S.Alike (Where P fun c => c.kind ≠ k) Q E (g false) (g' false)) :
    S.Alike P Q E (Rule.eat k >>= g) (Rule.eat k >>= g') where
  onward c := by
    change Onward c (endState (EStateM.bind (Rule.eat k) g c))
    unfold EStateM.bind Rule.eat
    split <;> rename_i he <;> split at he <;> cases he
    · exact Directed.trans c.remaining_advance_le (ht.onward c.advance)
    · exact hf.onward c
  agree c c' hP := by
    have hin := h.inside c c' hP
    change S.strayed.outcome (EStateM.bind (Rule.eat k) g c) ∨
      Agree S.move Q E (EStateM.bind (Rule.eat k) g c) (EStateM.bind (Rule.eat k) g' c')
    unfold EStateM.bind Rule.eat
    rw [hin.kind]
    by_cases he : c.kind = k
    · simp only [if_pos he]
      exact ht.agree _ _ (hin.advance he hk)
    · simp only [if_neg he]
      exact hf.agree c c' ⟨hP, he⟩

theorem expecting [h : S.Within P b N p] {fault : Cursor → Diagnostic}
    (hQ : ∀ c c', S.In b N p c c' → c.kind = k → Q c.advance c'.advance)
    (hfault : ∀ c c', P c c' → fault c' = relocate S.move (fault c)) :
    S.Alike P Q (S.Out N p.blocks)
      (fun c => if c.kind = k then .ok c.current c.advance else .error (fault c) c)
      (fun c => if c.kind = k then .ok c.current c.advance else .error (fault c) c) where
  onward c := by
    split
    · exact c.remaining_advance_le
    · exact Directed.refl c
  agree c c' hP := by
    have hin := h.inside c c' hP
    rw [hin.kind, hin.current, hfault c c' hP]
    split
    · next he => exact Or.inr (.ok (hQ c c' hin he))
    · exact Or.inr (.error hin.out)

theorem fault_relocate [h : S.Before P N p] (cause : Token → Cause)
    (hcause : ∀ t, cause (relocate S.move t) = cause t) (c c' : Cursor) (hP : P c c') :
    (⟨cause c'.current, c'.current.span⟩ : Diagnostic) =
      relocate S.move ⟨cause c.current, c.current.span⟩ := by
  rw [h.current hP, hcause]
  rfl

theorem expect [S.Within P b N p] (hk : k.isBoundary = false) :
    S.Alike P (S.In true N (p.after k)) (S.Out N p.blocks) (Rule.expect k) (Rule.expect k) :=
  expecting (fun _ _ hin he => hin.advance he hk)
    (fault_relocate (fun t => .unexpectedToken t.shown) fun _ => rfl)

theorem expectDetailed [S.Within P b N p] (hk : k.isBoundary = false) (message : String) :
    S.Alike P (S.In true N (p.after k)) (S.Out N p.blocks) (Rule.expectDetailed k message)
      (Rule.expectDetailed k message) :=
  expecting (fun _ _ hin he => hin.advance he hk)
    (fault_relocate (fun t => .unexpectedTokenDetailed t.shown message) fun _ => rfl)

/-- A rule that finds fault with the current token. -/
theorem refusing [h : S.Before P N p] (cause : Token → Cause)
    (hcause : ∀ t, cause (relocate S.move t) = cause t) :
    S.Alike P Q (S.Out N p.blocks) (α := α)
      (fun c => .error ⟨cause c.current, c.current.span⟩ c)
      (fun c => .error ⟨cause c.current, c.current.span⟩ c) where
  onward := Directed.refl
  agree c c' hP := by
    rcases h.place c c' hP with hend | ⟨b, hin⟩
    · exact Or.inl (Or.inr ⟨hend.window, by rw [hend.current_eq], Nat.le_of_eq hend.remaining_eq⟩)
    · rw [fault_relocate cause hcause c c' hP]
      exact Or.inr (.error hin.out)

theorem unexpected [S.Before P N p] :
    S.Alike P Q (S.Out N p.blocks) (Rule.unexpected (α := α)) Rule.unexpected :=
  refusing (fun t => .unexpectedToken t.shown) fun _ => rfl

theorem unexpectedDetailed [S.Before P N p] (message : String) :
    S.Alike P Q (S.Out N p.blocks) (Rule.unexpectedDetailed (α := α) message)
      (Rule.unexpectedDetailed message) :=
  refusing (fun t => .unexpectedTokenDetailed t.shown message) fun _ => rfl

theorem fail [h : S.Within P b N p] {cause : Cause} {span span' : Span}
    (hs : span' = relocate S.move span) :
    S.Alike P Q (S.Out N p.blocks) (Rule.fail (α := α) cause span) (Rule.fail cause span') :=
  Sim.fail (e := ⟨cause, span⟩) (d := ⟨cause, span'⟩) (by rw [hs]; rfl)
    fun c c' hP => (h.inside c c' hP).out

/-- A rule that returns at once. -/
theorem stay [h : S.Within P b N p] {a a' : α} (ha : a' = relocate S.move a) :
    S.Alike P (S.In b N p) E (pure a) (pure a') :=
  Sim.pure ha h.inside

/-- A rule that starts anywhere inside the window and returns behind some token of it. -/
abbrev Inline (S : Seam) (N : Origin) (x x' : Rule α) : Prop :=
  ∀ p : Depth, S.Alike (S.In true N p) (S.In true N p) (S.Out N p.blocks) x x'

/-- Whether two kinds of token come next is seen alike where no statement can end between. -/
theorem seen_bind [h : S.Within P b N p] {n : Kind} {g j : Bool → Rule α}
    (hk : k.endsStatement = false)
    (ht : S.Alike (Where (Where P fun c => c.kind = k) fun c => c.peek 1 = n) Q E (g true) (j true))
    (hf : S.Alike P Q E (g false) (j false)) :
    S.Alike P Q E (fun c => g (decide (c.kind = k) && decide (c.peek 1 = n)) c)
      (fun c => j (decide (c.kind = k) && decide (c.peek 1 = n)) c) := by
  refine Sim.read (φ := fun c : Cursor => decide (c.kind = k) && decide (c.peek 1 = n))
    (fun c c' hP => ?_) fun v => ?_
  · have hin := h.inside c c' hP
    rw [hin.kind]
    by_cases hc : c.kind = k
    · rw [hin.peek (by rw [hc]; exact hk)]
      rfl
    · simp only [hc, decide_false, Bool.false_and]
      rfl
  · cases v with
    | false => exact hf.forget
    | true =>
      refine ht.before fun c c' hP => ?_
      have hseen := hP.2
      simp only [Bool.and_eq_true, decide_eq_true_eq] at hseen
      exact ⟨⟨hP.1, hseen.1⟩, hseen.2⟩

theorem atKeyword_bind [h : S.Within P b N p] {g g' : Bool → Rule α}
    (ht : S.Alike (Where (Where P fun c => c.kind = .identifier) fun c => c.peek 1 = .assignment)
      Q E (g true) (g' true))
    (hf : S.Alike P Q E (g false) (g' false)) :
    S.Alike P Q E (Grammar.atKeyword >>= g) (Grammar.atKeyword >>= g') :=
  seen_bind rfl ht hf

section Lists

variable {step step' : Rule (Option α)} {item item' : Rule α}

theorem repeated (h : S.Alike (S.In true N p) (S.In true N p) E step step') :
    S.Alike (S.In true N p) (S.In true N p) E (Rule.repeated step) (Rule.repeated step') :=
  h.many fun _ _ _ _ h h₂ => h.remaining_lt_iff h₂

theorem introduced [S.Within P b N p] (hk : k.isBoundary = false) (hp : p.after k = p)
    (hi : S.Alike (S.In true N p) (S.In true N p) (S.Out N p.blocks) item item')
    (hP : b = true) :
    S.Alike P (S.In true N p) (S.Out N p.blocks) (Rule.introduced k item)
      (Rule.introduced k item') := by
  subst hP
  refine eat_bind hk ?_ ?_
  · rw [hp]
    exact hi.map fun _ => rfl
  · exact stay rfl

theorem commaTail {stop : Kind → Bool}
    (hi : S.Alike (S.In true N p) (S.In true N p) (S.Out N p.blocks) item item') :
    S.Alike (S.In true N p) (S.In true N p) (S.Out N p.blocks) (Rule.commaTail stop item)
      (Rule.commaTail stop item') := by
  refine repeated (eat_bind rfl ?_ (stay rfl))
  refine kind_bind fun k => Sim.ite (fun _ => stay rfl) fun _ => Sim.forget ?_
  exact hi.map fun _ => rfl

theorem commaList {stop : Kind → Bool}
    (hi : S.Alike (S.In true N p) (S.In true N p) (S.Out N p.blocks) item item') :
    S.Alike (S.In true N p) (S.In true N p) (S.Out N p.blocks) (Rule.commaList stop item)
      (Rule.commaList stop item') :=
  hi.bind fun _ => (commaTail hi).bind fun _ => stay rfl

theorem listUpTo {close : Kind}
    (hi : S.Alike (S.In true N p) (S.In true N p) (S.Out N p.blocks) item item') :
    S.Alike (S.In true N p) (S.In true N p) (S.Out N p.blocks) (Rule.listUpTo close item)
      (Rule.listUpTo close item') :=
  kind_bind fun _ => Sim.ite (fun _ => stay rfl) fun _ => (commaList hi).forget

end Lists

end Offside.Seam
