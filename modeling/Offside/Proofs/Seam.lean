import Mathlib.Tactic.Common
import Offside.Proofs.Kinds
import Offside.Proofs.Tree.Relocate

namespace Offside

/-- Brackets that are open on a logical line, and open blocks. -/
structure Depth where
  brackets : Nat := 0
  blocks : Nat := 0
  deriving DecidableEq

namespace Depth

def flat (blocks : Nat) : Depth := ⟨0, blocks⟩

def after (p : Depth) : Kind → Depth
  | .openParen | .openBracket | .openCurly => ⟨p.brackets + 1, p.blocks⟩
  | .closeParen | .closeBracket | .closeCurly => ⟨p.brackets - 1, p.blocks⟩
  | .newline => ⟨0, p.blocks⟩
  | .indent => ⟨0, p.blocks + 1⟩
  | .dedent => ⟨0, p.blocks - 1⟩
  | _ => p

theorem after_atom {k : Kind} (p : Depth) (h : k.isAtom = true) : p.after k = p := by
  cases k <;> first | rfl | contradiction

theorem after_comparison {k : Kind} (p : Depth) (h : Level.ofKind k = .comparison) : p.after k = p := by
  cases k <;> first | rfl | contradiction

theorem after_unary (p : Depth) (op : UnaryOp) : p.after op.kind = p := by cases op <;> rfl

theorem after_binary (p : Depth) (op : BinaryOp) : p.after op.kind = p := by cases op <;> rfl

def along (p : Depth) : List Token → Depth
  | [] => p
  | t :: ts => (p.after t.kind).along ts

theorem along_append (p : Depth) (ts us : List Token) :
    p.along (ts ++ us) = (p.along ts).along us := by
  induction ts generalizing p with
  | nil => rfl
  | cons t ts ih => exact ih (p.after t.kind)

end Depth

namespace Kind

def endsStatement : Kind → Bool
  | .newline | .dedent | .semicolon => true
  | _ => false

theorem endsStatement_iff {k : Kind} :
    k.endsStatement = true ↔ k = .newline ∨ k = .dedent ∨ k = .semicolon := by
  cases k <;> simp [endsStatement]

/-- Whether a token of this kind leaves alone what stands before it. -/
def startsAfresh : Kind → Bool
  | .newline | .indent | .dedent | .kwElif | .kwElse => false
  | _ => true

theorem startsAfresh_iff {k : Kind} : k.startsAfresh = true ↔
    k ≠ .newline ∧ k ≠ .indent ∧ k ≠ .dedent ∧ k ≠ .kwElif ∧ k ≠ .kwElse := by
  cases k <;> simp [startsAfresh]

end Kind

/-- Blocks are closed outside brackets, and all get closed. -/
def Lined : Depth → List Token → Prop
  | p, [] => p.blocks = 0
  | p, t :: ts => t.kind ≠ .eof ∧ (t.kind = .dedent → p.brackets = 0) ∧ Lined (p.after t.kind) ts

theorem Lined.right {p : Depth} {ts us : List Token} (h : Lined p (ts ++ us)) :
    Lined (p.along ts) us := by
  induction ts generalizing p with
  | nil => exact h
  | cons t ts ih => exact ih h.2.2

/-- Blocks are closed outside brackets and only when they are open, and all get closed. -/
def Orderly : Depth → List Token → Prop
  | p, [] => p.blocks = 0
  | p, t :: ts => t.kind ≠ .eof ∧ (t.kind = .dedent → p.brackets = 0 ∧ 0 < p.blocks) ∧
      Orderly (p.after t.kind) ts

theorem Orderly.lined {p : Depth} {ts : List Token} (h : Orderly p ts) : Lined p ts := by
  induction ts generalizing p with
  | nil => exact h
  | cons t ts ih => exact ⟨h.1, fun hk => (h.2.1 hk).1, ih h.2.2⟩

/-- A window and the first tokens behind it, on the left and on the right. -/
structure Cut (window : List Token) (next next' : Token) : Prop where
  lined : Lined {} window
  ends : ∀ t, window.getLast? = some t → t.kind.endsStatement = true
  left : next.kind.startsAfresh = true
  right : next'.kind.startsAfresh = true
  /-- Behind a semicolon the left stream goes on. -/
  goesOn : ∀ t, window.getLast? = some t → t.kind = .semicolon → next.kind ≠ .eof

/-- What is left of a window after some of its tokens ends like the window. -/
theorem Cut.getLast?_rest {done rest : List Token} {next next' : Token}
    (h : Cut (done ++ rest) next next') (t : Token) (ht : rest.getLast? = some t) :
    t.kind.endsStatement = true := by
  apply h.ends t
  rw [List.getLast?_append, ht]
  rfl

/-- After a step, the current token is the one that was next. -/
theorem Cursor.last_advance (c : Cursor) : c.advance.last = c.last := by
  unfold Cursor.advance
  split
  · rfl
  · split <;> rfl

theorem Cursor.last_skip (n : Nat) (c : Cursor) : (c.skip n).last = c.last := by
  induction n generalizing c with
  | zero => rfl
  | succ n ih => rw [Cursor.skip, ih, c.last_advance]

theorem Cursor.kind_advance {c : Cursor} (hk : c.kind ≠ .eof) (hp : c.peek 1 ≠ .eof) :
    c.peek 1 = c.advance.kind := by
  obtain ⟨previous, rest, last⟩ := c
  match rest with
  | [] | [t] => simp [Cursor.peek] at hp
  | t :: u :: rest =>
    simp only [Cursor.kind, Cursor.current, List.headD_cons] at hk
    simp [Cursor.peek, Cursor.advance, Cursor.kind, Cursor.current, hk]

structure Origin where
  left : Cursor
  right : Cursor

def Origin.bound (N : Origin) : Nat := N.left.remaining

instance : Directed Cursor where
  Onward c e := e.remaining ≤ c.remaining
  refl _ := Nat.le_refl _
  trans h h₂ := Nat.le_trans h₂ h

structure Seam where
  move : Offset → Offset
  /-- The common tokens; none when the streams are compared as wholes. -/
  window : Option (List Token)
  /-- The parse of the streams may be cancelled, which leaves blocks open. -/
  cancels : Bool
  tail : List Token
  tail' : List Token
  last : Token
  last' : Token
  faults : List Diagnostic
  faults' : List Diagnostic
  last_kind : last.kind = .eof
  last_kind' : last'.kind = .eof
  whole : window = none → tail = [] ∧ tail' = [] ∧ last' = relocate move last
  uncut : cancels = true → window = none
  cut : ∀ w, window = some w → Cut w (tail.headD last) (tail'.headD last')

namespace Seam

variable (S : Seam)

def next : Token := S.tail.headD S.last

/-- The left run has read past the window, or found a fault right behind it. -/
def strayed : Escape Cursor where
  state c := S.window ≠ none ∧ c.remaining < S.tail.length
  fault e c := S.window ≠ none ∧ e.span.start = S.next.span.start ∧ c.remaining ≤ S.tail.length
  kept honward h := ⟨h.1, Nat.lt_of_le_of_lt honward h.2⟩

abbrev Alike {α : Type} [Relocate α] (P Q E : Cursor → Cursor → Prop) (x x' : Rule α) : Prop :=
  Sim S.move S.strayed P Q E x x'

/-- Cursors before the tokens `rest`, with `done` behind them. The tokens consumed last are known
to correspond once the cursors have moved. -/
structure At (N : Origin) (p : Depth) (done rest : List Token) (c c' : Cursor) : Prop where
  rest_eq : c.rest = rest ++ S.tail
  rest_eq' : c'.rest = relocate S.move rest ++ S.tail'
  last_eq : c.last = S.last
  last_eq' : c'.last = S.last'
  le_bound : c.remaining ≤ N.bound
  moved : c.remaining < N.bound →
    ∃ t, c.previous = some t ∧ c'.previous = some (relocate S.move t)
  unmoved : c.remaining = N.bound → c = N.left ∧ c' = N.right
  place : ∀ w, S.window = some w → w = done ++ rest ∧ Depth.along {} done = p ∧
    (c.remaining < N.bound → c.previous = done.getLast?)

def In (moved : Bool) (N : Origin) (p : Depth) (c c' : Cursor) : Prop :=
  ∃ done rest, S.At N p done rest c c' ∧ (S.window ≠ none → rest ≠ []) ∧
    (moved = true → c.remaining < N.bound)

def Out (N : Origin) (blocks : Nat) (c c' : Cursor) : Prop :=
  ∃ n done rest, S.At N ⟨n, blocks⟩ done rest c c' ∧
    (S.window ≠ none → rest = [] →
      c.remaining < N.bound ∧ done.getLast?.map Token.kind = some .newline)

/-- The left cursor is at the end of the window, and the right one before the same tokens, moved.
A run from here that is no run of the two streams shows what the left one does on its own. -/
structure Over (N : Origin) (p : Depth) (c c' : Cursor) : Prop where
  window : S.window ≠ none
  rest_eq : c.rest = S.tail
  last_eq : c.last = S.last
  rest_eq' : c'.rest = relocate S.move S.tail
  last_eq' : c'.last = relocate S.move S.last

variable {S} {b : Bool} {N : Origin} {p : Depth} {c c' : Cursor} {k : Kind}

theorem In.out (h : S.In b N p c c') : S.Out N p.blocks c c' := by
  obtain ⟨done, rest, hat, hne, -⟩ := h
  exact ⟨p.brackets, done, rest, hat, fun hw hr => absurd hr (hne hw)⟩

theorem At.current_cons {done rest : List Token} {t : Token}
    (h : S.At N p done (t :: rest) c c') : c.current = t ∧ c'.current = relocate S.move t := by
  simp [Cursor.current, h.rest_eq, h.rest_eq']

/-- Without a window, cursors at the end are at corresponding end marks. -/
theorem At.current_nil {done : List Token} (h : S.At N p done [] c c') (hw : S.window = none) :
    c.current = S.last ∧ c'.current = relocate S.move S.last := by
  obtain ⟨ht, ht', hl⟩ := S.whole hw
  simp [Cursor.current, h.rest_eq, h.rest_eq', h.last_eq, h.last_eq', ht, ht', hl]

theorem In.current (h : S.In b N p c c') : c'.current = relocate S.move c.current := by
  obtain ⟨done, rest, hat, hne, -⟩ := h
  cases rest with
  | cons t rest => rw [hat.current_cons.1, hat.current_cons.2]
  | nil =>
    have hw : S.window = none := by_contra fun hw => hne hw rfl
    rw [(hat.current_nil hw).1, (hat.current_nil hw).2]

theorem In.kind (h : S.In b N p c c') : c'.kind = c.kind := by
  rw [Cursor.kind, Cursor.kind, h.current, kind_relocate]

/-- A cursor inside the window has its current token there, unless that is an end mark. -/
theorem In.exists_cons (h : S.In b N p c c') (hk : c.kind ≠ .eof) :
    ∃ done t rest, S.At N p done (t :: rest) c c' ∧ t.kind = c.kind := by
  obtain ⟨done, rest, hat, hne, -⟩ := h
  cases rest with
  | cons t rest => exact ⟨done, t, rest, hat, by rw [Cursor.kind, hat.current_cons.1]⟩
  | nil =>
    have hw : S.window = none := by_contra fun hw => hne hw rfl
    rw [Cursor.kind, (hat.current_nil hw).1] at hk
    exact absurd S.last_kind hk

/-- A token that does not end a statement is not the last of the window. -/
theorem At.rest_ne_nil {done rest : List Token} {t : Token}
    (h : S.At N p done (t :: rest) c c') (ht : t.kind.endsStatement = false) :
    S.window ≠ none → rest ≠ [] := by
  intro hw hr
  subst hr
  obtain ⟨w, hw⟩ := Option.ne_none_iff_exists'.mp hw
  have hcut := S.cut w hw
  rw [(h.place w hw).1] at hcut
  have := hcut.getLast?_rest t rfl
  simp [ht] at this

theorem At.advance {done rest : List Token} {t : Token}
    (h : S.At N p done (t :: rest) c c') (ht : t.kind ≠ .eof) :
    S.At N (p.after t.kind) (done ++ [t]) rest c.advance c'.advance ∧
      c.advance.remaining < N.bound := by
  have hc : c.advance = { c with previous := some t, rest := rest ++ S.tail } := by
    rw [Cursor.advance, h.rest_eq]
    simp [ht]
  have hc' : c'.advance =
      { c' with previous := some (relocate S.move t), rest := relocate S.move rest ++ S.tail' } := by
    rw [Cursor.advance, h.rest_eq']
    simp [ht]
  have hlt : c.advance.remaining < N.bound := by
    have := h.le_bound
    rw [Cursor.remaining, h.rest_eq] at this
    simp only [List.cons_append, List.length_cons] at this
    rw [hc]
    exact this
  refine ⟨⟨by rw [hc], by rw [hc'], by rw [hc, ← h.last_eq], by rw [hc', ← h.last_eq'],
    Nat.le_of_lt hlt, fun _ => ⟨t, by rw [hc], by rw [hc']⟩, fun h => absurd hlt (h ▸ Nat.lt_irrefl _),
    fun w hw => ?_⟩, hlt⟩
  obtain ⟨hw, hd, -⟩ := h.place w hw
  refine ⟨by rw [hw]; simp, ?_, fun _ => by rw [hc]; simp⟩
  rw [Depth.along_append, hd]
  rfl

theorem In.advance (h : S.In b N p c c') (hk : c.kind = k) (hq : k.isBoundary = false) :
    S.In true N (p.after k) c.advance c'.advance := by
  subst hk
  have heof : c.kind ≠ .eof := fun he => by simp [he, Kind.isBoundary] at hq
  obtain ⟨done, t, rest, hat, ht⟩ := h.exists_cons heof
  rw [← ht] at hq heof ⊢
  have hlast : t.kind.endsStatement = false := by
    revert hq
    cases t.kind <;> simp [Kind.isBoundary, Kind.endsStatement]
  exact ⟨done ++ [t], rest, (hat.advance heof).1, hat.rest_ne_nil hlast, fun _ => (hat.advance heof).2⟩

theorem Over.current_eq (h : S.Over N p c c') : c.current = S.next := by
  rw [Cursor.current, h.rest_eq, h.last_eq]
  rfl

theorem Over.remaining_eq (h : S.Over N p c c') : c.remaining = S.tail.length := by
  rw [Cursor.remaining, h.rest_eq]

theorem Over.current (h : S.Over N p c c') : c'.current = relocate S.move c.current := by
  rw [Cursor.current, Cursor.current, h.rest_eq, h.rest_eq', h.last_eq, h.last_eq']
  cases S.tail <;> rfl

/-- Over a token behind the window, the left cursor has strayed. -/
theorem strayed_advance (hw : S.window ≠ none) (hrest : c.rest = S.tail) (hlast : c.last = S.last)
    (hk : c.kind ≠ .eof) : S.strayed.state c.advance := by
  refine ⟨hw, ?_⟩
  rw [Cursor.kind, Cursor.current, hrest, hlast] at hk
  rw [Cursor.advance, hrest]
  cases htail : S.tail with
  | nil =>
    rw [htail] at hk
    exact absurd S.last_kind hk
  | cons t ts =>
    rw [htail] at hk
    simp only [List.headD_cons] at hk
    simp [hk, Cursor.remaining]

theorem In.peek (h : S.In b N p c c') (hk : c.kind.endsStatement = false) :
    c'.peek 1 = c.peek 1 := by
  obtain ⟨done, rest, hat, hne, -⟩ := h
  match rest with
  | [] =>
    have hw : S.window = none := by_contra fun hw => hne hw rfl
    simp [Cursor.peek, hat.rest_eq, hat.rest_eq', (S.whole hw).1, (S.whole hw).2.1]
  | [t] =>
    rw [Cursor.kind, hat.current_cons.1] at hk
    have hw : S.window = none := by_contra fun hw => hat.rest_ne_nil hk hw rfl
    simp [Cursor.peek, hat.rest_eq, hat.rest_eq', (S.whole hw).1, (S.whole hw).2.1]
  | t :: u :: rest => simp [Cursor.peek, hat.rest_eq, hat.rest_eq']

theorem In.level (h : S.In b N p c c') : c'.level = c.level := by
  unfold Cursor.level
  rw [h.kind]
  split
  · next hk => rw [h.peek (by rw [hk]; rfl)]
  · next hk => rw [h.peek (by rw [hk]; rfl)]
  · rfl

theorem At.previousEnd {done rest : List Token} (h : S.At N p done rest c c')
    (hlt : c.remaining < N.bound) : c'.previousEnd = S.move c.previousEnd := by
  obtain ⟨t, ht, ht'⟩ := h.moved hlt
  rw [Cursor.previousEnd, Cursor.previousEnd, ht, ht']
  rfl

theorem In.previousEnd (h : S.In true N p c c') : c'.previousEnd = S.move c.previousEnd := by
  obtain ⟨done, rest, hat, -, hlt⟩ := h
  exact hat.previousEnd (hlt rfl)

/-- An origin and a depth that no cursors inside the window have. -/
def nowhere : Origin × Depth := (⟨⟨none, [], default⟩, default⟩, .flat 1)

theorem not_in_nowhere : ¬S.In true nowhere.1 p c c' := by
  rintro ⟨done, rest, -, -, hlt⟩
  exact absurd (hlt rfl) (Nat.not_lt_zero _)

theorem not_out_nowhere (hw : S.window ≠ none) : ¬S.Out nowhere.1 nowhere.2.blocks c c' := by
  rintro ⟨n, done, rest, hat, -⟩
  have hrem : c.remaining ≤ 0 := hat.le_bound
  rw [Cursor.remaining, hat.rest_eq, List.length_append] at hrem
  have hrest : rest = [] := List.eq_nil_of_length_eq_zero (by omega)
  obtain ⟨w, hw⟩ := Option.ne_none_iff_exists'.mp hw
  obtain ⟨hdone, hp, -⟩ := hat.place w hw
  -- all blocks of the window are closed at its end
  have hlined := (S.cut w hw).lined
  rw [hdone, hrest] at hlined
  have hblocks := hlined.right
  rw [hp] at hblocks
  exact absurd hblocks (by simp [Lined, nowhere, Depth.flat])

/-- A rule that has nowhere to end strays. -/
theorem strays {α : Type} [Relocate α] {x x' : Rule α} {P Q : Cursor → Cursor → Prop}
    (h : S.Alike P Q (S.Out nowhere.1 nowhere.2.blocks) x x') (hQ : ∀ c c', ¬Q c c')
    (hw : S.window ≠ none) (hP : P c c') : S.strayed.outcome (x c) := by
  rcases h.agree c c' hP with hs | ha
  · exact hs
  · exfalso
    generalize x c = r at ha
    generalize x' c' = r' at ha
    cases ha with
    | ok hin => exact hQ _ _ hin
    | error hout => exact not_out_nowhere hw hout

theorem Over.nowhere (h : S.Over N p c c') : S.Over nowhere.1 nowhere.2 c c' :=
  ⟨h.window, h.rest_eq, h.last_eq, h.rest_eq', h.last_eq'⟩

/-- Both cursors of a pair are as far from a pair's cursors as each other. -/
theorem At.remaining_lt_iff {M : Origin} {q : Depth} {done rest done₂ rest₂ : List Token}
    {d d' : Cursor} (h : S.At N p done rest c c') (h₂ : S.At M q done₂ rest₂ d d') :
    d.remaining < c.remaining ↔ d'.remaining < c'.remaining := by
  simp [Cursor.remaining, h.rest_eq, h.rest_eq', h₂.rest_eq, h₂.rest_eq']

theorem In.remaining_lt_iff {b₂ : Bool} {M : Origin} {q : Depth} {d d' : Cursor}
    (h : S.In b N p c c') (h₂ : S.In b₂ M q d d') :
    d.remaining < c.remaining ↔ d'.remaining < c'.remaining := by
  obtain ⟨done, rest, hat, -, -⟩ := h
  obtain ⟨done₂, rest₂, hat₂, -, -⟩ := h₂
  exact hat.remaining_lt_iff hat₂

theorem At.restart {done rest : List Token} (h : S.At N p done rest c c') :
    S.At ⟨c, c'⟩ p done rest c c' where
  __ := h
  le_bound := Nat.le_refl _
  moved hlt := absurd hlt (Nat.lt_irrefl _)
  unmoved _ := ⟨rfl, rfl⟩
  place w hw := ⟨(h.place w hw).1, (h.place w hw).2.1, fun hlt => absurd hlt (Nat.lt_irrefl _)⟩

theorem In.restart (h : S.In b N p c c') : S.In false ⟨c, c'⟩ p c c' := by
  obtain ⟨done, rest, hat, hne, -⟩ := h
  exact ⟨done, rest, hat.restart, hne, nofun⟩

/-- What runs find out that began behind the origin of others holds for those too. -/
theorem At.resume {q : Depth} {done rest done₂ rest₂ : List Token} {d d' : Cursor}
    (h : S.At N p done rest c c') (hlt : c.remaining < N.bound)
    (h₂ : S.At ⟨c, c'⟩ q done₂ rest₂ d d') : S.At N q done₂ rest₂ d d' where
  __ := h₂
  le_bound := Nat.le_trans h₂.le_bound h.le_bound
  moved _ := by
    rcases Nat.lt_or_eq_of_le h₂.le_bound with hd | hd
    · exact h₂.moved hd
    · rw [(h₂.unmoved hd).1, (h₂.unmoved hd).2]
      exact h.moved hlt
  unmoved hd := absurd (Nat.lt_of_le_of_lt h₂.le_bound hlt) (hd ▸ Nat.lt_irrefl _)
  place w hw := by
    obtain ⟨hw₂, hp, hprev⟩ := h₂.place w hw
    refine ⟨hw₂, hp, fun _ => ?_⟩
    rcases Nat.lt_or_eq_of_le h₂.le_bound with hd | hd
    · exact hprev hd
    · -- neither has moved, so the same tokens are behind both
      have hrest : rest₂.length = rest.length := by
        simpa [Origin.bound, Cursor.remaining, h.rest_eq, h₂.rest_eq] using hd
      have hdone : done₂ = done := by
        obtain ⟨hw₁, -, -⟩ := h.place w hw
        exact (List.append_inj' (hw₂.symm.trans hw₁) hrest).1
      rw [(h₂.unmoved hd).1, hdone]
      exact (h.place w hw).2.2 hlt

theorem In.moved_or_origin (h : S.In b N p c c') : S.In true N p c c' ∨ ⟨c, c'⟩ = N := by
  obtain ⟨done, rest, hat, hne, -⟩ := h
  rcases Nat.lt_or_eq_of_le hat.le_bound with hlt | heq
  · exact Or.inl ⟨done, rest, hat, hne, fun _ => hlt⟩
  · right
    rw [(hat.unmoved heq).1, (hat.unmoved heq).2]

theorem In.resume {q : Depth} {d d' : Cursor} (h : S.In b N p c c')
    (h₂ : S.In true ⟨c, c'⟩ q d d') : S.In true N q d d' := by
  rcases h.moved_or_origin with ⟨done, rest, hat, -, hlt⟩ | hN
  · obtain ⟨done₂, rest₂, hat₂, hne, -⟩ := h₂
    exact ⟨done₂, rest₂, hat.resume (hlt rfl) hat₂, hne,
      fun _ => Nat.lt_of_le_of_lt hat₂.le_bound (hlt rfl)⟩
  · exact hN ▸ h₂

theorem Out.resume {blocks : Nat} {d d' : Cursor} (h : S.In b N p c c')
    (h₂ : S.Out ⟨c, c'⟩ blocks d d') : S.Out N blocks d d' := by
  rcases h.moved_or_origin with ⟨done, rest, hat, -, hlt⟩ | hN
  · obtain ⟨n, done₂, rest₂, hat₂, hend⟩ := h₂
    exact ⟨n, done₂, rest₂, hat.resume (hlt rfl) hat₂,
      fun hw hr => ⟨Nat.lt_of_le_of_lt hat₂.le_bound (hlt rfl), (hend hw hr).2⟩⟩
  · exact hN ▸ h₂

theorem In.remaining_lt (h : S.In true N p c c') : c.remaining < N.bound := by
  obtain ⟨done, rest, -, -, hlt⟩ := h
  exact hlt rfl

/-- Both cursors of a pair have the tokens before them that their tails do not share. -/
theorem In.remaining_add (h : S.In b N p c c') :
    c.remaining + S.tail'.length = c'.remaining + S.tail.length := by
  obtain ⟨done, rest, hat, -, -⟩ := h
  simp only [Cursor.remaining, hat.rest_eq, hat.rest_eq', List.length_append, length_relocate]
  omega

end Seam

end Offside
