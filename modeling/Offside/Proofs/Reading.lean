import Offside.Literal.Contents
import Offside.Proofs.Extent
import Offside.Tree.Expr

namespace Offside

inductive Piece where
  /-- A token of a kind, whatever its text. -/
  | fixed (k : Kind)
  /-- A token of a kind that may be left out. -/
  | optional (k : Kind)
  /-- The caret that gives up a value. -/
  | transfer
  | name (text : String)
  /-- A token of a kind with a text. -/
  | word (k : Kind) (text : String)
  | integer (text : String) (value : Option UInt64)
  | float (value : Literal.Binary64)
  /-- One string or several that follow one another. -/
  | strings (value : String)
  deriving DecidableEq

namespace Piece

inductive Spelled : Piece → List Token → Prop where
  | fixed {k : Kind} {t : Token} (hk : t.kind = k) : Spelled (.fixed k) [t]
  | absent {k : Kind} : Spelled (.optional k) []
  | present {k : Kind} {t : Token} (hk : t.kind = k) : Spelled (.optional k) [t]
  | transfer {t : Token} (hk : t.kind = .caret) : Spelled .transfer [t]
  | name {text : String} {t : Token} (hk : t.kind = .identifier) (ht : t.text = text) :
      Spelled (.name text) [t]
  | word {k : Kind} {text : String} {t : Token} (hk : t.kind = k) (ht : t.text = text) :
      Spelled (.word k text) [t]
  | integer {text : String} {value : Option UInt64} {t : Token} (hk : t.kind = .integer)
      (ht : t.text = text) (hv : Literal.integer? text = value) : Spelled (.integer text value) [t]
  | float {value : Literal.Binary64} {t : Token} (hk : t.kind = .float)
      (hv : Literal.float? t.text = some value) : Spelled (.float value) [t]
  | strings {value : String} {ts : List Token} (hne : ts ≠ []) (hk : ∀ t ∈ ts, t.kind = .string)
      (hv : String.join (ts.map fun t => Literal.contents t.text) = value) :
      Spelled (.strings value) ts

def required : Piece → Bool
  | optional _ => false
  | _ => true

theorem Spelled.ne_nil {p : Piece} {ts : List Token} (h : p.Spelled ts) (hp : p.required = true) :
    ts ≠ [] := by
  cases h with
  | absent => cases hp
  | strings hne => exact hne
  | _ => exact List.cons_ne_nil _ _

/-- What follows the first item of a list: the others, a comma before each, and perhaps one more
comma. -/
def commaTail : List (List Piece) → List Piece
  | [] => [.optional .comma]
  | item :: items => .fixed .comma :: (item ++ commaTail items)

def tupleTail : List (List Piece) → List Piece
  | [] => [.fixed .comma]
  | items => commaTail items

def tupleList : List (List Piece) → List Piece
  | [] => []
  | item :: items => item ++ tupleTail items

def commaList : List (List Piece) → List Piece
  | [] => []
  | item :: items => item ++ commaTail items

end Piece

/-- Tokens that spell some pieces, one after another. -/
inductive Spells : List Piece → List Token → Prop where
  | nil : Spells [] []
  | cons {p : Piece} {ps : List Piece} {ts us : List Token} (hp : p.Spelled ts) (h : Spells ps us) :
      Spells (p :: ps) (ts ++ us)

theorem Spells.token {p : Piece} {ps : List Piece} {t : Token} {ts : List Token} (hp : p.Spelled [t])
    (h : Spells ps ts) : Spells (p :: ps) (t :: ts) := .cons hp h

theorem Spells.append {ps qs : List Piece} {ts us : List Token} (h : Spells ps ts)
    (h₂ : Spells qs us) : Spells (ps ++ qs) (ts ++ us) := by
  induction h with
  | nil => exact h₂
  | cons hp _ ih =>
    rw [List.append_assoc]
    exact .cons hp ih

theorem Piece.Spelled.spells {p : Piece} {ts : List Token} (h : p.Spelled ts) : Spells [p] ts := by
  have hcons := Spells.cons h .nil
  rwa [List.append_nil] at hcons

theorem Spells.split {ps qs : List Piece} {ts : List Token} (h : Spells (ps ++ qs) ts) :
    ∃ us us', ts = us ++ us' ∧ Spells ps us ∧ Spells qs us' := by
  induction ps generalizing ts with
  | nil => exact ⟨[], ts, rfl, .nil, h⟩
  | cons p ps ih =>
    cases h with
    | cons hp h =>
      obtain ⟨us, us', rfl, hps, hqs⟩ := ih h
      exact ⟨_, us', (List.append_assoc _ _ _).symm, .cons hp hps, hqs⟩

theorem Spells.ne_nil {ps : List Piece} {ts : List Token} (h : Spells ps ts)
    (hp : ps.any Piece.required = true) : ts ≠ [] := by
  induction h with
  | nil => cases hp
  | cons hspelled _ ih =>
    intro hnil
    obtain ⟨rfl, rfl⟩ := List.append_eq_nil_iff.mp hnil
    rcases Bool.or_eq_true_iff.mp (List.any_cons ▸ hp) with hp | hp
    · exact hspelled.ne_nil hp rfl
    · exact ih hp rfl

namespace Cursor

variable {c d e : Cursor} {ps qs : List Piece} {p : Piece}

/-- A cursor has moved over tokens that spell some pieces. -/
def Read (c : Cursor) (ps : List Piece) (d : Cursor) : Prop := ∃ ts, c.Took ts d ∧ Spells ps ts

theorem Read.refl (c : Cursor) : c.Read [] c := ⟨[], .refl c, .nil⟩

theorem Read.trans (h : c.Read ps d) (h₂ : d.Read qs e) : c.Read (ps ++ qs) e := by
  obtain ⟨ts, htook, hspells⟩ := h
  obtain ⟨us, htook₂, hspells₂⟩ := h₂
  exact ⟨ts ++ us, htook.trans htook₂, hspells.append hspells₂⟩

theorem Read.last_eq (h : c.Read ps d) : d.last = c.last := by
  obtain ⟨ts, htook, -⟩ := h
  exact htook.last_eq

theorem Read.remaining_le (h : c.Read ps d) : d.remaining ≤ c.remaining := by
  obtain ⟨ts, htook, -⟩ := h
  rw [remaining, remaining, htook.rest_eq, List.length_append]
  exact Nat.le_add_left _ _

theorem Read.remaining_lt (h : c.Read ps d) (hp : ps.any Piece.required = true) :
    d.remaining < c.remaining := by
  obtain ⟨ts, htook, hspells⟩ := h
  have hpos := List.length_pos_iff.mpr (hspells.ne_nil hp)
  rw [remaining, remaining, htook.rest_eq, List.length_append]
  omega

/-- Over a token that spells a piece. -/
theorem read_advance (hl : c.last.kind = .eof) (hk : c.kind ≠ .eof) (hp : p.Spelled [c.current]) :
    c.Read [p] c.advance :=
  ⟨[c.current], took_current hl hk, hp.spells⟩

theorem Read.advance (h : c.Read ps d) (hl : c.last.kind = .eof) (hk : d.kind ≠ .eof)
    (hp : p.Spelled [d.current]) : c.Read (ps ++ [p]) d.advance :=
  h.trans (read_advance (h.last_eq ▸ hl) hk hp)

theorem Read.split (h : c.Read (ps ++ qs) e) : ∃ d, c.Read ps d ∧ d.Read qs e := by
  obtain ⟨ts, htook, hspells⟩ := h
  obtain ⟨us, us', rfl, hps, hqs⟩ := hspells.split
  refine ⟨⟨us.getLast?.or c.previous, us' ++ e.rest, c.last⟩, ⟨us, ⟨?_, rfl, rfl⟩, hps⟩,
    us', ⟨rfl, htook.last_eq, ?_⟩, hqs⟩
  · rw [htook.rest_eq, List.append_assoc]
  · rw [htook.previous_eq, List.getLast?_append, Option.or_assoc]

/-- A piece that is left out. -/
theorem Read.absent {k : Kind} (h : c.Read ps d) : c.Read (ps ++ [.optional k]) d :=
  h.trans ⟨[], .refl d, Piece.Spelled.absent.spells⟩

/-- A piece that could have been left out. -/
theorem Read.present {k : Kind} (h : c.Read (ps ++ [.fixed k]) d) : c.Read (ps ++ [.optional k]) d := by
  obtain ⟨e, hps, ts, htook, hspells⟩ := h.split
  refine hps.trans ⟨ts, htook, ?_⟩
  cases hspells with
  | cons hp hnil =>
    cases hp with
    | fixed hk => exact .cons (.present hk) hnil

end Cursor

section Logic

variable {σ α β : Type} {P : σ → Prop} {Q : α → σ → Prop} {R : β → σ → Prop} {size : σ → Nat}

/-- A repetition returns nothing only if its first step does. -/
theorem many_eq_nil {step : EStateM Diagnostic σ (Option α)} {s t : σ}
    (h : many size step s = .ok [] t) : step s = .ok none t := by
  rw [many] at h
  split at h
  · cases h
  · next hstep =>
    cases h
    exact hstep
  · split at h
    · split at h <;> cases h
    · cases h

namespace Yields

/-- What is known of a value stays known. -/
theorem bind_known {p : α → Prop} {x : EStateM Diagnostic σ α} {g : α → EStateM Diagnostic σ β}
    (hx : Yields P x fun a s => Q a s ∧ p a) (hg : ∀ a, p a → Yields (Q a) (g a) R) :
    Yields P (x >>= g) R :=
  hx.bind fun a => given (fun _ hs => hs.2) fun ha => (hg a ha).before fun _ hs => hs.1

/-- A repetition whose steps get on ends with a step that returns nothing. -/
theorem many_until {J D : List α → σ → Prop} {step : EStateM Diagnostic σ (Option α)}
    (h : ∀ as n, Yields (fun s => J as s ∧ size s = n) step fun r t =>
      match r with
      | none => D as t
      | some a => J (as ++ [a]) t ∧ size t < n) (as : List α) :
    Yields (J as) (Offside.many size step) fun bs t => D (as ++ bs) t := by
  intro s
  induction s using WellFounded.induction (measure size).wf generalizing as with
  | _ s ih =>
    intro bs t hs hr
    rw [Offside.many] at hr
    cases hstep : step s with
    | error e u => simp [hstep] at hr
    | ok r u =>
      have hu := h as (size s) s r u ⟨hs, rfl⟩ hstep
      cases r with
      | none =>
        simp only [hstep] at hr
        cases hr
        rw [List.append_nil]
        exact hu
      | some a =>
        simp only [hstep, if_pos hu.2] at hr
        cases hm : Offside.many size step u with
        | error e v => simp [hm] at hr
        | ok cs v =>
          simp only [hm] at hr
          cases hr
          rw [List.append_cons]
          exact ih u hu.2 (as ++ [a]) cs t hu.1 hm

/-- What is known after a step of an iteration: it has gone on, or it has ended. -/
def Iterated (size : σ → Nat) (I : α → σ → Prop) (D : σ → Prop) (a : α) (n : Nat) :
    Option α → σ → Prop
  | none, t => I a t ∧ D t
  | some b, t => I b t ∧ size t < n

theorem iterate_until {I : α → σ → Prop} {D : σ → Prop} {step : α → EStateM Diagnostic σ (Option α)}
    (h : ∀ a n, Yields (fun s => I a s ∧ size s = n) (step a) (Iterated size I D a n)) (a : α) :
    Yields (I a) (Offside.iterate size step a) fun b t => I b t ∧ D t := by
  intro s
  induction s using WellFounded.induction (measure size).wf generalizing a with
  | _ s ih =>
    intro b t hs hr
    rw [Offside.iterate] at hr
    cases hstep : step a s with
    | error e u => simp [hstep] at hr
    | ok r u =>
      have hu := h a (size s) s r u ⟨hs, rfl⟩ hstep
      cases r with
      | none =>
        simp only [hstep] at hr
        cases hr
        exact hu
      | some c =>
        simp only [hstep, if_pos hu.2] at hr
        exact ih u hu.2 c b t hu.1 hr

end Yields

end Logic

namespace Rule

open Cursor

variable {α β : Type} {k : Kind} {P : Cursor → Prop} {R : β → Cursor → Prop} {c₀ : Cursor}
  {ps : List Piece}

def Reads (x : Rule α) (pieces : α → List Piece) (G : α → Cursor → Prop) : Prop :=
  ∀ c₀ : Cursor, c₀.last.kind = .eof → ∀ ps,
    Yields (c₀.Read ps) x fun a d => c₀.Read (ps ++ pieces a) d ∧ G a d

section Tokens

variable (hl : c₀.last.kind = .eof)

include hl

theorem reads_advance (hk : k ≠ .eof) :
    Yields (fun c => c₀.Read ps c ∧ c.kind = k) Rule.advance fun t d =>
      (∀ p : Piece, p.Spelled [t] → c₀.Read (ps ++ [p]) d) ∧ t.kind = k := by
  intro c t d hc hr
  cases hr
  exact ⟨fun p hp => hc.1.advance hl (hc.2 ▸ hk) hp, hc.2⟩

theorem reads_fixed (hk : k ≠ .eof) :
    Yields (fun c => c₀.Read ps c ∧ c.kind = k) Rule.advance fun t d =>
      c₀.Read (ps ++ [.fixed k]) d ∧ t.kind = k :=
  (reads_advance hl hk).weaken fun _ _ hd => ⟨hd.1 _ (.fixed hd.2), hd.2⟩

/-- The name in front of a keyword argument. -/
theorem reads_keyword :
    Yields (fun c => c₀.Read ps c ∧ c.kind = .identifier ∧ c.peek 1 = .assignment) Rule.advance
      fun t d => c₀.Read (ps ++ [.name t.text]) d ∧ d.kind = .assignment := by
  intro c t d hc hr
  cases hr
  have hk : c.kind ≠ .eof := by simp [hc.2.1]
  have hnext := Cursor.kind_advance hk (by simp [hc.2.2])
  exact ⟨hc.1.advance hl hk (.name hc.2.1 rfl), hnext.symm.trans hc.2.2⟩

theorem reads_expect (hk : k ≠ .eof) :
    Yields (c₀.Read ps) (Rule.expect k) fun _ d => c₀.Read (ps ++ [.fixed k]) d := by
  intro c t d hc hr
  unfold Rule.expect at hr
  split at hr
  · next h =>
    cases hr
    exact hc.advance hl (h ▸ hk) (.fixed h)
  · cases hr

theorem reads_expectDetailed {message : String} :
    Yields (c₀.Read ps) (Rule.expectDetailed .identifier message) fun t d =>
      c₀.Read (ps ++ [.name t.text]) d := by
  intro c t d hc hr
  unfold Rule.expectDetailed at hr
  split at hr
  · next h =>
    cases hr
    exact hc.advance hl (by simp [h]) (.name h rfl)
  · cases hr

theorem reads_eat_bind {g : Bool → Rule β} (hk : k ≠ .eof)
    (ht : Yields (c₀.Read (ps ++ [.fixed k])) (g true) R) (hf : Yields (c₀.Read ps) (g false) R) :
    Yields (c₀.Read ps) (Rule.eat k >>= g) R := by
  intro c b d hc hr
  obtain ⟨eaten, u, heat, hr⟩ := bind_eq_ok.mp hr
  unfold Rule.eat at heat
  split at heat
  · next h =>
    cases heat
    exact ht _ b d (hc.advance hl (h ▸ hk) (.fixed h)) hr
  · cases heat
    exact hf c b d hc hr

end Tokens

theorem yields_current_bind {g : Token → Rule β} (hg : ∀ t, Yields P (g t) R) :
    Yields P (Rule.current >>= g) R :=
  Yields.read (φ := Cursor.current) fun t => (hg t).before fun _ hc => hc.1

theorem yields_here {g : Offset → Rule β} (hg : ∀ o, Yields P (g o) R) :
    Yields P (Rule.here >>= g) R :=
  Yields.read (φ := fun c : Cursor => c.current.span.start) fun o => (hg o).before fun _ hc => hc.1

theorem yields_previousEnd_bind {g : Offset → Rule β} (hg : ∀ o, Yields P (g o) R) :
    Yields P (Rule.previousEnd >>= g) R :=
  Yields.read (φ := Cursor.previousEnd) fun o => (hg o).before fun _ hc => hc.1

theorem yields_peek {g : Kind → Rule β} (hg : ∀ k, Yields (fun c => P c ∧ c.peek 1 = k) (g k) R) :
    Yields P (Rule.peek 1 >>= g) R :=
  Yields.read (φ := fun c : Cursor => c.peek 1) hg

theorem yields_atKeyword_bind {g : Bool → Rule β}
    (ht : Yields (fun c => P c ∧ c.kind = .identifier ∧ c.peek 1 = .assignment) (g true) R)
    (hf : Yields P (g false) R) : Yields P (Grammar.atKeyword >>= g) R := by
  intro c b d hc hr
  change g (decide (c.kind = .identifier) && decide (c.peek 1 = .assignment)) c = .ok b d at hr
  by_cases h : c.kind = .identifier ∧ c.peek 1 = .assignment
  · rw [decide_eq_true h.1, decide_eq_true h.2] at hr
    exact ht c b d ⟨hc, h⟩ hr
  · rw [← Bool.decide_and, decide_eq_false h] at hr
    exact hf c b d hc hr

section Lists

variable {pieces : α → List Piece} {G : α → Prop} {I D : Cursor → Prop} {closing : List Piece}

def Stepped (c₀ : Cursor) (ps : List Piece) (pieces : α → List Piece) (closing : List Piece)
    (I D : Cursor → Prop) (G : α → Prop) : Option α → Cursor → Prop
  | none, d => c₀.Read (ps ++ closing) d ∧ D d
  | some a, d => c₀.Read (ps ++ pieces a) d ∧ I d ∧ G a

theorem repeated_reads {step : Rule (Option α)} (hne : ∀ a, (pieces a).any Piece.required = true)
    (h : ∀ c₀ : Cursor, c₀.last.kind = .eof → ∀ ps,
      Yields (fun c => c₀.Read ps c ∧ I c) step (Stepped c₀ ps pieces closing I D G))
    (hl : c₀.last.kind = .eof) :
    Yields (fun c => c₀.Read ps c ∧ I c) (Rule.repeated step) fun as d =>
      c₀.Read (ps ++ as.flatMap pieces ++ closing) d ∧ D d ∧ ∀ a ∈ as, G a := by
  let J (as : List α) (c : Cursor) : Prop :=
    c₀.Read (ps ++ as.flatMap pieces) c ∧ I c ∧ ∀ a ∈ as, G a
  let E (as : List α) (c : Cursor) : Prop :=
    c₀.Read (ps ++ as.flatMap pieces ++ closing) c ∧ D c ∧ ∀ a ∈ as, G a
  suffices h : Yields (J []) (Rule.repeated step) fun as d => E ([] ++ as) d from
    h.before fun c hc => ⟨by simpa using hc.1, hc.2, by simp⟩
  refine Yields.many_until ?_ []
  · rintro as n c r d ⟨⟨hread, hc, has⟩, rfl⟩ hr
    have hstep := h c₀ hl _ c r d ⟨hread, hc⟩ hr
    cases r with
    | none => exact ⟨hstep.1, hstep.2, has⟩
    | some a =>
      -- the pieces of an item are those between the two cursors
      have hstep₂ := h c (hread.last_eq ▸ hl) [] c (some a) d ⟨.refl c, hc⟩ hr
      refine ⟨⟨?_, hstep.2.1, ?_⟩, hstep₂.1.remaining_lt (hne a)⟩
      · rw [List.flatMap_append, List.flatMap_singleton, ← List.append_assoc]
        exact hstep.1
      · intro b hb
        rcases List.mem_append.mp hb with hb | hb
        · exact has b hb
        · exact List.mem_singleton.mp hb ▸ hstep.2.2

variable {item : Rule α}

theorem commaTail_eq_flatMap (items : List (List Piece)) :
    Piece.commaTail items = items.flatMap (fun item => .fixed .comma :: item) ++ [.optional .comma] := by
  induction items with
  | nil => rfl
  | cons item items ih =>
    rw [Piece.commaTail, ih, List.flatMap_cons, List.cons_append, List.cons_append, List.append_assoc]

theorem commaTail_reads (h : Reads item pieces fun a _ => G a) (stop : Kind → Bool) :
    Reads (Rule.commaTail stop item) (fun as => Piece.commaTail (as.map pieces)) fun as _ =>
      ∀ a ∈ as, G a := by
  intro c₀ hl ps
  have hrepeated : Yields (fun c => c₀.Read ps c ∧ True) (Rule.commaTail stop item) fun as d =>
      c₀.Read (ps ++ as.flatMap (fun a => .fixed .comma :: pieces a) ++ [.optional .comma]) d ∧
        True ∧ ∀ a ∈ as, G a := by
    refine repeated_reads (fun _ => rfl) (fun c₀ hl ps => ?_) hl
    refine Yields.before (P := c₀.Read ps) ?_ fun c hc => hc.1
    refine reads_eat_bind hl (by decide) ?_ ?_
    · refine yields_kind fun _ => Yields.ite (fun _ => ?_) fun _ => ?_
      · exact Yields.pure fun c hc => ⟨hc.present, trivial⟩
      · refine Yields.map ((h c₀ hl _).weaken fun a d hd => ⟨?_, trivial, hd.2⟩)
        rw [List.append_cons]
        exact hd.1
    · exact Yields.pure fun c hc => ⟨hc.absent, trivial⟩
  refine (hrepeated.before fun c hc => ⟨hc, trivial⟩).weaken fun as d hd => ⟨?_, hd.2.2⟩
  change c₀.Read (ps ++ Piece.commaTail (as.map pieces)) d
  rw [commaTail_eq_flatMap, List.flatMap_map, ← List.append_assoc]
  exact hd.1

theorem commaList_reads (h : Reads item pieces fun a _ => G a) (stop : Kind → Bool) :
    Reads (Rule.commaList stop item) (fun as => Piece.commaList (as.map pieces)) fun as _ =>
      as ≠ [] ∧ ∀ a ∈ as, G a := by
  intro c₀ hl ps
  refine Yields.bind_known (h c₀ hl ps) fun first hfirst => ?_
  refine Yields.bind_known (commaTail_reads h stop c₀ hl _) fun rest hrest => ?_
  refine Yields.pure fun c hc => ⟨?_, List.cons_ne_nil _ _, List.forall_mem_cons.mpr ⟨hfirst, hrest⟩⟩
  rwa [List.append_assoc] at hc

theorem listUpTo_reads (h : Reads item pieces fun a _ => G a) (close : Kind) :
    Reads (Rule.listUpTo close item) (fun as => Piece.commaList (as.map pieces)) fun as _ =>
      ∀ a ∈ as, G a := by
  intro c₀ hl ps
  refine yields_kind fun _ => Yields.ite (fun _ => ?_) fun _ => ?_
  · exact Yields.pure fun c hc => ⟨by simpa [Piece.commaList] using hc, by simp⟩
  · exact (commaList_reads h _ c₀ hl ps).weaken fun _ _ hd => ⟨hd.1, hd.2.2⟩

/-- A comma that stands where a list may end is consumed. -/
theorem commaTail_reads_comma (h : Reads item pieces fun a _ => G a) (stop : Kind → Bool)
    (hl : c₀.last.kind = .eof) :
    Yields (fun c => c₀.Read ps c ∧ c.kind = .comma) (Rule.commaTail stop item) fun as d =>
      c₀.Read (ps ++ Piece.tupleTail (as.map pieces)) d ∧ ∀ a ∈ as, G a := by
  intro c as d hc hr
  cases as with
  | cons a as => exact commaTail_reads h stop c₀ hl ps c (a :: as) d hc.1 hr
  | nil =>
    refine ⟨?_, by simp⟩
    obtain ⟨eaten, u, heat, hr⟩ := bind_eq_ok.mp (many_eq_nil hr)
    have hu : eaten = true ∧ u = c.advance := by
      unfold Rule.eat at heat
      rw [if_pos hc.2] at heat
      cases heat
      exact ⟨rfl, rfl⟩
    obtain ⟨rfl, rfl⟩ := hu
    obtain ⟨k, v, hv, hr⟩ := bind_eq_ok.mp hr
    cases hv
    split at hr
    · cases hr
      exact hc.1.advance hl (by simp [hc.2]) (.fixed hc.2)
    · obtain ⟨a, v, -, hr⟩ := bind_eq_ok.mp hr
      cases hr

end Lists

end Rule

end Offside
